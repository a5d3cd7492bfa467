import ArmSimulator.Foundation.ExceptRun
import ArmSimulator.Storage.Blocks

/-! # The bound test of the memory accessors

The test compares the address of the last byte, computed in 32 bits, with the
size. It decides as the sum in the natural numbers would, except for an access
that starts below the top of the address space and ends past it.
-/

namespace ArmSimulator.Storage

open Machine Foundation.ExceptRun

inductive Width where
  | byte | half | word
  deriving DecidableEq, Repr

namespace Width

def bytes : Width → Nat
  | byte => 1
  | half => 2
  | word => 4

abbrev Value : Width → Type
  | byte => Byte
  | half => Half
  | word => Word

end Width

def memoryRead : (n : Width) → Memory → Word → n.Value → Except Stop (Int × n.Value)
  | .byte => memoryReadByte
  | .half => memoryReadHalf
  | .word => memoryReadWord

def memoryWrite : (n : Width) → Memory → Word → n.Value → Except Stop (Int × Memory)
  | .byte => memoryWriteByte
  | .half => memoryWriteHalf
  | .word => memoryWriteWord

variable {mem : Memory} {a : Word} {n : Width} {α : Type}

/-- An access of `n` bytes returns, without an index outside the block, 0 when the
block has all the bytes and -1 otherwise; -1 leaves its result as it was. -/
def Bounded (mem : Memory) (a : Word) (n : Width) (old : α) (out : Except Stop (Int × α)) : Prop :=
  ∃ new, out = .ok (if a.toNat + n.bytes ≤ mem.values.size then 0 else -1, new) ∧
    (mem.values.size < a.toNat + n.bytes → new = old)

/-- The last byte's address wraps to one the block has, the access itself does not fit. -/
def Wraps (mem : Memory) (a : Word) (n : Width) : Prop :=
  2 ^ 32 ≤ a.toNat + (n.bytes - 1) ∧ a.toNat + (n.bytes - 1) - 2 ^ 32 < mem.values.size ∧
    mem.values.size < a.toNat + n.bytes

instance (mem : Memory) (a : Word) (n : Width) : Decidable (Wraps mem a n) :=
  inferInstanceAs (Decidable (_ ∧ _ ∧ _))

/-- The address of the last byte as the code computes it. -/
def lastByte (a : Word) : Width → Word
  | .byte => a
  | .half => a + 1
  | .word => a + 3

/-- The shape all six accessors have. -/
structure BoundTested (mem : Memory) (a : Word) (n : Width) (old : α)
    (out : Except Stop (Int × α)) : Prop where
  rejected : mem.values.size ≤ (lastByte a n).toNat → out = .ok (-1, old)
  accepted : a.toNat + n.bytes ≤ mem.values.size → ∃ new, out = .ok (0, new)
  passed : (lastByte a n).toNat < mem.values.size → ∀ r new, out = .ok (r, new) → r = 0

theorem lastByte_toNat (a : Word) (n : Width) :
    (lastByte a n).toNat = (a.toNat + (n.bytes - 1)) % 2 ^ 32 := by
  have ha := a.isLt
  cases n with
  | byte => simp [lastByte, Width.bytes]; omega
  | half => simp [lastByte, Width.bytes]
  | word => simp [lastByte, Width.bytes]

theorem lastByte_lt (h : a.toNat + n.bytes ≤ mem.values.size) :
    (lastByte a n).toNat < mem.values.size := by
  have hmod := Nat.mod_le (a.toNat + (n.bytes - 1)) (2 ^ 32)
  have hpos : 0 < n.bytes := by cases n <;> decide
  rw [lastByte_toNat]
  omega

theorem wraps_iff : Wraps mem a n ↔
    (lastByte a n).toNat < mem.values.size ∧ mem.values.size < a.toNat + n.bytes := by
  have ha := a.isLt
  have hn : 0 < n.bytes ∧ n.bytes ≤ 4 := by cases n <;> decide
  rw [Wraps, lastByte_toNat]
  rcases Nat.lt_or_ge (a.toNat + (n.bytes - 1)) (2 ^ 32) with h | h
  · rw [Nat.mod_eq_of_lt h]
    omega
  · rw [Nat.mod_eq_sub_mod h, Nat.mod_eq_of_lt (by omega)]
    omega

/-- Behind the test an access is bounded exactly when it does not wrap. -/
theorem BoundTested.bounded_iff {old : α} {out : Except Stop (Int × α)}
    (h : BoundTested mem a n old out) : Bounded mem a n old out ↔ ¬ Wraps mem a n := by
  rw [wraps_iff]
  constructor
  · rintro ⟨new, hout, -⟩ ⟨hlast, hlt⟩
    rw [if_neg (by omega)] at hout
    exact absurd (h.passed hlast _ _ hout) (by decide)
  · intro hwraps
    by_cases hfit : a.toNat + n.bytes ≤ mem.values.size
    · obtain ⟨new, hout⟩ := h.accepted hfit
      exact ⟨new, by rw [hout, if_pos hfit], fun hlt => absurd hfit (by omega)⟩
    · exact ⟨old, by rw [h.rejected (by omega), if_neg hfit], fun _ => rfl⟩

theorem boundTested_of {old : α} {body : Except Stop (Int × α)}
    (haccepted : a.toNat + n.bytes ≤ mem.values.size → ∃ new, body = .ok (0, new))
    (hpassed : ∀ r new, body = .ok (r, new) → r = 0) :
    BoundTested mem a n old (if a < 0 ∨ memoryGetSize mem ≤ (lastByte a n).toNat
      then .ok (-1, old) else body) where
  rejected h := if_pos (Or.inr h)
  accepted h := by rw [if_neg (not_rejected (lastByte_lt h))]; exact haccepted h
  passed h := by rw [if_neg (not_rejected h)]; exact hpassed

theorem load_then {b : Word} (hb : b.toNat < mem.values.size) {f : Byte → Except Stop (Int × α)}
    (hf : ∀ x, ∃ new, f x = .ok (0, new)) : ∃ new, (mem.load b >>= f) = .ok (0, new) := by
  obtain ⟨x, hx⟩ := load_of_lt hb
  rw [hx, ok_bind]
  exact hf x

theorem store_then {m : Memory} (hm : m.values.size = mem.values.size) {b : Word}
    (hb : b.toNat < mem.values.size) (x : Byte) {f : Memory → Except Stop (Int × α)}
    (hf : ∀ m', m'.values.size = mem.values.size → ∃ new, f m' = .ok (0, new)) :
    ∃ new, (m.store b x >>= f) = .ok (0, new) := by
  rw [store_eq (by omega), ok_bind]
  exact hf _ (by rw [Array.size_setIfInBounds, hm])

/-! ## The six accessors -/

theorem half_bytes (h : a.toNat + 2 ≤ mem.values.size) :
    a.toNat < mem.values.size ∧ (a + 1).toNat < mem.values.size :=
  ⟨by omega, by bv_omega⟩

theorem word_bytes (h : a.toNat + 4 ≤ mem.values.size) :
    a.toNat < mem.values.size ∧ (a + 1).toNat < mem.values.size ∧
      (a + 2).toNat < mem.values.size ∧ (a + 3).toNat < mem.values.size :=
  ⟨by omega, by bv_omega, by bv_omega, by bv_omega⟩

theorem memoryReadByte_boundTested (v : Byte) :
    BoundTested mem a .byte v (memoryReadByte mem a v) := by
  refine boundTested_of (fun h => ?_) fun r new hr => ?_
  · exact load_then h fun x => ⟨x, rfl⟩
  · simp only [bind_eq_ok, pure_eq_ok, Prod.mk.injEq] at hr
    obtain ⟨_, -, hr, -⟩ := hr
    exact hr.symm

theorem memoryReadHalf_boundTested (v : Half) :
    BoundTested mem a .half v (memoryReadHalf mem a v) := by
  refine boundTested_of (fun h => ?_) fun r new hr => ?_
  · have h : a.toNat + 2 ≤ mem.values.size := h
    obtain ⟨h₀, h₁⟩ := half_bytes h
    split
    · exact load_then h₀ fun x₁ => load_then h₁ fun x₀ => ⟨halfOfBytes x₁ x₀, rfl⟩
    · exact load_then h₁ fun x₁ => load_then h₀ fun x₀ => ⟨halfOfBytes x₁ x₀, rfl⟩
  · split at hr <;> simp only [bind_eq_ok, pure_eq_ok, Prod.mk.injEq] at hr <;>
      obtain ⟨_, -, _, -, hr, -⟩ := hr <;> exact hr.symm

theorem memoryReadWord_boundTested (v : Word) :
    BoundTested mem a .word v (memoryReadWord mem a v) := by
  refine boundTested_of (fun h => ?_) fun r new hr => ?_
  · have h : a.toNat + 4 ≤ mem.values.size := h
    obtain ⟨h₀, h₁, h₂, h₃⟩ := word_bytes h
    split
    · exact load_then h₀ fun x₃ => load_then h₁ fun x₂ => load_then h₂ fun x₁ =>
        load_then h₃ fun x₀ => ⟨wordOfBytes x₃ x₂ x₁ x₀, rfl⟩
    · exact load_then h₃ fun x₃ => load_then h₂ fun x₂ => load_then h₁ fun x₁ =>
        load_then h₀ fun x₀ => ⟨wordOfBytes x₃ x₂ x₁ x₀, rfl⟩
  · split at hr <;> simp only [bind_eq_ok, pure_eq_ok, Prod.mk.injEq] at hr <;>
      obtain ⟨_, -, _, -, _, -, _, -, hr, -⟩ := hr <;> exact hr.symm

theorem memoryWriteByte_boundTested (v : Byte) :
    BoundTested mem a .byte mem (memoryWriteByte mem a v) := by
  refine boundTested_of (fun h => ?_) fun r new hr => ?_
  · exact store_then rfl h v fun m _ => ⟨m, rfl⟩
  · simp only [bind_eq_ok, pure_eq_ok, Prod.mk.injEq] at hr
    obtain ⟨_, -, hr, -⟩ := hr
    exact hr.symm

theorem memoryWriteHalf_boundTested (v : Half) :
    BoundTested mem a .half mem (memoryWriteHalf mem a v) := by
  refine boundTested_of (fun h => ?_) fun r new hr => ?_
  · have h : a.toNat + 2 ≤ mem.values.size := h
    obtain ⟨h₀, h₁⟩ := half_bytes h
    split <;> exact store_then rfl h₀ _ fun m₁ s₁ => store_then s₁ h₁ _ fun m₂ _ => ⟨m₂, rfl⟩
  · split at hr <;> simp only [bind_eq_ok, pure_eq_ok, Prod.mk.injEq] at hr <;>
      obtain ⟨_, -, _, -, hr, -⟩ := hr <;> exact hr.symm

theorem memoryWriteWord_boundTested (v : Word) :
    BoundTested mem a .word mem (memoryWriteWord mem a v) := by
  refine boundTested_of (fun h => ?_) fun r new hr => ?_
  · have h : a.toNat + 4 ≤ mem.values.size := h
    obtain ⟨h₀, h₁, h₂, h₃⟩ := word_bytes h
    split
    · exact store_then rfl h₀ _ fun m₁ s₁ => store_then s₁ h₁ _ fun m₂ s₂ =>
        store_then s₂ h₂ _ fun m₃ s₃ => store_then s₃ h₃ _ fun m₄ _ => ⟨m₄, rfl⟩
    · exact store_then rfl h₃ _ fun m₁ s₁ => store_then s₁ h₂ _ fun m₂ s₂ =>
        store_then s₂ h₁ _ fun m₃ s₃ => store_then s₃ h₀ _ fun m₄ _ => ⟨m₄, rfl⟩
  · split at hr <;> simp only [bind_eq_ok, pure_eq_ok, Prod.mk.injEq] at hr <;>
      obtain ⟨_, -, _, -, _, -, _, -, hr, -⟩ := hr <;> exact hr.symm

theorem memoryRead_boundTested (v : n.Value) : BoundTested mem a n v (memoryRead n mem a v) := by
  cases n with
  | byte => exact memoryReadByte_boundTested v
  | half => exact memoryReadHalf_boundTested v
  | word => exact memoryReadWord_boundTested v

theorem memoryWrite_boundTested (v : n.Value) :
    BoundTested mem a n mem (memoryWrite n mem a v) := by
  cases n with
  | byte => exact memoryWriteByte_boundTested v
  | half => exact memoryWriteHalf_boundTested v
  | word => exact memoryWriteWord_boundTested v

theorem BoundTested.result {old : α} {out : Except Stop (Int × α)}
    (h : BoundTested mem a n old out) : Ensures out fun r => r.1 = 0 ∨ r.1 = -1 := by
  rintro ⟨r, new⟩ hr
  rcases Nat.lt_or_ge (lastByte a n).toNat mem.values.size with hlast | hlast
  · exact Or.inl (h.passed hlast r new hr)
  · rw [h.rejected hlast, Except.ok.injEq, Prod.mk.injEq] at hr
    exact Or.inr hr.1.symm

/-- Reads and writes of every width are bounded except where the last byte's
address wraps to an index of a block that is too small for the access. -/
theorem access_bounded_iff (n : Width) (mem : Memory) (a : Word) (v : n.Value) :
    (Bounded mem a n v (memoryRead n mem a v) ∧ Bounded mem a n mem (memoryWrite n mem a v)) ↔
      ¬ Wraps mem a n := by
  rw [(memoryRead_boundTested v).bounded_iff, (memoryWrite_boundTested v).bounded_iff, and_self]

/-- A word access at `0xFFFFFFFD` passes the test of a memory of four bytes. -/
theorem access_unbounded : ¬ ∀ (n : Width) (mem : Memory) (a : Word) (v : n.Value),
    Bounded mem a n v (memoryRead n mem a v) ∧ Bounded mem a n mem (memoryWrite n mem a v) := by
  intro h
  have hread := (h .word ⟨#[0, 0, 0, 0], false⟩ 0xFFFFFFFD 0).1
  rw [(memoryRead_boundTested _).bounded_iff] at hread
  exact hread (by decide)

end ArmSimulator.Storage
