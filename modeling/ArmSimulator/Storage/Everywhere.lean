import ArmSimulator.Storage.Faults
import ArmSimulator.Storage.Rewrite

/-! # Accesses at any address

A read finds a word where the bytes of the word are. A write leaves the same memory at
whatever address it is made only if every address that its bound test lets pass holds the
value already.
-/

namespace ArmSimulator.Storage

open Machine Foundation.ExceptRun

variable {mem m : Memory} {a : Word} {n : Width}

/-! ## Words that are read -/

theorem wordBytes_wordOfBytes (b₃ b₂ b₁ b₀ : Byte) :
    wordBytes (wordOfBytes b₃ b₂ b₁ b₀) = [b₃, b₂, b₁, b₀] := by
  have hbyte {k : Nat} {b : Byte}
      (h : ∀ j < 8, (wordOfBytes b₃ b₂ b₁ b₀).getLsbD (8 * k + j) = b.getLsbD j) :
      wordByte (wordOfBytes b₃ b₂ b₁ b₀) k = b :=
    BitVec.eq_of_getLsbD_eq fun j hj => (getLsbD_wordByte _ hj).trans (h j hj)
  have h₃ : wordByte (wordOfBytes b₃ b₂ b₁ b₀) 3 = b₃ := hbyte fun j hj => by
    rw [getLsbD_wordOfBytes _ _ _ _ (by omega), if_neg (by omega), if_neg (by omega),
      if_neg (by omega), Nat.add_sub_cancel_left]
  have h₂ : wordByte (wordOfBytes b₃ b₂ b₁ b₀) 2 = b₂ := hbyte fun j hj => by
    rw [getLsbD_wordOfBytes _ _ _ _ (by omega), if_neg (by omega), if_neg (by omega),
      if_pos (by omega), Nat.add_sub_cancel_left]
  have h₁ : wordByte (wordOfBytes b₃ b₂ b₁ b₀) 1 = b₁ := hbyte fun j hj => by
    rw [getLsbD_wordOfBytes _ _ _ _ (by omega), if_neg (by omega), if_pos (by omega),
      Nat.add_sub_cancel_left]
  have h₀ : wordByte (wordOfBytes b₃ b₂ b₁ b₀) 0 = b₀ := hbyte fun j hj => by
    rw [getLsbD_wordOfBytes _ _ _ _ (by omega), if_pos (by omega), Nat.mul_zero, Nat.zero_add]
  rw [wordBytes, h₃, h₂, h₁, h₀]

theorem stored_four {b c d e : Byte} : Stored mem a [b, c, d, e] ↔
    mem.values[a.toNat]? = some b ∧ mem.values[(a + 1).toNat]? = some c ∧
      mem.values[(a + 2).toNat]? = some d ∧ mem.values[(a + 3).toNat]? = some e := by
  have hzero : a + BitVec.ofNat 32 0 = a := BitVec.add_zero a
  constructor
  · intro h
    have hk {k : Nat} (hk : k < 4) : k < [b, c, d, e].length := hk
    have h₀ := h 0 (hk (by decide))
    rw [hzero] at h₀
    exact ⟨h₀, h 1 (hk (by decide)), h 2 (hk (by decide)), h 3 (hk (by decide))⟩
  · rintro ⟨h₀, h₁, h₂, h₃⟩ k hk
    match k, hk with
    | 0, _ => rwa [hzero]
    | 1, _ => exact h₁
    | 2, _ => exact h₂
    | 3, _ => exact h₃

theorem load_eq_iff {b : Byte} : mem.load a = .ok b ↔ mem.values[a.toNat]? = some b := by
  refine ⟨fun h => ?_, load_eq⟩
  rw [Memory.load] at h
  split at h
  · rename_i hb
    rwa [← Except.ok.inj h]
  · cases h

theorem loads_eq_iff {a₃ a₂ a₁ a₀ w : Word} :
    (do
      let b₃ ← mem.load a₃
      let b₂ ← mem.load a₂
      let b₁ ← mem.load a₁
      let b₀ ← mem.load a₀
      return (0, wordOfBytes b₃ b₂ b₁ b₀) : Except Stop (Int × Word)) = .ok (0, w) ↔
    mem.values[a₃.toNat]? = some (wordByte w 3) ∧ mem.values[a₂.toNat]? = some (wordByte w 2) ∧
      mem.values[a₁.toNat]? = some (wordByte w 1) ∧
      mem.values[a₀.toNat]? = some (wordByte w 0) := by
  constructor
  · intro h
    obtain ⟨b₃, h₃, h⟩ := bind_eq_ok.mp h
    obtain ⟨b₂, h₂, h⟩ := bind_eq_ok.mp h
    obtain ⟨b₁, h₁, h⟩ := bind_eq_ok.mp h
    obtain ⟨b₀, h₀, h⟩ := bind_eq_ok.mp h
    rw [pure_eq_ok, Prod.mk.injEq] at h
    have hbytes := wordBytes_wordOfBytes b₃ b₂ b₁ b₀
    rw [h.2, wordBytes] at hbytes
    simp only [List.cons.injEq, and_true] at hbytes
    obtain ⟨rfl, rfl, rfl, rfl⟩ := hbytes
    exact ⟨load_eq_iff.mp h₃, load_eq_iff.mp h₂, load_eq_iff.mp h₁, load_eq_iff.mp h₀⟩
  · rintro ⟨h₃, h₂, h₁, h₀⟩
    rw [load_eq h₃, ok_bind, load_eq h₂, ok_bind, load_eq h₁, ok_bind, load_eq h₀, ok_bind,
      wordOfBytes_wordByte]
    rfl

theorem memoryReadWord_eq_iff (v w : Word) : memoryReadWord mem a v = .ok (0, w) ↔
    Stored mem a (inOrder mem.isBigEndian (wordBytes w)) := by
  by_cases hlast : (a + 3).toNat < mem.values.size
  · rw [memoryReadWord, if_neg (not_rejected hlast), inOrder]
    split
    · rw [loads_eq_iff]
      exact stored_four.symm
    · rw [loads_eq_iff]
      refine Iff.trans ?_ stored_four.symm
      constructor
      · rintro ⟨h₃, h₂, h₁, h₀⟩
        exact ⟨h₀, h₁, h₂, h₃⟩
      · rintro ⟨h₀, h₁, h₂, h₃⟩
        exact ⟨h₃, h₂, h₁, h₀⟩
  · refine iff_of_false (fun h => ?_) fun h => ?_
    · have hread : memoryReadWord mem a v = .ok (-1, v) :=
        memoryRead_rejected (n := .word) hlast v
      simp [hread] at h
    · have hthree : 3 < (wordBytes w).length := show 3 < 4 by decide
      have hfound := h 3 (by rwa [inOrder_length])
      exact hlast (Array.getElem?_eq_some_iff.mp hfound).1

/-! ## Writes at any address -/

theorem memoryWrite_accepted {v : n.Value} (h : memoryWrite n mem a v = .ok (0, m)) :
    ∃ cs, cs.Perm (cells a (inOrder mem.isBigEndian (valueBytes n v))) ∧
      storeAll mem cs = .ok m := by
  obtain ⟨cs, hperm, hwrite⟩ := memoryWrite_eq_storeAll mem a n v
  rw [hwrite] at h
  split at h
  · simp at h
  · obtain ⟨m', hstore, heq⟩ := bind_eq_ok.mp h
    rw [Except.ok.injEq, Prod.mk.injEq] at heq
    exact ⟨cs, hperm, heq.2 ▸ hstore⟩

theorem memoryWrite_outside {v : n.Value} (h : memoryWrite n mem a v = .ok (0, m)) :
    (∀ i, (∀ k < n.bytes, (a + BitVec.ofNat 32 k).toNat ≠ i) → m.values[i]? = mem.values[i]?) ∧
      m.isBigEndian = mem.isBigEndian := by
  obtain ⟨cs, hperm, hstore⟩ := memoryWrite_accepted h
  refine ⟨fun i hi => storeAll_outside hstore fun c hc => ?_, storeAll_order hstore⟩
  obtain ⟨k, hk, rfl⟩ := List.mem_mapIdx.mp (hperm.mem_iff.mp hc)
  rw [length_inOrder_valueBytes] at hk
  exact hi k hk

theorem memoryWrite_stored {v : n.Value} (h : memoryWrite n mem a v = .ok (0, m)) :
    Stored m a (inOrder mem.isBigEndian (valueBytes n v)) := by
  obtain ⟨cs, hperm, hstore⟩ := memoryWrite_accepted h
  have hnodup := (hperm.map Prod.fst).nodup_iff.mpr (cells_nodup (length_inOrder_le _ n v))
  rw [← forall_cells_iff]
  exact fun c hc => storeAll_holds hnodup hstore c (hperm.mem_iff.mpr hc)

theorem memoryWrite_rejected (h : ¬ Admitted mem n a) (v : n.Value) :
    memoryWrite n mem a v = .ok (-1, mem) :=
  (memoryWrite_boundTested v).rejected (Nat.le_of_not_lt h)

theorem memoryWrite_result {v : n.Value} {r : Int} (h : memoryWrite n mem a v = .ok (r, m)) :
    Admitted mem n a ∧ r = 0 ∨ ¬ Admitted mem n a ∧ m = mem := by
  by_cases hadmitted : Admitted mem n a
  · exact Or.inl ⟨hadmitted, (memoryWrite_boundTested v).passed hadmitted r m h⟩
  · rw [memoryWrite_rejected hadmitted, Except.ok.injEq, Prod.mk.injEq] at h
    exact Or.inr ⟨hadmitted, h.2.symm⟩

/-- A memory that a write leaves at every address is the one before it: each cell is outside
the write right behind it. -/
theorem eq_of_memoryWrite {v : n.Value} (h : ∀ a, ∃ r, memoryWrite n mem a v = .ok (r, m)) :
    m = mem := by
  have hn : n.bytes ≤ 4 := by cases n <;> decide
  have hcell (i : Nat) : m.values[i]? = mem.values[i]? := by
    obtain ⟨r, hr⟩ := h (BitVec.ofNat 32 i + 1)
    rcases memoryWrite_result hr with ⟨-, rfl⟩ | ⟨-, rfl⟩
    · refine (memoryWrite_outside hr).1 i fun k hk => ?_
      rw [BitVec.toNat_add, BitVec.toNat_add, BitVec.toNat_ofNat, BitVec.toNat_ofNat]
      change (((i % 2 ^ 32 + 1) % 2 ^ 32) + k % 2 ^ 32) % 2 ^ 32 ≠ i
      omega
    · rfl
  have horder : m.isBigEndian = mem.isBigEndian := by
    obtain ⟨r, hr⟩ := h 0
    rcases memoryWrite_result hr with ⟨-, rfl⟩ | ⟨-, rfl⟩
    · exact (memoryWrite_outside hr).2
    · rfl
  cases m
  cases mem
  rw [Memory.mk.injEq]
  exact ⟨Array.ext_getElem? hcell, horder⟩

/-- The value is in the memory wherever it may be written. -/
def StoredEverywhere (mem : Memory) (n : Width) (v : n.Value) : Prop :=
  ∀ a, Admitted mem n a → Stored mem a (inOrder mem.isBigEndian (valueBytes n v))

theorem memoryWrite_everywhere {v : n.Value} (h : StoredEverywhere mem n v) (a : Word) :
    memoryWrite n mem a v = .ok (if Admitted mem n a then 0 else -1, mem) := by
  split
  · rename_i hadmitted
    exact (memoryWrite_self_iff n v).mpr (h a hadmitted)
  · rename_i hrejected
    exact memoryWrite_rejected hrejected v

theorem memoryWrite_constant_iff (v : n.Value) :
    (∃ m, ∀ a, ∃ r, memoryWrite n mem a v = .ok (r, m)) ↔ StoredEverywhere mem n v := by
  constructor
  · rintro ⟨m, h⟩ a hadmitted
    obtain rfl := eq_of_memoryWrite h
    obtain ⟨r, hr⟩ := h a
    rcases memoryWrite_result hr with ⟨-, rfl⟩ | ⟨hrejected, -⟩
    · exact (memoryWrite_self_iff n v).mp hr
    · exact absurd hadmitted hrejected
  · exact fun h => ⟨mem, fun a => ⟨_, memoryWrite_everywhere h a⟩⟩

/-- A word can be in the memory wherever it may be written only if that is nowhere or
everywhere: one of the addresses that are let pass has its word around the end. -/
theorem admitted_everywhere {v : Word} (h : StoredEverywhere mem .word v) {a : Word}
    (ha : Admitted mem .word a) (b : Word) : Admitted mem .word b := by
  have hlast (c : Word) : Admitted mem .word c ↔ (c + 3).toNat < mem.values.size := Iff.rfl
  have hpos : 0 < mem.values.size := Nat.zero_lt_of_lt ((hlast a).mp ha)
  have hwrap : Admitted mem .word (-3) := hpos
  have hend := h (-3) hwrap 2 (by rw [length_inOrder_valueBytes]; decide)
  have hfull : 2 ^ 32 - 1 < mem.values.size := (Array.getElem?_eq_some_iff.mp hend).1
  have hb := (b + 3).isLt
  rw [hlast]
  omega

end ArmSimulator.Storage
