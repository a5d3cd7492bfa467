import ArmSimulator.Storage.Bounds

/-! # Writes that change nothing

A write is accepted and leaves the memory as it was exactly when the memory
already held its bytes. The addresses of the bytes may wrap: they are still
different from one another, so the order of the stores has no part in it.
-/

namespace ArmSimulator.Storage

open Machine Foundation.ByteBlock Foundation.ExceptRun

/-- The bytes `bs` are in the memory from `a` up, addresses taken modulo 2³². -/
def Stored (mem : Memory) (a : Word) (bs : List Byte) : Prop :=
  ∀ k (hk : k < bs.length), mem.values[(a + BitVec.ofNat 32 k).toNat]? = some bs[k]

instance (mem : Memory) (a : Word) (bs : List Byte) : Decidable (Stored mem a bs) :=
  inferInstanceAs (Decidable (∀ k (_ : k < bs.length), _))

/-- The bytes of a value, most significant first. -/
def valueBytes : (n : Width) → n.Value → List Byte
  | .byte, v => [v]
  | .half, v => halfBytes v
  | .word, v => wordBytes v

/-! ## Single stores -/

section Store

variable {m m' : Memory} {b : Word} {x : Byte}

theorem store_inv (h : m.store b x = .ok m') :
    b.toNat < m.values.size ∧ m' = { m with values := m.values.setIfInBounds b.toNat x } := by
  rw [Memory.store] at h
  split at h
  · exact ⟨‹_›, (Except.ok.inj h).symm⟩
  · simp at h

theorem store_holds (h : m.store b x = .ok m') : m'.values[b.toNat]? = some x := by
  obtain ⟨hb, rfl⟩ := store_inv h
  exact Array.getElem?_setIfInBounds_self_of_lt hb

theorem store_outside (h : m.store b x = .ok m') {i : Nat} (hi : b.toNat ≠ i) :
    m'.values[i]? = m.values[i]? := by
  obtain ⟨-, rfl⟩ := store_inv h
  exact Array.getElem?_setIfInBounds_ne hi

theorem store_self (h : m.values[b.toNat]? = some x) : m.store b x = .ok m := by
  rw [store_eq (Array.getElem?_eq_some_iff.mp h).1, setIfInBounds_self h]

end Store

/-! ## Sequences of stores -/

def storeAll (mem : Memory) (cells : List (Word × Byte)) : Except Stop Memory :=
  cells.foldlM (fun m c => m.store c.1 c.2) mem

section Sequence

variable {m m' : Memory} {cells : List (Word × Byte)}

theorem storeAll_cons (m : Memory) (c : Word × Byte) (cells : List (Word × Byte)) :
    storeAll m (c :: cells) = m.store c.1 c.2 >>= fun m => storeAll m cells := rfl

theorem storeAll_outside {i : Nat} (h : storeAll m cells = .ok m')
    (hi : ∀ c ∈ cells, c.1.toNat ≠ i) : m'.values[i]? = m.values[i]? := by
  induction cells generalizing m with
  | nil => rw [Except.ok.inj h]
  | cons c cells ih =>
    obtain ⟨m₁, hstore, hrest⟩ := bind_eq_ok.mp (storeAll_cons m c cells ▸ h)
    rw [ih hrest fun d hd => hi d (List.mem_cons_of_mem _ hd)]
    exact store_outside hstore (hi c List.mem_cons_self)

theorem storeAll_order (h : storeAll m cells = .ok m') : m'.isBigEndian = m.isBigEndian := by
  induction cells generalizing m with
  | nil => rw [Except.ok.inj h]
  | cons c cells ih =>
    obtain ⟨m₁, hstore, hrest⟩ := bind_eq_ok.mp (storeAll_cons m c cells ▸ h)
    rw [ih hrest, (store_inv hstore).2]

theorem storeAll_holds (hnodup : (cells.map Prod.fst).Nodup) (h : storeAll m cells = .ok m') :
    ∀ c ∈ cells, m'.values[c.1.toNat]? = some c.2 := by
  induction cells generalizing m with
  | nil => simp
  | cons c cells ih =>
    obtain ⟨m₁, hstore, hrest⟩ := bind_eq_ok.mp (storeAll_cons m c cells ▸ h)
    rw [List.map_cons, List.nodup_cons] at hnodup
    intro d hd
    rcases List.mem_cons.mp hd with rfl | hd
    · have hne : ∀ e ∈ cells, e.1.toNat ≠ d.1.toNat := fun e he heq =>
        hnodup.1 (List.mem_map.mpr ⟨e, he, BitVec.eq_of_toNat_eq heq⟩)
      rw [storeAll_outside hrest hne]
      exact store_holds hstore
    · exact ih hnodup.2 hrest d hd

theorem storeAll_self_iff (hnodup : (cells.map Prod.fst).Nodup) :
    storeAll m cells = .ok m ↔ ∀ c ∈ cells, m.values[c.1.toNat]? = some c.2 := by
  refine ⟨storeAll_holds hnodup, fun h => ?_⟩
  induction cells with
  | nil => rfl
  | cons c cells ih =>
    rw [List.map_cons, List.nodup_cons] at hnodup
    rw [storeAll_cons, store_self (h c List.mem_cons_self), ok_bind]
    exact ih hnodup.2 fun d hd => h d (List.mem_cons_of_mem _ hd)

theorem tested_self_iff {a last : Word} (hnodup : (cells.map Prod.fst).Nodup)
    (hlast : last ∈ cells.map Prod.fst) :
    (if a < 0 ∨ memoryGetSize m ≤ last.toNat then .ok (-1, m)
      else storeAll m cells >>= fun m => .ok ((0 : Int), m)) = .ok (0, m) ↔
      ∀ c ∈ cells, m.values[c.1.toNat]? = some c.2 := by
  rw [← storeAll_self_iff hnodup]
  constructor
  · intro h
    split at h
    · simp at h
    · obtain ⟨m₁, hm₁, heq⟩ := bind_eq_ok.mp h
      rw [hm₁, (Prod.mk.inj (Except.ok.inj heq)).2]
  · intro h
    obtain ⟨c, hc, rfl⟩ := List.mem_map.mp hlast
    have hcell := (storeAll_self_iff hnodup).mp h c hc
    rw [if_neg (not_rejected (Array.getElem?_eq_some_iff.mp hcell).1), h, ok_bind]

end Sequence

/-! ## The writes of the three widths -/

/-- The cells of a value that starts at `a`. -/
def cells (a : Word) (bs : List Byte) : List (Word × Byte) :=
  bs.mapIdx fun k b => (a + BitVec.ofNat 32 k, b)

section Cells

variable {mem : Memory} {a : Word} {bs : List Byte}

theorem forall_cells_iff : (∀ c ∈ cells a bs, mem.values[c.1.toNat]? = some c.2) ↔
    Stored mem a bs := by
  simp only [cells, List.mem_mapIdx, Stored]
  constructor
  · intro h k hk
    exact h _ ⟨k, hk, rfl⟩
  · rintro h _ ⟨k, hk, rfl⟩
    exact h k hk

theorem cells_nodup (h : bs.length ≤ 2 ^ 32) : ((cells a bs).map Prod.fst).Nodup := by
  have haddress : (cells a bs).map Prod.fst =
      (List.range bs.length).map fun k => a + BitVec.ofNat 32 k := by
    apply List.ext_getElem <;> simp [cells]
  rw [haddress]
  refine List.nodup_range.map_on fun i hi j hj hij => ?_
  rw [List.mem_range] at hi hj
  have hnat := congrArg BitVec.toNat (BitVec.add_right_inj a |>.mp hij)
  rwa [BitVec.toNat_ofNat, BitVec.toNat_ofNat, Nat.mod_eq_of_lt (by omega),
    Nat.mod_eq_of_lt (by omega)] at hnat

/-- A write stores its bytes upwards, a little-endian word downwards. -/
theorem memoryWrite_eq_storeAll (mem : Memory) (a : Word) (n : Width) (v : n.Value) :
    ∃ cs, cs.Perm (cells a (inOrder mem.isBigEndian (valueBytes n v))) ∧ memoryWrite n mem a v =
      if a < 0 ∨ memoryGetSize mem ≤ (lastByte a n).toNat then .ok (-1, mem)
      else storeAll mem cs >>= fun m => .ok (0, m) := by
  have h₀ : a + BitVec.ofNat 32 0 = a := BitVec.add_zero a
  have hup : memoryWrite n mem a v = (if a < 0 ∨ memoryGetSize mem ≤ (lastByte a n).toNat then
      .ok (-1, mem) else storeAll mem (if n = .word ∧ ¬ mem.isBigEndian then
        (cells a (valueBytes n v).reverse).reverse
      else cells a (inOrder mem.isBigEndian (valueBytes n v))) >>= fun m => .ok (0, m)) := by
    cases hbe : mem.isBigEndian <;> cases n <;>
      simp [memoryWrite, memoryWriteByte, memoryWriteHalf, memoryWriteWord, hbe, cells, inOrder,
        valueBytes, halfBytes, wordBytes, storeAll, h₀] <;> rfl
  refine ⟨_, ?_, hup⟩
  split
  · rename_i hword
    rw [inOrder, if_neg hword.2]
    exact List.reverse_perm _
  · exact List.Perm.refl _

theorem lastByte_mem (n : Width) (v : n.Value) :
    lastByte a n ∈ (cells a (inOrder mem.isBigEndian (valueBytes n v))).map Prod.fst := by
  cases hbe : mem.isBigEndian <;> cases n <;>
    simp [cells, inOrder, valueBytes, halfBytes, wordBytes, lastByte]

theorem length_inOrder_valueBytes (bigEndian : Bool) (n : Width) (v : n.Value) :
    (inOrder bigEndian (valueBytes n v)).length = n.bytes := by
  rw [inOrder_length]
  cases n <;> rfl

theorem length_inOrder_le (bigEndian : Bool) (n : Width) (v : n.Value) :
    (inOrder bigEndian (valueBytes n v)).length ≤ 2 ^ 32 := by
  rw [length_inOrder_valueBytes]
  cases n <;> decide

theorem memoryWrite_self_iff (n : Width) (v : n.Value) :
    memoryWrite n mem a v = .ok (0, mem) ↔
      Stored mem a (inOrder mem.isBigEndian (valueBytes n v)) := by
  obtain ⟨cs, hperm, hwrite⟩ := memoryWrite_eq_storeAll mem a n v
  have hfst := hperm.map Prod.fst
  rw [hwrite, tested_self_iff (hfst.nodup_iff.mpr (cells_nodup (length_inOrder_le _ n v)))
    (hfst.mem_iff.mpr (lastByte_mem n v)), ← forall_cells_iff]
  exact forall_congr' fun c => by rw [hperm.mem_iff]

end Cells

end ArmSimulator.Storage
