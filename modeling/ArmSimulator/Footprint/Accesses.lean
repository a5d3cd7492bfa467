import ArmSimulator.Foundation.Overlay
import ArmSimulator.Storage.Faults
import ArmSimulator.Storage.Rewrite

/-! # Memories in another form

A recoding of the memory keeps certain accesses: they read the same words from both forms and
write to both alike. An access that the bound test rejects reaches no byte at all.

A cover is a recoding. Some bytes of the memory are covered by others, and the accesses that
reach none of them are the same with and without it.
-/

namespace ArmSimulator.Footprint

open Machine Storage Foundation.Overlay Foundation.ExceptRun

/-- The accesses that `fits` allows do not tell a memory from its other form. -/
structure Recoding (f : Memory → Memory) (fits : Width → Word → Prop) : Prop where
  size : ∀ mem, (f mem).values.size = mem.values.size
  read : ∀ {n : Width} {mem : Memory} {a : Word}, (Admitted mem n a → fits n a) →
    ∀ v, memoryRead n (f mem) a v = memoryRead n mem a v
  write : ∀ {n : Width} {mem : Memory} {a : Word}, (Admitted mem n a → fits n a) →
    ∀ v, memoryWrite n (f mem) a v = Prod.map id f <$> memoryWrite n mem a v

/-- The memory with some of its bytes covered. -/
def covered (s : Cover Byte) (mem : Memory) : Memory :=
  { mem with values := s.overlay mem.values }

/-- The access reaches none of the covered bytes. -/
def Apart (s : Cover Byte) (n : Width) (a : Word) : Prop :=
  ∀ k < n.bytes, s (a + BitVec.ofNat 32 k).toNat = none

instance (s : Cover Byte) (n : Width) (a : Word) : Decidable (Apart s n a) :=
  inferInstanceAs (Decidable (∀ k < n.bytes, _))

section Memory

variable {mem : Memory} {a : Word}

theorem tested_recoded {α : Type} {n : Width} {f : Memory → Memory}
    (hsize : memoryGetSize (f mem) = memoryGetSize mem) {old old' : α} {φ : α → α}
    {body body' : Except Stop (Int × α)} (hold : old' = φ old)
    (hbody : Admitted mem n a → body' = Prod.map id φ <$> body) :
    (if a < 0 ∨ memoryGetSize (f mem) ≤ (lastByte a n).toNat then .ok (-1, old')
      else body') = Prod.map id φ <$>
        if a < 0 ∨ memoryGetSize mem ≤ (lastByte a n).toNat then .ok (-1, old) else body := by
  rw [hsize]
  split
  · rw [hold]
    rfl
  · rename_i h
    exact hbody (Nat.lt_of_not_le fun hle => h (Or.inr hle))

theorem map_id_id {α : Type} (x : Except Stop (Int × α)) : Prod.map id id <$> x = x := by
  cases x <;> rfl

theorem memoryWrite_size {n : Width} (v : n.Value) :
    Ensures (memoryWrite n mem a v) fun r => r.2.values.size = mem.values.size := by
  have hstore (m : Memory) (c : Word × Byte) (hm : m.values.size = mem.values.size) :
      Ensures (m.store c.1 c.2) fun m' => m'.values.size = mem.values.size := by
    intro m' hm'
    obtain ⟨-, rfl⟩ := store_inv hm'
    rw [Array.size_setIfInBounds, hm]
  obtain ⟨cs, -, hwrite⟩ := memoryWrite_eq_storeAll mem a n v
  rw [hwrite]
  split
  · exact ensures_ok rfl
  · exact (ensures_foldlM hstore cs rfl).bind fun m hm => ensures_ok hm

end Memory

section Covered

variable {s : Cover Byte} {mem : Memory} {a : Word}

@[simp] theorem memoryGetSize_covered : memoryGetSize (covered s mem) = memoryGetSize mem :=
  s.size_overlay mem.values

@[simp] theorem isBigEndian_covered : (covered s mem).isBigEndian = mem.isBigEndian := rfl

theorem Apart.byte (h : Apart s .byte a) : s a.toNat = none := by
  have h₀ := h 0 (by decide)
  rwa [BitVec.add_zero] at h₀

theorem Apart.half (h : Apart s .half a) : s a.toNat = none ∧ s (a + 1).toNat = none := by
  have h₀ := h 0 (by decide)
  rw [BitVec.add_zero] at h₀
  exact ⟨h₀, h 1 (by decide)⟩

theorem Apart.word (h : Apart s .word a) : s a.toNat = none ∧ s (a + 1).toNat = none ∧
    s (a + 2).toNat = none ∧ s (a + 3).toNat = none := by
  have h₀ := h 0 (by decide)
  rw [BitVec.add_zero] at h₀
  exact ⟨h₀, h 1 (by decide), h 2 (by decide), h 3 (by decide)⟩

theorem load_covered (h : s a.toNat = none) : (covered s mem).load a = mem.load a := by
  rw [Memory.load, Memory.load, covered, Cover.getElem?_overlay_of_none s _ h]

theorem store_covered (h : s a.toNat = none) (b : Byte) :
    (covered s mem).store a b = covered s <$> mem.store a b := by
  unfold Memory.store covered
  rw [Cover.size_overlay]
  split
  · rw [← Cover.overlay_setIfInBounds s _ h]
    rfl
  · rfl

theorem memoryRead_covered {n : Width} (h : Admitted mem n a → Apart s n a) (v : n.Value) :
    memoryRead n (covered s mem) a v = memoryRead n mem a v := by
  refine Eq.trans ?_ (map_id_id _)
  cases n with
  | byte =>
    refine tested_recoded (n := .byte) memoryGetSize_covered rfl fun hin => ?_
    rw [load_covered (h hin).byte, map_id_id]
  | half =>
    refine tested_recoded (n := .half) memoryGetSize_covered rfl fun hin => ?_
    obtain ⟨h₀, h₁⟩ := (h hin).half
    simp only [isBigEndian_covered, load_covered h₀, load_covered h₁, map_id_id]
  | word =>
    refine tested_recoded (n := .word) memoryGetSize_covered rfl fun hin => ?_
    obtain ⟨h₀, h₁, h₂, h₃⟩ := (h hin).word
    simp only [isBigEndian_covered, load_covered h₀, load_covered h₁, load_covered h₂,
      load_covered h₃, map_id_id]

theorem memoryWrite_covered {n : Width} (h : Admitted mem n a → Apart s n a) (v : n.Value) :
    memoryWrite n (covered s mem) a v = Prod.map id (covered s) <$> memoryWrite n mem a v := by
  cases n with
  | byte =>
    refine tested_recoded (n := .byte) memoryGetSize_covered rfl fun hin => ?_
    simp only [store_covered (h hin).byte, bind_map_left, map_bind]
    rfl
  | half =>
    refine tested_recoded (n := .half) memoryGetSize_covered rfl fun hin => ?_
    obtain ⟨h₀, h₁⟩ := (h hin).half
    rw [isBigEndian_covered]
    split <;> simp only [store_covered h₀, store_covered h₁, bind_map_left, map_bind] <;> rfl
  | word =>
    refine tested_recoded (n := .word) memoryGetSize_covered rfl fun hin => ?_
    obtain ⟨h₀, h₁, h₂, h₃⟩ := (h hin).word
    rw [isBigEndian_covered]
    split <;> simp only [store_covered h₀, store_covered h₁, store_covered h₂, store_covered h₃,
      bind_map_left, map_bind] <;> rfl

theorem recoding_covered (s : Cover Byte) : Recoding (covered s) (Apart s) where
  size _ := memoryGetSize_covered
  read := memoryRead_covered
  write := memoryWrite_covered

end Covered

end ArmSimulator.Footprint
