import ArmSimulator.Footprint.Frame
import ArmSimulator.Foundation.BlockReversal

/-! # The two byte orders

A memory of one byte order, with the bytes of each of its words reversed, is a memory of the
other order with the same words. The simulator is built for one of the two. A program that
accesses memory only in aligned words runs alike in both builds.
-/

namespace ArmSimulator.Footprint

open Machine Storage Exceptions Foundation.BlockReversal Foundation.ExceptRun

/-- The memory of the other byte order with the same words. -/
def mirror (mem : Memory) : Memory := ⟨reverseBlocks 4 mem.values, !mem.isBigEndian⟩

/-- A word at an address that is a multiple of four. -/
def Aligned (n : Width) (a : Word) : Prop := n = .word ∧ 4 ∣ a.toNat

instance (n : Width) (a : Word) : Decidable (Aligned n a) := inferInstanceAs (Decidable (_ ∧ _))

@[simp] theorem memoryGetSize_mirror {mem : Memory} :
    memoryGetSize (mirror mem) = memoryGetSize mem := size_reverseBlocks

/-- Two places of a word, opposite to each other. -/
structure Opposed (mem : Memory) (b c : Word) : Prop where
  left : b.toNat < mem.values.size
  right : c.toNat < mem.values.size
  place : opposite 4 b.toNat = c.toNat

section Cells

variable {mem : Memory} {b c : Word}

theorem load_mirror (h : Opposed mem b c) : (mirror mem).load b = mem.load c := by
  have hopposite : opposite 4 b.toNat < mem.values.size := h.place ▸ h.right
  rw [Memory.load, Memory.load, mirror, getElem?_reverseBlocks_of_lt h.left hopposite, h.place]

theorem store_mirror (h : Opposed mem b c) (x : Byte) :
    (mirror mem).store b x = mirror <$> mem.store c x := by
  have hopposite : opposite 4 b.toNat < mem.values.size := h.place ▸ h.right
  have hleft : b.toNat < (mirror mem).values.size := by
    rw [mirror, size_reverseBlocks]
    exact h.left
  rw [store_eq hleft, store_eq h.right, mirror, ← h.place,
    ← reverseBlocks_setIfInBounds (by decide) h.left hopposite]
  rfl

theorem Opposed.congr {m : Memory} (h : Opposed mem b c) (hsize : m.values.size = mem.values.size) :
    Opposed m b c :=
  ⟨hsize ▸ h.left, hsize ▸ h.right, h.place⟩

theorem stores_mirror {b₀ b₁ b₂ b₃ c₀ c₁ c₂ c₃ : Word} (h₀ : Opposed mem b₀ c₀)
    (h₁ : Opposed mem b₁ c₁) (h₂ : Opposed mem b₂ c₂) (h₃ : Opposed mem b₃ c₃)
    (x₀ x₁ x₂ x₃ : Byte) : (do
      let mem ← (mirror mem).store b₀ x₀
      let mem ← mem.store b₁ x₁
      let mem ← mem.store b₂ x₂
      let mem ← mem.store b₃ x₃
      return ((0 : Int), mem)) = Prod.map id mirror <$> (do
        let mem ← mem.store c₀ x₀
        let mem ← mem.store c₁ x₁
        let mem ← mem.store c₂ x₂
        let mem ← mem.store c₃ x₃
        return ((0 : Int), mem)) := by
  have hsize {m m' : Memory} {c : Word} {x : Byte} (h : m.store c x = .ok m')
      (hm : m.values.size = mem.values.size) : m'.values.size = mem.values.size := by
    obtain ⟨-, rfl⟩ := store_inv h
    rw [Array.size_setIfInBounds, hm]
  refine bind_map_congr (store_mirror h₀ x₀) fun m₀ hm₀ => ?_
  have hm₀ := hsize hm₀ rfl
  refine bind_map_congr (store_mirror (h₁.congr hm₀) x₁) fun m₁ hm₁ => ?_
  have hm₁ := hsize hm₁ hm₀
  refine bind_map_congr (store_mirror (h₂.congr hm₁) x₂) fun m₂ hm₂ => ?_
  have hm₂ := hsize hm₂ hm₁
  exact bind_map_congr (store_mirror (h₃.congr hm₂) x₃) fun _ _ => rfl

end Cells

section Words

variable {mem : Memory} {a : Word}

theorem Aligned.opposed (h : Aligned .word a) (hin : Admitted mem .word a) :
    (Opposed mem a (a + 3) ∧ Opposed mem (a + 1) (a + 2)) ∧
      Opposed mem (a + 2) (a + 1) ∧ Opposed mem (a + 3) a := by
  have hdvd : 4 ∣ a.toNat := h.2
  have hlt : a.toNat < 2 ^ 32 := a.isLt
  have haddress (k : ℕ) (hk : k < 4) : (a + BitVec.ofNat 32 k).toNat = a.toNat + k := by
    rw [BitVec.toNat_add, BitVec.toNat_ofNat]
    omega
  have h₁ : (a + 1).toNat = a.toNat + 1 := haddress 1 (by decide)
  have h₂ : (a + 2).toNat = a.toNat + 2 := haddress 2 (by decide)
  have h₃ : (a + 3).toNat = a.toNat + 3 := haddress 3 (by decide)
  have hsize : a.toNat + 3 < mem.values.size := h₃ ▸ hin
  have hplace {k : ℕ} (hk : k < 4) : opposite 4 (a.toNat + k) = a.toNat + (4 - 1 - k) :=
    opposite_add hdvd hk
  refine ⟨⟨⟨by omega, by omega, ?_⟩, ⟨by omega, by omega, ?_⟩⟩, ⟨by omega, by omega, ?_⟩,
    ⟨by omega, by omega, ?_⟩⟩
  · rw [h₃]
    exact hplace (k := 0) (by decide)
  · rw [h₁, h₂]
    exact hplace (k := 1) (by decide)
  · rw [h₂, h₁]
    exact hplace (k := 2) (by decide)
  · rw [h₃]
    exact hplace (k := 3) (by decide)

theorem memoryRead_mirror {n : Width} (h : Admitted mem n a → Aligned n a) (v : n.Value) :
    memoryRead n (mirror mem) a v = memoryRead n mem a v := by
  refine Eq.trans ?_ (map_id_id _)
  cases n with
  | byte =>
    exact tested_recoded (n := .byte) memoryGetSize_mirror rfl fun hin =>
      absurd (h hin).1 (by decide)
  | half =>
    exact tested_recoded (n := .half) memoryGetSize_mirror rfl fun hin =>
      absurd (h hin).1 (by decide)
  | word =>
    refine tested_recoded (n := .word) memoryGetSize_mirror rfl fun hin => ?_
    obtain ⟨⟨h₀, h₁⟩, h₂, h₃⟩ := (h hin).opposed hin
    simp only [load_mirror h₀, load_mirror h₁, load_mirror h₂, load_mirror h₃, map_id_id]
    rw [mirror]
    cases mem.isBigEndian <;> rfl

theorem memoryWrite_mirror {n : Width} (h : Admitted mem n a → Aligned n a) (v : n.Value) :
    memoryWrite n (mirror mem) a v = Prod.map id mirror <$> memoryWrite n mem a v := by
  cases n with
  | byte =>
    exact tested_recoded (n := .byte) memoryGetSize_mirror rfl fun hin =>
      absurd (h hin).1 (by decide)
  | half =>
    exact tested_recoded (n := .half) memoryGetSize_mirror rfl fun hin =>
      absurd (h hin).1 (by decide)
  | word =>
    refine tested_recoded (n := .word) memoryGetSize_mirror rfl fun hin => ?_
    obtain ⟨⟨h₀, h₁⟩, h₂, h₃⟩ := (h hin).opposed hin
    have horder : (mirror mem).isBigEndian = !mem.isBigEndian := rfl
    rw [horder]
    cases mem.isBigEndian
    · exact stores_mirror h₀ h₁ h₂ h₃ _ _ _ _
    · exact stores_mirror h₃ h₂ h₁ h₀ _ _ _ _

end Words

theorem recoding_mirror : Recoding mirror Aligned where
  size _ := memoryGetSize_mirror
  read := memoryRead_mirror
  write := memoryWrite_mirror

/-- The same words in the other build of the simulator. -/
def otherBuild (p : ArmCore) : ArmCore := { p with mem := mirror p.mem }

section Builds

variable [Host] {p : ArmCore} {events : List Event}

/-- A program that accesses memory in aligned words only runs alike in both builds, whatever
interrupts it. -/
theorem run_otherBuild (h : RunFits Aligned events p) :
    events.foldlM happen (otherBuild p) = otherBuild <$> events.foldlM happen p :=
  happen_recode recoding_mirror h

end Builds

theorem storeProgram_otherBuild :
    stepThenIrq.foldlM (@happen Host.x86) (otherBuild storeProgram.core) =
      otherBuild <$> stepThenIrq.foldlM (@happen Host.x86) storeProgram.core :=
  @run_otherBuild Host.x86 storeProgram.core stepThenIrq
    (@storeProgram_fits_run Host.x86 Aligned (by decide))

end ArmSimulator.Footprint
