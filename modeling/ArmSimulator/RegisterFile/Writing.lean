import ArmSimulator.RegisterFile.Banks

/-! # What a register write changes

A write should change the register it names in the mode it is made in. It also
changes the saved status of every exception mode when it names `r0`, and the
registers of three other modes when it is made in IRQ, SVC, ABT or UND and names
`r13` or `r14`.
-/

namespace ArmSimulator.RegisterFile

open Machine

/-- Every register but the program counter and those of `written` reads as before in
every mode, and so does every saved status. -/
structure SameBut (written : Cell → Prop) (f f' : File) : Prop where
  registers : ∀ m reg, reg ≠ 15 → ¬ written (cell m reg) →
    readRegister (inMode f'.cells m) reg = readRegister (inMode f.cells m) reg
  saved : ∀ m, isException m →
    readSpsr (inMode f'.cells m) = readSpsr (inMode f.cells m)

/-- The cell of a register is that of no other, or already holds what is written. -/
def Unshared (f : File) (reg : Fin 16) (value : Word) : Prop :=
  (reg = 0 → f.cells 0 = value) ∧
    (Shared f.mode reg → f.cells (position f.mode reg) = value)

section SameBut

variable {written : Cell → Prop} {f f' : File}

theorem sameBut_of_eq (h : ∀ l, l ≠ 15 → l ≠ Position.cpsr → f'.cells l = f.cells l) :
    SameBut written f f' where
  registers m reg hreg _ := by
    rw [File.readRegister_inMode, File.readRegister_inMode,
      h _ (position_ne_pc m reg hreg) (position_ne_cpsr m reg)]
  saved m hm := by
    rw [File.readSpsr_inMode _ hm, File.readSpsr_inMode _ hm, h 0 (by decide) (by decide)]

theorem exists_other {m : Mode} {reg : Fin 16} (h : Shared m reg) :
    ∃ m', Shared m' reg ∧ cell m reg ≠ cell m' reg := by
  by_cases hirq : m = .irq
  · subst hirq
    refine ⟨.svc, ⟨by decide, h.2⟩, ?_⟩
    rcases h.2 with rfl | rfl <;> decide
  · refine ⟨.irq, ⟨by decide, h.2⟩, ?_⟩
    rcases h with ⟨rfl | rfl | rfl | rfl, rfl | rfl⟩
    all_goals first | decide | exact absurd rfl hirq

variable {reg : Fin 16}

/-- A write keeps every other register exactly when it names a cell of its own or changes
nothing. -/
theorem sameBut_iff (value : Word) (hreg : reg ≠ 15) (h : ∀ l, l ≠ 15 → l ≠ Position.cpsr →
    f'.cells l = if l = position f.mode reg then value else f.cells l) :
    SameBut (· = cell f.mode reg) f f' ↔ Unshared f reg value := by
  have hcell := h _ (position_ne_pc f.mode reg hreg) (position_ne_cpsr f.mode reg)
  rw [if_pos rfl] at hcell
  constructor
  · intro hsame
    constructor
    · intro hzero
      have hpos := (position_eq_zero f.mode reg).mpr hzero
      have hsaved := hsame.saved .svc rfl
      rw [File.readSpsr_inMode _ rfl, File.readSpsr_inMode _ rfl, ← hpos, hcell] at hsaved
      rw [← hpos]
      exact (Except.ok.inj hsaved).symm
    · intro hshared
      obtain ⟨m, hm, hne⟩ := exists_other hshared
      have hother := hsame.registers m reg hreg hne.symm
      rw [File.readRegister_inMode, File.readRegister_inMode, position_shared hm hshared,
        hcell] at hother
      exact (Except.ok.inj hother).symm
  · rintro ⟨hzero, hshared⟩
    constructor
    · intro m reg' hreg' hne
      rw [File.readRegister_inMode, File.readRegister_inMode,
        h _ (position_ne_pc m reg' hreg') (position_ne_cpsr m reg')]
      split_ifs with hpos
      · rw [← place_cell, ← place_cell] at hpos
        rcases place_eq hpos with hc | ⟨-, -, hs⟩
        · exact absurd hc hne
        · rw [← place_cell m reg', hpos, place_cell, hshared (shared_bankOf.mp hs)]
      · rfl
    · intro m hm
      rw [File.readSpsr_inMode _ hm, File.readSpsr_inMode _ hm, h 0 (by decide) (by decide)]
      split_ifs with hpos
      · rw [hzero ((position_eq_zero _ _).mp hpos.symm)]
      · rfl

end SameBut

end ArmSimulator.RegisterFile
