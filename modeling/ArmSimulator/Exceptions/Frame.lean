import ArmSimulator.Exceptions.Entry

/-! # The frame of an exception entry

An entry should change the status, the program counter and the link register
and saved status of the mode it enters. It also copies the stack pointer of the
interrupted mode and saves the status over `r0`, so the frame holds only where
these writes store what is already there.
-/

namespace ArmSimulator.Exceptions

open Machine RegisterFile Foundation.ExceptRun

/-- What an entry to `k` leaves alone, and what it saves. -/
structure EntryFrame (k : Kind) (p p' : ArmCore) : Prop where
  general : ∀ (m : Mode) (reg : Fin 16), reg ≠ 15 → ¬ (m = k.mode ∧ reg = 14) →
    readRegister (inMode p'.reg m) reg = readRegister (inMode p.reg m) reg
  saved : readSpsr (inMode p'.reg k.mode) = .ok (readCpsr p.reg)
  otherSaved : ∀ m, isException m → m ≠ k.mode →
    readSpsr (inMode p'.reg m) = readSpsr (inMode p.reg m)
  memory : p'.mem = p.mem

/-- The words the entry writes besides the frame are already in place. -/
def InPlace (k : Kind) (q : Processor) : Prop :=
  q.file.cells 0 = readCpsr q.file.cells ∧
    q.file.cells (position k.mode 13) = q.register 13 ∧
    (k ≠ .fastInterrupt → q.file.cells Position.r14Irq = k.link (q.file.cells 15))

/-- Only FIQ has its link register to itself. -/
theorem position_lr {k : Kind} (hk : k ≠ .fastInterrupt) :
    position k.mode 14 = Position.r14Irq := by
  cases k <;> first | rfl | exact absurd rfl hk

theorem position_lr_fiq : ∀ (m : Mode) (reg : Fin 16), position m reg = position .fiq 14 →
    m = .fiq ∧ reg = 14 := by
  intro m
  cases m <;> decide

theorem exists_sharer {k : Kind} (hk : k ≠ .fastInterrupt) :
    ∃ m, m ≠ k.mode ∧ position m 14 = position k.mode 14 := by
  cases k with
  | reset => exact ⟨.irq, by decide⟩
  | undefinedInstruction => exact ⟨.irq, by decide⟩
  | softwareInterrupt => exact ⟨.irq, by decide⟩
  | prefetchAbort => exact ⟨.irq, by decide⟩
  | dataAbort => exact ⟨.irq, by decide⟩
  | interrupt => exact ⟨.svc, by decide⟩
  | fastInterrupt => exact absurd rfl hk

theorem needSpsr_of_ne {k : Kind} (hk : k ≠ .reset) : k.needSpsr := by
  cases k <;> first | rfl | exact absurd rfl hk

theorem enter_general {q : Processor} {k : Kind} (h : InPlace k q) {m : Mode} {reg : Fin 16}
    (hreg : reg ≠ 15) (hlr : ¬ (m = k.mode ∧ reg = 14)) :
    (enter q k).file.cells (position m reg) = q.file.cells (position m reg) := by
  obtain ⟨h₀, h₁₃, h₁₄⟩ := h
  rw [enter_cells, if_neg (position_ne_pc m reg hreg)]
  split_ifs with hzero h14 h13 hcpsr
  · rw [hzero.1, h₀]
  · by_cases hfiq : k = .fastInterrupt
    · subst hfiq
      exact absurd (position_lr_fiq m reg h14) hlr
    · rw [h14, position_lr hfiq, h₁₄ hfiq]
  · rw [h13, h₁₃]
  · exact absurd hcpsr (position_ne_cpsr m reg)
  · rfl

/-- An exception other than reset keeps to its frame exactly when the other
words it writes are already in place. -/
theorem entryFrame_iff (q : Processor) {k : Kind} (hk : k ≠ .reset) :
    (∃ p', armException q.core k.number = .ok p' ∧ EntryFrame k q.core p') ↔ InPlace k q := by
  have hsaved := enter_saved q k (needSpsr_of_ne hk)
  rw [armException_enter]
  constructor
  · rintro ⟨p', hp', hframe⟩
    rw [Except.ok.injEq] at hp'
    subst hp'
    have hcell (m : Mode) (reg : Fin 16) (hreg : reg ≠ 15) (hlr : ¬ (m = k.mode ∧ reg = 14)) :
        (enter q k).file.cells (position m reg) = q.file.cells (position m reg) := by
      have h := hframe.general m reg hreg hlr
      simp only [Processor.core] at h
      rwa [File.readRegister_inMode, File.readRegister_inMode, Except.ok.injEq] at h
    refine ⟨?_, ?_, fun hfiq => ?_⟩
    · have h₀ := hcell .usr 0 (by decide) (by simp)
      rw [(position_eq_zero _ _).mpr rfl, hsaved] at h₀
      exact h₀.symm
    · have h₁₃ := hcell k.mode 13 (by decide) (by simp)
      rw [enter_sp] at h₁₃
      exact h₁₃.symm
    · obtain ⟨m, hm, hpos⟩ := exists_sharer hfiq
      have h₁₄ := hcell m 14 (by decide) (by simp [hm])
      rw [hpos, enter_lr, position_lr hfiq] at h₁₄
      exact h₁₄.symm
  · intro h
    have hspsr {m : Mode} (hm : isException m) :
        readSpsr (inMode (enter q k).core.reg m) = .ok (readCpsr q.file.cells) := by
      simp only [Processor.core]
      rw [File.readSpsr_inMode _ hm, hsaved]
    refine ⟨_, rfl, ?_, hspsr k.isException_mode, ?_, enter_mem q k⟩
    · intro m reg hreg hlr
      simp only [Processor.core]
      rw [File.readRegister_inMode, File.readRegister_inMode, enter_general h hreg hlr]
    · intro m hm _
      rw [hspsr hm]
      simp only [Processor.core]
      rw [File.readSpsr_inMode _ hm, h.1]

/-- An interrupt taken in SVC mode with the words in place. -/
def settled : Processor :=
  ⟨0, ((File.blank (modeStatus .svc)).write 0 0x13).write 14 4, ⟨#[], false⟩⟩

theorem entryFrame_settled : (∃ p', armException settled.core Kind.interrupt.number = .ok p' ∧
    EntryFrame .interrupt settled.core p') ↔ InPlace .interrupt settled :=
  entryFrame_iff settled (by decide)

/-- From the blank state a software interrupt overwrites `r0`. -/
theorem entryFrame_broken : ¬ ∀ (q : Processor) (k : Kind), k ≠ .reset →
    ∃ p', armException q.core k.number = .ok p' ∧ EntryFrame k q.core p' := by
  intro h
  obtain ⟨p', hp', hframe⟩ :=
    h ⟨0, File.blank (modeStatus .usr), ⟨#[], false⟩⟩ .softwareInterrupt (by decide)
  rw [armException_enter, Except.ok.injEq] at hp'
  subst hp'
  have h₀ := hframe.general .usr 0 (by decide) (by decide)
  simp only [Processor.core] at h₀
  rw [File.readRegister_inMode, File.readRegister_inMode, Except.ok.injEq,
    (position_eq_zero _ _).mpr rfl, enter_saved _ _ rfl] at h₀
  exact absurd h₀ (by decide)

end ArmSimulator.Exceptions
