import ArmSimulator.Conditions.Comparison
import ArmSimulator.Exceptions.Outcome
import ArmSimulator.RegisterFile.Processor

/-! # The two halves of a data-processing instruction

`executeInst` writes its result register unless the opcode is a test, then
updates the status if it is asked to or the opcode is a test. A write of the
program counter restores the saved status in place of the flags.
-/

namespace ArmSimulator.DataProcessing

open Machine RegisterFile Conditions Exceptions Foundation.ExceptRun

def IsTest (opcode : Nat) : Prop := 8 ≤ opcode ∧ opcode ≤ 11

instance (opcode : Nat) : Decidable (IsTest opcode) := inferInstanceAs (Decidable (_ ∧ _))

theorem aluSwitch_test {opcode : Nat} {c v : Bool} {valueRn operand : Word} {r : AluResult}
    (h : aluSwitch opcode c v valueRn operand = some r) : r.test = decide (IsTest opcode) := by
  rcases opcode with _ | _ | _ | _ | _ | _ | _ | _ | _ | _ | _ | _ | _ | _ | _ | _ | opcode
  case succ =>
    change none = some r at h
    simp at h
  all_goals exact (congrArg AluResult.test (Option.some.inj h)).symm

/-- The status with the flags of a result. -/
def flagsCpsr (cpsr : Word) (r : AluResult) : Word :=
  packFlags cpsr (r.res = 0) (getBit r.res 31 ≠ 0) r.cFlag r.vFlag

/-- What becomes of the status once the result register is written in `p'`. -/
def updateStatus (cpsr : Word) (rd : Nat) (updateCPSR : Bool) (r : AluResult) (p' : ArmCore) :
    Except Stop (Int × ArmCore) :=
  if updateCPSR || r.test then
    if !r.test && rd = 15 then
      if currentModeHasSpsr p'.reg then do
        let spsr ← armReadSpsr p'
        return (0, armWriteCpsr p' spsr)
      else return (0, p')
    else return (0, armWriteCpsr p' (flagsCpsr cpsr r))
  else return (0, p')

/-- The operation an instruction computes with the flags of the current status. -/
def aluOf (opcode : Nat) (cpsr valueRn operand : Word) : Option AluResult :=
  aluSwitch opcode (getBit cpsr 29 ≠ 0) (getBit cpsr 28 ≠ 0) valueRn operand

theorem executeInst_eq {opcode : Nat} {p : ArmCore} {valueRn operand : Word} {r : AluResult}
    (h : aluOf opcode (armReadCpsr p) valueRn operand = some r) (rd : Nat) (updateCPSR : Bool) :
    executeInst opcode p rd valueRn operand updateCPSR =
      (if IsTest opcode then pure p else armWriteRegister p rd r.res) >>=
        updateStatus (armReadCpsr p) rd updateCPSR r := by
  obtain ⟨res, c, v, test⟩ := r
  have htest : test = decide (IsTest opcode) := aluSwitch_test h
  unfold aluOf at h
  by_cases hop : IsTest opcode
  · rw [decide_eq_true hop] at htest
    subst htest
    simp only [executeInst, h, if_pos hop, Bool.not_true, Bool.false_eq_true, if_false, pure_bind]
    rfl
  · rw [decide_eq_false hop] at htest
    subst htest
    simp only [executeInst, h, if_neg hop, Bool.not_false, if_true]
    rfl

theorem exists_aluOf {opcode : Nat} (hop : opcode < 16) (cpsr valueRn operand : Word) :
    ∃ r, aluOf opcode cpsr valueRn operand = some r :=
  Option.ne_none_iff_exists'.mp (aluSwitch_ne_none hop _ _ _ _)

/-! ## The status with new flags -/

theorem getLsbD_flagsCpsr (cpsr : Word) (r : AluResult) (j : Nat) :
    (flagsCpsr cpsr r).getLsbD j = if j = 28 then r.vFlag else if j = 29 then r.cFlag
      else if j = 31 then r.res.getLsbD 31 else if j = 30 then decide (r.res = 0)
      else cpsr.getLsbD j := by
  rw [flagsCpsr, getLsbD_packFlags]
  simp only [getBit_ne_zero, Bool.decide_eq_true]

theorem getBits_flagsCpsr (cpsr : Word) (r : AluResult) :
    getBits (flagsCpsr cpsr r) 4 0 = getBits cpsr 4 0 := by
  apply BitVec.eq_of_getLsbD_eq
  intro i _
  rw [getLsbD_getBits, getLsbD_getBits, Nat.zero_add]
  by_cases hi : i ≤ 4
  · rw [getLsbD_flagsCpsr, if_neg (by omega), if_neg (by omega), if_neg (by omega),
      if_neg (by omega)]
  · rw [decide_eq_false (by omega), Bool.false_and, Bool.false_and]

theorem armWriteRegister_update {p p' : ArmCore} {reg : Nat} {value : Word} (hreg : reg ≤ 15)
    (h : armWriteRegister p reg value = .ok p') : 16 ≤ getMode p.reg ∧
      p' = { p with reg := Function.update p.reg (bankPosition (getMode p.reg) reg) value } := by
  obtain ⟨cells, hcells, hp'⟩ := bind_eq_ok.mp h
  have hmode : 16 ≤ getMode p.reg := by
    rw [writeRegister, if_neg (not_not.mpr ⟨reg.zero_le, hreg⟩)] at hcells
    obtain ⟨l, hl, -⟩ := bind_eq_ok.mp hcells
    exact modePosition_ge hl
  rw [writeRegister_eq hmode hreg, Except.ok.injEq] at hcells
  subst hcells
  exact ⟨hmode, (pure_eq_ok.mp hp').symm⟩

theorem armReadRegister_written {p p' : ArmCore} {reg : Nat} {value cpsr : Word} (hreg : reg < 15)
    (h : armWriteRegister p reg value = .ok p')
    (hcpsr : getBits cpsr 4 0 = getBits (armReadCpsr p) 4 0) :
    armReadRegister (armWriteCpsr p' cpsr) reg = .ok value := by
  obtain ⟨hmode, rfl⟩ := armWriteRegister_update (by omega) h
  let cells := writeCpsr (Function.update p.reg (bankPosition (getMode p.reg) reg) value) cpsr
  have hsame : getMode cells = getMode p.reg := by
    rw [getMode, readCpsr_writeCpsr, hcpsr]
    rfl
  have hne := bankPosition_ne_cpsr (getMode_lt p.reg) (show reg ≤ 15 by omega)
  have hcell : cells (bankPosition (getMode cells) reg) = value := by
    rw [hsame]
    exact (Function.update_of_ne hne _ _).trans (Function.update_self _ _ _)
  have hread : readRegister cells reg = .ok value := by
    rw [readRegister_eq (hsame ▸ hmode) (by omega), hcell]
  change (readRegister cells reg >>= fun x => .ok (if reg = 15 then readPc x else x)) = _
  rw [hread, ok_bind, if_neg (by omega)]

/-! ## In the modes the bank table has a row for -/

/-- What an instruction leaves in the register array; a write of the program counter
with the S bit may restore any status. -/
structure Effect (opcode : Nat) (p : ArmCore) (rd : Fin 16) (updateCPSR : Bool) (r : AluResult)
    (p' : ArmCore) : Prop where
  cells : ∀ l, l ≠ Position.cpsr → p'.reg l =
    if ¬ IsTest opcode ∧ l = bankPosition (getMode p.reg) rd then r.res else p.reg l
  status : updateCPSR ∨ IsTest opcode → rd ≠ 15 ∨ IsTest opcode →
    armReadCpsr p' = flagsCpsr (armReadCpsr p) r

section Modes

variable {opcode : Nat} {p : ArmCore} {valueRn operand : Word} {r : AluResult} {rd : Fin 16}

theorem armWriteRegister_ok (hmode : 16 ≤ getMode p.reg) (rd : Fin 16) (value : Word) :
    armWriteRegister p rd value = .ok { p with
      reg := Function.update p.reg (bankPosition (getMode p.reg) rd) value } := by
  rw [armWriteRegister, writeRegister_eq hmode (Nat.le_of_lt_succ rd.isLt)]
  rfl

/-- The update of the status leaves the other positions alone; a test reads no saved status. -/
theorem updateStatus_ok (p' : ArmCore) (hmode : IsTest opcode ∨ 16 ≤ getMode p'.reg)
    (cpsr : Word) (rd : Fin 16) (updateCPSR : Bool) (htest : r.test = decide (IsTest opcode)) :
    ∃ p'', updateStatus cpsr rd updateCPSR r p' = .ok (0, p'') ∧
      (∀ l, l ≠ Position.cpsr → p''.reg l = p'.reg l) ∧
      (updateCPSR ∨ IsTest opcode → rd ≠ 15 ∨ IsTest opcode →
        armReadCpsr p'' = flagsCpsr cpsr r) := by
  have hcells (value : Word) : ∀ l, l ≠ Position.cpsr → (armWriteCpsr p' value).reg l = p'.reg l :=
    fun l hl => Function.update_of_ne hl _ _
  have hval : rd.val = 15 ↔ rd = 15 := ⟨fun h => Fin.ext h, congrArg Fin.val⟩
  unfold updateStatus
  simp only [htest, Bool.or_eq_true, Bool.and_eq_true, Bool.not_eq_true', decide_eq_true_eq,
    decide_eq_false_iff_not, hval]
  split_ifs with hupdate hpc hspsr
  · have hread : armReadSpsr p' = .ok (p'.reg 0) := by
      refine readSpsr_eq (hmode.resolve_left hpc.1) ?_
      rcases hspsr with h | h | h | h | h <;> rw [hasSpsr, h] <;> decide
    exact ⟨_, by rw [hread]; rfl, hcells _, fun _ hor =>
      absurd hor (not_or.mpr ⟨not_not.mpr hpc.2, hpc.1⟩)⟩
  · exact ⟨_, rfl, fun _ _ => rfl, fun _ hor => absurd hor (not_or.mpr ⟨not_not.mpr hpc.2, hpc.1⟩)⟩
  · exact ⟨_, rfl, hcells _, fun _ _ => readCpsr_writeCpsr _ _⟩
  · exact ⟨_, rfl, fun _ _ => rfl, fun h => absurd h hupdate⟩

/-- A test needs no row of the table. -/
theorem exists_effect (hmode : IsTest opcode ∨ 16 ≤ getMode p.reg)
    (h : aluOf opcode (armReadCpsr p) valueRn operand = some r) (rd : Fin 16) (updateCPSR : Bool) :
    ∃ p', executeInst opcode p rd valueRn operand updateCPSR = .ok (0, p') ∧
      Effect opcode p rd updateCPSR r p' := by
  have htest := aluSwitch_test h
  rw [executeInst_eq h]
  by_cases hop : IsTest opcode
  · obtain ⟨p', hp', hcells, hstatus⟩ :=
      updateStatus_ok p hmode (armReadCpsr p) rd updateCPSR htest
    refine ⟨p', by rw [if_pos hop, pure_bind, hp'], ?_, hstatus⟩
    simpa only [hop, not_true_eq_false, false_and, if_false] using hcells
  · have hmode := hmode.resolve_left hop
    have hne := bankPosition_ne_cpsr (getMode_lt p.reg) (Nat.le_of_lt_succ rd.isLt)
    obtain ⟨p', hp', hcells, hstatus⟩ := updateStatus_ok
      { p with reg := Function.update p.reg (bankPosition (getMode p.reg) rd) r.res }
      (Or.inr (by rwa [getMode_update hne])) (armReadCpsr p) rd updateCPSR htest
    refine ⟨p', by rw [if_neg hop, armWriteRegister_ok hmode, ok_bind, hp'], fun l hl => ?_,
      hstatus⟩
    rw [hcells l hl]
    simp only [hop, not_false_eq_true, true_and]
    exact Function.update_apply _ _ _ _

theorem not_executeInst_ok (hop : ¬ IsTest opcode) (hmode : getMode p.reg < 16)
    (h : aluOf opcode (armReadCpsr p) valueRn operand = some r) (rd : Fin 16) (updateCPSR : Bool)
    (s : Int × ArmCore) : executeInst opcode p rd valueRn operand updateCPSR ≠ .ok s := by
  rw [executeInst_eq h, if_neg hop]
  intro hs
  obtain ⟨p', hp', -⟩ := bind_eq_ok.mp hs
  have hge := (armWriteRegister_update (Nat.le_of_lt_succ rd.isLt) hp').1
  omega

end Modes

/-! ## In a valid mode -/

/-- A processor in SVC mode with all registers zero. -/
def idle : Processor := ⟨0, File.blank (modeStatus .svc), ⟨#[], false⟩⟩

def flagsStatus (f : File) (r : AluResult) : Status where
  value := flagsCpsr (readCpsr f.cells) r
  mode := f.mode
  mode_eq := by rw [getBits_flagsCpsr, ← f.mode_eq, getMode]

/-- The processor after an instruction whose destination is not the program counter. -/
def outcome (q : Processor) (opcode : Nat) (rd : Fin 16) (updateCPSR : Bool) (r : AluResult) :
    Processor :=
  let q₁ := if IsTest opcode then q else q.write rd r.res
  if updateCPSR ∨ IsTest opcode then q₁.withFile (q₁.file.writeStatus (flagsStatus q.file r))
  else q₁

section Outcome

variable (q : Processor) (opcode : Nat) (rd : Fin 16) (updateCPSR : Bool) (r : AluResult)

theorem executeInst_outcome {valueRn operand : Word} (hrd : rd ≠ 15)
    (h : aluOf opcode (armReadCpsr q.core) valueRn operand = some r) :
    executeInst opcode q.core rd valueRn operand updateCPSR =
      .ok (0, (outcome q opcode rd updateCPSR r).core) := by
  have htest := aluSwitch_test h
  have hpc : ¬ rd.val = 15 := fun hval => hrd (Fin.ext hval)
  rw [executeInst_eq h]
  unfold updateStatus outcome
  by_cases hop : IsTest opcode
  · simp only [htest, hop, decide_true, Bool.or_true, if_true, or_true, Bool.not_true,
      Bool.false_and, Bool.false_eq_true, if_false, pure_bind]
    rfl
  · simp only [htest, hop, decide_false, Bool.or_false, if_false, or_false, Bool.not_false,
      Bool.true_and, hpc, Bool.false_eq_true, q.armWriteRegister_eq rd r.res, ok_bind]
    split <;> rfl

theorem outcome_mode : (outcome q opcode rd updateCPSR r).file.mode = q.file.mode := by
  unfold outcome
  split_ifs <;> rfl

theorem outcome_mem : (outcome q opcode rd updateCPSR r).mem = q.mem := by
  unfold outcome
  split_ifs <;> rfl

theorem outcome_cycleCount :
    (outcome q opcode rd updateCPSR r).cycleCount = q.cycleCount := by
  unfold outcome
  split_ifs <;> rfl

theorem outcome_cells (l : Position) : (outcome q opcode rd updateCPSR r).file.cells l =
    if l = Position.cpsr then
      if updateCPSR ∨ IsTest opcode then flagsCpsr (readCpsr q.file.cells) r
      else readCpsr q.file.cells
    else if ¬ IsTest opcode ∧ l = position q.file.mode rd then r.res
    else q.file.cells l := by
  have hwrite : (if IsTest opcode then q else q.write rd r.res).file.cells l =
      if ¬ IsTest opcode ∧ l = position q.file.mode rd then r.res else q.file.cells l := by
    by_cases hop : IsTest opcode
    · simp only [hop, if_true, not_true_eq_false, false_and, if_false]
    · simp only [hop, if_false, not_false_eq_true, true_and]
      exact q.write_cells rd r.res l
  have hcpsr : l = Position.cpsr → ¬ l = position q.file.mode rd :=
    fun hl hrd => position_ne_cpsr q.file.mode rd (hrd.symm.trans hl)
  unfold outcome
  by_cases hupdate : updateCPSR ∨ IsTest opcode
  · rw [if_pos hupdate, if_pos hupdate]
    exact (Function.update_apply _ _ _ _).trans (by rw [hwrite]; rfl)
  · rw [if_neg hupdate, if_neg hupdate, hwrite]
    by_cases hl : l = Position.cpsr
    · rw [if_pos hl, if_neg fun h => hcpsr hl h.2, hl]
      rfl
    · rw [if_neg hl]

end Outcome

end ArmSimulator.DataProcessing
