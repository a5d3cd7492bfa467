import ArmSimulator.DataProcessing.StraightLine

/-! # The operands of an instruction

A handler reads its registers, prepares the second operand and passes both on to
`executeInst`. The fetch and the register read together make the program counter
8 more than the instruction's address. The register form adds another 8 to Rm,
and when Rn is the program counter it takes that in place of Rm.
-/

namespace ArmSimulator.DataProcessing

open Machine RegisterFile Transfers Decoding Exceptions Foundation.ExceptRun

/-- A register as instructions see it, in a mode the bank table has a row for. -/
def registerValue (p : ArmCore) (reg : Fin 16) : Word :=
  let value := p.reg (bankPosition (getMode p.reg) reg)
  if reg = 15 then readPc value else value

/-- The values `arm_data_processing_shift` reads for Rn and, before its shift, for Rm. -/
def shiftInputs (p : ArmCore) (ins : Word) : Except Stop (Word × Word) := do
  let shifterOperand ← armReadRegister p (rm ins)
  let valueRn ← armReadRegister p (rn ins)
  let shifterOperand := if rm ins = 15 then shifterOperand + 8
    else if rn ins = 15 then valueRn + 8
    else shifterOperand
  return (valueRn, shifterOperand)

section Handlers

variable [Host]

/-- The two operands `arm_data_processing_shift` passes to `executeInst`. -/
def shiftOperands (p : ArmCore) (ins : Word) : Except Stop (Word × Word) := do
  let (valueRn, so) ← shiftInputs p ins
  let operand ← shiftOperand p ins so
  return (valueRn, operand)

/-- The two operands of `arm_data_processing_immediate_msr`. -/
def immediateOperands (p : ArmCore) (ins : Word) : Except Stop (Word × Word) := do
  let valueRn ← armReadRegister p (rn ins)
  return (valueRn, ror (getBits ins 7 0) ((2 * getBits ins 11 8).setWidth 8))

def execute (p : ArmCore) (ins : Word) (operands : Word × Word) : Except Stop (Int × ArmCore) :=
  executeInst (getBits ins 24 21).toNat p (rd ins) operands.1 operands.2 (getBit ins 20 ≠ 0)

theorem armDataProcessingShift_operands (p : ArmCore) (ins : Word) :
    armDataProcessingShift p ins = (shiftOperands p ins >>= execute p ins) := by
  have hrm : rm ins = 15 ↔ (getBits ins 3 0).toNat = 15 := Fin.ext_iff
  have hrn : rn ins = 15 ↔ (getBits ins 19 16).toNat = 15 := Fin.ext_iff
  simp only [armDataProcessingShift, shiftOperands, shiftInputs, hrm, hrn, bind_assoc, pure_bind]
  rfl

theorem armDataProcessingImmediateMsr_operands (p : ArmCore) (ins : Word) :
    armDataProcessingImmediateMsr p ins = (immediateOperands p ins >>= execute p ins) := by
  simp only [armDataProcessingImmediateMsr, immediateOperands, bind_assoc, pure_bind]
  rfl

end Handlers

/-! ## Reading registers -/

theorem armReadRegister_value {p : ArmCore} (hmode : 16 ≤ getMode p.reg) (reg : Fin 16) :
    armReadRegister p reg = .ok (registerValue p reg) := by
  have hval : reg.val = 15 ↔ reg = 15 := ⟨fun h => Fin.ext h, congrArg Fin.val⟩
  rw [armReadRegister, readRegister_eq hmode (Nat.le_of_lt_succ reg.isLt), ok_bind, registerValue]
  simp only [hval]
  rfl

theorem registerValue_core (q : Processor) (reg : Fin 16) :
    registerValue q.core reg = q.register reg := by
  have hread := armReadRegister_value q.file.mode_ge (p := q.core) reg
  exact Except.ok.inj (hread.symm.trans (q.armReadRegister_eq reg))

theorem shiftInputs_eq {p : ArmCore} (hmode : 16 ≤ getMode p.reg) (ins : Word) :
    shiftInputs p ins = .ok (registerValue p (rn ins),
      if rm ins = 15 then registerValue p (rm ins) + 8
      else if rn ins = 15 then registerValue p (rn ins) + 8
      else registerValue p (rm ins)) := by
  rw [shiftInputs, armReadRegister_value hmode, armReadRegister_value hmode]
  rfl

/-! ## The program counter as an operand -/

/-- What an operand register stands for in an instruction at address `a`. -/
def documentedValue (a : Word) (p : ArmCore) (reg : Fin 16) : Word :=
  if reg = 15 then a + 8 else registerValue p reg

/-- The handler computes on the documented operands; Rm still has its shift to come. -/
def ReadsOperands [Host] (a : Word) (p : ArmCore) (ins : Word) : Prop :=
  match dispatch ins with
  | .dataProcessingShift =>
    shiftInputs p ins = .ok (documentedValue a p (rn ins), documentedValue a p (rm ins))
  | .dataProcessingImmediateMsr => immediateOperands p ins =
      .ok (documentedValue a p (rn ins), ror (getBits ins 7 0) ((2 * getBits ins 11 8).setWidth 8))
  | _ => True

section Fetched

variable {p p' : ArmCore} {value ins a : Word} {r : Int}

theorem registerValue_pc (hfetch : armFetch p value = .ok (r, ins, p'))
    (ha : fetchAddress p = .ok a) : registerValue p' 15 = a + 8 := by
  obtain ⟨pc, hpc, rest⟩ := bind_eq_ok.mp hfetch
  obtain ⟨word, -, rest⟩ := bind_eq_ok.mp rest
  obtain ⟨p₁, hwrite, rest⟩ := bind_eq_ok.mp rest
  rw [pure_eq_ok, Prod.mk.injEq, Prod.mk.injEq] at rest
  obtain ⟨-, -, rfl⟩ := rest
  obtain ⟨hmode, rfl⟩ := armWriteRegister_update le_rfl hwrite
  have hread : armReadRegister p 15 = .ok (registerValue p 15) := armReadRegister_value hmode 15
  have hpc' : pc = registerValue p 15 := (Except.ok.inj (hread.symm.trans hpc)).symm
  rw [fetchAddress, hread, ok_bind, pure_eq_ok] at ha
  have hne := bankPosition_ne_cpsr (getMode_lt p.reg) (le_refl 15)
  simp only [registerValue, getMode_update hne, if_true]
  change readPc (Function.update p.reg _ _ (bankPosition (getMode p.reg) 15)) = _
  have hpcval : registerValue p 15 = readPc (p.reg (bankPosition (getMode p.reg) 15)) := rfl
  rw [Function.update_self, hpc', ← ha, hpcval, BitVec.sub_add_cancel, readPc_readPc]
  bv_omega

theorem registerValue_fetched (hfetch : armFetch p value = .ok (r, ins, p'))
    (ha : fetchAddress p = .ok a) (reg : Fin 16) :
    registerValue p' reg = documentedValue a p' reg := by
  by_cases hreg : reg = 15
  · rw [documentedValue, if_pos hreg, hreg, registerValue_pc hfetch ha]
  · rw [documentedValue, if_neg hreg]

/-- The operands are the documented ones in the immediate form, and in the register form
when Rm is not the program counter and, if Rn is, holds what replaces it. -/
theorem readsOperands_iff [Host] (hfetch : armFetch p value = .ok (r, ins, p'))
    (ha : fetchAddress p = .ok a) : ReadsOperands a p' ins ↔
      (dispatch ins = .dataProcessingShift → rm ins ≠ 15 ∧
        (rn ins = 15 → registerValue p' (rm ins) = a + 16)) := by
  have hmode := (armFetch_mode hfetch).2
  have hvalue := registerValue_fetched hfetch ha
  unfold ReadsOperands
  cases dispatch ins
  case dataProcessingShift =>
    have hpc := registerValue_pc hfetch ha
    rw [forall_prop_of_true rfl, shiftInputs_eq hmode, ← hvalue, ← hvalue, Except.ok.injEq,
      Prod.mk.injEq, and_iff_right rfl]
    by_cases hrm : rm ins = 15
    · -- 16 instead of 8
      rw [if_pos hrm, hrm, hpc]
      exact iff_of_false (by bv_omega) fun h => h.1 rfl
    · rw [if_neg hrm, and_iff_right hrm]
      by_cases hrn : rn ins = 15
      · have hsum : a + 8 + 8 = a + 16 := by bv_omega
        rw [if_pos hrn, hrn, hpc, forall_prop_of_true rfl, hsum, eq_comm]
      · rw [if_neg hrn]
        exact iff_of_true rfl fun h => absurd h hrn
  case dataProcessingImmediateMsr =>
    simp only [reduceCtorEq, IsEmpty.forall_iff, iff_true]
    rw [immediateOperands, armReadRegister_value hmode, hvalue]
    rfl
  all_goals simp

end Fetched

/-- `add r1, pc, #4` at address 0. -/
def addProgram : Processor := program .svc #[0x04, 0x10, 0x8F, 0xE2]

/-- `add r1, r2, r3` at address 0. -/
def addRegisterProgram : Processor := program .svc #[0x03, 0x10, 0x82, 0xE0]

/-- `mov r1, pc` at address 0. -/
def movPcProgram : Processor := program .svc #[0x0F, 0x10, 0xA0, 0xE1]

theorem fetchAddress_program (m : Mode) (image : Array Byte) :
    fetchAddress (program m image).core = .ok 0 := by
  rw [fetchAddress_core, pcAddress_program]

theorem readsOperands_add : @ReadsOperands Host.x86 0 (fetched addProgram).core 0xE28F1004 ∧
    @ReadsOperands Host.x86 0 (fetched addRegisterProgram).core 0xE0821003 :=
  ⟨(@readsOperands_iff _ _ 0 _ _ _ Host.x86 (program_fetch .svc rfl)
      (fetchAddress_program .svc _)).mpr fun h => absurd h (by decide),
    (@readsOperands_iff _ _ 0 _ _ _ Host.x86 (program_fetch .svc rfl)
      (fetchAddress_program .svc _)).mpr fun _ => ⟨by decide, fun h => absurd h (by decide)⟩⟩

/-- `mov r1, pc` moves 16. -/
theorem movPc_not_readsOperands : ¬ ∀ (_ : Host) (p p' : ArmCore) (value ins a : Word),
    armFetch p value = .ok (0, ins, p') → fetchAddress p = .ok a → ReadsOperands a p' ins := by
  intro h
  have hfetch : armFetch movPcProgram.core 0 = .ok (0, 0xE1A0100F, (fetched movPcProgram).core) :=
    program_fetch .svc rfl
  have hpc := registerValue_pc hfetch (fetchAddress_program .svc _)
  have hrm : rm 0xE1A0100F = 15 := by decide
  have hdispatch : dispatch 0xE1A0100F = .dataProcessingShift := by decide
  have hreads := h Host.x86 _ _ _ _ _ hfetch (fetchAddress_program .svc _)
  have hmode : 16 ≤ getMode (fetched movPcProgram).core.reg := (fetched movPcProgram).file.mode_ge
  simp only [ReadsOperands, hdispatch, shiftInputs_eq hmode, hrm, documentedValue, if_true, hpc,
    Except.ok.injEq, Prod.mk.injEq] at hreads
  exact absurd hreads.2 (by decide)

end ArmSimulator.DataProcessing
