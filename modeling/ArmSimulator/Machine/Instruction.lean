import ArmSimulator.Machine.Exception
import ArmSimulator.Machine.DataProcessing
import ArmSimulator.Machine.LoadStore
import ArmSimulator.Machine.BranchOther

/-! # Decoding and the processor step (`arm_instruction.c`) -/

namespace ArmSimulator.Machine

open Foundation.LookupTable

/-- The value the loop body of `init_decode_condition` computes. -/
def decodeConditionValue (cond flags : Nat) : Bool :=
  match cond with
  | 0b0000 => flags &&& 0b0100 ≠ 0
  | 0b0001 => flags &&& 0b0100 = 0
  | 0b0010 => flags &&& 0b0010 ≠ 0
  | 0b0011 => flags &&& 0b0010 = 0
  | 0b0100 => flags &&& 0b1000 ≠ 0
  | 0b0101 => flags &&& 0b1000 = 0
  | 0b0110 => flags &&& 0b0001 ≠ 0
  | 0b0111 => flags &&& 0b0001 = 0
  | 0b1000 => flags &&& 0b0110 = 0b0010
  | 0b1001 => flags &&& 0b0100 ≠ 0 ∨ flags &&& 0b0010 = 0
  | 0b1010 => (flags &&& 0b1000) >>> 3 = flags &&& 0b0001
  | 0b1011 => (flags &&& 0b1000) >>> 3 ≠ flags &&& 0b0001
  | 0b1100 => (flags &&& 0b1000) >>> 3 = flags &&& 0b0001 ∧ flags &&& 0b0100 = 0
  | 0b1101 => (flags &&& 0b1000) >>> 3 ≠ flags &&& 0b0001 ∨ flags &&& 0b0100 ≠ 0
  | _ => false

/-- `(cond << 4) | flags` -/
def decodeConditionIndex (cond flags : Nat) : Nat := (cond <<< 4) ||| flags

def initDecodeCondition : Lazy Bool → Lazy Bool :=
  Lazy.force (loops 14 16 decodeConditionIndex decodeConditionValue)

/-- The table the decoder sees after its call of `init_decode_condition`. -/
def armDecodeCondition (cond flags : Nat) : Bool :=
  ((initDecodeCondition Lazy.start).table (decodeConditionIndex cond flags)).getD false

section Step

variable [Host]

/-- The `switch` of `arm_execute_instruction` on the instruction class. -/
def executeClass (u : Locals) (p : ArmCore) (inst : Word) : Except Stop (Int × ArmCore) :=
  match (getBits inst 27 25).toNat with
  | 0 =>
    if getBits inst 24 23 = 0b10 ∧ (getBits inst 21 20 = 0b00 ∨ getBits inst 21 20 = 0b10) then
      armMiscellaneous p inst
    else if getBit inst 4 = 1 ∧ getBit inst 7 = 1 then armLoadStore u p inst
    else armDataProcessingShift p inst
  | 1 =>
    if getBits inst 24 23 = 0b10 ∧ getBits inst 21 20 = 0b10 then armMiscellaneous p inst
    else armDataProcessingImmediateMsr p inst
  | 2 => armLoadStore u p inst
  | 3 => armLoadStore u p inst
  | 4 => armLoadStoreMultiple u p inst
  | 6 => armCoprocessorLoadStore p inst
  | 5 => armBranch p inst
  | 7 => armCoprocessorOthersSwi p inst
  | _ => .ok (0, p)

/-- The condition field of an instruction. -/
def condField (inst : Word) : Nat := (getBits inst 31 28).toNat

/-- The flags N, Z, C, V as the decoder indexes its table with them. -/
def cpsrFlags (p : ArmCore) : Nat := (getBits (armReadCpsr p) 31 28).toNat

/-- `arm_execute_instruction` after a successful fetch of `inst`. -/
def executeFetched (u : Locals) (p : ArmCore) (inst : Word) : Except Stop (Int × ArmCore) :=
  if condField inst = 0b1111 then .ok (Exception.undefinedInstruction, p)
  else if condField inst ≠ 0b1110 ∧ ¬ armDecodeCondition (condField inst) (cpsrFlags p) then
    .ok (0, p)
  else executeClass u p inst

def armExecuteInstruction (u : Locals) (p : ArmCore) : Except Stop (Int × ArmCore) := do
  let (res, inst, p) ← armFetch p u.inst
  if res ≠ 0 then return (Exception.prefetchAbort, p)
  else executeFetched u p inst

/-- The end of `arm_step`: a nonzero result is raised as an exception. -/
def raiseResult (r : Int × ArmCore) : Except Stop (Int × ArmCore) :=
  if r.1 ≠ 0 then do
    let p ← armException r.2 (toUint8 r.1)
    return (r.1, p)
  else .ok r

def armStep (u : Locals) (p : ArmCore) : Except Stop (Int × ArmCore) := do
  let r ← armExecuteInstruction u p
  raiseResult r

end Step

end ArmSimulator.Machine
