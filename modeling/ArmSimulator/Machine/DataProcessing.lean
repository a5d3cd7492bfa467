import ArmSimulator.Machine.Core

/-! # Data-processing instructions (`arm_data_processing.c`)

Flags are C ints that only take the values 0 and 1 and are booleans here.
-/

namespace ArmSimulator.Machine

/-- The operator character of `getCarryFlag` and `getOverflowFlag`. -/
inductive Operator where
  | plus | minus
  deriving DecidableEq, Repr

/-- The body of the loop of `getCarryFlag` at bit `i`. -/
def carryFlagStep (left right : Word) (operand : Operator) (cFlag : Bool) (i : Nat) : Bool :=
  let leftBit : Int := (getBit left i).toNat
  let rightBit : Int := (getBit right i).toNat
  let c : Int := cFlag.toNat
  let res := leftBit + (if operand = .plus then rightBit + c else -rightBit - c)
  if operand = .plus ∧ 1 < res then true
  else if operand = .minus ∧ (res = 2 ∨ res = -1) then true
  else false

/-- The loop runs over the bits 0 to 30. -/
def getCarryFlag (left right : Word) (operand : Operator) : Bool :=
  (List.range 31).foldl (carryFlagStep left right operand) false

def getCarryFlagAdd (left right : Word) : Bool := getCarryFlag left right .plus
def getCarryFlagSub (left right : Word) : Bool := getCarryFlag left right .minus

def getOverflowFlag (res a b : Word) (operand : Operator) : Bool :=
  let leftBit := getBit a 31
  let rightBit := getBit b 31
  match operand with
  | .plus => rightBit = leftBit ∧ rightBit ≠ getBit res 31
  | .minus => rightBit ≠ leftBit ∧ rightBit ≠ getBit res 31

def getOverflowFlagAdd (res a b : Word) : Bool := getOverflowFlag res a b .plus
def getOverflowFlagSub (res a b : Word) : Bool := getOverflowFlag res a b .minus

/-- The value of a C truth value in arithmetic. -/
def boolInt (b : Bool) : Word := if b then 1 else 0

/-- What the `switch` of `executeInst` assigns; `test` is set by `updateForTest`. -/
structure AluResult where
  res : Word
  cFlag : Bool
  vFlag : Bool
  test : Bool := false
  deriving DecidableEq, Repr

/-- The `switch` of `executeInst`, `none` for its default case. -/
def aluSwitch (opcode : Nat) (cFlag vFlag : Bool) (valueRn shifterOperand : Word) :
    Option AluResult :=
  match opcode with
  | 0b0000 => some ⟨boolInt (valueRn ≠ 0 ∧ shifterOperand ≠ 0), cFlag, vFlag, false⟩
  | 0b0001 => some ⟨boolInt ((valueRn ≠ 0 ∨ shifterOperand ≠ 0) ∧
      ¬ (valueRn ≠ 0 ∧ shifterOperand ≠ 0)), cFlag, vFlag, false⟩
  | 0b0010 =>
    let res := valueRn - shifterOperand
    some ⟨res, getCarryFlagSub valueRn shifterOperand,
      getOverflowFlagSub res valueRn shifterOperand, false⟩
  | 0b0011 =>
    let res := shifterOperand - valueRn
    some ⟨res, getCarryFlagSub shifterOperand valueRn,
      getOverflowFlagSub res shifterOperand valueRn, false⟩
  | 0b0100 =>
    let res := shifterOperand + valueRn
    some ⟨res, getCarryFlagAdd shifterOperand valueRn,
      getOverflowFlagAdd res shifterOperand valueRn, false⟩
  | 0b0101 =>
    let res := shifterOperand + valueRn + boolInt cFlag
    let sum := shifterOperand + valueRn
    let newC := getCarryFlagAdd shifterOperand valueRn
    let newV := getOverflowFlagAdd sum shifterOperand valueRn
    some ⟨res, if !newC && cFlag then getCarryFlagAdd sum 1 else newC,
      if !newV && cFlag then getOverflowFlagAdd res (valueRn + shifterOperand) 1 else newV, false⟩
  | 0b0110 =>
    let res := valueRn - shifterOperand - ~~~boolInt cFlag
    let diff := valueRn - shifterOperand
    let newC := getCarryFlagSub valueRn shifterOperand
    let newV := getOverflowFlagSub diff valueRn shifterOperand
    some ⟨res, if !newC && !cFlag then getCarryFlagSub diff 1 else newC,
      if !newV && !cFlag then getOverflowFlagSub res diff 1 else newV, false⟩
  | 0b0111 =>
    let res := shifterOperand - valueRn - ~~~boolInt cFlag
    let diff := shifterOperand - valueRn
    let newC := getCarryFlagSub shifterOperand valueRn
    let newV := getOverflowFlagSub diff shifterOperand valueRn
    some ⟨res, if !newC && !cFlag then getCarryFlagSub diff 1 else newC,
      if !newV && !cFlag then getOverflowFlagSub res diff 1 else newV, false⟩
  | 0b1000 => some ⟨boolInt (valueRn ≠ 0 ∧ shifterOperand ≠ 0), cFlag, vFlag, true⟩
  | 0b1001 => some ⟨boolInt ((valueRn ≠ 0 ∨ shifterOperand ≠ 0) ∧
      ¬ (valueRn ≠ 0 ∧ shifterOperand ≠ 0)), cFlag, vFlag, true⟩
  | 0b1010 =>
    let res := valueRn - shifterOperand
    some ⟨res, getCarryFlagSub valueRn shifterOperand,
      getOverflowFlagSub res valueRn shifterOperand, true⟩
  | 0b1011 =>
    let res := valueRn + shifterOperand
    some ⟨res, getCarryFlagAdd shifterOperand valueRn,
      getOverflowFlagAdd res valueRn shifterOperand, true⟩
  | 0b1100 => some ⟨boolInt (valueRn ≠ 0 ∨ shifterOperand ≠ 0), cFlag, vFlag, false⟩
  | 0b1101 => some ⟨shifterOperand, cFlag, vFlag, false⟩
  | 0b1110 => some ⟨boolInt (valueRn ≠ 0 ∧ ~~~shifterOperand ≠ 0), cFlag, vFlag, false⟩
  | 0b1111 => some ⟨~~~shifterOperand, cFlag, vFlag, false⟩
  | _ => none

/-- The loop over the table `t` of flags and their bits. -/
def packFlags (valueCpsr : Word) (zFlag nFlag cFlag vFlag : Bool) : Word :=
  [(zFlag, 30), (nFlag, 31), (cFlag, 29), (vFlag, 28)].foldl
    (fun cpsr t => if t.1 then setBit cpsr t.2 else clrBit cpsr t.2) valueCpsr

def executeInst (opcode : Nat) (p : ArmCore) (rd : Nat) (valueRn shifterOperand : Word)
    (updateCPSR : Bool) : Except Stop (Int × ArmCore) := do
  let valueCpsr := armReadCpsr p
  let cFlag : Bool := getBit valueCpsr 29 ≠ 0
  let vFlag : Bool := getBit valueCpsr 28 ≠ 0
  match aluSwitch opcode cFlag vFlag valueRn shifterOperand with
  | none => return (Exception.undefinedInstruction, p)
  | some ⟨res, cFlag, vFlag, test⟩ =>
    let updateCPSR := updateCPSR || test
    let writeRegister := !test
    let zFlag : Bool := res = 0
    let nFlag : Bool := getBit res 31 ≠ 0
    let p ← if writeRegister then armWriteRegister p rd res else pure p
    if updateCPSR then
      if writeRegister && rd = 15 then
        if currentModeHasSpsr p.reg then do
          let spsr ← armReadSpsr p
          return (0, armWriteCpsr p spsr)
        else return (0, p)
      else return (0, armWriteCpsr p (packFlags valueCpsr zFlag nFlag cFlag vFlag))
    else return (0, p)

/-- The operation names of `getShifterOperand`, strings in the source. -/
inductive Shift where
  | lsl | lsr | asr | ror
  deriving DecidableEq, Repr

section Shifter

variable [Host]

/-- `so` and `si` are ints, so `>>` is arithmetic; `asr` and `ror` take the low byte of `si`. -/
def getShifterOperand (so si : Word) (operand : Shift) : Word :=
  if 0 < si.toInt then
    match operand with
    | .lsl => cShl so si.toInt
    | .lsr => cSar so si.toInt
    | .asr => asr so (si.setWidth 8)
    | .ror => ror so (si.setWidth 8)
  else so

def getShifterOperandImmediate (ins so : Word) (operand : Shift) : Word :=
  getShifterOperand so (getBits ins 11 7) operand

def getShifterOperandRegister (p : ArmCore) (ins so : Word) (operand : Shift) :
    Except Stop Word := do
  let si ← armReadRegister p (getBits ins 11 8).toNat
  return getShifterOperand so si operand

/-- The loop of `arm_data_processing_shift` that looks for bits 6..4 among 0 to 6. -/
def shiftOperand (p : ArmCore) (ins so : Word) : Except Stop Word :=
  let i := (getBits ins 6 4).toNat
  if i < 7 then
    let op := if i < 2 then Shift.lsl else if i < 4 then .lsr else if i < 6 then .asr else .ror
    if i % 2 = 0 then .ok (getShifterOperandImmediate ins so op)
    else getShifterOperandRegister p ins so op
  else .ok so

def armDataProcessingShift (p : ArmCore) (ins : Word) : Except Stop (Int × ArmCore) := do
  let opcode := (getBits ins 24 21).toNat
  let rn := (getBits ins 19 16).toNat
  let rd := (getBits ins 15 12).toNat
  let updateCPSR : Bool := getBit ins 20 ≠ 0
  let rm := (getBits ins 3 0).toNat
  let shifterOperand ← armReadRegister p rm
  let valueRn ← armReadRegister p rn
  let shifterOperand := if rm = 15 then shifterOperand + 8
    else if rn = 15 then valueRn + 8
    else shifterOperand
  let shifterOperand ← shiftOperand p ins shifterOperand
  executeInst opcode p rd valueRn shifterOperand updateCPSR

def armDataProcessingImmediateMsr (p : ArmCore) (ins : Word) : Except Stop (Int × ArmCore) := do
  let opcode := (getBits ins 24 21).toNat
  let rn := (getBits ins 19 16).toNat
  let rd := (getBits ins 15 12).toNat
  let updateCPSR : Bool := getBit ins 20 ≠ 0
  let rotateImm := getBits ins 11 8
  let shifterOperand := ror (getBits ins 7 0) ((2 * rotateImm).setWidth 8)
  let valueRn ← armReadRegister p rn
  executeInst opcode p rd valueRn shifterOperand updateCPSR

end Shifter

end ArmSimulator.Machine
