import ArmSimulator.Machine.Core

/-! # Branches, software interrupts and status register moves (`arm_branch_other.c`) -/

namespace ArmSimulator.Machine

def armBranch (p : ArmCore) (ins : Word) : Except Stop (Int × ArmCore) := do
  let p ← if getBit ins 24 ≠ 0 then do
      let pc ← armReadRegister p 15
      armWriteRegister p 14 (pc - 4)
    else pure p
  let adress := getBits ins 23 0
  -- signed: the right shift copies the sign
  let adress := if getBit ins 23 ≠ 0 then -((~~~(adress <<< 8)).sshiftRight 8 + 1) else adress
  let pc ← armReadRegister p 15
  let p ← armWriteRegister p 15 (pc + (adress <<< 2))
  return (0, p)

/-- `swi 0x123456` ends the simulator. -/
def armCoprocessorOthersSwi (p : ArmCore) (ins : Word) : Except Stop (Int × ArmCore) :=
  if getBit ins 24 ≠ 0 then
    if ins &&& 0xFFFFFF = 0x123456 then .error (.exit 0)
    else .ok (Exception.softwareInterrupt, p)
  else .ok (Exception.undefinedInstruction, p)

/-- The status word `write_psr` assembles; `value` is a single byte. -/
def psrFields (ins psr : Word) (value : Byte) : Word :=
  let bits := value.setWidth 32
  let psr := if getBit ins 16 ≠ 0 then setBits psr 7 0 bits else psr
  let psr := if getBit ins 17 ≠ 0 then setBits psr 15 8 bits else psr
  let psr := if getBit ins 18 ≠ 0 then setBits psr 23 16 bits else psr
  if getBit ins 19 ≠ 0 then
    let psr := setBits psr 30 24 bits
    if getBit bits 7 ≠ 0 then setBit psr 31 else clrBit psr 31
  else psr

def writePsr (p : ArmCore) (ins : Word) (value : Byte) (R : Bool) : Except Stop ArmCore := do
  let psr ← if R then armReadSpsr p else pure (armReadCpsr p)
  let psr := psrFields ins psr value
  if R then armWriteSpsr p psr else return armWriteCpsr p psr

variable [Host]

def armMiscellaneous (p : ArmCore) (ins : Word) : Except Stop (Int × ArmCore) := do
  let R : Bool := getBit ins 22 ≠ 0
  if getBits ins 21 20 = 0b10 then
    if getBit ins 25 ≠ 0 then
      let rotateImm := getBits ins 11 8
      let immediate : Byte := (getBits ins 7 0).setWidth 8
      let immediate : Byte := (ror (immediate.setWidth 32) ((2 * rotateImm).setWidth 8)).setWidth 8
      let p ← writePsr p ins immediate R
      return (0, p)
    else
      let rm := (getBits ins 3 0).toNat
      let value ← armReadRegister p rm
      let p ← writePsr p ins (value.setWidth 8) R
      return (0, p)
  else
    let rd := (getBits ins 15 12).toNat
    let value ← if R then armReadSpsr p else pure (armReadCpsr p)
    let p ← armWriteRegister p rd value
    return (0, p)

end ArmSimulator.Machine
