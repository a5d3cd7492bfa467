import ArmSimulator.Machine.Core

/-! # Exception entry (`arm_exception.c`) -/

namespace ArmSimulator.Machine

/-- The third argument of `execute_`, a string in the source. -/
inductive ReturnState where
  | current | next
  deriving DecidableEq, Repr

/-- `HIGH_VECTOR_ADDRESS` is 0. -/
def branchExceptionVector (p : ArmCore) (address : Word) : Except Stop ArmCore :=
  armWriteRegister p 15 (address &&& 0xFFFF)

/-- The CPSR that `execute_` writes; the endianness bit of CP15 is 0. -/
def entryCpsr (cpsr : Word) (cpsrBitsValue : Word) (cpsrValuesCount : Nat) : Word :=
  let cpsr := setBits cpsr 4 0 cpsrBitsValue
  let cpsr := clrBit cpsr 5
  let cpsr := if cpsrValuesCount = 3 then setBit cpsr 6 else cpsr
  let cpsr := setBit cpsr 7
  clrBit cpsr 9

def execute_ (p : ArmCore) (needSpsr : Bool) (cpsrBitsValue : Word) (cpsrValuesCount : Nat)
    (state : ReturnState) (exceptionVector : Word) : Except Stop ArmCore := do
  let cpsr := armReadCpsr p
  let sp ← armReadRegister p 13
  let spsr := cpsr
  let pc ← armReadRegister p 15
  let addr := match state with
    | .current => pc - 4
    | .next => pc
  let p := armWriteCpsr p (entryCpsr cpsr cpsrBitsValue cpsrValuesCount)
  let p ← armWriteRegister p 13 sp
  let p ← armWriteRegister p 14 addr
  let p ← if needSpsr then armWriteSpsr p spsr else pure p
  branchExceptionVector p exceptionVector

def executeReset (p : ArmCore) : Except Stop ArmCore := execute_ p false 0b10011 3 .next 0
def executeUndefinedInstruction (p : ArmCore) : Except Stop ArmCore :=
  execute_ p true 0b11011 2 .next 0x4
def executeSoftwareInterrupt (p : ArmCore) : Except Stop ArmCore :=
  execute_ p true 0b10011 2 .next 0x8
def executePrefetchAbort (p : ArmCore) : Except Stop ArmCore :=
  execute_ p true 0b10111 2 .current 0xC
def executeDataAbort (p : ArmCore) : Except Stop ArmCore :=
  execute_ p true 0b10111 2 .current 0x10
def executeIrq (p : ArmCore) : Except Stop ArmCore := execute_ p true 0b10010 2 .next 0x18
def executeFastIrq (p : ArmCore) : Except Stop ArmCore := execute_ p true 0b10001 3 .next 0x1C

/-- The exception number arrives as an unsigned char. -/
def armException (p : ArmCore) (exception : Byte) : Except Stop ArmCore :=
  match exception.toNat with
  | 1 => executeReset p
  | 2 => executeUndefinedInstruction p
  | 3 => executeSoftwareInterrupt p
  | 4 => executePrefetchAbort p
  | 5 => executeDataAbort p
  | 6 => executeIrq p
  | 7 => executeFastIrq p
  | _ => .ok p

/-- `registers` and `mem` are what `malloc` and `memory_create` provide. -/
def armCreate (registers : Registers) (mem : Memory) : Except Stop ArmCore := do
  let p ← armException ⟨0, registersCreate registers, mem⟩ 1
  return { p with cycleCount := 0 }

/-- One byte received by `irq_listener`. -/
def irqListener (p : ArmCore) (irq : Byte) : Except Stop ArmCore := armException p irq

end ArmSimulator.Machine
