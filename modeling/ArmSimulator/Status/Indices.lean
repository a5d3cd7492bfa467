import ArmSimulator.Exceptions.Masking
import ArmSimulator.Foundation.Recording
import ArmSimulator.Status.Frame

/-! # The indices of the bank table

The functions that look up a register in the bank table, and those that call them, once more
with a record of the modes and columns of their lookups. The results are those of the
functions without it.
-/

namespace ArmSimulator.Status

open Machine RegisterFile Transfers Conditions Decoding DataProcessing Exceptions
  Foundation.ExceptRun Foundation.Recording Foundation.Recording.Recorded

/-- A computation of the simulator with the modes and columns it looks up. -/
abbrev Indexed (α : Type) := Foundation.Recording.Recorded (ℕ × ℕ) Stop α

/-! ## Registers with their indices -/

def modePositionIndexed (mode reg : ℕ) : Indexed Position := ⟨[(mode, reg)], modePosition mode reg⟩

def readRegisterIndexed (r : Registers) (reg : ℕ) : Indexed Word :=
  if ¬ isValid reg then pure 0
  else do
    let position ← modePositionIndexed (getMode r) reg
    return r position

def readSpsrIndexed (r : Registers) : Indexed Word :=
  if ¬ hasSpsr r then pure 0
  else do
    let position ← modePositionIndexed (getMode r) 17
    return r position

def writeRegisterIndexed (r : Registers) (reg : ℕ) (value : Word) : Indexed Registers :=
  if ¬ isValid reg then pure r
  else do
    let position ← modePositionIndexed (getMode r) reg
    return Function.update r position value

def writeSpsrIndexed (r : Registers) (value : Word) : Indexed Registers :=
  if ¬ hasSpsr r then pure r
  else do
    let position ← modePositionIndexed (getMode r) 17
    return Function.update r position value

def armReadRegisterIndexed (p : ArmCore) (reg : ℕ) : Indexed Word := do
  let value ← readRegisterIndexed p.reg reg
  return if reg = 15 then readPc value else value

def armReadSpsrIndexed (p : ArmCore) : Indexed Word := readSpsrIndexed p.reg

def armWriteRegisterIndexed (p : ArmCore) (reg : ℕ) (value : Word) : Indexed ArmCore := do
  let reg ← writeRegisterIndexed p.reg reg value
  return { p with reg }

def armWriteSpsrIndexed (p : ArmCore) (value : Word) : Indexed ArmCore := do
  let reg ← writeSpsrIndexed p.reg value
  return { p with reg }

def armFetchIndexed (p : ArmCore) (value : Word) : Indexed (Int × Word × ArmCore) := do
  let p := { p with cycleCount := p.cycleCount + 1 }
  let address := (← armReadRegisterIndexed p 15) - 4
  let (result, value) ← lift (memoryReadWord p.mem address value)
  let p ← armWriteRegisterIndexed p 15 (address + 4)
  return (result, value, p)

/-! ## Branches and moves of the status -/

def armBranchIndexed (p : ArmCore) (ins : Word) : Indexed (Int × ArmCore) := do
  let p ← if getBit ins 24 ≠ 0 then do
      let pc ← armReadRegisterIndexed p 15
      armWriteRegisterIndexed p 14 (pc - 4)
    else pure p
  let adress := getBits ins 23 0
  let adress := if getBit ins 23 ≠ 0 then -((~~~(adress <<< 8)).sshiftRight 8 + 1) else adress
  let pc ← armReadRegisterIndexed p 15
  let p ← armWriteRegisterIndexed p 15 (pc + (adress <<< 2))
  return (0, p)

def writePsrIndexed (p : ArmCore) (ins : Word) (value : Byte) (R : Bool) : Indexed ArmCore := do
  let psr ← if R then armReadSpsrIndexed p else pure (armReadCpsr p)
  let psr := psrFields ins psr value
  if R then armWriteSpsrIndexed p psr else return armWriteCpsr p psr

section Moves

variable [Host]

def armMiscellaneousIndexed (p : ArmCore) (ins : Word) : Indexed (Int × ArmCore) := do
  let R : Bool := getBit ins 22 ≠ 0
  if getBits ins 21 20 = 0b10 then
    if getBit ins 25 ≠ 0 then
      let rotateImm := getBits ins 11 8
      let immediate : Byte := (getBits ins 7 0).setWidth 8
      let immediate : Byte := (ror (immediate.setWidth 32) ((2 * rotateImm).setWidth 8)).setWidth 8
      let p ← writePsrIndexed p ins immediate R
      return (0, p)
    else
      let rm := (getBits ins 3 0).toNat
      let value ← armReadRegisterIndexed p rm
      let p ← writePsrIndexed p ins (value.setWidth 8) R
      return (0, p)
  else
    let rd := (getBits ins 15 12).toNat
    let value ← if R then armReadSpsrIndexed p else pure (armReadCpsr p)
    let p ← armWriteRegisterIndexed p rd value
    return (0, p)

/-! ## Data processing -/

def executeInstIndexed (opcode : ℕ) (p : ArmCore) (rd : ℕ) (valueRn shifterOperand : Word)
    (updateCPSR : Bool) : Indexed (Int × ArmCore) := do
  let valueCpsr := armReadCpsr p
  let cFlag : Bool := getBit valueCpsr 29 ≠ 0
  let vFlag : Bool := getBit valueCpsr 28 ≠ 0
  match aluSwitch opcode cFlag vFlag valueRn shifterOperand with
  | none => return (Exception.undefinedInstruction, p)
  | some ⟨res, cFlag, vFlag, test⟩ =>
    let updateCPSR := updateCPSR || test
    let writeRegister := !test
    let zFlag : Bool := res = 0
    let nFlag : Bool := getBit res 31 ≠ 0
    let p ← if writeRegister then armWriteRegisterIndexed p rd res else pure p
    if updateCPSR then
      if writeRegister && rd = 15 then
        if currentModeHasSpsr p.reg then do
          let spsr ← armReadSpsrIndexed p
          return (0, armWriteCpsr p spsr)
        else return (0, p)
      else return (0, armWriteCpsr p (packFlags valueCpsr zFlag nFlag cFlag vFlag))
    else return (0, p)

def getShifterOperandRegisterIndexed (p : ArmCore) (ins so : Word) (operand : Shift) :
    Indexed Word := do
  let si ← armReadRegisterIndexed p (getBits ins 11 8).toNat
  return getShifterOperand so si operand

def shiftOperandIndexed (p : ArmCore) (ins so : Word) : Indexed Word :=
  let i := (getBits ins 6 4).toNat
  if i < 7 then
    let op := if i < 2 then Shift.lsl else if i < 4 then .lsr else if i < 6 then .asr else .ror
    if i % 2 = 0 then pure (getShifterOperandImmediate ins so op)
    else getShifterOperandRegisterIndexed p ins so op
  else pure so

def armDataProcessingShiftIndexed (p : ArmCore) (ins : Word) : Indexed (Int × ArmCore) := do
  let opcode := (getBits ins 24 21).toNat
  let rn := (getBits ins 19 16).toNat
  let rd := (getBits ins 15 12).toNat
  let updateCPSR : Bool := getBit ins 20 ≠ 0
  let rm := (getBits ins 3 0).toNat
  let shifterOperand ← armReadRegisterIndexed p rm
  let valueRn ← armReadRegisterIndexed p rn
  let shifterOperand := if rm = 15 then shifterOperand + 8
    else if rn = 15 then valueRn + 8
    else shifterOperand
  let shifterOperand ← shiftOperandIndexed p ins shifterOperand
  executeInstIndexed opcode p rd valueRn shifterOperand updateCPSR

def armDataProcessingImmediateMsrIndexed (p : ArmCore) (ins : Word) :
    Indexed (Int × ArmCore) := do
  let opcode := (getBits ins 24 21).toNat
  let rn := (getBits ins 19 16).toNat
  let rd := (getBits ins 15 12).toNat
  let updateCPSR : Bool := getBit ins 20 ≠ 0
  let rotateImm := getBits ins 11 8
  let shifterOperand := ror (getBits ins 7 0) ((2 * rotateImm).setWidth 8)
  let valueRn ← armReadRegisterIndexed p rn
  executeInstIndexed opcode p rd valueRn shifterOperand updateCPSR

end Moves

/-! ## Loads and stores -/

def addrmodeLoadStoreMiscellaneousIndexed (proc : ArmCore) (ins rn offset : Word) :
    Indexed (Word × Word) := do
  let b : Bool := getBit ins 22 ≠ 0
  let rm ← armReadRegisterIndexed proc (getBits ins 3 0).toNat
  if pBit ins then
    let address := op ins rn (if !b then rm else offset)
    return (address, if wBit ins && conditionPassed proc ins then address else rn)
  else
    return (rn, if conditionPassed proc ins then op ins rn (if b then offset else rm) else rn)

def executeInstrMiscellaneousIndexed (u : Locals) (proc : ArmCore) (ins address : Word) :
    Indexed (Byte × ArmCore) := do
  let rd := (getBits ins 15 12).toNat
  let h := getBit ins 5
  let s := getBit ins 6
  let l := getBit ins 20
  match ((l <<< 2) + (s <<< 1) + h).toNat with
  | 1 =>
    if conditionPassed proc ins then
      let half : Half := ((← armReadRegisterIndexed proc rd) &&& 0xFFFF).setWidth 16
      let (res, proc) ← lift (armWriteHalf proc address half)
      return (toUint8 res, proc)
    else return (0, proc)
  | 2 =>
    if ¬ rd % 2 ≠ 0 ∨ rd = 14 ∨ ¬ getBits address 1 0 ≠ 0 then return (0, proc)
    else
      let (res, word) ← lift (armReadWord proc address u.word)
      if res = 0 then
        let proc ← armWriteRegisterIndexed proc rd word
        let (res, word) ← lift (armReadWord proc (address + 4) word)
        if res ≠ 0 then return (0, proc)
        else
          let proc ← armWriteRegisterIndexed proc (rd + 1) word
          return (0, proc)
      else return (0, proc)
  | 3 =>
    if ¬ rd % 2 ≠ 0 ∨ rd = 14 ∨ ¬ getBits address 1 0 ≠ 0 ∨ ¬ getBit address 2 ≠ 0 then
      return (0, proc)
    else
      let word ← armReadRegisterIndexed proc rd
      let (res, proc) ← lift (armWriteWord proc address word)
      if res = 0 then
        let word ← armReadRegisterIndexed proc (rd + 1)
        let (res, proc) ← lift (armWriteWord proc (address + 4) word)
        return (toUint8 res, proc)
      else return (toUint8 res, proc)
  | 5 =>
    let (res, half) ← lift (armReadHalf proc address u.half)
    let proc ← if res = 0 then armWriteRegisterIndexed proc rd (half.setWidth 32) else pure proc
    return (toUint8 res, proc)
  | _ => return (toUint8 Exception.undefinedInstruction, proc)

def executeLdrIndexed (u : Locals) (proc : ArmCore) (rd : ℕ) (address : Word) :
    Indexed (Byte × ArmCore) := do
  let (res, word) ← lift (armReadWord proc address u.word)
  if res = 0 ∧ rd = 15 then
    let proc := armWriteCpsr proc (thumbCpsr (armReadCpsr proc) word)
    let proc ← armWriteRegisterIndexed proc rd (word &&& 0xFFFFFFFE)
    return (0, proc)
  else
    let proc ← armWriteRegisterIndexed proc rd word
    return (0, proc)

def executeInstrWordByteIndexed (u : Locals) (proc : ArmCore) (ins address : Word) :
    Indexed (Byte × ArmCore) := do
  let rd := (getBits ins 15 12).toNat
  let l : Bool := getBit ins 20 ≠ 0
  let b : Bool := getBit ins 22 ≠ 0
  if l then
    if b then
      let (result, byte) ← lift (armReadByte proc address u.byte)
      let res := toUint8 result
      let proc ← if (res.toNat : Int) = -1 then
          armWriteRegisterIndexed proc rd (byte.setWidth 32)
        else pure proc
      return (res, proc)
    else executeLdrIndexed u proc rd address
  else if b then
    if conditionPassed proc ins then
      let byte : Byte := ((← armReadRegisterIndexed proc rd) &&& 0x00FF).setWidth 8
      let (_, proc) ← lift (armWriteByte proc address byte)
      return (0, proc)
    else return (0, proc)
  else if conditionPassed proc ins then
    let (res, proc) ← lift (armWriteWord proc address (← armReadRegisterIndexed proc rd))
    return (toUint8 res, proc)
  else return (0, proc)

def ldmStepIndexed (registers : Word) (s : MultipleState) (i : ℕ) : Indexed MultipleState :=
  if s.res = 0 ∧ getBit registers i ≠ 0 then do
    let (result, word) ← lift (armReadWord s.proc s.address s.word)
    let res := toUint8 result
    let proc ← if res = 0 then armWriteRegisterIndexed s.proc i word else pure s.proc
    return ⟨proc, res, s.address + 4, word⟩
  else pure s

def ldmPcIndexed (registers : Word) (s : MultipleState) : Indexed MultipleState :=
  if getBit registers 15 ≠ 0 ∧ s.res = 0 then do
    let (result, word) ← lift (armReadWord s.proc s.address s.word)
    let proc := armWriteCpsr s.proc (thumbCpsr (armReadCpsr s.proc) word)
    let proc ← armWriteRegisterIndexed proc 15 (word &&& 0xFFFFFFFE)
    return ⟨proc, toUint8 result, s.address + 4, word⟩
  else pure s

def stmStepIndexed (registers : Word) (s : MultipleState) (i : ℕ) : Indexed MultipleState :=
  if s.res = 0 ∧ getBit registers i ≠ 0 then do
    let value ← armReadRegisterIndexed s.proc i
    let (result, proc) ← lift (armWriteWord s.proc s.address value)
    return ⟨proc, toUint8 result, s.address + 4, s.word⟩
  else pure s

def executeInstrMultipleIndexed (u : Locals) (proc : ArmCore)
    (ins startAddress endAddress : Word) : Indexed (Byte × ArmCore) := do
  let registers := getBits ins 15 0
  let start : MultipleState := ⟨proc, 0, startAddress, u.word⟩
  let s ← if getBit ins 20 ≠ 0 then do
      let s ← (List.range 15).foldlM (ldmStepIndexed registers) start
      ldmPcIndexed registers s
    else (List.range 16).foldlM (stmStepIndexed registers) start
  if endAddress = s.address - 4 then return (s.res, s.proc) else lift (.error .assertion)

section Handlers

variable [Host]

def armLoadStoreIndexed (u : Locals) (proc : ArmCore) (ins : Word) : Indexed (Int × ArmCore) := do
  let rn ← armReadRegisterIndexed proc (getBits ins 19 16).toNat
  let rm ← armReadRegisterIndexed proc (getBits ins 3 0).toNat
  let offset := getBits ins 11 0
  match (getBits ins 27 25).toNat with
  | 0 =>
    let (address, _) ← addrmodeLoadStoreMiscellaneousIndexed proc ins rn rm
    let r ← executeInstrMiscellaneousIndexed u proc ins address
    return handlerResult r
  | 2 =>
    let (address, _) := addrmodeLoadStore proc ins u.address rn offset
    let r ← executeInstrWordByteIndexed u proc ins address
    return handlerResult r
  | 3 =>
    let a : Bool := ¬ getBits ins 11 4 ≠ 0
    if a || (!(getBit ins 4 ≠ 0 : Bool) && (pBit ins || !wBit ins)) then
      let add := if a then rm else setIndex proc ins (rm.setWidth 8)
      let (address, _) := addrmodeLoadStore proc ins u.address rn add
      let r ← executeInstrWordByteIndexed u proc ins address
      return handlerResult r
    else return (0, proc)
  | _ => return (Exception.undefinedInstruction, proc)

def armLoadStoreMultipleIndexed (u : Locals) (proc : ArmCore) (ins : Word) :
    Indexed (Int × ArmCore) := do
  let rn ← armReadRegisterIndexed proc (getBits ins 19 16).toNat
  let (startAddress, endAddress, _) := addrmodeLoadStoreMultiple proc ins rn
  let r ← executeInstrMultipleIndexed u proc ins startAddress endAddress
  return handlerResult r

/-- The other handlers look up no register. -/
def runIndexed (u : Locals) (p : ArmCore) (ins : Word) : Indexed (Int × ArmCore) :=
  match dispatch ins with
  | .miscellaneous => armMiscellaneousIndexed p ins
  | .loadStore => armLoadStoreIndexed u p ins
  | .dataProcessingShift => armDataProcessingShiftIndexed p ins
  | .dataProcessingImmediateMsr => armDataProcessingImmediateMsrIndexed p ins
  | .loadStoreMultiple => armLoadStoreMultipleIndexed u p ins
  | .branch => armBranchIndexed p ins
  | handler => lift (handler.run u p ins)

end Handlers

/-! ## Exceptions and steps -/

def executeIndexed (p : ArmCore) (needSpsr : Bool) (cpsrBitsValue : Word) (cpsrValuesCount : ℕ)
    (state : ReturnState) (exceptionVector : Word) : Indexed ArmCore := do
  let cpsr := armReadCpsr p
  let sp ← armReadRegisterIndexed p 13
  let spsr := cpsr
  let pc ← armReadRegisterIndexed p 15
  let addr := match state with
    | .current => pc - 4
    | .next => pc
  let p := armWriteCpsr p (entryCpsr cpsr cpsrBitsValue cpsrValuesCount)
  let p ← armWriteRegisterIndexed p 13 sp
  let p ← armWriteRegisterIndexed p 14 addr
  let p ← if needSpsr then armWriteSpsrIndexed p spsr else pure p
  armWriteRegisterIndexed p 15 (exceptionVector &&& 0xFFFF)

/-- The exceptions with their entries, and bytes that are none of their numbers. -/
def armExceptionIndexed (p : ArmCore) (exception : Byte) : Indexed ArmCore :=
  match exception.toNat with
  | 1 => executeIndexed p false 0b10011 3 .next 0
  | 2 => executeIndexed p true 0b11011 2 .next 0x4
  | 3 => executeIndexed p true 0b10011 2 .next 0x8
  | 4 => executeIndexed p true 0b10111 2 .current 0xC
  | 5 => executeIndexed p true 0b10111 2 .current 0x10
  | 6 => executeIndexed p true 0b10010 2 .next 0x18
  | 7 => executeIndexed p true 0b10001 3 .next 0x1C
  | _ => pure p

def raiseResultIndexed (r : Int × ArmCore) : Indexed (Int × ArmCore) :=
  if r.1 ≠ 0 then do
    let p ← armExceptionIndexed r.2 (toUint8 r.1)
    return (r.1, p)
  else pure r

section Step

variable [Host]

def executeFetchedIndexed (u : Locals) (p : ArmCore) (inst : Word) : Indexed (Int × ArmCore) :=
  if condField inst = 0b1111 then pure (Exception.undefinedInstruction, p)
  else if condField inst ≠ 0b1110 ∧ ¬ armDecodeCondition (condField inst) (cpsrFlags p) then
    pure (0, p)
  else runIndexed u p inst

def armExecuteInstructionIndexed (u : Locals) (p : ArmCore) : Indexed (Int × ArmCore) := do
  let (res, inst, p) ← armFetchIndexed p u.inst
  if res ≠ 0 then return (Exception.prefetchAbort, p)
  else executeFetchedIndexed u p inst

def armStepIndexed (u : Locals) (p : ArmCore) : Indexed (Int × ArmCore) := do
  let r ← armExecuteInstructionIndexed u p
  raiseResultIndexed r

def happenIndexed (p : ArmCore) : Event → Indexed ArmCore
  | .step u => do
    let r ← armStepIndexed u p
    return r.2
  | .irq b => armExceptionIndexed p b

end Step

/-! ## Without the record -/

section Results

variable {p : ArmCore}

theorem result_readRegisterIndexed (r : Registers) (reg : ℕ) :
    (readRegisterIndexed r reg).result = readRegister r reg := by
  simp only [readRegisterIndexed, readRegister, result_ite, result_bind]
  rfl

theorem result_readSpsrIndexed (r : Registers) :
    (readSpsrIndexed r).result = readSpsr r := by
  simp only [readSpsrIndexed, readSpsr, result_ite, result_bind]
  rfl

theorem result_writeRegisterIndexed (r : Registers) (reg : ℕ) (value : Word) :
    (writeRegisterIndexed r reg value).result = writeRegister r reg value := by
  simp only [writeRegisterIndexed, writeRegister, result_ite, result_bind]
  rfl

theorem result_writeSpsrIndexed (r : Registers) (value : Word) :
    (writeSpsrIndexed r value).result = writeSpsr r value := by
  simp only [writeSpsrIndexed, writeSpsr, result_ite, result_bind]
  rfl

@[simp] theorem result_armReadRegisterIndexed (p : ArmCore) (reg : ℕ) :
    (armReadRegisterIndexed p reg).result = armReadRegister p reg := by
  rw [armReadRegisterIndexed, result_bind, result_readRegisterIndexed]
  rfl

@[simp] theorem result_armReadSpsrIndexed (p : ArmCore) :
    (armReadSpsrIndexed p).result = armReadSpsr p := result_readSpsrIndexed p.reg

@[simp] theorem result_armWriteRegisterIndexed (p : ArmCore) (reg : ℕ) (value : Word) :
    (armWriteRegisterIndexed p reg value).result = armWriteRegister p reg value := by
  rw [armWriteRegisterIndexed, result_bind, result_writeRegisterIndexed]
  rfl

@[simp] theorem result_armWriteSpsrIndexed (p : ArmCore) (value : Word) :
    (armWriteSpsrIndexed p value).result = armWriteSpsr p value := by
  rw [armWriteSpsrIndexed, result_bind, result_writeSpsrIndexed]
  rfl

theorem result_armFetchIndexed (p : ArmCore) (value : Word) :
    (armFetchIndexed p value).result = armFetch p value := by
  simp [armFetchIndexed, armFetch]

theorem result_armBranchIndexed (p : ArmCore) (ins : Word) :
    (armBranchIndexed p ins).result = armBranch p ins := by
  simp [armBranchIndexed, armBranch]

@[simp] theorem result_writePsrIndexed (p : ArmCore) (ins : Word) (value : Byte) (R : Bool) :
    (writePsrIndexed p ins value R).result = writePsr p ins value R := by
  simp [writePsrIndexed, writePsr]

@[simp] theorem result_executeInstIndexed (opcode : ℕ) (p : ArmCore) (rd : ℕ)
    (valueRn operand : Word) (updateCPSR : Bool) :
    (executeInstIndexed opcode p rd valueRn operand updateCPSR).result =
      executeInst opcode p rd valueRn operand updateCPSR := by
  unfold executeInstIndexed executeInst
  dsimp only
  generalize aluSwitch opcode (getBit (armReadCpsr p) 29 ≠ 0) (getBit (armReadCpsr p) 28 ≠ 0)
    valueRn operand = r
  cases r with
  | none => rfl
  | some r => simp

theorem result_addrmodeLoadStoreMiscellaneousIndexed (proc : ArmCore) (ins rn offset : Word) :
    (addrmodeLoadStoreMiscellaneousIndexed proc ins rn offset).result =
      addrmodeLoadStoreMiscellaneous proc ins rn offset := by
  simp [addrmodeLoadStoreMiscellaneousIndexed, addrmodeLoadStoreMiscellaneous]

@[simp] theorem result_executeInstrMiscellaneousIndexed (u : Locals) (proc : ArmCore)
    (ins address : Word) : (executeInstrMiscellaneousIndexed u proc ins address).result =
      executeInstrMiscellaneous u proc ins address := by
  unfold executeInstrMiscellaneousIndexed executeInstrMiscellaneous
  dsimp only
  generalize ((getBit ins 20 <<< 2) + (getBit ins 6 <<< 1) + getBit ins 5).toNat = code
  split <;> simp

@[simp] theorem result_executeInstrWordByteIndexed (u : Locals) (proc : ArmCore)
    (ins address : Word) : (executeInstrWordByteIndexed u proc ins address).result =
      executeInstrWordByte u proc ins address := by
  simp [executeInstrWordByteIndexed, executeInstrWordByte, executeLdrIndexed, executeLdr]

theorem result_ldmStepIndexed (registers : Word) (s : MultipleState) (i : ℕ) :
    (ldmStepIndexed registers s i).result = ldmStep registers s i := by
  simp [ldmStepIndexed, ldmStep]
  rfl

theorem result_ldmPcIndexed (registers : Word) (s : MultipleState) :
    (ldmPcIndexed registers s).result = ldmPc registers s := by
  simp [ldmPcIndexed, ldmPc]
  rfl

theorem result_stmStepIndexed (registers : Word) (s : MultipleState) (i : ℕ) :
    (stmStepIndexed registers s i).result = stmStep registers s i := by
  simp [stmStepIndexed, stmStep]
  rfl

@[simp] theorem result_executeInstrMultipleIndexed (u : Locals) (proc : ArmCore)
    (ins startAddress endAddress : Word) :
    (executeInstrMultipleIndexed u proc ins startAddress endAddress).result =
      executeInstrMultiple u proc ins startAddress endAddress := by
  simp [executeInstrMultipleIndexed, executeInstrMultiple, result_foldlM, result_ldmStepIndexed,
    result_ldmPcIndexed, result_stmStepIndexed]

section Handlers

variable [Host]

@[simp] theorem result_shiftOperandIndexed (p : ArmCore) (ins so : Word) :
    (shiftOperandIndexed p ins so).result = shiftOperand p ins so := by
  simp [shiftOperandIndexed, shiftOperand, getShifterOperandRegisterIndexed,
    getShifterOperandRegister]
  rfl

theorem result_armMiscellaneousIndexed (p : ArmCore) (ins : Word) :
    (armMiscellaneousIndexed p ins).result = armMiscellaneous p ins := by
  simp [armMiscellaneousIndexed, armMiscellaneous]

theorem result_armDataProcessingShiftIndexed (p : ArmCore) (ins : Word) :
    (armDataProcessingShiftIndexed p ins).result = armDataProcessingShift p ins := by
  simp [armDataProcessingShiftIndexed, armDataProcessingShift]

theorem result_armDataProcessingImmediateMsrIndexed (p : ArmCore) (ins : Word) :
    (armDataProcessingImmediateMsrIndexed p ins).result = armDataProcessingImmediateMsr p ins := by
  simp [armDataProcessingImmediateMsrIndexed, armDataProcessingImmediateMsr]

theorem result_armLoadStoreIndexed (u : Locals) (p : ArmCore) (ins : Word) :
    (armLoadStoreIndexed u p ins).result = armLoadStore u p ins := by
  unfold armLoadStoreIndexed armLoadStore
  simp only [result_bind, result_armReadRegisterIndexed]
  refine congrArg _ (funext fun rn => congrArg _ (funext fun rm => ?_))
  generalize (getBits ins 27 25).toNat = c
  split <;> simp [result_addrmodeLoadStoreMiscellaneousIndexed]

omit [Host] in
theorem result_armLoadStoreMultipleIndexed (u : Locals) (p : ArmCore) (ins : Word) :
    (armLoadStoreMultipleIndexed u p ins).result = armLoadStoreMultiple u p ins := by
  simp [armLoadStoreMultipleIndexed, armLoadStoreMultiple]

theorem result_runIndexed (u : Locals) (p : ArmCore) (ins : Word) :
    (runIndexed u p ins).result = (dispatch ins).run u p ins := by
  unfold runIndexed
  cases dispatch ins with
  | miscellaneous => exact result_armMiscellaneousIndexed p ins
  | loadStore => exact result_armLoadStoreIndexed u p ins
  | dataProcessingShift => exact result_armDataProcessingShiftIndexed p ins
  | dataProcessingImmediateMsr => exact result_armDataProcessingImmediateMsrIndexed p ins
  | loadStoreMultiple => exact result_armLoadStoreMultipleIndexed u p ins
  | branch => exact result_armBranchIndexed p ins
  | _ => rfl

end Handlers

theorem result_executeIndexed (p : ArmCore) (needSpsr : Bool) (bits : Word) (count : ℕ)
    (state : ReturnState) (vector : Word) :
    (executeIndexed p needSpsr bits count state vector).result =
      execute_ p needSpsr bits count state vector := by
  cases state <;> simp [executeIndexed, execute_, branchExceptionVector]

@[simp] theorem result_armExceptionIndexed (p : ArmCore) (exception : Byte) :
    (armExceptionIndexed p exception).result = armException p exception := by
  unfold armExceptionIndexed armException
  generalize exception.toNat = n
  rcases n with _ | _ | _ | _ | _ | _ | _ | _ | n
  all_goals first | exact result_executeIndexed _ _ _ _ _ _ | rfl

@[simp] theorem result_raiseResultIndexed (r : Int × ArmCore) :
    (raiseResultIndexed r).result = raiseResult r := by
  simp [raiseResultIndexed, raiseResult]
  rfl

section Step

variable [Host]

theorem result_executeFetchedIndexed (u : Locals) (p : ArmCore) (inst : Word) :
    (executeFetchedIndexed u p inst).result = executeFetched u p inst := by
  simp [executeFetchedIndexed, executeFetched, result_runIndexed, executeClass_dispatch]
  rfl

theorem result_armStepIndexed (u : Locals) (p : ArmCore) :
    (armStepIndexed u p).result = armStep u p := by
  simp [armStepIndexed, armExecuteInstructionIndexed, armStep, armExecuteInstruction,
    result_armFetchIndexed, result_executeFetchedIndexed]

theorem result_happenIndexed (p : ArmCore) (e : Event) :
    (happenIndexed p e).result = happen p e := by
  cases e with
  | step u => simp [happenIndexed, happen, result_armStepIndexed]
  | irq b => exact result_armExceptionIndexed p b

end Step

end Results

end ArmSimulator.Status
