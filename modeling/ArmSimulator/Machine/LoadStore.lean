import ArmSimulator.Machine.Core

/-! # Load and store instructions (`arm_load_store.c`)

The addressing modes return the address and the updated base through their
out-parameters. Results of the memory functions pass through `uint8_t`, where
`-1` becomes 255.
-/

namespace ArmSimulator.Machine

/-- Assignment of an `int` to a `uint8_t`. -/
def toUint8 (result : Int) : Byte := BitVec.ofInt 8 result

/-- `cpsr` is a `uint8_t`, so the flags are looked for above its highest bit. -/
def conditionPassed (proc : ArmCore) (ins : Word) : Bool :=
  let cpsr : Byte := (armReadCpsr proc).setWidth 8
  let cond := (getBits ins 31 28).toNat
  let z : Bool := getBit (cpsr.setWidth 32) 30 ≠ 0
  let n : Bool := getBit (cpsr.setWidth 32) 31 ≠ 0
  let c : Bool := getBit (cpsr.setWidth 32) 29 ≠ 0
  let v : Bool := getBit (cpsr.setWidth 32) 28 ≠ 0
  match cond with
  | 0 => z
  | 1 => !z
  | 2 => c
  | 3 => !c
  | 4 => n
  | 5 => !n
  | 6 => v
  | 7 => !v
  | 8 => c && !z
  | 9 => !c || z
  | 10 => n == v
  | 11 => n != v
  | 12 => !z && (n == v)
  | 13 => z || (n != v)
  | 14 => true
  | 15 => false
  | _ => true

def op (ins leftOp rightOp : Word) : Word :=
  leftOp + rightOp * (if getBit ins 23 ≠ 0 then 1 else -1)

/-- The loop of `nb_set_bits`, which ends after at most 16 halvings. -/
def nbSetBitsLoop : Nat → Half → Byte → Byte
  | 0, _, count => count
  | fuel + 1, nb, count =>
    if nb = 0 then count else nbSetBitsLoop fuel (nb >>> 1) (count + (nb % 2).setWidth 8)

def nbSetBits (nb : Half) : Byte := nbSetBitsLoop 16 nb 0

def setOffset (ins : Word) : Word := (getBits ins 11 8 <<< 4) ||| getBits ins 3 0

/-- The bits `P` and `W` of the header's macros. -/
def pBit (ins : Word) : Bool := getBit ins 24 ≠ 0
def wBit (ins : Word) : Bool := getBit ins 21 ≠ 0

/-- The address and the base after `addrmode_load_store`; `*address` is only assigned
on some paths. -/
def addrmodeLoadStore (proc : ArmCore) (ins address rn addWord : Word) : Word × Word :=
  let cond := getBits ins 31 28
  let address := if pBit ins then op ins rn addWord else address
  if pBit ins = wBit ins then
    let address := if pBit ins then op ins rn addWord else rn
    if conditionPassed proc cond then
      (address, if pBit ins then address else op ins rn addWord)
    else (address, rn)
  else (address, rn)

/-- The start address, the end address and the base after `addrmode_load_store_multiple`. -/
def addrmodeLoadStoreMultiple (proc : ArmCore) (ins rn : Word) : Word × Word × Word :=
  let u : Bool := getBit ins 23 ≠ 0
  let count : Byte := nbSetBits ((getBits ins 15 0).setWidth 16) * 4
  let nb : Word := count.setWidth 32
  let startAddress := rn - (if pBit ins then (if u then -4 else nb) else (if u then 0 else nb - 4))
  let endAddress := rn + (if pBit ins then (if u then nb else -4) else (if u then nb - 4 else 0))
  let rn := if conditionPassed proc (getBits ins 31 28) && wBit ins then
    rn + nb * (if u then 1 else -1) else rn
  (startAddress, endAddress, rn)

def addrmodeLoadStoreMiscellaneous (proc : ArmCore) (ins rn offset : Word) :
    Except Stop (Word × Word) := do
  let b : Bool := getBit ins 22 ≠ 0
  let rm ← armReadRegister proc (getBits ins 3 0).toNat
  if pBit ins then
    let address := op ins rn (if !b then rm else offset)
    return (address, if wBit ins && conditionPassed proc ins then address else rn)
  else
    return (rn, if conditionPassed proc ins then op ins rn (if b then offset else rm) else rn)

/-- The CPSR after its bit 5 received bit 0 of a word loaded into the program counter. -/
def thumbCpsr (cpsr word : Word) : Word :=
  if getBit word 0 = 1 then setBit cpsr 5 else clrBit cpsr 5

def executeInstrMiscellaneous (u : Locals) (proc : ArmCore) (ins address : Word) :
    Except Stop (Byte × ArmCore) := do
  let rd := (getBits ins 15 12).toNat
  let h := getBit ins 5
  let s := getBit ins 6
  let l := getBit ins 20
  match ((l <<< 2) + (s <<< 1) + h).toNat with
  | 1 =>
    if conditionPassed proc ins then
      let half : Half := ((← armReadRegister proc rd) &&& 0xFFFF).setWidth 16
      let (res, proc) ← armWriteHalf proc address half
      return (toUint8 res, proc)
    else return (0, proc)
  | 2 =>
    if ¬ rd % 2 ≠ 0 ∨ rd = 14 ∨ ¬ getBits address 1 0 ≠ 0 then return (0, proc)
    else
      let (res, word) ← armReadWord proc address u.word
      if res = 0 then
        let proc ← armWriteRegister proc rd word
        let (res, word) ← armReadWord proc (address + 4) word
        if res ≠ 0 then return (0, proc)
        else
          let proc ← armWriteRegister proc (rd + 1) word
          return (0, proc)
      else return (0, proc)
  | 3 =>
    if ¬ rd % 2 ≠ 0 ∨ rd = 14 ∨ ¬ getBits address 1 0 ≠ 0 ∨ ¬ getBit address 2 ≠ 0 then
      return (0, proc)
    else
      let word ← armReadRegister proc rd
      let (res, proc) ← armWriteWord proc address word
      if res = 0 then
        let word ← armReadRegister proc (rd + 1)
        let (res, proc) ← armWriteWord proc (address + 4) word
        return (toUint8 res, proc)
      else return (toUint8 res, proc)
  | 5 =>
    let (res, half) ← armReadHalf proc address u.half
    let proc ← if res = 0 then armWriteRegister proc rd (half.setWidth 32) else pure proc
    return (toUint8 res, proc)
  | _ => return (toUint8 Exception.undefinedInstruction, proc)

/-- The branch of `executeInstr_word_byte` for LDR: the register is written even when
the read failed. -/
def executeLdr (u : Locals) (proc : ArmCore) (rd : Nat) (address : Word) :
    Except Stop (Byte × ArmCore) := do
  let (res, word) ← armReadWord proc address u.word
  if res = 0 ∧ rd = 15 then
    let proc := armWriteCpsr proc (thumbCpsr (armReadCpsr proc) word)
    let proc ← armWriteRegister proc rd (word &&& 0xFFFFFFFE)
    return (0, proc)
  else
    let proc ← armWriteRegister proc rd word
    return (0, proc)

def executeInstrWordByte (u : Locals) (proc : ArmCore) (ins address : Word) :
    Except Stop (Byte × ArmCore) := do
  let rd := (getBits ins 15 12).toNat
  let l : Bool := getBit ins 20 ≠ 0
  let b : Bool := getBit ins 22 ≠ 0
  if l then
    if b then
      let (result, byte) ← armReadByte proc address u.byte
      let res := toUint8 result
      -- a `uint8_t` is never equal to -1
      let proc ← if (res.toNat : Int) = -1 then
          armWriteRegister proc rd (byte.setWidth 32)
        else pure proc
      return (res, proc)
    else executeLdr u proc rd address
  else if b then
    if conditionPassed proc ins then
      let byte : Byte := ((← armReadRegister proc rd) &&& 0x00FF).setWidth 8
      let (_, proc) ← armWriteByte proc address byte
      return (0, proc)
    else return (0, proc)
  else if conditionPassed proc ins then
    let (res, proc) ← armWriteWord proc address (← armReadRegister proc rd)
    return (toUint8 res, proc)
  else return (0, proc)

/-- The variables the loops of `executeInstr_multiple` change. -/
structure MultipleState where
  proc : ArmCore
  res : Byte
  address : Word
  word : Word

/-- The body of the load loop for register `i`. -/
def ldmStep (registers : Word) (s : MultipleState) (i : Nat) : Except Stop MultipleState :=
  if s.res = 0 ∧ getBit registers i ≠ 0 then do
    let (result, word) ← armReadWord s.proc s.address s.word
    let res := toUint8 result
    let proc ← if res = 0 then armWriteRegister s.proc i word else pure s.proc
    return ⟨proc, res, s.address + 4, word⟩
  else .ok s

/-- The program counter is loaded after the loop, and written even when the read failed. -/
def ldmPc (registers : Word) (s : MultipleState) : Except Stop MultipleState :=
  if getBit registers 15 ≠ 0 ∧ s.res = 0 then do
    let (result, word) ← armReadWord s.proc s.address s.word
    let proc := armWriteCpsr s.proc (thumbCpsr (armReadCpsr s.proc) word)
    let proc ← armWriteRegister proc 15 (word &&& 0xFFFFFFFE)
    return ⟨proc, toUint8 result, s.address + 4, word⟩
  else .ok s

/-- The body of the store loop for register `i`. -/
def stmStep (registers : Word) (s : MultipleState) (i : Nat) : Except Stop MultipleState :=
  if s.res = 0 ∧ getBit registers i ≠ 0 then do
    let value ← armReadRegister s.proc i
    let (result, proc) ← armWriteWord s.proc s.address value
    return ⟨proc, toUint8 result, s.address + 4, s.word⟩
  else .ok s

def executeInstrMultiple (u : Locals) (proc : ArmCore) (ins startAddress endAddress : Word) :
    Except Stop (Byte × ArmCore) := do
  let registers := getBits ins 15 0
  let start : MultipleState := ⟨proc, 0, startAddress, u.word⟩
  let s ← if getBit ins 20 ≠ 0 then do
      let s ← (List.range 15).foldlM (ldmStep registers) start
      ldmPc registers s
    else (List.range 16).foldlM (stmStep registers) start
  if endAddress = s.address - 4 then return (s.res, s.proc) else .error .assertion

section Handlers

variable [Host]

/-- `rm` is a `uint8_t`: only the low byte of the index register arrives. -/
def setIndex (proc : ArmCore) (ins : Word) (rm : Byte) : Word :=
  let shift := (getBits ins 6 5).toNat
  let shiftImm := getBits ins 11 7
  let value := rm.setWidth 32
  match shift with
  | 0 => cShl value shiftImm.toNat
  | 1 => if shiftImm ≠ 0 then cSar value shiftImm.toNat else 0
  | 2 => if shiftImm ≠ 0 then asr value (shiftImm.setWidth 8)
    else if getBit value 31 ≠ 0 then 0xFFFFFFFF else 0
  | 3 => if shiftImm ≠ 0 then ror value (shiftImm.setWidth 8)
    else (getBit (armReadCpsr proc) 29 <<< 31) ||| cSar value 1
  | _ => 0

/-- A handler's `uint8_t` result becomes the `int` of its caller. -/
def handlerResult (r : Byte × ArmCore) : Int × ArmCore := (r.1.toNat, r.2)

def armLoadStore (u : Locals) (proc : ArmCore) (ins : Word) : Except Stop (Int × ArmCore) := do
  let rn ← armReadRegister proc (getBits ins 19 16).toNat
  let rm ← armReadRegister proc (getBits ins 3 0).toNat
  let offset := getBits ins 11 0
  match (getBits ins 27 25).toNat with
  | 0 =>
    -- `set_offset` is computed here and not used
    let (address, _) ← addrmodeLoadStoreMiscellaneous proc ins rn rm
    handlerResult <$> executeInstrMiscellaneous u proc ins address
  | 2 =>
    let (address, _) := addrmodeLoadStore proc ins u.address rn offset
    handlerResult <$> executeInstrWordByte u proc ins address
  | 3 =>
    let a : Bool := ¬ getBits ins 11 4 ≠ 0
    if a || (!(getBit ins 4 ≠ 0 : Bool) && (pBit ins || !wBit ins)) then
      let add := if a then rm else setIndex proc ins (rm.setWidth 8)
      let (address, _) := addrmodeLoadStore proc ins u.address rn add
      handlerResult <$> executeInstrWordByte u proc ins address
    else return (0, proc)
  | _ => return (Exception.undefinedInstruction, proc)

def armLoadStoreMultiple (u : Locals) (proc : ArmCore) (ins : Word) :
    Except Stop (Int × ArmCore) := do
  let rn ← armReadRegister proc (getBits ins 19 16).toNat
  let (startAddress, endAddress, _) := addrmodeLoadStoreMultiple proc ins rn
  handlerResult <$> executeInstrMultiple u proc ins startAddress endAddress

def armCoprocessorLoadStore (proc : ArmCore) (_ins : Word) : Except Stop (Int × ArmCore) :=
  .ok (Exception.undefinedInstruction, proc)

end Handlers

end ArmSimulator.Machine
