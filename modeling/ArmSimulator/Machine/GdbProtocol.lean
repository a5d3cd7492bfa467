import ArmSimulator.Machine.CString
import ArmSimulator.Machine.Instruction

/-! # The debugger protocol (`gdb_protocol.c`)

Requests arrive in the scanner's buffer and replies are built in `packet`. What
`Rio_writen` sends is collected in `written`, one entry a call. A read past the
scanner's buffer, a read through a null pointer and a store outside `packet` are
`wild`; tracing and debug output are left out.
-/

namespace ArmSimulator.Machine.Gdb

def maxPacketSize : Nat := 1024

/-- `char cells[size]` -/
structure CharArray (size : Nat) where
  cells : List Byte
  size_eq : cells.length = size

namespace CharArray

variable {size : Nat}

def set (a : CharArray size) (i : Nat) (c : Byte) : Except Stop (CharArray size) :=
  if i < size then .ok ⟨a.cells.set i c, by rw [List.length_set, a.size_eq]⟩ else .error .wild

/-- Stores a string and its terminator from `i` on. -/
def put : CharArray size → Nat → List Byte → Except Stop (CharArray size)
  | a, i, [] => a.set i 0
  | a, i, c :: s => do
    let a ← a.set i c
    a.put (i + 1) s

end CharArray

abbrev Packet := CharArray maxPacketSize

/-- `gdb->mem` is the memory of `gdb->arm`. -/
structure GdbProtocolData where
  arm : ArmCore
  targetException : Int
  packet : Packet
  len : Nat
  written : List (List Byte)

/-- `gdb->buffer - gdb->packet` -/
def buffer : Nat := 1

/-- What the local variables hold before they are assigned: those of the handlers,
`value` of each call of `read_uint32`, and those of each call of `arm_step`. -/
structure HandlerLocals where
  address : Word
  size : Word
  reg : Word
  given : Word
  instruction : Word
  byte : Byte
  value : Nat → Word
  steps : Nat → Locals

/-- Why a handler has not returned: its process has ended, or `cont` is still in its loop. -/
inductive Halt where
  | stopped (stop : Stop)
  | running
  deriving DecidableEq, Repr

instance : MonadLift (Except Stop) (Except Halt) := ⟨Except.mapError Halt.stopped⟩

/-- The byte order of the machine the simulator runs on, and whether
`BIG_ENDIAN_SIMULATOR` is defined. -/
class ByteOrder where
  isBigEndian : Bool
  bigEndianSimulator : Bool

/-- The build in the repository, on x86-64. -/
@[reducible] def ByteOrder.x86 : ByteOrder := ⟨false, true⟩

/-! ## Replies -/

def rioWriten (gdb : GdbProtocolData) (bytes : List Byte) : GdbProtocolData :=
  { gdb with written := gdb.written ++ [bytes] }

def gdbSendAck (gdb : GdbProtocolData) : GdbProtocolData := rioWriten gdb (ascii "+")

def gdbRequireRetransmission (gdb : GdbProtocolData) : GdbProtocolData := rioWriten gdb (ascii "-")

def gdbTransmitPacket (gdb : GdbProtocolData) : GdbProtocolData :=
  rioWriten gdb (gdb.packet.cells.take gdb.len)

/-- Sums the characters from a position on, and returns that of the terminator. -/
def checkSum : List Byte → Nat → Byte → Except Stop (Byte × Nat)
  | [], _, _ => .error .wild
  | c :: cells, i, check => if c = 0 then .ok (check, i) else checkSum cells (i + 1) (check + c)

def gdbSendBuffer (gdb : GdbProtocolData) : Except Stop GdbProtocolData := do
  let packet ← gdb.packet.set 0 (char '$')
  let (check, i) ← checkSum (packet.cells.drop 1) 1 0
  let packet ← packet.set i (char '#')
  let i := i + 1
  let packet ← packet.put i (sprintf02x check)
  let i := i + 2
  let packet ← packet.set i 0
  return gdbTransmitPacket { gdb with packet, len := i }

def gdbSendData (gdb : GdbProtocolData) (data : List Byte) : Except Stop GdbProtocolData := do
  let packet ← gdb.packet.put buffer data
  gdbSendBuffer { gdb with packet }

/-- Stores a string at `position` and goes to its end. -/
def append (s : Packet × Nat) (data : List Byte) : Except Stop (Packet × Nat) := do
  let packet ← s.1.put s.2 data
  return (packet, s.2 + data.length)

def gdbSendStopReason (gdb : GdbProtocolData) : Except Stop GdbProtocolData :=
  if gdb.targetException = Exception.undefinedInstruction then gdbSendData gdb (ascii "S04")
  else if gdb.targetException = Exception.prefetchAbort ∨
      gdb.targetException = Exception.dataAbort then gdbSendData gdb (ascii "S10")
  else gdbSendData gdb (ascii "S05")

/-! ## Words in hexadecimal -/

section Words

variable [ByteOrder]

/-- The values of `i` in `for (; (i<4) && (i>=0); i+=step)`, for `n` turns at most. -/
def indices (step : Word) : Nat → Word → List (Fin 4)
  | 0, _ => []
  | n + 1, i => if h : i.toNat < 4 then ⟨i.toNat, h⟩ :: indices step n (i + step) else []

/-- The bytes of an integer in the order of the text. -/
def byteIndices : List (Fin 4) :=
  if ByteOrder.isBigEndian = ByteOrder.bigEndianSimulator then indices 1 5 0 else indices (-1) 5 3

/-- `mem.bytes[i]` -/
def integerByte (value : Word) (i : Fin 4) : Byte :=
  (value >>> (8 * if ByteOrder.isBigEndian then 3 - i.val else i.val)).setWidth 8

/-- `mem.integer` -/
def integerOf (bytes : Fin 4 → Byte) : Word :=
  if ByteOrder.isBigEndian then wordOfBytes (bytes 0) (bytes 1) (bytes 2) (bytes 3)
  else wordOfBytes (bytes 3) (bytes 2) (bytes 1) (bytes 0)

/-- The loop of `read_uint32`; `value` keeps what it holds where the text is no number. -/
def readBytes : List (Fin 4) → List Byte → Word → (Fin 4 → Byte) → Except Stop (Fin 4 → Byte)
  | [], _, _, bytes => .ok bytes
  | i :: is, data, value, bytes =>
    if data = [] then .error .wild
    else
      let value := (sscanf02x data).getD value
      readBytes is (data.drop 2) value (Function.update bytes i (value.setWidth 8))

def readUint32 (data : List Byte) (value : Word) : Except Stop Word := do
  return integerOf (← readBytes byteIndices data value fun _ => 0)

def writeUint32 (packet : Packet) (position : Nat) (value : Word) : Except Stop Packet := do
  let (packet, position) ←
    byteIndices.foldlM (fun s i => append s (sprintf02x (integerByte value i))) (packet, position)
  packet.set position 0

end Words

/-! ## Handlers -/

section Handlers

variable [Host]

/-- The loop of `cont`, for `turns` iterations at most. -/
def contLoop : Nat → (Nat → Locals) → Word → ArmCore → Int → Except Halt (ArmCore × Int)
  | 0, _, _, _, _ => .error .running
  | turns + 1, steps, instruction, arm, targetException => do
    let r15 := (← armReadRegister arm 15) - 4
    let (_, instruction) ← armReadWord arm r15 instruction
    if instruction &&& 0xFFF000F0 = 0xE7F000F0 then return (arm, targetException)
    else
      let (targetException, arm) ← armStep (steps 0) arm
      contLoop turns (fun k => steps (k + 1)) instruction arm targetException

def cont (gdb : GdbProtocolData) (u : HandlerLocals) (turns : Nat) :
    Except Halt GdbProtocolData := do
  let (arm, targetException) ← contLoop turns u.steps u.instruction gdb.arm gdb.targetException
  gdbSendStopReason { gdb with arm, targetException }

def step (gdb : GdbProtocolData) (u : HandlerLocals) : Except Stop GdbProtocolData := do
  let (targetException, arm) ← armStep (u.steps 0) gdb.arm
  gdbSendStopReason { gdb with arm, targetException }

end Handlers

/-- `shutdown(gdb->fd, SHUT_WR)`, which sends nothing. -/
def killRequest (gdb : GdbProtocolData) : GdbProtocolData := gdb

def query (gdb : GdbProtocolData) (data : List Byte) : Except Stop GdbProtocolData :=
  if cString data = ascii "Offsets" then gdbSendData gdb (ascii "Text=0;Data=0;Bss=0")
  else if (cString data).take 9 = ascii "Supported" then gdbSendData gdb (ascii "PacketSize=400")
  else if cString data = ascii "TStatus" then gdbSendData gdb (ascii "T0;tnotrun:0")
  else if cString data = ascii "Symbol::" then gdbSendData gdb (ascii "")
  else gdbSendData gdb (ascii "")

def reason (gdb : GdbProtocolData) : Except Stop GdbProtocolData := gdbSendStopReason gdb

def setThread (gdb : GdbProtocolData) : List Byte → Except Stop GdbProtocolData
  | [] => .error .wild
  | type :: data =>
    let value := (atoi data).toInt
    if (type = char 'c' ∨ type = char 'g') ∧ value < 1 ∧ -2 < value then
      gdbSendData gdb (ascii "OK")
    else gdbSendData gdb (ascii "E01")

/-- The loop of `read_memory`. -/
def readMemoryLoop (mem : Memory) : Nat → Word → Byte → Packet × Nat → Except Stop (Packet × Nat)
  | 0, _, _, s => .ok s
  | size + 1, address, value, s => do
    let (result, value) ← memoryReadByte mem address value
    if result ≠ -1 then
      let s ← append s (sprintf02x value)
      readMemoryLoop mem size (address + 1) value s
    else return s

def readMemory (gdb : GdbProtocolData) (data : List Byte) (u : HandlerLocals) :
    Except Stop GdbProtocolData := do
  let (address, size) := sscanfXX data u.address u.size
  let packet ← gdb.packet.set buffer 0
  let (packet, _) ← readMemoryLoop gdb.arm.mem size.toNat address u.byte (packet, buffer)
  gdbSendBuffer { gdb with packet }

/-- What follows the first `c`; nothing can be read there when there is none. -/
def afterIndex (c : Byte) (data : List Byte) : List Byte := ((index c data).getD []).drop 1

/-- The byte at `content` and where the next one starts. -/
def takeBinary : List Byte → Except Stop (Byte × List Byte)
  | [] => .error .wild
  | c :: content =>
    if c = 0x7d then
      match content with
      | [] => .error .wild
      | d :: content => .ok (d ^^^ 0x20, content)
    else .ok (c, content)

/-- The loop of `write_memory_binary`, with `size - i` iterations left. -/
def writeBinaryLoop : Nat → Memory → Word → List Byte → Bool → Except Stop (Memory × Bool)
  | 0, mem, _, _, writeOk => .ok (mem, writeOk)
  | left + 1, mem, address, content, writeOk =>
    if writeOk then do
      let (value, content) ← takeBinary content
      let (result, mem) ← memoryWriteByte mem address value
      writeBinaryLoop left mem (address + 1) content (result = 0)
    else .ok (mem, writeOk)

def writeMemoryBinary (gdb : GdbProtocolData) (data : List Byte) (u : HandlerLocals) :
    Except Stop GdbProtocolData := do
  let (address, size) := sscanfXX data u.address u.size
  let content := afterIndex (char ':') data
  let writeOk : Bool := address.toNat < memoryGetSize gdb.arm.mem
  let (mem, writeOk) ← writeBinaryLoop size.toNat gdb.arm.mem address content writeOk
  let gdb := { gdb with arm := { gdb.arm with mem } }
  if writeOk then gdbSendData gdb (ascii "OK") else gdbSendData gdb (ascii "E02")

section Registers

variable [ByteOrder]

def readGeneralRegisters (gdb : GdbProtocolData) : Except Stop GdbProtocolData := do
  let (packet, position) ← (List.range 15).foldlM (fun s i => do
    let packet ← writeUint32 s.1 s.2 (← armReadRegister gdb.arm i)
    return (packet, s.2 + 8)) (gdb.packet, buffer)
  let packet ← writeUint32 packet position ((← armReadRegister gdb.arm 15) - 4)
  let position := position + 8
  -- three fields for each of `f0` to `f7`, then `fps`
  let s ← (List.range (8 * 3)).foldlM (fun s _ => append s (ascii "xxxxxxxx")) (packet, position)
  let (packet, position) ← append s (ascii "xxxxxxxx")
  let packet ← writeUint32 packet position (armReadCpsr gdb.arm)
  gdbSendBuffer { gdb with packet }

def readRegister (gdb : GdbProtocolData) (data : List Byte) : Except Stop GdbProtocolData := do
  let reg := (atoi data).toNat
  if ¬ reg < 16 then .error .assertion
  let packet ← writeUint32 gdb.packet buffer
    ((← armReadRegister gdb.arm reg) - if reg = 15 then 4 else 0)
  gdbSendBuffer { gdb with packet }

def writeGeneralRegisters (gdb : GdbProtocolData) (data : List Byte) (u : HandlerLocals) :
    Except Stop GdbProtocolData := do
  let arm ← (List.range 16).foldlM (fun arm i => do
    let value ← readUint32 (data.drop (8 * i)) (u.value i)
    armWriteRegister arm i value) gdb.arm
  -- `f0` to `f7` and `fps` are read and dropped
  (List.range (8 * 3 + 1)).forM fun i =>
    discard (readUint32 (data.drop (8 * (16 + i))) (u.value (16 + i)))
  let value ← readUint32 (data.drop (8 * 41)) (u.value 41)
  gdbSendData { gdb with arm := armWriteCpsr arm value } (ascii "OK")

def writeRegister (gdb : GdbProtocolData) (data : List Byte) (u : HandlerLocals) :
    Except Stop GdbProtocolData := do
  let reg := (((sscanfX data).map Prod.fst).getD u.reg).toNat
  let value ← readUint32 (afterIndex (char '=') data) (u.value 0)
  if ¬ reg < 16 then .error .assertion
  let arm ← armWriteRegister gdb.arm reg value
  gdbSendData { gdb with arm } (ascii "OK")

end Registers

/-! ## Packets -/

/-- The entries of the table `handler`. -/
inductive GdbHandler where
  | cont | killRequest | query | readGeneralRegisters | readMemory | readRegister | reason
  | setThread | step | writeGeneralRegisters | writeMemoryBinary | writeRegister
  deriving DecidableEq, Repr

def handler (index : Byte) : Option GdbHandler :=
  if index = char 'c' then some .cont
  else if index = char 'k' then some .killRequest
  else if index = char 'q' then some .query
  else if index = char 'g' then some .readGeneralRegisters
  else if index = char 'm' then some .readMemory
  else if index = char 'p' then some .readRegister
  else if index = char '?' then some .reason
  else if index = char 'H' then some .setThread
  else if index = char 's' then some .step
  else if index = char 'G' then some .writeGeneralRegisters
  else if index = char 'X' then some .writeMemoryBinary
  else if index = char 'P' then some .writeRegister
  else none

section Analysis

variable [Host] [ByteOrder]

def GdbHandler.run (gdb : GdbProtocolData) (data : List Byte) (u : HandlerLocals) (turns : Nat) :
    GdbHandler → Except Halt GdbProtocolData
  | .cont => Gdb.cont gdb u turns
  | .killRequest => .ok (Gdb.killRequest gdb)
  | .query => Gdb.query gdb data
  | .readGeneralRegisters => Gdb.readGeneralRegisters gdb
  | .readMemory => Gdb.readMemory gdb data u
  | .readRegister => Gdb.readRegister gdb data
  | .reason => Gdb.reason gdb
  | .setThread => Gdb.setThread gdb data
  | .step => Gdb.step gdb u
  | .writeGeneralRegisters => Gdb.writeGeneralRegisters gdb data u
  | .writeMemoryBinary => Gdb.writeMemoryBinary gdb data u
  | .writeRegister => Gdb.writeRegister gdb data u

/-- Hands the text after the `$` to its handler. -/
def handleRequest (gdb : GdbProtocolData) (u : HandlerLocals) (turns : Nat) :
    List Byte → Except Halt GdbProtocolData
  | [] => .error (.stopped .wild)
  | c :: data =>
    match handler c with
    | some h => h.run gdb data u turns
    | none => gdbSendData gdb (ascii "")

/-- `packet` is the text of `length` characters and what follows it in its buffer. -/
def gdbPacketAnalysis (gdb : GdbProtocolData) (packet : List Byte) (length : Nat)
    (u : HandlerLocals) (turns : Nat) : Except Halt GdbProtocolData :=
  -- the loop over `i` from 1 while `i < length - 3`
  let check := ((packet.take (length - 3)).drop 1).sum
  let i := max 1 (length - 3)
  let given := ((sscanfX (packet.drop (i + 1))).map Prod.fst).getD u.given
  if check.setWidth 32 = given then
    handleRequest (gdbSendAck gdb) u turns ((packet.set i 0).drop 1)
  else .ok (gdbRequireRetransmission gdb)

end Analysis

/-- `contents` is what `malloc` leaves in the packet. -/
def gdbInitData (arm : ArmCore) (contents : Packet) : GdbProtocolData where
  arm := arm
  targetException := 0
  packet := contents
  len := 0
  written := []

end ArmSimulator.Machine.Gdb
