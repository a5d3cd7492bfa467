import ArmSimulator.Machine.GdbProtocol

/-! # The scanner of the debugger link (`scanner.l`)

The generated scanner cuts its input into tokens and runs the rule of each.
Newlines outside packets match no rule, and only show on the terminal.
-/

namespace ArmSimulator.Machine.Gdb

def maxErrorSize : Nat := 1024

structure ParserData where
  gdb : GdbProtocolData
  buffer : CharArray maxErrorSize
  len : Nat

def handleError (data : ParserData) : Except Stop ParserData :=
  if data.len ≠ 0 then do
    let buffer ← data.buffer.set data.len 0
    return { gdb := gdbRequireRetransmission data.gdb, buffer, len := 0 }
  else return data

def addCharacterToError (data : ParserData) (c : Byte) : Except Stop ParserData := do
  let data ← if maxErrorSize - 2 < data.len then handleError data else pure data
  let buffer ← data.buffer.set data.len c
  return { data with buffer, len := data.len + 1 }

/-- A match of the rule `"$"[^$#]*"#"{HEX}{HEX}`. -/
structure PacketText where
  body : List Byte
  high : Byte
  low : Byte
  body_plain : ∀ c ∈ body, c ≠ char '$' ∧ c ≠ char '#'
  high_hex : (hexValue high).isSome
  low_hex : (hexValue low).isSome

namespace PacketText

/-- `yytext` -/
def text (t : PacketText) : List Byte := char '$' :: (t.body ++ [char '#', t.high, t.low])

end PacketText

/-- A packet, what follows its terminator in the scanner's buffer, and what the
handling of it finds in local variables; `turns` bounds the loop of `cont`. -/
structure Reception where
  packet : PacketText
  beyond : List Byte
  u : HandlerLocals
  turns : Nat

/-- What a rule has matched. -/
inductive Token where
  | plus
  | minus
  | packet (r : Reception)
  | stray (c : Byte)
  | eof

section Rules

variable [Host] [ByteOrder]

/-- The action of a token's rule. -/
def scan (data : ParserData) : Token → Except Halt ParserData
  | .plus => handleError data
  | .minus => do
    let data ← handleError data
    return { data with gdb := gdbTransmitPacket data.gdb }
  | .packet r => do
    let data ← handleError data
    let text := r.packet.text
    let gdb ← gdbPacketAnalysis data.gdb (text ++ 0 :: r.beyond) text.length r.u r.turns
    return { data with gdb }
  | .stray c => addCharacterToError data c
  | .eof => handleError data

end Rules

/-- The state before the first token; `contents` and `errors` are what `malloc`
and the stack leave in the two buffers. -/
def gdbScanner (arm : ArmCore) (contents : Packet) (errors : CharArray maxErrorSize) : ParserData :=
  ⟨gdbInitData arm contents, errors, 0⟩

end ArmSimulator.Machine.Gdb
