import ArmSimulator.Machine.Scanner

/-! # The two threads (`arm_simulator.c`)

One thread runs the scanner on the debugger's connection, the other raises an exception
for every byte of an interrupt connection. A handler holds the lock from its start to its
end, so that exceptions come between the handlers of two packets.
-/

namespace ArmSimulator.Machine.Gdb

/-- What one of the threads does next. -/
inductive Event where
  | token (t : Token)
  | irq (irq : Byte)

section Threads

variable [Host] [ByteOrder]

def react (data : ParserData) : Event → Except Halt ParserData
  | .token t => scan data t
  | .irq irq => do
    let arm ← irqListener data.gdb.arm irq
    return { data with gdb := { data.gdb with arm } }

end Threads

end ArmSimulator.Machine.Gdb
