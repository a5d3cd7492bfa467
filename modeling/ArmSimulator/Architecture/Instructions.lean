import ArmSimulator.Foundation.StepLogic
import ArmSimulator.Shifting.Specification
import ArmSimulator.Storage.Words

/-! # A programmer's model

Word arithmetic without a carry in, comparisons, branches under the flags N and Z, and loads
and stores of words and of blocks of words, as the architecture describes them. A step is
undefined on any other word, past the end of memory, and where a word that is moved to the
program counter is not the address of an instruction.
-/

namespace ArmSimulator.Architecture

open Machine Storage Shifting

/-! ## Instructions -/

/-- The conditions on N and Z. -/
inductive Condition where
  | eq | ne | mi | pl | al
  deriving DecidableEq, Repr

def Condition.holds (n z : Bool) : Condition → Bool
  | eq => z
  | ne => !z
  | mi => n
  | pl => !n
  | al => true

inductive Operation where
  | sub | rsb | add | cmp | cmn | mov | mvn
  deriving DecidableEq, Repr

namespace Operation

def result (a b : Word) : Operation → Word
  | sub | cmp => a - b
  | rsb => b - a
  | add | cmn => a + b
  | mov => b
  | mvn => ~~~b

/-- It writes no register. -/
def compares : Operation → Bool
  | cmp | cmn => true
  | _ => false

end Operation

/-- A constant or a shifted register. -/
inductive Operand where
  | constant (value : Word)
  | register (m : Fin 16) (shift : Shift) (amount : ℕ)
  deriving DecidableEq, Repr

/-- The addresses of a transfer start at a base register plus or minus an offset. -/
inductive Instruction where
  | compute (operation : Operation) (flags : Bool) (d n : Fin 16) (x : Operand)
  | branch (link : Bool) (distance : ℤ)
  | load (d n : Fin 16) (up : Bool) (x : Operand)
  | store (d n : Fin 16) (up : Bool) (x : Operand)
  | loadBlock (n : Fin 16) (before up : Bool) (regs : List (Fin 16))
  | storeBlock (n : Fin 16) (before up : Bool) (regs : List (Fin 16))
  deriving DecidableEq, Repr

/-! ## Their encoding -/

section Decode

variable (w : Word)

def field (h l : ℕ) : ℕ := w.toNat / 2 ^ l % 2 ^ (h - l + 1)

def registerField (l : ℕ) : Fin 16 := Fin.ofNat 16 (w.toNat / 2 ^ l)

def decodeCondition : Option Condition :=
  match field w 31 28 with
  | 0 => some .eq
  | 1 => some .ne
  | 4 => some .mi
  | 5 => some .pl
  | 14 => some .al
  | _ => none

def decodeOperation : Option Operation :=
  match field w 24 21 with
  | 2 => some .sub
  | 3 => some .rsb
  | 4 => some .add
  | 10 => some .cmp
  | 11 => some .cmn
  | 13 => some .mov
  | 15 => some .mvn
  | _ => none

/-- To the right at least one place. -/
def decodeShift : Option Shift :=
  match field w 6 5 with
  | 0 => some .lsl
  | 2 => if field w 11 7 ≠ 0 then some .asr else none
  | 3 => if field w 11 7 ≠ 0 then some .ror else none
  | _ => none

/-- A rotated constant, or a register other than the program counter and a constant shift. -/
def decodeOperand : Option Operand :=
  if w.getLsbD 25 then
    some (.constant ((BitVec.ofNat 32 (field w 7 0)).rotateRight (2 * field w 11 8)))
  else if w.getLsbD 4 = false ∧ registerField w 0 ≠ 15 ∧ registerField w 16 ≠ 15 then do
    let shift ← decodeShift w
    return .register (registerField w 0) shift (field w 11 7)
  else none

/-- Comparisons set the flags, what writes the program counter does not. -/
def decodeCompute : Option Instruction := do
  let operation ← decodeOperation w
  let x ← decodeOperand w
  let flags := w.getLsbD 20
  let d := registerField w 12
  if if operation.compares then flags = true else flags = true → d ≠ 15 then
    some (.compute operation flags d (registerField w 16) x)
  else none

def decodeOffset : Option Operand :=
  if field w 27 25 = 2 then some (.constant (BitVec.ofNat 32 (field w 11 0)))
  else if field w 11 4 = 0 then some (.register (registerField w 0) .lsl 0)
  else none

/-- Words at an offset that is added before the transfer and not written back. -/
def decodeTransfer : Option Instruction := do
  let x ← decodeOffset w
  let d := registerField w 12
  let n := registerField w 16
  let up := w.getLsbD 23
  if w.getLsbD 24 = true ∧ w.getLsbD 22 = false ∧ w.getLsbD 21 = false then
    if w.getLsbD 20 then if d ≠ 15 then some (.load d n up x) else none
    else some (.store d n up x)
  else none

/-- Blocks whose base is not written back. -/
def decodeBlock : Option Instruction :=
  let regs := (List.finRange 16).filter fun r : Fin 16 => w.getLsbD r.val
  let n := registerField w 16
  let before := w.getLsbD 24
  let up := w.getLsbD 23
  if w.getLsbD 22 = false ∧ w.getLsbD 21 = false then
    if w.getLsbD 20 then if 15 ∉ regs then some (.loadBlock n before up regs) else none
    else some (.storeBlock n before up regs)
  else none

/-- Loads and stores have no condition here. -/
def decodeClass (condition : Condition) : Option Instruction :=
  match field w 27 25 with
  | 0 | 1 => decodeCompute w
  | 2 | 3 => if condition = .al then decodeTransfer w else none
  | 4 => if condition = .al then decodeBlock w else none
  | 5 => some (.branch (w.getLsbD 24) (w.setWidth 24).toInt)
  | _ => none

def decode : Option (Condition × Instruction) := do
  let condition ← decodeCondition w
  let instruction ← decodeClass w condition
  return (condition, instruction)

end Decode

/-! ## Their meaning -/

/-- What a program sees of the processor, but for the flags C and V. -/
structure State where
  registers : Fin 15 → Word
  pc : Word
  n : Bool
  z : Bool
  mem : Memory

/-- Words in memory, without a wrap around the addresses. -/
def InMemory (mem : Memory) (a : ℤ) (words : ℕ) : Prop :=
  0 ≤ a ∧ a + 4 * words ≤ mem.values.size ∧ a + 4 * words ≤ 2 ^ 32

instance (mem : Memory) (a : ℤ) (words : ℕ) : Decidable (InMemory mem a words) :=
  inferInstanceAs (Decidable (_ ∧ _ ∧ _))

namespace State

variable (s : State)

/-- A register; the program counter is two instructions ahead. -/
def read (r : Fin 16) : Word := if h : r.val < 15 then s.registers ⟨r, h⟩ else s.pc + 8

def next : State := { s with pc := s.pc + 4 }

def set (r : Fin 16) (v : Word) : State :=
  if h : r.val < 15 then { s with registers := Function.update s.registers ⟨r, h⟩ v }
  else { s with pc := v }

def setFlags (v : Word) : State := { s with n := v.msb, z := v = 0 }

def operand : Operand → Word
  | .constant value => value
  | .register m shift amount => places shift (s.read m) amount

def compute (operation : Operation) (flags : Bool) (d n : Fin 16) (x : Operand) : Option State :=
  let v := operation.result (s.read n) (s.operand x)
  let s := if flags then s.next.setFlags v else s.next
  if operation.compares then some s
  else if d = 15 ∧ ¬ 4 ∣ v.toNat then none
  else some (s.set d v)

def branch (link : Bool) (distance : ℤ) : State :=
  let s' := if link then s.set 14 (s.pc + 4) else s
  { s' with pc := s.pc + 8 + BitVec.ofInt 32 (4 * distance) }

theorem branch_false (distance : ℤ) : s.branch false distance =
    { s with pc := s.pc + 8 + BitVec.ofInt 32 (4 * distance) } := by
  rw [branch, if_neg Bool.false_ne_true]

def address (n : Fin 16) (up : Bool) (x : Operand) : Word :=
  if up then s.read n + s.operand x else s.read n - s.operand x

/-- The lowest address of a block, which starts or ends at its base or beside it. -/
def lowest (n : Fin 16) (before up : Bool) (words : ℕ) : ℤ :=
  let base : ℤ := (s.read n).toNat
  if before then if up then base + 4 else base - 4 * words
  else if up then base else base - 4 * words + 4

def store (a : ℤ) (ws : List Word) : Option State :=
  if InMemory s.mem a ws.length then some { s.next with mem := storeWords s.mem a.toNat ws }
  else none

def setAll (s : State) (a : ℕ) : List (Fin 16) → State
  | [] => s
  | r :: regs => setAll (s.set r (wordAt s.mem a)) (a + 4) regs

def load (a : ℤ) (regs : List (Fin 16)) : Option State :=
  if InMemory s.mem a regs.length then some (s.next.setAll a.toNat regs) else none

def execute : Instruction → Option State
  | .compute operation flags d n x => s.compute operation flags d n x
  | .branch link distance => some (s.branch link distance)
  | .load d n up x => s.load (s.address n up x).toNat [d]
  | .store d n up x => s.store (s.address n up x).toNat [s.read d]
  | .loadBlock n before up regs => s.load (s.lowest n before up regs.length) regs
  | .storeBlock n before up regs =>
    s.store (s.lowest n before up regs.length) (regs.map s.read)

def fetch : Option Word :=
  if InMemory s.mem s.pc.toNat 1 then some (wordAt s.mem s.pc.toNat) else none

def step : Option State := do
  let w ← s.fetch
  let (condition, instruction) ← decode w
  if condition.holds s.n s.z then s.execute instruction else return s.next

def run (k : ℕ) (s : State) : Option State := Foundation.StepLogic.run step k s

end State

end ArmSimulator.Architecture
