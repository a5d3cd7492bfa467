import Mathlib.Data.BitVec
import Mathlib.Tactic.Common

/-! # The C machine below the simulator

Unsigned and signed integers are words of their width, signed ones read in two's
complement. What C leaves open is kept apart: the value of a shift whose count
is outside `0..31`, what a local holds before it is assigned, and the calls that
do not return.
-/

namespace ArmSimulator.Machine

abbrev Byte := BitVec 8
abbrev Half := BitVec 16
abbrev Word := BitVec 32

/-- The ways a call can end without returning to its caller. -/
inductive Stop where
  /-- `exit(status)` -/
  | exit (status : Int)
  /-- a failed `assert` -/
  | assertion
  /-- an index outside the array it is used on -/
  | wild
  deriving DecidableEq, Repr

/-- The 32-bit shifts of the machine the simulator is compiled for, at the counts
outside `0..31` for which C promises nothing. A machine either drops the count's
high bits or shifts everything out, so a shift by exactly 32 is the operand or 0. -/
class Host where
  shl : Word → Int → Word
  shr : Word → Int → Word
  sar : Word → Int → Word
  shl_width : ∀ x, shl x 32 = x ∨ shl x 32 = 0

/-- The build in the repository is for x86-64, which takes counts modulo 32. -/
@[reducible] def Host.x86 : Host where
  shl x n := x <<< (n % 32).toNat
  shr x n := x >>> (n % 32).toNat
  sar x n := x.sshiftRight (n % 32).toNat
  shl_width x := Or.inl (by simp)

section Shifts

variable [Host]

/-- `x << n` -/
def cShl (x : Word) (n : Int) : Word := if 0 ≤ n ∧ n < 32 then x <<< n.toNat else Host.shl x n

/-- `x >> n` for unsigned `x` -/
def cShr (x : Word) (n : Int) : Word := if 0 ≤ n ∧ n < 32 then x >>> n.toNat else Host.shr x n

/-- `x >> n` for signed `x` -/
def cSar (x : Word) (n : Int) : Word :=
  if 0 ≤ n ∧ n < 32 then x.sshiftRight n.toNat else Host.sar x n

@[simp] theorem cShr_zero (x : Word) : cShr x 0 = x := by simp [cShr]

theorem cShl_width (x : Word) : cShl x 32 = x ∨ cShl x 32 = 0 := by
  simpa [cShl] using Host.shl_width x

end Shifts

/-- What the local variables of the instruction handlers hold before they are
assigned: `inst` of the decoder, `address` and `index` of `arm_load_store`,
`word`, `half` and `byte` of the handlers it calls. -/
structure Locals where
  inst : Word
  address : Word
  index : Word
  word : Word
  half : Half
  byte : Byte
  deriving DecidableEq, Repr

end ArmSimulator.Machine
