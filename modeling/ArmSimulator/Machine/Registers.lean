import ArmSimulator.Foundation.ExceptRun
import ArmSimulator.Foundation.LookupTable
import ArmSimulator.Machine.Util

/-! # The register array and its bank table (`registers.c`)

One array of 37 words holds every register of every mode. The table
`arm_mode_register` gives the position of a register in a mode. The loop that
fills it compares the mode less 16 with the mode constants, so all four modes
with a private stack pointer and link register get the positions of IRQ, and it
stops before column 17, which therefore reads as position 0.
-/

namespace ArmSimulator.Machine

open Foundation.LookupTable Foundation.ExceptRun

/-- The valid values of the five mode bits. -/
inductive Mode where
  | usr | fiq | irq | svc | abt | und | sys
  deriving DecidableEq, Repr

namespace Mode

def bits : Mode → Nat
  | usr => 0b10000
  | fiq => 0b10001
  | irq => 0b10010
  | svc => 0b10011
  | abt => 0b10111
  | und => 0b11011
  | sys => 0b11111

theorem bits_injective : Function.Injective bits := by
  intro m m' h
  cases m <;> cases m' <;> first | rfl | simp [bits] at h

theorem bits_range (m : Mode) : 16 ≤ m.bits ∧ m.bits < 32 := by
  cases m <;> decide

end Mode

/-- Positions in the register array. -/
abbrev Position := Fin 37

/-- Literals of positions and of register numbers. -/
instance position_neZero : NeZero 37 := ⟨by decide⟩

instance register_neZero : NeZero 16 := ⟨by decide⟩

namespace Position

def cpsr : Position := 16
def r13Svc : Position := 17
def r13Abt : Position := 20
def r13Und : Position := 23
def r13Irq : Position := 26
def r14Irq : Position := 27
def r8Fiq : Position := 29

end Position

/-- `struct registers_data` -/
abbrev Registers := Position → Word

/-- The value the loop body of `init` computes for a mode less 16 and a register. -/
def initValue (mode reg : Nat) : Nat :=
  match mode + 16 with
  | 0b10000 | 0b11111 => reg
  | 0b10011 | 0b10111 | 0b11011 | 0b10010 =>
    if reg ≤ 12 ∨ reg = 15 ∨ reg = 16 then reg
    else
      let i := if reg ≤ 14 then reg - 13 else 2
      -- `mode` is at most 15 here and the constants start at 16
      let val := if mode = Mode.svc.bits then Position.r13Svc.val
        else if mode = Mode.abt.bits then Position.r13Abt.val
        else if mode = Mode.und.bits then Position.r13Und.val
        else Position.r13Irq.val
      val + i
  | 0b10001 =>
    if reg ≤ 7 ∨ reg = 15 ∨ reg = 16 then reg
    else
      let i := if reg ≤ 14 then reg - 8 else 7
      Position.r8Fiq.val + i
  | _ => 0

/-- `(mode << 5) | reg` -/
def modeRegisterIndex (mode reg : Nat) : Nat := (mode <<< 5) ||| reg

def init : Lazy Nat → Lazy Nat := Lazy.force (loops 16 17 modeRegisterIndex initValue)

/-- Every access calls `init` first, so this is the table each of them sees. -/
def armModeRegister : Table Nat := (init Lazy.start).table

/-- `arm_mode_register[((mode - 16) << 5) | reg]` as a position: `wild` when the index is
negative or past the 497 entries, 0 when no assignment reached the entry. -/
def modePosition (mode reg : Nat) : Except Stop Position :=
  if mode < 16 ∨ 497 ≤ modeRegisterIndex (mode - 16) reg then .error .wild
  else
    let entry := (armModeRegister (modeRegisterIndex (mode - 16) reg)).getD 0
    if h : entry < 37 then .ok ⟨entry, h⟩ else .error .wild

def readCpsr (r : Registers) : Word := r Position.cpsr

def writeCpsr (r : Registers) (value : Word) : Registers := Function.update r Position.cpsr value

def getMode (r : Registers) : Nat := (getBits (readCpsr r) 4 0).toNat

/-- `malloc` leaves `r` in the array; only the mode is set. -/
def registersCreate (r : Registers) : Registers :=
  writeCpsr r (setBits (readCpsr r) 4 0 (BitVec.ofNat 32 Mode.usr.bits))

def isValid (reg : Nat) : Prop := 0 ≤ reg ∧ reg ≤ 15

instance (reg : Nat) : Decidable (isValid reg) := inferInstanceAs (Decidable (_ ∧ _))

def hasSpsr (r : Registers) : Prop := getMode r ≠ Mode.usr.bits ∧ getMode r ≠ Mode.sys.bits

instance (r : Registers) : Decidable (hasSpsr r) := inferInstanceAs (Decidable (_ ∧ _))

def currentModeHasSpsr (r : Registers) : Prop :=
  getMode r = Mode.svc.bits ∨ getMode r = Mode.abt.bits ∨ getMode r = Mode.und.bits ∨
    getMode r = Mode.irq.bits ∨ getMode r = Mode.fiq.bits

instance (r : Registers) : Decidable (currentModeHasSpsr r) :=
  inferInstanceAs (Decidable (_ ∨ _))

def readRegister (r : Registers) (reg : Nat) : Except Stop Word :=
  if ¬ isValid reg then .ok 0
  else do
    let position ← modePosition (getMode r) reg
    return r position

/-- The user registers are the first entries, indexed without the table. -/
def readUsrRegister (r : Registers) (reg : Nat) : Except Stop Word :=
  if h : reg < 37 then .ok (r ⟨reg, h⟩) else .error .wild

def readSpsr (r : Registers) : Except Stop Word :=
  if ¬ hasSpsr r then .ok 0
  else do
    let position ← modePosition (getMode r) 17
    return r position

def writeRegister (r : Registers) (reg : Nat) (value : Word) : Except Stop Registers :=
  if ¬ isValid reg then .ok r
  else do
    let position ← modePosition (getMode r) reg
    return Function.update r position value

def writeUsrRegister (r : Registers) (reg : Nat) (value : Word) : Except Stop Registers :=
  if h : reg < 37 then .ok (Function.update r ⟨reg, h⟩ value) else .error .wild

def writeSpsr (r : Registers) (value : Word) : Except Stop Registers :=
  if ¬ hasSpsr r then .ok r
  else do
    let position ← modePosition (getMode r) 17
    return Function.update r position value

/-! ## What the accessors reach -/

theorem modeRegisterIndex_eq (mode reg : Nat) (hreg : reg < 32) :
    modeRegisterIndex mode reg = 32 * mode + reg := by
  rw [modeRegisterIndex, ← Nat.shiftLeft_add_eq_or_of_lt (i := 5) hreg, Nat.shiftLeft_eq]
  omega

theorem modeRegisterIndex_injective {mode mode' reg reg' : Nat} (hreg : reg < 32)
    (hreg' : reg' < 32) (h : modeRegisterIndex mode reg = modeRegisterIndex mode' reg') :
    mode = mode' ∧ reg = reg' := by
  rw [modeRegisterIndex_eq mode _ hreg, modeRegisterIndex_eq mode' _ hreg'] at h
  omega

theorem armModeRegister_eq :
    armModeRegister = fill (fun _ => none) (loops 16 17 modeRegisterIndex initValue) := by
  simp only [armModeRegister, init, Lazy.force, Lazy.start, Bool.false_eq_true, if_false]

theorem armModeRegister_assigned (mode reg : Nat) (hmode : mode < 16) (hreg : reg < 17) :
    armModeRegister (modeRegisterIndex mode reg) = some (initValue mode reg) := by
  rw [armModeRegister_eq]
  apply fill_loops _ _ hmode hreg
  intro i _ j hj i' _ j' hj' h
  exact modeRegisterIndex_injective (by omega) (by omega) h

theorem armModeRegister_unassigned (mode : Nat) :
    armModeRegister (modeRegisterIndex mode 17) = none := by
  rw [armModeRegister_eq]
  refine fill_loops_outside _ fun i _ j hj h => ?_
  have := (modeRegisterIndex_injective (by omega) (by omega) h).2
  omega

theorem initValue_lt : ∀ mode < 16, ∀ reg < 17, initValue mode reg < 37 := by decide

/-- The position the table gives a register in the mode with these bits. -/
def bankPosition (mode reg : Nat) : Position := Fin.ofNat 37 (initValue (mode - 16) reg)

theorem modePosition_register {mode reg : Nat} (hmode : 16 ≤ mode) (hmode' : mode < 32)
    (hreg : reg ≤ 15) : modePosition mode reg = .ok (bankPosition mode reg) := by
  have hindex := modeRegisterIndex_eq (mode - 16) reg (by omega)
  have hlt := initValue_lt (mode - 16) (by omega) reg (by omega)
  rw [modePosition, if_neg (by omega),
    armModeRegister_assigned (mode - 16) reg (by omega) (by omega)]
  simp only [Option.getD_some, dif_pos hlt]
  congr 1
  exact Fin.ext (Nat.mod_eq_of_lt hlt).symm

/-- The saved status register of every mode shares its position with `r0`. -/
theorem modePosition_spsr {mode : Nat} (hmode : 16 ≤ mode) (hmode' : mode < 31) :
    modePosition mode 17 = .ok 0 := by
  have hindex := modeRegisterIndex_eq (mode - 16) 17 (by omega)
  rw [modePosition, if_neg (by omega), armModeRegister_unassigned]
  rfl

theorem getMode_lt (r : Registers) : getMode r < 32 :=
  toNat_getBits_lt (readCpsr r) (by omega)

theorem bankPosition_ne_cpsr {mode reg : Nat} (hmode : mode < 32) (hreg : reg ≤ 15) :
    bankPosition mode reg ≠ Position.cpsr := by
  have h : ∀ mode < 32, ∀ reg < 16, bankPosition mode reg ≠ Position.cpsr := by decide
  exact h mode hmode reg (by omega)

theorem readRegister_eq {r : Registers} {reg : Nat} (hmode : 16 ≤ getMode r) (hreg : reg ≤ 15) :
    readRegister r reg = .ok (r (bankPosition (getMode r) reg)) := by
  rw [readRegister, if_neg (not_not.mpr ⟨reg.zero_le, hreg⟩),
    modePosition_register hmode (getMode_lt r) hreg]
  rfl

theorem writeRegister_eq {r : Registers} {reg : Nat} (hmode : 16 ≤ getMode r) (hreg : reg ≤ 15)
    (value : Word) : writeRegister r reg value =
      .ok (Function.update r (bankPosition (getMode r) reg) value) := by
  rw [writeRegister, if_neg (not_not.mpr ⟨reg.zero_le, hreg⟩),
    modePosition_register hmode (getMode_lt r) hreg]
  rfl

theorem readSpsr_eq {r : Registers} (hmode : 16 ≤ getMode r) (hspsr : hasSpsr r) :
    readSpsr r = .ok (r 0) := by
  have hne : getMode r ≠ 31 := hspsr.2
  have hlt := getMode_lt r
  rw [readSpsr, if_neg (not_not.mpr hspsr), modePosition_spsr hmode (by omega)]
  rfl

theorem writeSpsr_eq {r : Registers} (hmode : 16 ≤ getMode r) (hspsr : hasSpsr r) (value : Word) :
    writeSpsr r value = .ok (Function.update r 0 value) := by
  have hne : getMode r ≠ 31 := hspsr.2
  have hlt := getMode_lt r
  rw [writeSpsr, if_neg (not_not.mpr hspsr), modePosition_spsr hmode (by omega)]
  rfl

theorem getMode_update {r : Registers} {position : Position} (h : position ≠ Position.cpsr)
    (value : Word) : getMode (Function.update r position value) = getMode r := by
  rw [getMode, getMode, readCpsr, readCpsr, Function.update_of_ne h.symm]

theorem modePosition_ge {mode reg : Nat} {l : Position} (h : modePosition mode reg = .ok l) :
    16 ≤ mode := by
  by_contra hlt
  rw [modePosition, if_pos (by omega)] at h
  simp at h

theorem writeRegister_cpsr (r : Registers) (reg : Nat) (value : Word) :
    Ensures (writeRegister r reg value) fun r' => readCpsr r' = readCpsr r := by
  unfold writeRegister
  split
  · exact ensures_ok rfl
  · rename_i hvalid
    obtain ⟨-, hreg⟩ := not_not.mp hvalid
    have hposition : Ensures (modePosition (getMode r) reg) fun l => l ≠ Position.cpsr := by
      intro l hl
      rw [modePosition_register (modePosition_ge hl) (getMode_lt r) hreg, Except.ok.injEq] at hl
      exact hl ▸ bankPosition_ne_cpsr (getMode_lt r) hreg
    exact hposition.bind fun l hl => ensures_pure (Function.update_of_ne hl.symm _ _)

theorem writeSpsr_cpsr (r : Registers) (value : Word) :
    Ensures (writeSpsr r value) fun r' => readCpsr r' = readCpsr r := by
  unfold writeSpsr
  split
  · exact ensures_ok rfl
  · rename_i hspsr
    have hne : getMode r ≠ 31 := (not_not.mp hspsr).2
    have hlt := getMode_lt r
    have hposition : Ensures (modePosition (getMode r) 17) fun l => l ≠ Position.cpsr := by
      intro l hl
      rw [modePosition_spsr (modePosition_ge hl) (by omega), Except.ok.injEq] at hl
      exact hl ▸ by decide
    exact hposition.bind fun l hl => ensures_pure (Function.update_of_ne hl.symm _ _)

@[simp] theorem readCpsr_writeCpsr (r : Registers) (value : Word) :
    readCpsr (writeCpsr r value) = value := by
  simp [readCpsr, writeCpsr]

end ArmSimulator.Machine
