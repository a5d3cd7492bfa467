import ArmSimulator.Machine.Memory
import ArmSimulator.Machine.Registers

/-! # The processor state (`arm_core.c`)

Register and memory accesses as the rest of the simulator sees them. The program
counter is stored one instruction ahead and every read of it adds 4 more. The
trace output of these functions is not part of the model; the macros around them
make a write evaluate to 0.
-/

namespace ArmSimulator.Machine

open Foundation.ExceptRun

/-- `struct arm_core_data` -/
structure ArmCore where
  cycleCount : Word
  reg : Registers
  mem : Memory

namespace Exception

def reset : Int := 1
def undefinedInstruction : Int := 2
def softwareInterrupt : Int := 3
def prefetchAbort : Int := 4
def dataAbort : Int := 5
def interrupt : Int := 6
def fastInterrupt : Int := 7

end Exception

def armGetCycleCount (p : ArmCore) : Word := p.cycleCount

/-- What `arm_read_register` makes of the stored program counter. -/
def readPc (value : Word) : Word := (value + 4) &&& 0xFFFFFFFD

def armReadRegister (p : ArmCore) (reg : Nat) : Except Stop Word := do
  let value ← readRegister p.reg reg
  return if reg = 15 then readPc value else value

def armReadCpsr (p : ArmCore) : Word := readCpsr p.reg

def armReadSpsr (p : ArmCore) : Except Stop Word := readSpsr p.reg

def armWriteRegister (p : ArmCore) (reg : Nat) (value : Word) : Except Stop ArmCore := do
  let reg ← writeRegister p.reg reg value
  return { p with reg }

def armWriteCpsr (p : ArmCore) (value : Word) : ArmCore := { p with reg := writeCpsr p.reg value }

def armWriteSpsr (p : ArmCore) (value : Word) : Except Stop ArmCore := do
  let reg ← writeSpsr p.reg value
  return { p with reg }

/-- Returns the result of the read, the out-parameter and the new state. -/
def armFetch (p : ArmCore) (value : Word) : Except Stop (Int × Word × ArmCore) := do
  let p := { p with cycleCount := p.cycleCount + 1 }
  let address := (← armReadRegister p 15) - 4
  let (result, value) ← memoryReadWord p.mem address value
  let p ← armWriteRegister p 15 (address + 4)
  return (result, value, p)

def armReadByte (p : ArmCore) (address : Word) (value : Byte) : Except Stop (Int × Byte) :=
  memoryReadByte p.mem address value

def armReadHalf (p : ArmCore) (address : Word) (value : Half) : Except Stop (Int × Half) :=
  memoryReadHalf p.mem address value

def armReadWord (p : ArmCore) (address : Word) (value : Word) : Except Stop (Int × Word) :=
  memoryReadWord p.mem address value

def armWriteByte (p : ArmCore) (address : Word) (value : Byte) : Except Stop (Int × ArmCore) := do
  let (result, mem) ← memoryWriteByte p.mem address value
  return (result, { p with mem })

def armWriteHalf (p : ArmCore) (address : Word) (value : Half) : Except Stop (Int × ArmCore) := do
  let (result, mem) ← memoryWriteHalf p.mem address value
  return (result, { p with mem })

def armWriteWord (p : ArmCore) (address : Word) (value : Word) : Except Stop (Int × ArmCore) := do
  let (result, mem) ← memoryWriteWord p.mem address value
  return (result, { p with mem })

/-! ## The status across register accesses -/

theorem armReadRegister_mode {p : ArmCore} {reg : Nat} {value : Word} (hreg : reg ≤ 15)
    (h : armReadRegister p reg = .ok value) : 16 ≤ getMode p.reg := by
  obtain ⟨x, hx, -⟩ := bind_eq_ok.mp h
  rw [readRegister, if_neg (not_not.mpr ⟨reg.zero_le, hreg⟩)] at hx
  obtain ⟨l, hl, -⟩ := bind_eq_ok.mp hx
  exact modePosition_ge hl

theorem armWriteRegister_mode {p p' : ArmCore} {reg : Nat} {value : Word} (hreg : reg ≤ 15)
    (h : armWriteRegister p reg value = .ok p') : 16 ≤ getMode p.reg := by
  obtain ⟨r, hr, -⟩ := bind_eq_ok.mp h
  rw [writeRegister, if_neg (not_not.mpr ⟨reg.zero_le, hreg⟩)] at hr
  obtain ⟨l, hl, -⟩ := bind_eq_ok.mp hr
  exact modePosition_ge hl

theorem armReadRegister_ok {p : ArmCore} {reg : Nat} (hmode : 16 ≤ getMode p.reg)
    (hreg : reg ≤ 15) : ∃ value, armReadRegister p reg = .ok value := by
  rw [armReadRegister, readRegister_eq hmode hreg]
  exact ⟨_, rfl⟩

theorem armReadRegister_field {p : ArmCore} (hmode : 16 ≤ getMode p.reg) (inst : Word)
    {h l : Nat} (hh : h < 32) (hwidth : h - l = 3) :
    ∃ value, armReadRegister p (getBits inst h l).toNat = .ok value := by
  have hlt := toNat_getBits_lt inst (h := h) (l := l) hh
  rw [hwidth] at hlt
  exact armReadRegister_ok hmode (Nat.le_of_lt_succ hlt)

theorem armWriteRegister_cpsr (p : ArmCore) (reg : Nat) (value : Word) :
    Ensures (armWriteRegister p reg value) fun p' => armReadCpsr p' = armReadCpsr p :=
  (writeRegister_cpsr p.reg reg value).bind fun _ h => ensures_pure h

theorem armWriteSpsr_cpsr (p : ArmCore) (value : Word) :
    Ensures (armWriteSpsr p value) fun p' => armReadCpsr p' = armReadCpsr p :=
  (writeSpsr_cpsr p.reg value).bind fun _ h => ensures_pure h

theorem getMode_of_cpsr {p p' : ArmCore} (h : armReadCpsr p' = armReadCpsr p) :
    getMode p'.reg = getMode p.reg := congrArg (fun x => (getBits x 4 0).toNat) h

theorem armFetch_cpsr (p : ArmCore) (value : Word) : Ensures (armFetch p value) fun r =>
    armReadCpsr r.2.2 = armReadCpsr p ∧ 16 ≤ getMode p.reg := by
  intro r h
  obtain ⟨pc, hpc, h⟩ := bind_eq_ok.mp h
  obtain ⟨word, -, h⟩ := bind_eq_ok.mp h
  obtain ⟨p', hp', h⟩ := bind_eq_ok.mp h
  rw [pure_eq_ok] at h
  subst h
  have hwrite := armWriteRegister_cpsr { p with cycleCount := p.cycleCount + 1 } 15 _ p' hp'
  exact ⟨hwrite, armReadRegister_mode (by omega) hpc⟩

theorem armFetch_mode {p p' : ArmCore} {value word : Word} {r : Int}
    (h : armFetch p value = .ok (r, word, p')) :
    getMode p'.reg = getMode p.reg ∧ 16 ≤ getMode p'.reg := by
  obtain ⟨hcpsr, hmode⟩ := armFetch_cpsr p value _ h
  have hsame := getMode_of_cpsr hcpsr
  exact ⟨hsame, hsame ▸ hmode⟩

end ArmSimulator.Machine
