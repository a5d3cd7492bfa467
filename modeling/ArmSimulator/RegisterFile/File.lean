import ArmSimulator.Machine.Registers

/-! # Register files in a valid mode

Under a valid mode every accessor of the register array is a plain read or
update of one position, and all of them keep the mode valid. A status word with
valid mode bits carries its mode.
-/

namespace ArmSimulator.RegisterFile

open Machine

/-- A register array whose mode bits are those of a mode. -/
structure File where
  cells : Registers
  mode : Mode
  mode_eq : getMode cells = mode.bits

/-- A status word whose mode bits are those of a mode. -/
structure Status where
  value : Word
  mode : Mode
  mode_eq : (getBits value 4 0).toNat = mode.bits

/-- The status word with the bits of a mode and no other bit set. -/
def modeStatus (m : Mode) : Status where
  value := BitVec.ofNat 32 m.bits
  mode := m
  mode_eq := by cases m <;> decide

/-- The register array looked at from another mode. -/
def inMode (r : Registers) (m : Mode) : Registers :=
  writeCpsr r (setBits (readCpsr r) 4 0 (BitVec.ofNat 32 m.bits))

/-- The position of a general register in a mode. -/
def position (m : Mode) (reg : Fin 16) : Position := bankPosition m.bits reg

/-- The modes the source's `has_spsr` accepts. -/
def isException : Mode → Bool
  | .usr | .sys => false
  | _ => true

theorem position_ne_cpsr (m : Mode) (reg : Fin 16) : position m reg ≠ Position.cpsr :=
  bankPosition_ne_cpsr m.bits_range.2 (by omega)

theorem position_usr : ∀ reg : Fin 16, position .usr reg = reg.castLE (by decide) := by decide

theorem position_pc : ∀ m : Mode, position m 15 = 15 := by
  intro m
  cases m <;> decide

theorem position_ne_pc : ∀ (m : Mode) (reg : Fin 16), reg ≠ 15 → position m reg ≠ 15 := by
  intro m
  cases m <;> decide

theorem position_eq_zero : ∀ (m : Mode) (reg : Fin 16), position m reg = 0 ↔ reg = 0 := by
  intro m
  cases m <;> decide

namespace File

/-- Zero everywhere but in the status. -/
def blank (s : Status) : File where
  cells := writeCpsr (fun _ => 0) s.value
  mode := s.mode
  mode_eq := by rw [getMode, readCpsr_writeCpsr, s.mode_eq]

variable (f : File)

theorem mode_ge : 16 ≤ getMode f.cells := by
  rw [f.mode_eq]
  exact f.mode.bits_range.1

/-- Storing at a position other than the CPSR's keeps the mode. -/
def store (l : Position) (hl : l ≠ Position.cpsr) (v : Word) : File where
  cells := Function.update f.cells l v
  mode := f.mode
  mode_eq := by rw [getMode_update hl, f.mode_eq]

def write (reg : Fin 16) (v : Word) : File :=
  f.store (position f.mode reg) (position_ne_cpsr _ _) v

def writeUsr (reg : Fin 16) (v : Word) : File :=
  f.store (position .usr reg) (position_ne_cpsr _ _) v

def writeStatus (s : Status) : File where
  cells := writeCpsr f.cells s.value
  mode := s.mode
  mode_eq := by rw [getMode, readCpsr_writeCpsr, s.mode_eq]

def writeSaved (v : Word) : File :=
  if isException f.mode then f.store 0 (by decide) v else f

theorem readRegister_eq (reg : Fin 16) :
    readRegister f.cells reg = .ok (f.cells (position f.mode reg)) := by
  rw [Machine.readRegister_eq f.mode_ge (by omega), f.mode_eq]
  rfl

theorem writeRegister_eq (reg : Fin 16) (v : Word) :
    writeRegister f.cells reg v = .ok (f.write reg v).cells := by
  rw [Machine.writeRegister_eq f.mode_ge (by omega), f.mode_eq]
  rfl

theorem readUsrRegister_eq (reg : Fin 16) :
    readUsrRegister f.cells reg = .ok (f.cells (position .usr reg)) := by
  rw [readUsrRegister, dif_pos (by omega), position_usr]
  rfl

theorem writeUsrRegister_eq (reg : Fin 16) (v : Word) :
    writeUsrRegister f.cells reg v = .ok (f.writeUsr reg v).cells := by
  rw [writeUsrRegister, dif_pos (by omega)]
  simp only [writeUsr, store, position_usr]
  rfl

theorem hasSpsr_iff : hasSpsr f.cells ↔ isException f.mode := by
  rw [hasSpsr, f.mode_eq]
  cases f.mode <;> decide

theorem currentModeHasSpsr_iff : currentModeHasSpsr f.cells ↔ isException f.mode := by
  rw [currentModeHasSpsr, f.mode_eq]
  cases f.mode <;> decide

/-- Every exception mode reads its saved status from the position of `r0`. -/
theorem readSpsr_eq : readSpsr f.cells = .ok (if isException f.mode then f.cells 0 else 0) := by
  by_cases h : isException f.mode
  · rw [Machine.readSpsr_eq f.mode_ge (f.hasSpsr_iff.mpr h), if_pos h]
  · rw [readSpsr, if_pos (mt f.hasSpsr_iff.mp h), if_neg h]

theorem writeSpsr_eq (v : Word) : writeSpsr f.cells v = .ok (f.writeSaved v).cells := by
  by_cases h : isException f.mode
  · rw [Machine.writeSpsr_eq f.mode_ge (f.hasSpsr_iff.mpr h), writeSaved, if_pos h]
    rfl
  · rw [writeSpsr, if_pos (mt f.hasSpsr_iff.mp h), writeSaved, if_neg h]

theorem writeSaved_cells (hm : isException f.mode) (v : Word) :
    (f.writeSaved v).cells = Function.update f.cells 0 v := by
  rw [writeSaved, if_pos hm]
  rfl

def statusIn (m : Mode) : Status where
  value := setBits (readCpsr f.cells) 4 0 (BitVec.ofNat 32 m.bits)
  mode := m
  mode_eq := by
    have hm : (BitVec.ofNat 32 m.bits).toNat = m.bits := by cases m <;> rfl
    have hlt := m.bits_range.2
    rw [getBits_setBits _ (by omega) (by omega) (by rw [hm]; omega), hm]

def inMode (m : Mode) : File := f.writeStatus (f.statusIn m)

theorem inMode_cells (m : Mode) {l : Position} (hl : l ≠ Position.cpsr) :
    (f.inMode m).cells l = f.cells l :=
  Function.update_of_ne hl _ _

theorem readRegister_inMode (m : Mode) (reg : Fin 16) :
    readRegister (RegisterFile.inMode f.cells m) reg = .ok (f.cells (position m reg)) := by
  change readRegister (f.inMode m).cells reg = _
  rw [readRegister_eq]
  exact congrArg _ (f.inMode_cells m (position_ne_cpsr m reg))

theorem readSpsr_inMode {m : Mode} (hm : isException m) :
    readSpsr (RegisterFile.inMode f.cells m) = .ok (f.cells 0) := by
  change readSpsr (f.inMode m).cells = _
  rw [readSpsr_eq, inMode_cells _ _ (by decide)]
  exact congrArg _ (if_pos hm)

end File

end ArmSimulator.RegisterFile
