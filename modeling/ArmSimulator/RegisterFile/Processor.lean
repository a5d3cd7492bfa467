import ArmSimulator.Machine.Core
import ArmSimulator.RegisterFile.File

/-! # Processors in a valid mode

Under a valid mode the register accesses of the core never fail, and each one
is the access of the register file it holds.
-/

namespace ArmSimulator.RegisterFile

open Machine

/-- A processor state whose registers are in a valid mode. -/
structure Processor where
  cycleCount : Word
  file : File
  mem : Memory

namespace Processor

/-- A core in any mode once a valid status is written to it. -/
def ofStatus (p : ArmCore) (s : Status) : Processor where
  cycleCount := p.cycleCount
  file := ⟨writeCpsr p.reg s.value, s.mode, by rw [getMode, readCpsr_writeCpsr, s.mode_eq]⟩
  mem := p.mem

variable (q : Processor)

def core : ArmCore := ⟨q.cycleCount, q.file.cells, q.mem⟩

def withFile (f : File) : Processor := { q with file := f }

theorem exists_core (p : ArmCore) {m : Mode} (hm : getMode p.reg = m.bits) :
    ∃ q : Processor, q.core = p :=
  ⟨⟨p.cycleCount, ⟨p.reg, m, hm⟩, p.mem⟩, rfl⟩

/-- A register as instructions see it. -/
def register (reg : Fin 16) : Word :=
  let value := q.file.cells (position q.file.mode reg)
  if reg = 15 then readPc value else value

def write (reg : Fin 16) (value : Word) : Processor := q.withFile (q.file.write reg value)

def writeSaved (value : Word) : Processor := q.withFile (q.file.writeSaved value)

theorem armReadRegister_eq (reg : Fin 16) : armReadRegister q.core reg = .ok (q.register reg) := by
  rw [armReadRegister, core, q.file.readRegister_eq]
  by_cases hreg : reg = 15
  · simp [hreg, register, pure, Except.pure, bind, Except.bind]
  · have hval : reg.val ≠ 15 := fun h => hreg (Fin.ext h)
    simp [hreg, hval, register, pure, Except.pure, bind, Except.bind]

theorem armWriteRegister_eq (reg : Fin 16) (value : Word) :
    armWriteRegister q.core reg value = .ok (q.write reg value).core := by
  rw [armWriteRegister, core, q.file.writeRegister_eq]
  rfl

theorem armReadSpsr_eq :
    armReadSpsr q.core = .ok (if isException q.file.mode then q.file.cells 0 else 0) :=
  q.file.readSpsr_eq

theorem armWriteSpsr_eq (value : Word) :
    armWriteSpsr q.core value = .ok (q.writeSaved value).core := by
  rw [armWriteSpsr, core, q.file.writeSpsr_eq]
  rfl

/-! ## The named registers -/

theorem armReadRegister_sp : armReadRegister q.core 13 = .ok (q.register 13) :=
  q.armReadRegister_eq 13

theorem armReadRegister_pc : armReadRegister q.core 15 = .ok (readPc (q.file.cells 15)) := by
  have hpc : armReadRegister q.core 15 = .ok (q.register 15) := q.armReadRegister_eq 15
  rw [hpc, register, position_pc]
  rfl

theorem armWriteRegister_sp (value : Word) :
    armWriteRegister q.core 13 value = .ok (q.write 13 value).core := q.armWriteRegister_eq 13 value

theorem armWriteRegister_lr (value : Word) :
    armWriteRegister q.core 14 value = .ok (q.write 14 value).core := q.armWriteRegister_eq 14 value

theorem armWriteRegister_pc (value : Word) :
    armWriteRegister q.core 15 value = .ok (q.write 15 value).core := q.armWriteRegister_eq 15 value

/-! ## What the writes leave in the array -/

theorem write_cells (reg : Fin 16) (value : Word) (l : Position) :
    (q.write reg value).file.cells l =
      if l = position q.file.mode reg then value else q.file.cells l :=
  Function.update_apply _ _ _ _

theorem register_write (reg : Fin 16) (value : Word) :
    (q.write reg value).register reg = if reg = 15 then readPc value else value := by
  change (let cell := (q.write reg value).file.cells (position q.file.mode reg)
    if reg = 15 then readPc cell else cell) = _
  rw [write_cells, if_pos rfl]

theorem ofStatus_cells (p : ArmCore) (s : Status) (l : Position) :
    (ofStatus p s).file.cells l = if l = Position.cpsr then s.value else p.reg l :=
  Function.update_apply _ _ _ _

theorem writeSaved_cells (hm : isException q.file.mode) (value : Word) (l : Position) :
    (q.writeSaved value).file.cells l = if l = 0 then value else q.file.cells l := by
  rw [writeSaved, withFile, File.writeSaved_cells _ hm, Function.update_apply]

theorem writeSaved_mode (value : Word) : (q.writeSaved value).file.mode = q.file.mode := by
  change (q.file.writeSaved value).mode = q.file.mode
  rw [File.writeSaved]
  split <;> rfl

end Processor

end ArmSimulator.RegisterFile
