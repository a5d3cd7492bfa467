import ArmSimulator.Exceptions.Step

/-! # Returning from an exception

A handler that consists of the return instruction alone restores the status,
since the entry saved it in the word it is read back from. The address it
resumes at depends on the link register: an instruction that raised its
exception after the fetch left it eight bytes ahead of itself, not four.
-/

namespace ArmSimulator.Exceptions

open Machine RegisterFile Foundation.ExceptRun

namespace Kind

/-- `movs pc, lr` after an instruction of the program, `subs pc, lr, #4` otherwise. -/
def handlerReturn : Kind → Word
  | softwareInterrupt | undefinedInstruction => 0xE1B0F00E
  | _ => 0xE25EF004

/-- What the return instruction makes of the link register. -/
def returnAddress (k : Kind) (lr : Word) : Word :=
  match k with
  | softwareInterrupt | undefinedInstruction => lr
  | _ => lr - 4

end Kind

theorem executeInst_return (q : Processor) (hm : isException q.file.mode) {opcode : Nat}
    {valueRn operand res : Word} {c v : Bool}
    (halu : aluSwitch opcode (getBit (armReadCpsr q.core) 29 ≠ 0)
      (getBit (armReadCpsr q.core) 28 ≠ 0) valueRn operand = some ⟨res, c, v, false⟩) :
    executeInst opcode q.core 15 valueRn operand true =
      .ok (0, armWriteCpsr (q.write 15 res).core (q.file.cells 0)) := by
  have hmode : currentModeHasSpsr (q.write 15 res).core.reg :=
    (q.write 15 res).file.currentModeHasSpsr_iff.mpr hm
  have hspsr : armReadSpsr (q.write 15 res).core = .ok (q.file.cells 0) := by
    rw [Processor.armReadSpsr_eq, Processor.write_cells, position_pc]
    exact congrArg _ (if_pos hm)
  unfold executeInst
  simp only [halu, Bool.not_false, if_true, Bool.true_or, Bool.true_and, decide_true, ok_bind,
    Processor.armWriteRegister_pc, hmode, hspsr]
  rfl

section Return

variable [Host]

theorem executeFetched_movs (u : Locals) (q : Processor) (hm : isException q.file.mode) :
    executeFetched u q.core 0xE1B0F00E =
      .ok (0, armWriteCpsr (q.write 15 (q.register 14)).core (q.file.cells 0)) := by
  have hlr : armReadRegister q.core 14 = .ok (q.register 14) := q.armReadRegister_eq 14
  have hrn : armReadRegister q.core 0 = .ok (q.register 0) := q.armReadRegister_eq 0
  have hshift (so : Word) : shiftOperand q.core 0xE1B0F00E so = .ok so := rfl
  change (armReadRegister q.core 14 >>= fun operand => armReadRegister q.core 0 >>= fun valueRn =>
    shiftOperand q.core 0xE1B0F00E operand >>= fun operand =>
      executeInst 13 q.core 15 valueRn operand true) = _
  rw [hlr, ok_bind, hrn, ok_bind, hshift, ok_bind]
  exact executeInst_return q hm rfl

/-- `subs pc, lr, #4`; rotating the immediate by nothing gives it back, or nothing more. -/
theorem executeFetched_subs (u : Locals) (q : Processor) (hm : isException q.file.mode) :
    executeFetched u q.core 0xE25EF004 =
      .ok (0, armWriteCpsr (q.write 15 (q.register 14 - 4)).core (q.file.cells 0)) := by
  have hlr : armReadRegister q.core 14 = .ok (q.register 14) := q.armReadRegister_eq 14
  have hror : ror 4 0 = 4 := by
    rw [ror]
    change cShr 4 0 ||| cShl 4 32 = 4
    rcases cShl_width 4 with h | h <;> rw [h, cShr_zero] <;> rfl
  change (armReadRegister q.core 14 >>= fun valueRn =>
    executeInst 2 q.core 15 valueRn (ror 4 0) true) = _
  rw [hlr, ok_bind, hror]
  exact executeInst_return q hm rfl

/-- The state after the handler's only instruction. -/
def returned (q : Processor) (k : Kind) : ArmCore :=
  armWriteCpsr ((fetched q).write 15 (k.returnAddress ((fetched q).register 14))).core
    ((fetched q).file.cells 0)

theorem armStep_handler (u : Locals) (q : Processor) (k : Kind) (hm : isException q.file.mode)
    (h : memoryReadWord q.mem (pcAddress q) u.inst = .ok (0, k.handlerReturn)) :
    armStep u q.core = .ok (0, returned q k) := by
  have hexec : executeFetched u (fetched q).core k.handlerReturn = .ok (0, returned q k) := by
    cases k with
    | softwareInterrupt | undefinedInstruction => exact executeFetched_movs u (fetched q) hm
    | reset | prefetchAbort | dataAbort | interrupt | fastInterrupt =>
      exact executeFetched_subs u (fetched q) hm
  rw [armStep_fetched u q h, hexec]
  rfl

omit [Host] in
theorem pcAddress_enter (q : Processor) (k : Kind) : pcAddress (enter q k) = k.vector := by
  rw [pcAddress, enter_pc]
  cases k <;> decide

omit [Host] in
theorem returned_enter (q : Processor) {k : Kind} (hk : k.needSpsr) :
    readCpsr (returned (enter q k) k).reg = readCpsr q.file.cells ∧
      fetchAddress (returned (enter q k) k) =
        .ok (readPc (k.returnAddress (k.link (q.file.cells 15))) - 4) := by
  have hsaved : (fetched (enter q k)).file.cells 0 = readCpsr q.file.cells := by
    rw [fetched_cells, if_neg (by decide), enter_saved q k hk]
  have hlr : (fetched (enter q k)).register 14 = k.link (q.file.cells 15) := by
    have hne : position k.mode 14 ≠ 15 := by cases k <;> decide
    have hcell := fetched_cells (enter q k) (position k.mode 14)
    rw [if_neg hne, enter_lr] at hcell
    rw [Processor.register, fetched_mode, enter_mode, hcell]
    rfl
  have hcore : returned (enter q k) k = (Processor.ofStatus ((fetched (enter q k)).write 15
      (k.returnAddress (k.link (q.file.cells 15)))).core
        ⟨readCpsr q.file.cells, q.file.mode, q.file.mode_eq⟩).core := by
    rw [returned, hsaved, hlr]
    rfl
  rw [hcore]
  constructor
  · exact readCpsr_writeCpsr _ _
  · have hpc (v : Word) : ((fetched (enter q k)).write 15 v).core.reg 15 = v := by
      change ((fetched (enter q k)).write 15 v).file.cells 15 = v
      rw [Processor.write_cells, position_pc, if_pos rfl]
    rw [fetchAddress_core, pcAddress, Processor.ofStatus_cells, if_neg (by decide), hpc]

/-- Where each kind returns to, by what `interrupted` adds to the program counter. -/
def resumeAddress (q : Processor) : Kind → Word
  | .softwareInterrupt | .undefinedInstruction => pcAddress q + 8
  | _ => pcAddress q

/-- `q` takes the exception `k`, arrives in `p'`, and should resume at `next`. -/
def Takes (u : Locals) (q : Processor) (k : Kind) (p' : ArmCore) (next : Word) : Prop :=
  match k with
  | .softwareInterrupt => armStep u q.core = .ok (3, p') ∧ next = pcAddress q + 4
  | .undefinedInstruction => armStep u q.core = .ok (2, p') ∧ next = pcAddress q + 4
  | .prefetchAbort => armStep u q.core = .ok (4, p') ∧ next = pcAddress q
  | .interrupt | .fastInterrupt => armException q.core k.number = .ok p' ∧ next = pcAddress q
  | .reset | .dataAbort => False

/-- One step of the handler leads back to `next` with the status `cpsr`. -/
def ReturnsTo (u : Locals) (p' : ArmCore) (next cpsr : Word) : Prop :=
  ∃ p, armStep u p' = .ok (0, p) ∧ fetchAddress p = .ok next ∧ readCpsr p.reg = cpsr

/-- The state whose entry the exception is. -/
def interrupted (q : Processor) : Kind → Processor
  | .interrupt | .fastInterrupt => q
  | _ => fetched q

theorem takes_enter {u : Locals} {q : Processor} {k : Kind} {p' : ArmCore} {next : Word}
    (h : Takes u q k p' next) : k.needSpsr ∧ p' = (enter (interrupted q k) k).core := by
  have hstep {r : Int × ArmCore} (hr : armStep u q.core = .ok r) := armStep_ends u q r hr
  cases k with
  | softwareInterrupt | undefinedInstruction | prefetchAbort =>
    refine ⟨rfl, ?_⟩
    rcases hstep h.1 with hend | hend | hend | hend | hend <;> simp_all [interrupted]
  | interrupt | fastInterrupt =>
    obtain ⟨hp, -⟩ := h
    rw [armException_enter, Except.ok.injEq] at hp
    exact ⟨rfl, hp.symm⟩
  | reset | dataAbort => exact h.elim

omit [Host] in
theorem resume_eq (q : Processor) {k : Kind} (hk : k ≠ .reset) (hk' : k ≠ .dataAbort) :
    readPc (k.returnAddress (k.link ((interrupted q k).file.cells 15))) - 4 =
      resumeAddress q k := by
  have hpc : (fetched q).file.cells 15 = readPc (q.file.cells 15) := by
    rw [fetched_cells, if_pos rfl]
  cases k with
  | softwareInterrupt | undefinedInstruction =>
    change readPc (readPc ((fetched q).file.cells 15)) - 4 = readPc (q.file.cells 15) - 4 + 8
    rw [hpc, readPc_readPc, readPc_readPc]
    bv_omega
  | prefetchAbort =>
    change readPc (readPc ((fetched q).file.cells 15) - 4 - 4) - 4 = readPc (q.file.cells 15) - 4
    rw [hpc, readPc_readPc, BitVec.add_sub_cancel, readPc_sub]
  | interrupt | fastInterrupt =>
    change readPc (readPc (q.file.cells 15) - 4) - 4 = readPc (q.file.cells 15) - 4
    rw [readPc_sub]
  | reset => exact absurd rfl hk
  | dataAbort => exact absurd rfl hk'

theorem returnsTo_iff (u v : Locals) {q : Processor} {k : Kind} {p' : ArmCore} {next : Word}
    (htakes : Takes u q k p' next)
    (hhandler : memoryReadWord p'.mem k.vector v.inst = .ok (0, k.handlerReturn)) :
    ReturnsTo v p' next (readCpsr q.file.cells) ↔ next = resumeAddress q k := by
  obtain ⟨hk, rfl⟩ := takes_enter htakes
  have hm : isException (enter (interrupted q k) k).file.mode := by
    rw [enter_mode]
    exact k.isException_mode
  have hstep := armStep_handler v (enter (interrupted q k) k) k hm
    (by rw [pcAddress_enter]; exact hhandler)
  obtain ⟨hcpsr, haddress⟩ := returned_enter (interrupted q k) hk
  rw [resume_eq q (by rintro rfl; exact htakes) (by rintro rfl; exact htakes)] at haddress
  have hcpsr' : readCpsr (interrupted q k).file.cells = readCpsr q.file.cells := by
    cases k <;> first | rfl | exact fetched_cpsr q
  constructor
  · rintro ⟨p, hp, hnext, -⟩
    rw [hstep, Except.ok.injEq, Prod.mk.injEq] at hp
    rw [← hp.2, haddress, Except.ok.injEq] at hnext
    exact hnext.symm
  · rintro rfl
    exact ⟨_, hstep, haddress, hcpsr.trans hcpsr'⟩

/-- Prefetch aborts and interrupts resume where they should; software interrupts
and undefined instructions never do. -/
theorem exception_return_iff (u v : Locals) (q : Processor) (k : Kind) (p' : ArmCore) (next : Word)
    (htakes : Takes u q k p' next)
    (hhandler : memoryReadWord p'.mem k.vector v.inst = .ok (0, k.handlerReturn)) :
    ReturnsTo v p' next (readCpsr q.file.cells) ↔
      k ≠ .softwareInterrupt ∧ k ≠ .undefinedInstruction := by
  rw [returnsTo_iff u v htakes hhandler]
  cases k with
  | softwareInterrupt | undefinedInstruction =>
    obtain ⟨-, rfl⟩ := htakes
    simp [resumeAddress]
  | prefetchAbort | interrupt | fastInterrupt =>
    obtain ⟨-, rfl⟩ := htakes
    simp [resumeAddress]
  | reset | dataAbort => exact htakes.elim

end Return

/-- User code at address 0, with `subs pc, lr, #4` at the vector of IRQ. -/
def irqProgram : Processor where
  cycleCount := 0
  file := File.blank (modeStatus .usr)
  mem := ⟨Array.replicate 24 0 ++ #[0x04, 0xF0, 0x5E, 0xE2], false⟩

theorem exception_return_irq :
    @ReturnsTo Host.x86 ⟨0, 0, 0, 0, 0, 0⟩ (enter irqProgram .interrupt).core (pcAddress irqProgram)
      (readCpsr irqProgram.file.cells) ↔
    Kind.interrupt ≠ .softwareInterrupt ∧ Kind.interrupt ≠ .undefinedInstruction :=
  letI := Host.x86
  exception_return_iff ⟨0, 0, 0, 0, 0, 0⟩ ⟨0, 0, 0, 0, 0, 0⟩ irqProgram .interrupt _ _
    ⟨armException_enter irqProgram .interrupt, rfl⟩
    (by rw [Processor.core, enter_mem]; rfl)

/-- `swi 0` at address 0, with `movs pc, lr` at its vector. -/
def swiProgram : Processor where
  cycleCount := 0
  file := File.blank (modeStatus .usr)
  mem := ⟨#[0, 0, 0, 0xEF, 0, 0, 0, 0, 0x0E, 0xF0, 0xB0, 0xE1], false⟩

theorem swiProgram_step [Host] (u : Locals) :
    armStep u swiProgram.core = .ok (3, (enter (fetched swiProgram) .softwareInterrupt).core) := by
  have hpc : pcAddress swiProgram = 0 := by decide
  have hread : memoryReadWord swiProgram.mem (pcAddress swiProgram) u.inst =
      .ok (0, 0xEF000000) := by
    rw [hpc]
    rfl
  have hexec (p : ArmCore) : executeFetched u p 0xEF000000 = .ok (3, p) := rfl
  rw [armStep_fetched u swiProgram hread, hexec, ok_bind]
  exact raiseResult_kind (fetched swiProgram) (by decide) rfl

/-- A software interrupt resumes one instruction too far. -/
theorem exception_return_swi :
    ¬ ∀ (host : Host) (u v : Locals) (q : Processor) (k : Kind) (p' : ArmCore) (next : Word),
      @Takes host u q k p' next →
      memoryReadWord p'.mem k.vector v.inst = .ok (0, k.handlerReturn) →
      @ReturnsTo host v p' next (readCpsr q.file.cells) := by
  intro h
  let host := Host.x86
  have htakes : Takes ⟨0, 0, 0, 0, 0, 0⟩ swiProgram .softwareInterrupt _
      (pcAddress swiProgram + 4) :=
    ⟨swiProgram_step _, rfl⟩
  have hhandler : memoryReadWord (enter (fetched swiProgram) .softwareInterrupt).core.mem
      Kind.softwareInterrupt.vector 0 = .ok (0, Kind.softwareInterrupt.handlerReturn) := by
    change memoryReadWord (enter (fetched swiProgram) .softwareInterrupt).mem _ _ = _
    rw [enter_mem]
    rfl
  have hreturns := h Host.x86 _ ⟨0, 0, 0, 0, 0, 0⟩ _ _ _ _ htakes hhandler
  rw [returnsTo_iff _ _ htakes hhandler] at hreturns
  exact absurd hreturns (by simp [resumeAddress])

end ArmSimulator.Exceptions
