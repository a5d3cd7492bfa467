import ArmSimulator.DataProcessing.Effect
import ArmSimulator.Decoding.Outcome
import ArmSimulator.Exceptions.Frame
import ArmSimulator.RegisterFile.Banks

/-! # Straight-line data processing

A run of stored data-processing words that leave the program counter alone goes
through them one by one. In the register array it changes the cells of its
destinations and the flags. That these cells belong to the current mode alone
fails where the array has one cell for several: `r0` is every saved status, and
IRQ, SVC, ABT and UND have `r13` and `r14` in common.
-/

namespace ArmSimulator.DataProcessing

open Machine RegisterFile Transfers Decoding Exceptions Foundation.ExceptRun

/-- A word of the two data-processing handlers that does not write the program counter. -/
structure IsDataProcessing (inst : Word) : Prop where
  dispatched : dispatch inst = .dataProcessingShift ∨ dispatch inst = .dataProcessingImmediateMsr
  condition : condField inst ≠ 0b1111
  destination : rd inst ≠ 15
  tests : IsTest (getBits inst 24 21).toNat → getBit inst 20 = 1

def StoredFrom (mem : Memory) : Word → List Word → Prop
  | _, [] => True
  | a, w :: ws => (∀ old, memoryReadWord mem a old = .ok (0, w)) ∧ StoredFrom mem (a + 4) ws

def Writes (p : ArmCore) (inst : Word) (reg : Fin 16) : Prop :=
  Passes (armReadCpsr p) inst ∧ ¬ IsTest (getBits inst 24 21).toNat ∧ rd inst = reg

def SetsFlags (p : ArmCore) (inst : Word) : Prop :=
  Passes (armReadCpsr p) inst ∧ getBit inst 20 = 1

/-! ## One step -/

/-- What one of the words does to the processor. -/
structure StepFrame (q : Processor) (inst : Word) (q' : Processor) : Prop where
  mem : q'.mem = q.mem
  cycles : q'.cycleCount = q.cycleCount + 1
  mode : q'.file.mode = q.file.mode
  pc : q'.file.cells 15 = readPc (q.file.cells 15)
  cells : ∀ l, l ≠ 15 → l ≠ Position.cpsr →
    (∀ reg, position q.file.mode reg = l → ¬ Writes q.core inst reg) →
    q'.file.cells l = q.file.cells l
  status : ∀ j < 28, (readCpsr q'.file.cells).getLsbD j = (readCpsr q.file.cells).getLsbD j
  flags : ¬ SetsFlags q.core inst → readCpsr q'.file.cells = readCpsr q.file.cells

section Step

variable [Host] (q : Processor) (inst : Word)

theorem armDataProcessingShift_executes : ∃ valueRn operand,
    armDataProcessingShift q.core inst = executeInst (getBits inst 24 21).toNat q.core (rd inst)
      valueRn operand (getBit inst 20 ≠ 0) := by
  have hread {h l : Nat} (hh : h < 32) (hwidth : h - l = 3) :
      ∃ value, armReadRegister q.core (getBits inst h l).toNat = .ok value :=
    armReadRegister_field (p := q.core) q.file.mode_ge inst hh hwidth
  obtain ⟨rm, hrm⟩ := @hread 3 0 (by decide) rfl
  obtain ⟨rn, hrn⟩ := @hread 19 16 (by decide) rfl
  obtain ⟨rs, hrs⟩ := @hread 11 8 (by decide) rfl
  have hshift (so : Word) : ∃ operand, shiftOperand q.core inst so = .ok operand := by
    unfold shiftOperand getShifterOperandRegister
    simp only [hrs, ok_bind]
    split_ifs <;> exact ⟨_, rfl⟩
  unfold armDataProcessingShift
  simp only [hrm, hrn, ok_bind]
  obtain ⟨operand, hoperand⟩ := hshift _
  rw [hoperand]
  exact ⟨rn, operand, rfl⟩

theorem run_executes (h : IsDataProcessing inst) (u : Locals) : ∃ valueRn operand,
    (dispatch inst).run u q.core inst = executeInst (getBits inst 24 21).toNat q.core (rd inst)
      valueRn operand (getBit inst 20 ≠ 0) := by
  rcases h.dispatched with hd | hd
  · rw [hd]
    exact armDataProcessingShift_executes q inst
  · obtain ⟨rn, hrn⟩ : ∃ rn, armReadRegister q.core (getBits inst 19 16).toNat = .ok rn :=
      armReadRegister_field (p := q.core) q.file.mode_ge inst (by decide) rfl
    rw [hd]
    refine ⟨rn, ror (getBits inst 7 0) ((2 * getBits inst 11 8).setWidth 8), ?_⟩
    change (armReadRegister q.core (getBits inst 19 16).toNat >>= _) = _
    rw [hrn]
    rfl

omit [Host] in
theorem stepFrame_fetched : StepFrame q inst (fetched q) where
  mem := rfl
  cycles := rfl
  mode := rfl
  pc := by rw [fetched_cells, if_pos rfl]
  cells l hl _ _ := by rw [fetched_cells, if_neg hl]
  status j _ := by rw [fetched_cpsr]
  flags _ := fetched_cpsr q

omit [Host] in
theorem stepFrame_outcome (h : IsDataProcessing inst) (hpass : Passes (armReadCpsr q.core) inst)
    (r : AluResult) : StepFrame q inst (outcome (fetched q) (getBits inst 24 21).toNat (rd inst)
      (getBit inst 20 ≠ 0) r) where
  mem := outcome_mem _ _ _ _ _
  cycles := outcome_cycleCount _ _ _ _ _
  mode := outcome_mode _ _ _ _ _
  pc := by
    have hpc : ¬ (15 : Position) = position (fetched q).file.mode (rd inst) :=
      fun hl => position_ne_pc _ _ h.destination hl.symm
    rw [outcome_cells, if_neg (by decide), if_neg fun hl => hpc hl.2, fetched_cells, if_pos rfl]
  cells l hl hcpsr hwrites := by
    have hrd : ¬ (¬ IsTest (getBits inst 24 21).toNat ∧
        l = position (fetched q).file.mode (rd inst)) :=
      fun hw => hwrites (rd inst) hw.2.symm ⟨hpass, hw.1, rfl⟩
    rw [outcome_cells, if_neg hcpsr, if_neg hrd, fetched_cells, if_neg hl]
  status j hj := by
    rw [readCpsr, outcome_cells, if_pos rfl]
    split
    · rw [getLsbD_flagsCpsr, if_neg (by omega), if_neg (by omega), if_neg (by omega),
        if_neg (by omega), fetched_cpsr]
    · rw [fetched_cpsr]
  flags hno := by
    have hs : ¬ getBit inst 20 = 1 := fun hs => hno ⟨hpass, hs⟩
    have hnone : ¬ ((decide (getBit inst 20 ≠ 0)) = true ∨ IsTest (getBits inst 24 21).toNat) := by
      rintro (hupdate | htest)
      · exact hs ((getBit_eq_one _ _).mpr ((getBit_ne_zero _ _).mp (of_decide_eq_true hupdate)))
      · exact hs (h.tests htest)
    rw [readCpsr, outcome_cells, if_pos rfl, if_neg hnone, fetched_cpsr]

theorem dataProcessing_step (h : IsDataProcessing inst) (u : Locals)
    (hread : memoryReadWord q.mem (pcAddress q) u.inst = .ok (0, inst)) :
    armFetch q.core u.inst = .ok (0, inst, (fetched q).core) ∧
      ∃ q', armStep u q.core = .ok (0, q'.core) ∧ StepFrame q inst q' := by
  have hfetch : armFetch q.core u.inst = .ok (0, inst, (fetched q).core) := by
    rw [armFetch_eq, hread]
    rfl
  have hcpsr : armReadCpsr (fetched q).core = armReadCpsr q.core := fetched_cpsr q
  refine ⟨hfetch, ?_⟩
  by_cases hpass : Passes (armReadCpsr q.core) inst
  · obtain ⟨valueRn, operand, hrun⟩ := run_executes (fetched q) inst h u
    obtain ⟨r, hr⟩ := exists_aluOf (toNat_getBits_lt inst (h := 24) (l := 21) (by decide))
      (armReadCpsr (fetched q).core) valueRn operand
    refine ⟨_, ?_, stepFrame_outcome q inst h hpass r⟩
    rw [armStep_dispatch hfetch (hcpsr ▸ hpass), hrun,
      executeInst_outcome _ _ _ _ _ h.destination hr]
    rfl
  · refine ⟨_, ?_, stepFrame_fetched q inst⟩
    rw [armStep_of_fetch hfetch, Conditions.stepFetched,
      executeFetched_fails h.condition (hcpsr ▸ hpass)]
    rfl

end Step

/-! ## Runs -/

section Run

variable [Host]

/-- A call of `arm_step` with these values in its locals, paired with the word it is to fetch. -/
def call (p : ArmCore) (s : Locals × Word) : Except Stop ArmCore := Prod.snd <$> armStep s.1 p

structure Steps (p : ArmCore) (s : Locals × Word) : Prop where
  fetches : ∃ p', armFetch p s.1.inst = .ok (0, s.2, p')
  returns : ∃ p', armStep s.1 p = .ok (0, p')

/-- What a run over the words does to the processor. -/
structure RunFrame (q : Processor) (ws : List (Locals × Word)) (q' : Processor) : Prop where
  run : ws.foldlM call q.core = .ok q'.core
  steps : Along call Steps q.core ws
  address : pcAddress q' = pcAddress q + 4 * BitVec.ofNat 32 ws.length
  cycles : q'.cycleCount = q.cycleCount + BitVec.ofNat 32 ws.length
  mem : q'.mem = q.mem
  mode : q'.file.mode = q.file.mode
  cells : ∀ l, l ≠ 15 → l ≠ Position.cpsr →
    (∀ reg, position q.file.mode reg = l → Along call (fun p s => ¬ Writes p s.2 reg) q.core ws) →
    q'.file.cells l = q.file.cells l
  status : ∀ j < 28, (readCpsr q'.file.cells).getLsbD j = (readCpsr q.file.cells).getLsbD j
  flags : Along call (fun p s => ¬ SetsFlags p s.2) q.core ws →
    readCpsr q'.file.cells = readCpsr q.file.cells

theorem runFrame_nil (q : Processor) : RunFrame q [] q where
  run := rfl
  steps := trivial
  address := by simp
  cycles := by simp
  mem := rfl
  mode := rfl
  cells _ _ _ _ := rfl
  status _ _ := rfl
  flags _ := rfl

theorem runFrame_cons {q q₁ q' : Processor} {s : Locals × Word} {ws : List (Locals × Word)}
    (hcall : call q.core s = .ok q₁.core) (hsteps : Steps q.core s)
    (hstep : StepFrame q s.2 q₁) (hrest : RunFrame q₁ ws q') : RunFrame q (s :: ws) q' where
  run := by rw [List.foldlM_cons, hcall, ok_bind, hrest.run]
  steps := (along_cons_ok hcall).mpr ⟨hsteps, hrest.steps⟩
  address := by
    rw [hrest.address, pcAddress_next hstep.pc, List.length_cons, BitVec.ofNat_add]
    bv_omega
  cycles := by
    rw [hrest.cycles, hstep.cycles, List.length_cons, BitVec.ofNat_add]
    bv_omega
  mem := hrest.mem.trans hstep.mem
  mode := hrest.mode.trans hstep.mode
  cells l hl hcpsr hwrites := by
    have hno (reg) (hreg : position q.file.mode reg = l) :=
      (along_cons_ok hcall).mp (hwrites reg hreg)
    rw [hrest.cells l hl hcpsr fun reg hreg => (hno reg (hstep.mode ▸ hreg)).2]
    exact hstep.cells l hl hcpsr fun reg hreg => (hno reg hreg).1
  status j hj := (hrest.status j hj).trans (hstep.status j hj)
  flags hflags := by
    obtain ⟨hfirst, hothers⟩ := (along_cons_ok hcall).mp hflags
    rw [hrest.flags hothers, hstep.flags hfirst]

theorem exists_runFrame (ws : List (Locals × Word)) : ∀ q : Processor,
    (∀ s ∈ ws, IsDataProcessing s.2) → StoredFrom q.mem (pcAddress q) (ws.map Prod.snd) →
    ∃ q', RunFrame q ws q' := by
  induction ws with
  | nil => exact fun q _ _ => ⟨q, runFrame_nil q⟩
  | cons s ws ih =>
    intro q hwords hstored
    obtain ⟨hfetch, q₁, hstep, hframe⟩ :=
      dataProcessing_step q s.2 (hwords s List.mem_cons_self) s.1 (hstored.1 _)
    obtain ⟨q', hrest⟩ := ih q₁ (fun t ht => hwords t (List.mem_cons_of_mem s ht)) (by
      rw [hframe.mem, pcAddress_next hframe.pc]
      exact hstored.2)
    have hcall : call q.core s = .ok q₁.core := by
      rw [call, hstep]
      rfl
    exact ⟨q', runFrame_cons hcall ⟨⟨_, hfetch⟩, ⟨_, hstep⟩⟩ hframe hrest⟩

/-! ## Other banks -/

/-- What a straight-line run leaves of the architectural registers. -/
structure StraightLine (q : Processor) (ws : List (Locals × Word)) (q' : Processor) : Prop
    extends RunFrame q ws q' where
  banks : ∀ m reg, reg ≠ 15 →
    (cell q.file.mode reg = cell m reg →
      Along call (fun p s => ¬ Writes p s.2 reg) q.core ws) →
    readRegister (inMode q'.file.cells m) reg = readRegister (inMode q.file.cells m) reg
  saved : ∀ m, isException m →
    readSpsr (inMode q'.file.cells m) = readSpsr (inMode q.file.cells m)

/-- The word writes no register whose cell another register has too. -/
def Apart (m : Mode) (p : ArmCore) (s : Locals × Word) : Prop :=
  ∀ reg, Writes p s.2 reg → reg ≠ 0 ∧ ¬ Shared m reg

variable {q q' : Processor} {ws : List (Locals × Word)}

theorem not_writes_of_apart {m : Mode} {reg : Fin 16}
    (hapart : Along call (Apart q.file.mode) q.core ws)
    (hcell : cell q.file.mode reg = cell m reg →
      Along call (fun p s => ¬ Writes p s.2 reg) q.core ws) {r : Fin 16}
    (hr : position q.file.mode r = position m reg) :
    Along call (fun p s => ¬ Writes p s.2 r) q.core ws := by
  rw [← place_cell, ← place_cell] at hr
  rcases place_eq hr with hc | ⟨-, hshared, -⟩
  · have hreg : r = reg := congrArg Cell.reg hc
    subst hreg
    exact hcell hc
  · exact hapart.mono (fun p s h hw => (h r hw).2 (shared_bankOf.mp hshared)) ws

theorem straightLine_of_apart (hframe : RunFrame q ws q')
    (hapart : Along call (Apart q.file.mode) q.core ws) : StraightLine q ws q' where
  toRunFrame := hframe
  banks m reg hreg hcell := by
    rw [File.readRegister_inMode, File.readRegister_inMode,
      hframe.cells _ (position_ne_pc m reg hreg) (position_ne_cpsr m reg)
        fun r hr => not_writes_of_apart hapart hcell hr]
  saved m hm := by
    rw [File.readSpsr_inMode _ hm, File.readSpsr_inMode _ hm]
    refine congrArg _ (hframe.cells 0 (by decide) (by decide) fun r hr => ?_)
    have hzero : r = 0 := (position_eq_zero _ _).mp hr
    exact hapart.mono (fun p s h hw => (h r hw).1 hzero) ws

/-- A run that writes neither `r0` nor a register IRQ, SVC, ABT and UND have in
common changes what its words name and nothing else. -/
theorem straightLine_run (hwords : ∀ s ∈ ws, IsDataProcessing s.2)
    (hstored : StoredFrom q.mem (pcAddress q) (ws.map Prod.snd))
    (hapart : Along call (Apart q.file.mode) q.core ws) : ∃ q', StraightLine q ws q' := by
  obtain ⟨q', hframe⟩ := exists_runFrame ws q hwords hstored
  exact ⟨q', straightLine_of_apart hframe hapart⟩

end Run

/-- `movs r1, #1` at address 0 and `moveq r2, #2`, which it makes the processor skip. -/
def movProgram : Processor :=
  program .svc #[0x01, 0x10, 0xB0, 0xE3, 0x02, 0x20, 0xA0, 0x03]

/-- `mov r0, #1` at address 0. -/
def movZeroProgram : Processor := program .svc #[0x01, 0x00, 0xA0, 0xE3]

theorem isDataProcessing_mov {inst : Word}
    (h : inst = 0xE3B01001 ∨ inst = 0x03A02002 ∨ inst = 0xE3A00001) : IsDataProcessing inst := by
  rcases h with rfl | rfl | rfl
  · exact ⟨Or.inr (by decide), by decide, by decide, fun htest => absurd htest (by decide)⟩
  · exact ⟨Or.inr (by decide), by decide, by decide, fun htest => absurd htest (by decide)⟩
  · exact ⟨Or.inr (by decide), by decide, by decide, fun htest => absurd htest (by decide)⟩

theorem storedFrom_program (m : Mode) {image : Array Byte} {ws : List Word}
    (h : StoredFrom ⟨image, false⟩ 0 ws) :
    StoredFrom (program m image).mem (pcAddress (program m image)) ws := by
  rw [pcAddress_program]
  exact h

theorem straightLine_mov : ∃ q', @StraightLine Host.x86 movProgram
    [(⟨0, 0, 0, 0, 0, 0⟩, 0xE3B01001), (⟨0, 0, 0, 0, 0, 0⟩, 0x03A02002)] q' :=
  letI := Host.x86
  straightLine_run (by
      rintro s hs
      rcases List.mem_pair.mp hs with rfl | rfl
      · exact isDataProcessing_mov (Or.inl rfl)
      · exact isDataProcessing_mov (Or.inr (Or.inl rfl)))
    (storedFrom_program .svc ⟨fun _ => rfl, fun _ => rfl, trivial⟩)
    ⟨fun reg hw => hw.2.2 ▸ ⟨by decide, by decide⟩, fun _ _ =>
      ⟨fun reg hw => hw.2.2 ▸ ⟨by decide, by decide⟩, fun _ _ => trivial⟩⟩

/-- The result is where the exception modes save the status. -/
theorem call_movZero (u : Locals) : ∃ q' : Processor,
    @call Host.x86 movZeroProgram.core (u, 0xE3A00001) = .ok q'.core ∧ q'.file.cells 0 = 1 := by
  let q := fetched movZeroProgram
  have hfetch : armFetch movZeroProgram.core u.inst = .ok (0, 0xE3A00001, q.core) :=
    program_fetch .svc rfl
  have hpass : Passes (armReadCpsr q.core) 0xE3A00001 := Or.inl (by decide)
  have hdispatch : dispatch 0xE3A00001 = .dataProcessingImmediateMsr := by decide
  have hmov (p : ArmCore) : @armDataProcessingImmediateMsr Host.x86 p 0xE3A00001 =
      (armReadRegister p 0 >>= fun rn => executeInst 13 p 0 rn 1 false) := rfl
  have hread : armReadRegister q.core 0 = .ok (q.register 0) := q.armReadRegister_eq 0
  let r : AluResult :=
    ⟨1, getBit (armReadCpsr q.core) 29 ≠ 0, getBit (armReadCpsr q.core) 28 ≠ 0, false⟩
  have halu : aluOf 13 (armReadCpsr q.core) (q.register 0) 1 = some r := rfl
  have hexec : executeInst 13 q.core 0 (q.register 0) 1 false = _ :=
    executeInst_outcome q 13 0 false r (by decide) halu
  refine ⟨outcome q 13 0 false r, ?_, ?_⟩
  · have hstep : @armStep Host.x86 u movZeroProgram.core =
        .ok (0, (outcome q 13 0 false r).core) := by
      rw [@armStep_dispatch Host.x86 _ _ _ _ hfetch hpass, hdispatch, @Handler.run.eq_def Host.x86,
        hmov, hread, ok_bind, hexec]
      rfl
    exact congrArg (Prod.snd <$> ·) hstep
  · rw [outcome_cells, if_neg (by decide), if_pos ⟨by decide, by decide⟩]

/-- `mov r0, #1` changes a saved status. -/
theorem straightLine_mov_r0 : ¬ ∀ (_ : Host) (q : Processor) (ws : List (Locals × Word)),
    getBits (pcAddress q) 1 0 = 0 → (∀ s ∈ ws, IsDataProcessing s.2) →
    StoredFrom q.mem (pcAddress q) (ws.map Prod.snd) → ∃ q', StraightLine q ws q' := by
  intro h
  let host := Host.x86
  obtain ⟨q', hq'⟩ := h host movZeroProgram [(⟨0, 0, 0, 0, 0, 0⟩, 0xE3A00001)]
    (by rw [movZeroProgram, pcAddress_program]; decide) (by
      rintro s hs
      rw [List.mem_singleton.mp hs]
      exact isDataProcessing_mov (Or.inr (Or.inr rfl)))
    (storedFrom_program .svc ⟨fun _ => rfl, trivial⟩)
  obtain ⟨p, hp, hone⟩ := call_movZero ⟨0, 0, 0, 0, 0, 0⟩
  have hrun := hq'.run
  rw [List.foldlM_cons, hp, ok_bind, List.foldlM_nil] at hrun
  have hcells : p.file.cells = q'.file.cells := congrArg ArmCore.reg (Except.ok.inj hrun)
  have hsaved := hq'.saved .svc rfl
  rw [File.readSpsr_inMode _ rfl, File.readSpsr_inMode _ rfl, ← hcells, hone] at hsaved
  exact absurd (Except.ok.inj hsaved) (by decide)

end ArmSimulator.DataProcessing
