import ArmSimulator.Debugger.Continue
import ArmSimulator.Exceptions.Masking
import ArmSimulator.Footprint.Instructions
import ArmSimulator.Footprint.Writes

/-! # Runs on memories in another form

A step reaches memory through its fetch and through the accesses of its instruction. A run
all of whose accesses fit is the same run on the other form of the memory, with interrupts
anywhere between its steps.
-/

namespace ArmSimulator.Footprint

open Machine RegisterFile Storage Transfers Conditions Decoding DataProcessing Exceptions Debugger
  Foundation.Overlay Foundation.ExceptRun

variable {f : Memory → Memory} {fits : Width → Word → Prop} {p : ArmCore}

/-! ## Handlers without accesses -/

section Handlers

theorem armBranch_recode (ins : Word) :
    armBranch (recode f p) ins = Prod.map id (recode f) <$> armBranch p ins := by
  have hjump (p : ArmCore) (goal : Word → Word) : (do
      let pc ← armReadRegister (recode f p) 15
      let p ← armWriteRegister (recode f p) 15 (goal pc)
      return ((0 : Int), p)) = Prod.map id (recode f) <$> (do
        let pc ← armReadRegister p 15
        let p ← armWriteRegister p 15 (goal pc)
        return ((0 : Int), p)) :=
    bind_map_same fun pc _ => bind_map_congr (armWriteRegister_recode _ _) fun _ _ => rfl
  unfold armBranch
  simp only
  split
  · exact bind_map_same fun pc _ =>
      bind_map_congr (armWriteRegister_recode _ _) fun p _ => hjump p _
  · exact hjump p _

theorem armCoprocessorOthersSwi_recode (ins : Word) : armCoprocessorOthersSwi (recode f p) ins =
    Prod.map id (recode f) <$> armCoprocessorOthersSwi p ins := by
  unfold armCoprocessorOthersSwi
  split_ifs <;> rfl

theorem updateStatus_recode (cpsr : Word) (rd : Nat) (updateCPSR : Bool) (r : AluResult) :
    updateStatus cpsr rd updateCPSR r (recode f p) =
      Prod.map id (recode f) <$> updateStatus cpsr rd updateCPSR r p := by
  unfold updateStatus
  have hspsr : currentModeHasSpsr (recode f p).reg = currentModeHasSpsr p.reg := rfl
  simp only [hspsr]
  split
  · split
    · split
      · exact bind_map_same fun spsr _ => rfl
      · rfl
    · rfl
  · rfl

theorem executeInst_recode (opcode rd : Nat) (valueRn operand : Word) (updateCPSR : Bool) :
    executeInst opcode (recode f p) rd valueRn operand updateCPSR =
      Prod.map id (recode f) <$> executeInst opcode p rd valueRn operand updateCPSR := by
  have hcpsr : armReadCpsr (recode f p) = armReadCpsr p := rfl
  cases halu : aluOf opcode (armReadCpsr p) valueRn operand with
  | none =>
    unfold aluOf at halu
    unfold executeInst
    simp only [hcpsr, halu]
    rfl
  | some r =>
    rw [executeInst_eq halu, executeInst_eq (p := recode f p) halu]
    refine bind_map_congr (φ := recode f) ?_ fun p' _ => updateStatus_recode _ _ _ _
    split
    · rfl
    · exact armWriteRegister_recode _ _

theorem writePsr_recode (ins : Word) (value : Byte) (R : Bool) :
    writePsr (recode f p) ins value R = recode f <$> writePsr p ins value R := by
  unfold writePsr
  cases R
  · rfl
  · exact bind_map_same fun psr _ => armWriteSpsr_recode _

variable [Host]

theorem armMiscellaneous_recode (ins : Word) :
    armMiscellaneous (recode f p) ins = Prod.map id (recode f) <$> armMiscellaneous p ins := by
  unfold armMiscellaneous
  simp only
  split
  · split
    · exact bind_map_congr (writePsr_recode _ _ _) fun _ _ => rfl
    · exact bind_map_same fun value _ => bind_map_congr (writePsr_recode _ _ _) fun _ _ => rfl
  · split
    · exact bind_map_same fun value _ => bind_map_congr (armWriteRegister_recode _ _) fun _ _ => rfl
    · exact bind_map_same fun value _ => bind_map_congr (armWriteRegister_recode _ _) fun _ _ => rfl

theorem armDataProcessingShift_recode (ins : Word) : armDataProcessingShift (recode f p) ins =
    Prod.map id (recode f) <$> armDataProcessingShift p ins :=
  bind_map_same fun _ _ => bind_map_same fun _ _ => bind_map_same fun _ _ =>
    executeInst_recode _ _ _ _ _

theorem armDataProcessingImmediateMsr_recode (ins : Word) :
    armDataProcessingImmediateMsr (recode f p) ins =
      Prod.map id (recode f) <$> armDataProcessingImmediateMsr p ins :=
  bind_map_same fun _ _ => executeInst_recode _ _ _ _ _

end Handlers

/-! ## Exceptions -/

theorem execute_recode (needSpsr : Bool) (bits : Word) (count : Nat) (state : ReturnState)
    (vector : Word) : execute_ (recode f p) needSpsr bits count state vector =
      recode f <$> execute_ p needSpsr bits count state vector := by
  unfold execute_
  refine bind_map_same fun sp _ => bind_map_same fun pc _ => ?_
  refine bind_map_congr (armWriteRegister_recode (p := armWriteCpsr p _) _ _) fun p _ => ?_
  refine bind_map_congr (armWriteRegister_recode _ _) fun p _ => ?_
  split
  · exact bind_map_congr (armWriteSpsr_recode _) fun p _ => armWriteRegister_recode _ _
  · exact armWriteRegister_recode _ _

theorem armException_recode (exception : Byte) :
    armException (recode f p) exception = recode f <$> armException p exception := by
  unfold armException
  split <;> first | exact execute_recode _ _ _ _ _ | rfl

theorem raiseResult_recode (r : Int × ArmCore) :
    raiseResult (Prod.map id (recode f) r) = Prod.map id (recode f) <$> raiseResult r := by
  obtain ⟨res, p⟩ := r
  change (if res ≠ 0 then _ else _) = Prod.map id (recode f) <$> (if res ≠ 0 then _ else _)
  split
  · exact bind_map_congr (armException_recode _) fun _ _ => rfl
  · rfl

/-! ## Steps -/

section Steps

variable [Host]

/-- The data accesses of an instruction, read off the state it starts in. -/
def dataAccesses (u : Locals) (p : ArmCore) (ins : Word) : Except Stop (List (Width × Word)) :=
  match dispatch ins with
  | .loadStore => accesses p ins <$> target u p ins
  | .loadStoreMultiple =>
    (fun base => wordsFrom (addrmodeLoadStoreMultiple p ins base).1 (listed ins).length) <$>
      armReadRegister p (getBits ins 19 16).toNat
  | _ => .ok []

/-- The fetch of a step and the accesses of its instruction fit. -/
structure StepFits (fits : Width → Word → Prop) (u : Locals) (p : ArmCore) : Prop where
  fetch : Ensures (fetchAddress p) fun a => Admitted p.mem .word a → fits .word a
  data : Ensures (armFetch p u.inst) fun r => r.1 = 0 → Passes (armReadCpsr r.2.2) r.2.1 →
    Ensures (dataAccesses u r.2.2 r.2.1) (AllFit fits r.2.2.mem)

section Recoded

variable (hf : Recoding f fits)

include hf

omit [Host] in
theorem armFetch_recode {value : Word}
    (h : Ensures (fetchAddress p) fun a => Admitted p.mem .word a → fits .word a) :
    armFetch (recode f p) value =
      Prod.map id (Prod.map id (recode f)) <$> armFetch p value := by
  unfold armFetch
  refine bind_map_same fun pc hpc => ?_
  have ha : fetchAddress p = .ok (pc - 4) := by
    have hpc : armReadRegister p 15 = .ok pc := hpc
    rw [fetchAddress, hpc]
    rfl
  have hread : memoryReadWord (recode f p).mem (pc - 4) value =
      memoryReadWord p.mem (pc - 4) value := hf.read (n := .word) (h _ ha) value
  change (memoryReadWord (recode f p).mem (pc - 4) value >>= _) = _
  rw [hread]
  refine bind_map_same fun r _ => ?_
  exact bind_map_congr (armWriteRegister_recode (p := { p with cycleCount := _ }) _ _)
    fun _ _ => rfl

theorem handler_recode (u : Locals) (ins : Word)
    (h : Ensures (dataAccesses u p ins) (AllFit fits p.mem)) :
    (dispatch ins).run u (recode f p) ins =
      Prod.map id (recode f) <$> (dispatch ins).run u p ins := by
  unfold dataAccesses at h
  cases hd : dispatch ins with
  | loadStore =>
    rw [hd] at h
    exact armLoadStore_recode hf u ins fun t ht => h _ (map_eq_ok.mpr ⟨t, ht, rfl⟩)
  | loadStoreMultiple =>
    rw [hd] at h
    exact armLoadStoreMultiple_recode hf u fun base hbase =>
      h _ (map_eq_ok.mpr ⟨base, hbase, rfl⟩)
  | miscellaneous => exact armMiscellaneous_recode ins
  | dataProcessingShift => exact armDataProcessingShift_recode ins
  | dataProcessingImmediateMsr => exact armDataProcessingImmediateMsr_recode ins
  | branch => exact armBranch_recode ins
  | coprocessorOthersSwi => exact armCoprocessorOthersSwi_recode ins
  | coprocessorLoadStore => rfl

theorem executeFetched_recode (u : Locals) (ins : Word)
    (h : Passes (armReadCpsr p) ins → Ensures (dataAccesses u p ins) (AllFit fits p.mem)) :
    executeFetched u (recode f p) ins = Prod.map id (recode f) <$> executeFetched u p ins := by
  by_cases hpass : Passes (armReadCpsr p) ins
  · rw [executeFetched_passes hpass, executeFetched_passes (p := recode f p) hpass]
    exact handler_recode hf u ins (h hpass)
  · by_cases hnever : condField ins = 0b1111
    · rw [executeFetched_never hnever, executeFetched_never hnever]
      rfl
    · rw [executeFetched_fails hnever hpass, executeFetched_fails (p := recode f p) hnever hpass]
      rfl

theorem armStep_recode {u : Locals} (h : StepFits fits u p) :
    armStep u (recode f p) = Prod.map id (recode f) <$> armStep u p := by
  rw [armStep_eq, armStep_eq]
  refine bind_map_congr (armFetch_recode hf h.fetch) fun r hr => ?_
  change (if r.1 ≠ 0 then _ else _) = Prod.map id (recode f) <$> (if r.1 ≠ 0 then _ else _)
  split
  · exact raiseResult_recode (_, r.2.2)
  · rename_i hzero
    exact bind_map_congr (executeFetched_recode hf u _ (h.data r hr (not_not.mp hzero)))
      fun _ _ => raiseResult_recode _

end Recoded

/-! ## Runs -/

/-- Interrupts access no memory. -/
def EventFits (fits : Width → Word → Prop) (p : ArmCore) : Event → Prop
  | .step u => StepFits fits u p
  | .irq _ => True

/-- The accesses of every step of the run fit. -/
def RunFits (fits : Width → Word → Prop) (events : List Event) (p : ArmCore) : Prop :=
  Along happen (EventFits fits) p events

theorem event_recode (hf : Recoding f fits) {e : Event} (h : EventFits fits p e) :
    happen (recode f p) e = recode f <$> happen p e := by
  cases e with
  | step u =>
    rw [happen, happen, armStep_recode hf h]
    cases armStep u p <;> rfl
  | irq b => exact armException_recode b

/-- A run whose accesses fit is the same run on the other form of the memory. -/
theorem happen_recode (hf : Recoding f fits) {events : List Event} (h : RunFits fits events p) :
    events.foldlM happen (recode f p) = recode f <$> events.foldlM happen p :=
  foldlM_map_of_along (P := EventFits fits) (fun _ _ => event_recode hf) events h

omit [Host] in
theorem AllFit.mono {fits' : Width → Word → Prop} (hfits : ∀ n a, fits n a → fits' n a)
    {mem : Memory} (l : List (Width × Word)) (h : AllFit fits mem l) : AllFit fits' mem l := by
  induction l with
  | nil => trivial
  | cons access l ih => exact fun hin => ⟨hfits _ _ (h hin).1, ih (h hin).2⟩

theorem StepFits.mono {fits' : Width → Word → Prop} (hfits : ∀ n a, fits n a → fits' n a)
    {u : Locals} (h : StepFits fits u p) : StepFits fits' u p :=
  ⟨h.fetch.mono fun _ ha hin => hfits _ _ (ha hin),
    h.data.mono fun _ hr hzero hpass => (hr hzero hpass).mono fun l hl => hl.mono hfits l⟩

theorem RunFits.mono {fits' : Width → Word → Prop} (hfits : ∀ n a, fits n a → fits' n a)
    {events : List Event} (h : RunFits fits events p) : RunFits fits' events p := by
  refine Along.mono (fun q e he => ?_) events h
  cases e with
  | step u => exact StepFits.mono hfits he
  | irq b => trivial

/-- `k` steps, each with its own locals. -/
def stepEvents : ℕ → (ℕ → Locals) → List Event
  | 0, _ => []
  | k + 1, steps => .step (steps 0) :: stepEvents k fun i => steps (i + 1)

theorem armSteps_events (k : ℕ) (steps : ℕ → Locals) (p : ArmCore) :
    armSteps k steps p = (stepEvents k steps).foldlM happen p := by
  induction k generalizing steps p with
  | zero => rfl
  | succ k ih =>
    rw [armSteps, stepEvents, List.foldlM_cons, happen]
    cases armStep (steps 0) p with
    | error e => rfl
    | ok r => exact ih _ r.2

/-! ## What every run keeps -/

def stepCount : List Event → ℕ
  | [] => 0
  | .step _ :: events => stepCount events + 1
  | .irq _ :: events => stepCount events

/-- Each step counts one cycle, an interrupt counts none. -/
theorem happen_steady (events : List Event) (p : ArmCore) : Ensures (events.foldlM happen p)
    (Steady { p with cycleCount := p.cycleCount + BitVec.ofNat 32 (stepCount events) }) := by
  induction events generalizing p with
  | nil =>
    refine ensures_ok ⟨?_, rfl, rfl⟩
    exact (BitVec.add_zero _).symm
  | cons e events ih =>
    rw [List.foldlM_cons]
    cases e with
    | step u =>
      refine (steady_kept.step u p).map.bind fun q hq => (ih q).mono fun q' hq' => ?_
      refine ⟨?_, hq'.size.trans hq.size, hq'.isBigEndian.trans hq.isBigEndian⟩
      have hcycles : q'.cycleCount =
          p.cycleCount + 1 + BitVec.ofNat 32 (stepCount events) :=
        hq'.cycleCount.trans (congrArg (· + BitVec.ofNat 32 (stepCount events)) hq.cycleCount)
      rw [hcycles, BitVec.add_assoc]
      congr 1
      rw [BitVec.add_comm]
      exact (BitVec.ofNat_add (stepCount events) 1).symm
    | irq b =>
      refine (steady_kept.exception p b).bind fun q hq => (ih q).mono fun q' hq' => ?_
      refine ⟨?_, hq'.size.trans hq.size, hq'.isBigEndian.trans hq.isBigEndian⟩
      exact hq'.cycleCount.trans
        (congrArg (· + BitVec.ofNat 32 (stepCount events)) hq.cycleCount)

/-- In every run the cycle counter counts the steps, and memory keeps its size and order. -/
theorem run_counts_steps (events : List Event) (p : ArmCore) :
    Ensures (events.foldlM happen p) fun q =>
      armGetCycleCount q = armGetCycleCount p + BitVec.ofNat 32 (stepCount events) ∧
        memoryGetSize q.mem = memoryGetSize p.mem ∧ q.mem.isBigEndian = p.mem.isBigEndian :=
  (happen_steady events p).mono fun _ hq => ⟨hq.cycleCount, hq.size, hq.isBigEndian⟩

end Steps

end ArmSimulator.Footprint
