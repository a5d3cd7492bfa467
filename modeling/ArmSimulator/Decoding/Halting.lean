import ArmSimulator.DataProcessing.Effect
import ArmSimulator.Decoding.Outcome
import ArmSimulator.Transfers.Completion

/-! # Which steps return

A step from a mode of the bank table returns unless its fetch or its instruction
indexes past the memory, a block transfer fails its assertion, or the program
ends the simulator.
-/

namespace ArmSimulator.Decoding

open Machine Storage Transfers Conditions Exceptions DataProcessing Foundation.ExceptRun

/-! ## Instructions without accesses -/

section Total

variable {p : ArmCore}

theorem updateStatus_returns (h : Banked p) (cpsr : Word) (rd : Nat) (updateCPSR : Bool)
    (r : AluResult) : Returns (updateStatus cpsr rd updateCPSR r p) fun _ => True := by
  unfold updateStatus
  split
  · split
    · split
      · exact (armReadSpsr_returns h).bind fun _ _ => returns_pure trivial
      · exact returns_pure trivial
    · exact returns_pure trivial
  · exact returns_pure trivial

theorem executeInst_returns (h : Banked p) (opcode rd : Nat) (valueRn operand : Word)
    (updateCPSR : Bool) :
    Returns (executeInst opcode p rd valueRn operand updateCPSR) fun _ => True := by
  cases halu : aluOf opcode (armReadCpsr p) valueRn operand with
  | none =>
    unfold aluOf at halu
    unfold executeInst
    simp only [halu]
    exact returns_pure trivial
  | some r =>
    rw [executeInst_eq halu]
    split
    · rw [pure_bind]
      exact updateStatus_returns h _ _ _ r
    · exact (armWriteRegister_returns h rd r.res).bind fun p' hp' =>
        updateStatus_returns hp'.1 _ _ _ r

theorem writePsr_returns (h : Banked p) (ins : Word) (value : Byte) (R : Bool) :
    Returns (writePsr p ins value R) fun _ => True := by
  unfold writePsr
  cases R
  · exact returns_pure trivial
  · exact (armReadSpsr_returns h).bind fun _ _ => armWriteSpsr_returns h _

theorem armBranch_returns (h : Banked p) (ins : Word) :
    Returns (armBranch p ins) fun _ => True := by
  have hjump {p' : ArmCore} (h : Banked p') (f : Word → Word) : Returns (do
      let pc ← armReadRegister p' 15
      let p' ← armWriteRegister p' 15 (f pc)
      return ((0 : Int), p')) fun _ => True :=
    (armReadRegister_returns h 15).bind fun pc _ =>
      (armWriteRegister_returns h 15 (f pc)).bind fun _ _ => returns_pure trivial
  unfold armBranch
  simp only
  split
  · exact (armReadRegister_returns h 15).bind fun pc _ =>
      (armWriteRegister_returns h 14 (pc - 4)).bind fun p' hp' => hjump hp'.1 _
  · exact hjump h _

variable [Host]

theorem armMiscellaneous_returns (h : Banked p) (ins : Word) :
    Returns (armMiscellaneous p ins) fun _ => True := by
  unfold armMiscellaneous
  simp only
  split
  · split
    · exact (writePsr_returns h ins _ _).bind fun _ _ => returns_pure trivial
    · exact (armReadRegister_returns h _).bind fun _ _ =>
        (writePsr_returns h ins _ _).bind fun _ _ => returns_pure trivial
  · have hwrite (value : Word) : Returns (do
        let p ← armWriteRegister p (getBits ins 15 12).toNat value
        return ((0 : Int), p)) fun _ => True :=
      (armWriteRegister_returns h _ value).bind fun _ _ => returns_pure trivial
    split
    · exact (armReadSpsr_returns h).bind fun value _ => hwrite value
    · exact hwrite _

theorem shiftOperand_returns (h : Banked p) (ins so : Word) :
    Returns (shiftOperand p ins so) fun _ => True := by
  unfold shiftOperand
  simp only
  split
  · split_ifs
    all_goals
      first
      | exact returns_pure trivial
      | exact (armReadRegister_returns h _).bind fun _ _ => returns_pure trivial
  · exact returns_pure trivial

theorem armDataProcessingShift_returns (h : Banked p) (ins : Word) :
    Returns (armDataProcessingShift p ins) fun _ => True :=
  (armReadRegister_returns h _).bind fun _ _ => (armReadRegister_returns h _).bind fun _ _ =>
    (shiftOperand_returns h ins _).bind fun _ _ => executeInst_returns h _ _ _ _ _

theorem armDataProcessingImmediateMsr_returns (h : Banked p) (ins : Word) :
    Returns (armDataProcessingImmediateMsr p ins) fun _ => True :=
  (armReadRegister_returns h _).bind fun _ _ => executeInst_returns h _ _ _ _ _

end Total

/-! ## The step -/

/-- `swi 0x123456` -/
def IsExit (inst : Word) : Prop :=
  dispatch inst = .coprocessorOthersSwi ∧ getBit inst 24 ≠ 0 ∧ inst &&& 0xFFFFFF = 0x123456

instance (inst : Word) : Decidable (IsExit inst) := inferInstanceAs (Decidable (_ ∧ _ ∧ _))

section Step

variable [Host]

/-- The accesses of an instruction run to their end. -/
def RunsToEnd (u : Locals) (p : ArmCore) (inst : Word) : Prop :=
  match dispatch inst with
  | .loadStore => Returns (target u p inst) fun t => Completes p.mem (accesses p inst t)
  | .loadStoreMultiple => Returns (armReadRegister p (getBits inst 19 16).toNat) fun base =>
      Visits p.mem (addrmodeLoadStoreMultiple p inst base).1 (listed inst).length
  | _ => True

/-- The step finds a row of the bank table, and neither its fetch nor its instruction
indexes past the memory. -/
structure StepRuns (u : Locals) (p : ArmCore) : Prop where
  banked : Banked p
  fetch : Returns (fetchAddress p) fun pc => ¬ Faults p.mem .word pc
  run : ∀ inst p', armFetch p u.inst = .ok (0, inst, p') → Passes (armReadCpsr p') inst →
    RunsToEnd u p' inst

/-- The fetched instruction ends the simulator. -/
def ExecutesExit (u : Locals) (p : ArmCore) : Prop :=
  ∃ inst p', armFetch p u.inst = .ok (0, inst, p') ∧ Passes (armReadCpsr p') inst ∧ IsExit inst

variable {u : Locals} {p p' : ArmCore} {inst : Word}

theorem run_returns_iff (h : Banked p) :
    Returns ((dispatch inst).run u p inst) (fun _ => True) ∨ IsExit inst ↔
      RunsToEnd u p inst := by
  unfold RunsToEnd IsExit
  cases hd : dispatch inst with
  | miscellaneous => exact iff_of_true (Or.inl (armMiscellaneous_returns h inst)) trivial
  | loadStore =>
    simp only [reduceCtorEq, false_and, or_false]
    exact armLoadStore_returns_iff u h inst
  | dataProcessingShift =>
    exact iff_of_true (Or.inl (armDataProcessingShift_returns h inst)) trivial
  | dataProcessingImmediateMsr =>
    exact iff_of_true (Or.inl (armDataProcessingImmediateMsr_returns h inst)) trivial
  | loadStoreMultiple =>
    simp only [reduceCtorEq, false_and, or_false]
    exact armLoadStoreMultiple_returns_iff u h inst
  | coprocessorLoadStore => exact iff_of_true (Or.inl (returns_pure trivial)) trivial
  | branch => exact iff_of_true (Or.inl (armBranch_returns h inst)) trivial
  | coprocessorOthersSwi =>
    refine iff_of_true ?_ trivial
    by_cases hexit : getBit inst 24 ≠ 0 ∧ inst &&& 0xFFFFFF = 0x123456
    · exact Or.inr ⟨rfl, hexit⟩
    · refine Or.inl ?_
      change Returns (armCoprocessorOthersSwi p inst) _
      unfold armCoprocessorOthersSwi
      split
      · rename_i hswi
        rw [if_neg fun h => hexit ⟨hswi, h⟩]
        exact returns_pure trivial
      · exact returns_pure trivial

theorem run_exit (h : IsExit inst) : (dispatch inst).run u p inst = .error (.exit 0) := by
  rw [h.1]
  change armCoprocessorOthersSwi p inst = _
  rw [armCoprocessorOthersSwi, if_pos h.2.1, if_pos h.2.2]

omit [Host] in
theorem armFetch_returns_iff (h : Banked p) (value : Word) :
    Returns (armFetch p value) (fun _ => True) ↔
      Returns (fetchAddress p) fun pc => ¬ Faults p.mem .word pc := by
  have hbanked : Banked { p with cycleCount := p.cycleCount + 1 } := h
  unfold fetchAddress armFetch
  rw [returns_bind_iff, returns_bind_iff]
  refine returns_congr fun pc _ => Iff.trans ?_ returns_ok_iff.symm
  dsimp only
  rw [← and_true (¬ Faults _ _ _)]
  exact returns_read_iff (n := .word) value fun r _ => iff_true_intro
    ((armWriteRegister_returns hbanked _ _).bind fun _ _ => returns_pure trivial)

theorem armStep_returns_of_raises {res : Int} {k : Kind}
    (hfetch : armFetch p u.inst = .ok (res, inst, p')) (h : Raises res (armReadCpsr p') inst k) :
    Returns (armStep u p) fun _ => True := by
  obtain ⟨p'', hentry⟩ := armException_ok (armFetch_mode hfetch).2 k
  rw [armStep_raises hfetch h, raiseResult_number, hentry]
  exact ⟨_, rfl, trivial⟩

theorem armStep_exit (h : ExecutesExit u p) : armStep u p = .error (.exit 0) := by
  obtain ⟨inst, p', hfetch, hpass, hexit⟩ := h
  rw [armStep_dispatch hfetch hpass, run_exit hexit]
  rfl

theorem armStep_returns_of_run (hfetch : armFetch p u.inst = .ok (0, inst, p'))
    (hpass : Passes (armReadCpsr p') inst)
    (hrun : Returns ((dispatch inst).run u p' inst) fun _ => True) :
    Returns (armStep u p) fun _ => True := by
  cases hraises : raises inst with
  | some k => exact armStep_returns_of_raises hfetch (.word rfl hpass hraises)
  | none =>
    rw [armStep_dispatch hfetch hpass]
    refine (hrun.and_ensures (run_quiet hraises)).bind fun r hr => ?_
    rw [raiseResult_quiet hr.2]
    exact returns_pure trivial

/-- A step returns, or ends the simulator for the program, exactly when its accesses run
to their end. -/
theorem armStep_ends_iff :
    Returns (armStep u p) (fun _ => True) ∨ ExecutesExit u p ↔ StepRuns u p := by
  constructor
  · intro h
    have hfetch : Returns (armFetch p u.inst) fun _ => True := by
      rcases h with h | ⟨inst, p', hfetch, -⟩
      · rw [armStep_eq, returns_bind_iff] at h
        exact h.mono fun _ _ => trivial
      · exact ⟨_, hfetch, trivial⟩
    obtain ⟨r, hr, -⟩ := hfetch
    have hbanked : Banked p := (armFetch_cpsr p u.inst r hr).2
    refine ⟨hbanked, (armFetch_returns_iff hbanked u.inst).mp ⟨r, hr, trivial⟩,
      fun inst p' hfetch hpass => (run_returns_iff (armFetch_mode hfetch).2).mp ?_⟩
    rcases h with h | ⟨inst₁, p₁, hfetch₁, -, hexit⟩
    · rw [armStep_dispatch hfetch hpass, returns_bind_iff] at h
      exact Or.inl (h.mono fun _ _ => trivial)
    · rw [hfetch, Except.ok.injEq, Prod.mk.injEq, Prod.mk.injEq] at hfetch₁
      obtain ⟨-, rfl, -⟩ := hfetch₁
      exact Or.inr hexit
  · intro h
    obtain ⟨⟨res, inst, p'⟩, hfetch, -⟩ := (armFetch_returns_iff h.banked u.inst).mpr h.fetch
    by_cases hres : res = 0
    · subst hres
      by_cases hnever : condField inst = 0b1111
      · exact Or.inl (armStep_returns_of_raises hfetch (.never rfl hnever))
      · by_cases hpass : Passes (armReadCpsr p') inst
        · rcases (run_returns_iff (armFetch_mode hfetch).2).mpr (h.run inst p' hfetch hpass) with
            hrun | hexit
          · exact Or.inl (armStep_returns_of_run hfetch hpass hrun)
          · exact Or.inr ⟨inst, p', hfetch, hpass, hexit⟩
        · refine Or.inl ⟨(0, p'), ?_, trivial⟩
          rw [armStep_of_fetch hfetch, stepFetched, executeFetched_fails hnever hpass, ok_bind,
            raiseResult_quiet (Or.inl rfl)]
    · exact Or.inl (armStep_returns_of_raises hfetch (.abort hres))

end Step

end ArmSimulator.Decoding
