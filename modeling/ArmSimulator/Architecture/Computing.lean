import ArmSimulator.Architecture.Encoding
import ArmSimulator.Architecture.View

/-! # Computing

The two handlers of data-processing words compute what the programmer's model computes, on the
operands that it decodes, and leave its result and its flags.
-/

namespace ArmSimulator.Architecture

open Machine RegisterFile Storage Transfers Decoding DataProcessing Branching Exceptions Shifting
  Foundation.ExceptRun

variable {w : Word}

/-! ## Operands -/

section Operands

variable [Host] (q : Processor)

omit [Host] in
theorem class_of_bit (hclass : field w 27 25 ≤ 1) :
    (getBits w 27 25).toNat = if w.getLsbD 25 = true then 1 else 0 := by
  have hfield : (getBits w 27 25).toNat = field w 27 25 := getBits_field w (by omega)
  have hbit : w.getLsbD 25 = true ↔ w.toNat / 2 ^ 25 % 2 = 1 := by
    rw [BitVec.getLsbD, Nat.testBit_eq_decide_div_mod_eq, decide_eq_true_iff]
  rw [hfield]
  simp only [hbit]
  unfold field at hclass ⊢
  split_ifs <;> omega

omit [Host] in
theorem dispatch_compute (hclass : field w 27 25 ≤ 1)
    (hmove : getBits w 24 23 = 0b10 → getBit w 20 ≠ 0)
    (hshift : w.getLsbD 25 = false → w.getLsbD 4 = false) :
    dispatch w = if w.getLsbD 25 = true then .dataProcessingImmediateMsr
      else .dataProcessingShift := by
  unfold dispatch
  rw [class_of_bit hclass]
  by_cases hbit : w.getLsbD 25 = true
  · rw [if_pos hbit, if_pos hbit]
    have hbit20 : getBit (getBits w 21 20) 0 = getBit w 20 := getBit_getBits w (by omega)
    refine if_neg fun hmsr => hmove hmsr.1 ?_
    rw [← hbit20, hmsr.2]
    rfl
  · have hnot := hshift (eq_false_of_ne_true hbit)
    have hstatus : ¬ IsStatusMove w := fun h =>
      hmove ((isStatusMove_iff_bit20 w).mp h).1 ((isStatusMove_iff_bit20 w).mp h).2
    have hextra : ¬ (getBit w 4 = 1 ∧ getBit w 7 = 1) := fun h =>
      absurd ((getBit_eq_one w 4).mp h.1) (by rw [hnot]; decide)
    rw [if_neg hbit, if_neg hbit]
    change (if IsStatusMove w then _ else _) = _
    rw [if_neg hstatus, if_neg hextra]

theorem run_compute {x : Operand} (u : Locals) (hclass : field w 27 25 ≤ 1)
    (hmove : getBits w 24 23 = 0b10 → getBit w 20 ≠ 0) (hx : decodeOperand w = some x) :
    (dispatch w).run u (fetched q).core w =
      execute (fetched q).core w ((view q).read (rn w), (view q).operand x) := by
  have hmode : 16 ≤ getMode (fetched q).core.reg := (fetched q).file.mode_ge
  have hvalue (r : Fin 16) : registerValue (fetched q).core r = (view q).read r := by
    rw [registerValue_core, register_fetched, view_read]
  by_cases hbit : w.getLsbD 25 = true
  · rw [decodeOperand, if_pos hbit] at hx
    cases hx
    have hrn : armReadRegister (fetched q).core (rn w) = .ok ((view q).read (rn w)) :=
      (armReadRegister_value hmode (rn w)).trans (congrArg _ (hvalue _))
    rw [dispatch_compute hclass hmove (fun h => absurd hbit (by rw [h]; decide)), if_pos hbit,
      Handler.run, armDataProcessingImmediateMsr_operands, immediateOperands, hrn, ror_field]
    rfl
  · rw [decodeOperand, if_neg hbit] at hx
    obtain ⟨⟨hregister, hrm, hrn⟩, hx⟩ := Option.ite_none_right_eq_some.mp hx
    obtain ⟨shift, hshift, hx⟩ := Option.bind_eq_some_iff.mp hx
    cases hx
    rw [registerField_rm] at hrm ⊢
    rw [registerField_rn] at hrn
    rw [dispatch_compute hclass hmove (fun _ => hregister), if_neg hbit, Handler.run,
      armDataProcessingShift_operands, shiftOperands, shiftInputs_eq hmode, if_neg hrm, if_neg hrn,
      ok_bind]
    simp only [shiftOperand_register hshift hregister, ok_bind, hvalue]
    rfl

end Operands

/-! ## Results -/

theorem State.set_setFlags (s : State) (r : Fin 16) (v x : Word) :
    (s.set r v).setFlags x = (s.setFlags x).set r v := by
  unfold State.set
  split <;> rfl

section Outcome

variable (q : Processor) {operation : Operation} {flags : Bool} {d : Fin 16} {a b : Word}

/-- The result of the model is written and sets the flags, the program counter included. -/
theorem executeInst_computes
    (hflags : if operation.compares then flags = true else flags = true → d ≠ 15) :
    ∃ r, r.res = operation.result a b ∧ executeInst operation.code q.core d a b flags =
      .ok (0, (outcome q operation.code d flags r).core) := by
  obtain ⟨r, hr, hres⟩ := operation.aluOf_code (armReadCpsr q.core) a b
  refine ⟨r, hres, ?_⟩
  by_cases hd : d = 15
  · have htest : r.test = decide (IsTest operation.code) := aluSwitch_test hr
    rw [executeInst_eq hr]
    by_cases hop : IsTest operation.code
    · rw [if_pos hop, pure_bind]
      simp only [updateStatus, outcome, htest, hop, decide_true, Bool.or_true, if_true, or_true,
        Bool.not_true, Bool.false_and, Bool.false_eq_true, if_false]
      rfl
    · have hcompares : operation.compares = false :=
        eq_false_of_ne_true (mt operation.isTest_code.mpr hop)
      rw [hcompares, if_neg (by decide)] at hflags
      have hfalse : flags = false := eq_false_of_ne_true fun h => hflags h hd
      rw [if_neg hop, q.armWriteRegister_eq, ok_bind, hfalse]
      simp only [updateStatus, outcome, htest, hop, decide_false, Bool.or_false,
        Bool.false_eq_true, if_false, or_false]
      rfl
  · exact executeInst_outcome q operation.code d flags r hd hr

theorem stays_outcome (opcode : ℕ) (r : AluResult) : Stays q (outcome q opcode d flags r) := by
  refine ⟨outcome_mode _ _ _ _ _, fun l hl hr => ?_⟩
  have hwrite : (q.write d r.res).file.cells l = q.file.cells l := (stays_write q d _).banks l hl hr
  have hstatus (f : File) : (f.writeStatus (flagsStatus q.file r)).cells l = f.cells l :=
    Function.update_of_ne hl _ _
  unfold outcome
  by_cases hop : IsTest opcode
  · simp only [hop, or_true, if_true]
    exact hstatus q.file
  · simp only [hop, or_false, if_false]
    split
    · exact (hstatus _).trans hwrite
    · exact hwrite

theorem view_outcome (opcode : ℕ) (r : AluResult)
    (hpc : ¬ IsTest opcode → d = 15 → 4 ∣ r.res.toNat) :
    view (outcome q opcode d flags r) =
      let s := if flags = true ∨ IsTest opcode then (view q).setFlags r.res else view q
      if IsTest opcode then s else s.set d r.res := by
  have hwrite (hop : ¬ IsTest opcode) : view (q.write d r.res) = (view q).set d r.res := by
    by_cases hd : d = 15
    · subst hd
      exact view_write_pc q (hpc hop rfl)
    · exact view_write q hd r.res
  unfold outcome
  by_cases hop : IsTest opcode
  · simp only [hop, or_true, if_true]
    exact view_flags q rfl r
  · simp only [hop, or_false, if_false]
    by_cases hset : flags = true
    · rw [if_pos hset, if_pos hset, view_flags (q.write d r.res) (f := q.file) rfl r, hwrite hop,
        State.set_setFlags]
    · rw [if_neg hset, if_neg hset, hwrite hop]

end Outcome

section Step

variable [Host] {u : Locals} {q : Processor} {s : State}

theorem leads_compute {operation : Operation} {x : Operand}
    (hread : memoryReadWord q.mem (pcAddress q) u.inst = .ok (0, w))
    (hpass : Passes (readCpsr q.file.cells) w) (hclass : field w 27 25 ≤ 1)
    (hoperation : decodeOperation w = some operation) (hx : decodeOperand w = some x)
    (hflags : if operation.compares then w.getLsbD 20 = true else w.getLsbD 20 = true → rd w ≠ 15)
    (h : (view q).compute operation (w.getLsbD 20) (rd w) (rn w) x = some s) : Leads u q s := by
  have hopcode : (getBits w 24 21).toNat = operation.code :=
    (getBits_field w (by omega)).trans (decodeOperation_code hoperation)
  have hbit : decide (getBit w 20 ≠ 0) = w.getLsbD 20 := by
    simp only [getBit_ne_zero, Bool.decide_eq_true]
  have hmove : getBits w 24 23 = 0b10 → getBit w 20 ≠ 0 := by
    intro hfield
    have hrange : IsTest operation.code := by
      have htwo := getBits_field w (h := 24) (l := 23) (by omega)
      have hcode := decodeOperation_code hoperation
      rw [hfield] at htwo
      change 2 = _ at htwo
      unfold field at htwo hcode
      exact ⟨by omega, by omega⟩
    rw [if_pos (operation.isTest_code.mp hrange)] at hflags
    exact (getBit_ne_zero w 20).mpr hflags
  obtain ⟨r, hres, hrun⟩ := executeInst_computes (fetched q)
    (a := (view q).read (rn w)) (b := (view q).operand x) hflags
  refine ⟨outcome (fetched q) operation.code (rd w) (w.getLsbD 20) r, ?_,
    (stays_fetched q).trans (stays_outcome _ _ _), ?_⟩
  · rw [armStep_run hread hpass, run_compute q u hclass hmove hx, execute, hopcode, hbit, hrun]
    rfl
  · unfold State.compute at h
    by_cases hop : operation.compares = true
    · have htest : IsTest operation.code := operation.isTest_code.mpr hop
      rw [if_pos hop] at h hflags
      rw [hflags, if_pos rfl, Option.some.injEq] at h
      rw [view_outcome _ _ _ fun hne => absurd htest hne, view_fetched, hres]
      simp only [htest, or_true, if_true]
      exact h
    · have htest : ¬ IsTest operation.code := mt operation.isTest_code.mp hop
      rw [if_neg hop] at h
      obtain ⟨hpc, h⟩ := Option.ite_none_left_eq_some.mp h
      rw [view_outcome _ _ _ fun _ hd => not_not.mp fun hdvd => hpc ⟨hd, hres ▸ hdvd⟩,
        view_fetched, hres]
      simp only [htest, or_false, if_false]
      exact Option.some.inj h

end Step

end ArmSimulator.Architecture
