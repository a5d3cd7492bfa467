import ArmSimulator.Conditions.Encoding
import ArmSimulator.Conditions.Table
import ArmSimulator.RegisterFile.Processor
import ArmSimulator.Transfers.Store

/-! # Conditional execution

An instruction whose condition holds should run as it does under `AL`. The store
handlers ask `condition_passed` again, which keeps the low byte of the status
only and so finds all flags clear. A store whose condition does not hold for
clear flags is dropped, which shows unless the memory is already as it would
leave it.
-/

namespace ArmSimulator.Conditions

open Machine RegisterFile Storage Transfers Foundation.ExceptRun

/-! ## The two tests -/

namespace Condition

/-- What the condition makes of flags that are all clear. -/
def holdsClear (condition : Condition) : Bool := condition.holds false false false false

end Condition

section Tests

variable {p : ArmCore} {ins : Word} {condition : Condition}

theorem getBit_lowByte (cpsr : Word) {i : Nat} (hi : 8 ≤ i) :
    getBit ((cpsr.setWidth 8).setWidth 32) i = 0 := by
  rw [getBit_eq_zero, BitVec.getLsbD_setWidth, BitVec.getLsbD_of_ge _ i hi, Bool.and_false]

/-- `condition_passed` looks at no flag. -/
theorem conditionPassed_eq (h : condField ins = condition.code) :
    conditionPassed p ins = condition.holdsClear := by
  have hfield : (getBits ins 31 28).toNat = condition.code := h
  simp only [conditionPassed, hfield, getBit_lowByte _ (i := 28) (by omega),
    getBit_lowByte _ (i := 29) (by omega), getBit_lowByte _ (i := 30) (by omega),
    getBit_lowByte _ (i := 31) (by omega)]
  cases condition <;> rfl

theorem conditionPassed_withAL : conditionPassed p (withAL ins) = true := by
  have hfield : (getBits (withAL ins) 31 28).toNat = 0b1110 := condField_withAL ins
  simp only [conditionPassed, hfield]

variable [Host] {u : Locals}

theorem executeFetched_accepts (h : condField ins = condition.code)
    (haccepts : condition.accepts (armReadCpsr p)) :
    executeFetched u p ins = executeClass u p ins := by
  have hlt := condition.code_lt
  rw [executeFetched, h, armDecodeCondition_accepts, if_neg (by omega),
    if_neg fun hnot => hnot.2 haccepts]

theorem executeFetched_refuses (h : condField ins = condition.code)
    (hrefuses : ¬ condition.accepts (armReadCpsr p)) :
    executeFetched u p ins = .ok (0, p) := by
  have hlt := condition.code_lt
  rw [executeFetched, h, armDecodeCondition_accepts, if_neg (by omega),
    if_pos ⟨by omega, hrefuses⟩]

theorem executeFetched_withAL :
    executeFetched u p (withAL ins) = executeClass u p (withAL ins) := by
  rw [executeFetched, condField_withAL]
  rfl

end Tests

/-! ## The handlers -/

section Handlers

variable {u : Locals} {p : ArmCore} {ins : Word} {t : Target}

theorem storeWidth_withAL : storeWidth (withAL ins) t = storeWidth ins t := by
  cases t <;> simp (disch := decide) only [storeWidth, getBit_withAL]

/-- The other handlers do not ask. -/
theorem perform_load (h : storeWidth ins t = none) :
    perform u p (withAL ins) t = perform u p ins t := by
  cases t with
  | wordByte address =>
    rw [storeWidth] at h
    split at h
    · rename_i hl
      simp (disch := decide) only [perform, executeInstrWordByte, getBit_withAL, getBits_withAL]
      rw [decide_eq_true hl]
      rfl
    · simp at h
  | miscellaneous address =>
    rw [storeWidth] at h
    split at h
    · simp at h
    · rename_i hcode
      simp (disch := decide) only [perform, executeInstrMiscellaneous, getBit_withAL,
        getBits_withAL]
      split <;> first | rfl | contradiction
  | skipped => rfl
  | undefined => rfl

end Handlers

/-! ## Transparency -/

section Transparency

variable [Host]

def stepFetched (u : Locals) (p : ArmCore) (ins : Word) : Except Stop (Int × ArmCore) := do
  let r ← executeFetched u p ins
  raiseResult r

theorem armStep_eq (u : Locals) (p : ArmCore) : armStep u p = (armFetch p u.inst >>= fun r =>
    if r.1 ≠ 0 then raiseResult (Exception.prefetchAbort, r.2.2)
    else stepFetched u r.2.2 r.2.1) := by
  rw [armStep, armExecuteInstruction, bind_assoc]
  refine congrArg _ (funext fun r => ?_)
  by_cases hr : r.1 ≠ 0
  · simp only [if_pos hr]
    rfl
  · simp only [if_neg hr]
    rfl

/-- Conditional execution of `ins` in the state `p` after its fetch. -/
structure Transparent (u : Locals) (p : ArmCore) (ins : Word) (condition : Condition) : Prop where
  skipped : ¬ condition.accepts (armReadCpsr p) → stepFetched u p ins = .ok (0, p)
  executed : condition.accepts (armReadCpsr p) → stepFetched u p ins = stepFetched u p (withAL ins)

/-- The instruction is a store whose effect or failure would show. -/
def Storing (u : Locals) (q : Processor) (ins : Word) : Prop :=
  IsLoadStore ins ∧ ∃ t n a, target u q.core ins = .ok t ∧ storeWidth ins t = some (n, a) ∧
    Shows q.mem n a (storeValue n (q.register (rd ins)))

variable {u : Locals} {q : Processor} {ins : Word} {condition : Condition}

theorem stepFetched_accepts (hcond : condField ins = condition.code)
    (haccepts : condition.accepts (armReadCpsr q.core)) :
    stepFetched u q.core ins = (executeClass u q.core ins >>= raiseResult) := by
  rw [stepFetched, executeFetched_accepts hcond haccepts]

theorem stepFetched_withAL :
    stepFetched u q.core (withAL ins) = (executeClass u q.core (withAL ins) >>= raiseResult) := by
  rw [stepFetched, executeFetched_withAL]

theorem execute_loadStore (h : IsLoadStore ins) (p : ArmCore) :
    (executeClass u p ins >>= raiseResult) =
      target u p ins >>= fun t => perform u p ins t >>= raiseResult := by
  rw [executeClass_loadStore u p h, armLoadStore_target, bind_assoc]

omit [Host] in
/-- At one target, both variants end the step in the same way unless a store that
shows is dropped. -/
theorem perform_agree_iff (hcond : condField ins = condition.code) (t : Target) :
    (perform u q.core ins t >>= raiseResult) = (perform u q.core (withAL ins) t >>= raiseResult) ↔
      ¬ (condition.holdsClear = false ∧ ∃ n a, storeWidth ins t = some (n, a) ∧
        Shows q.mem n a (storeValue n (q.register (rd ins)))) := by
  cases hstore : storeWidth ins t with
  | none => simp [perform_load hstore]
  | some s =>
    obtain ⟨n, a⟩ := s
    have hread : armReadRegister q.core (getBits ins 15 12).toNat = .ok (q.register (rd ins)) :=
      q.armReadRegister_eq (rd ins)
    have hAL : storeWidth (withAL ins) t = some (n, a) := storeWidth_withAL.trans hstore
    rw [perform_store hstore, perform_store hAL, conditionPassed_withAL, if_pos rfl,
      conditionPassed_eq hcond, getBits_withAL ins (by omega) (by omega), hread, ok_bind]
    simp only [Option.some.injEq, Prod.mk.injEq]
    cases hclear : condition.holdsClear with
    | true => simp
    | false =>
      have hinvisible := storeAt_invisible_iff q.core n a (q.register (rd ins))
      have hdropped : raiseResult ((0 : Int), q.core) = .ok (0, q.core) := rfl
      rw [if_neg Bool.false_ne_true, ok_bind, hdropped, eq_comm, hinvisible]
      refine not_congr ⟨fun h => ⟨rfl, n, a, ⟨rfl, rfl⟩, h⟩, ?_⟩
      rintro ⟨-, _, _, ⟨rfl, rfl⟩, h⟩
      exact h

theorem execute_agree_iff (hcond : condField ins = condition.code) :
    (executeClass u q.core ins >>= raiseResult) =
        (executeClass u q.core (withAL ins) >>= raiseResult) ↔
      ¬ (condition.holdsClear = false ∧ Storing u q ins) := by
  by_cases hls : IsLoadStore ins
  · rw [execute_loadStore hls, execute_loadStore ((isLoadStore_withAL ins).mpr hls), target_withAL,
      Storing]
    cases htarget : target u q.core ins with
    | error e => simp [bind, Except.bind]
    | ok t =>
      rw [ok_bind, ok_bind, perform_agree_iff hcond t]
      simp [hls]
  · rw [executeClass_withAL u q.core ins hls]
    exact iff_of_true rfl fun h => hls h.2.1

theorem transparent_iff_not_dropped (hcond : condField ins = condition.code) :
    Transparent u q.core ins condition ↔
      ¬ (condition.accepts (armReadCpsr q.core) ∧ condition.holdsClear = false ∧
        Storing u q ins) := by
  by_cases haccepts : condition.accepts (armReadCpsr q.core)
  · have hagree : Transparent u q.core ins condition ↔
        stepFetched u q.core ins = stepFetched u q.core (withAL ins) :=
      ⟨fun h => h.executed haccepts, fun h => ⟨fun hnot => absurd haccepts hnot, fun _ => h⟩⟩
    rw [hagree, stepFetched_accepts hcond haccepts, stepFetched_withAL, execute_agree_iff hcond,
      and_iff_right haccepts]
  · refine iff_of_true ⟨fun _ => ?_, fun h => absurd h haccepts⟩ fun h => haccepts h.1
    rw [stepFetched, executeFetched_refuses hcond haccepts]
    rfl

end Transparency

/-- `streq r0, [r1]` with `Z` set, `r0` one and a memory of zeros. -/
def streqProgram : Processor where
  cycleCount := 0
  file := (File.blank ⟨setBit (modeStatus .svc).value 30, .svc, by decide⟩).write 0 1
  mem := ⟨#[0, 0, 0, 0], false⟩

theorem target_streq [Host] (u : Locals) (proc : ArmCore) : target u proc 0x05810000 =
    (armReadRegister proc 1 >>= fun rn => armReadRegister proc 0 >>= fun _ =>
      .ok (.wordByte (rn + 0 * 1))) := rfl

theorem streqProgram_storing [Host] (u : Locals) : Storing u streqProgram 0x05810000 := by
  have hrn : armReadRegister streqProgram.core 1 = .ok (streqProgram.register 1) :=
    streqProgram.armReadRegister_eq 1
  have hrm : armReadRegister streqProgram.core 0 = .ok (streqProgram.register 0) :=
    streqProgram.armReadRegister_eq 0
  have htarget : target u streqProgram.core 0x05810000 = .ok (.wordByte 0) := by
    have hzero : streqProgram.register 1 = 0 := rfl
    rw [target_streq, hrn, ok_bind, hrm, ok_bind, hzero]
    rfl
  refine ⟨by decide, _, .word, 0, htarget, by decide, by decide, ?_⟩
  decide

end ArmSimulator.Conditions
