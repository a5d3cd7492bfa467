import ArmSimulator.Decoding.Unimplemented

/-! # What a step can do

A step that returns has raised an exception, skipped the fetched word or run its
handler without an exception. Which of the three it was, and which exception, is
determined by the fetch, the word and the flags.
-/

namespace ArmSimulator.Decoding

open Machine Conditions Exceptions Foundation.ExceptRun

/-- A fetch with this result, under this status, makes the step raise `k`. -/
inductive Raises (res : Int) (cpsr inst : Word) : Kind → Prop where
  | abort : res ≠ 0 → Raises res cpsr inst .prefetchAbort
  | never : res = 0 → condField inst = 0b1111 → Raises res cpsr inst .undefinedInstruction
  | word {k : Kind} : res = 0 → Passes cpsr inst → raises inst = some k → Raises res cpsr inst k

/-- The ways in which a step returns `r` once it has fetched. -/
inductive StepReturns [Host] (u : Locals) (res : Int) (inst : Word) (p' : ArmCore)
    (r : Int × ArmCore) : Prop where
  | raised (k : Kind) : Raises res (armReadCpsr p') inst k → r.1 = k.number.toNat →
      armException p' k.number = .ok r.2 → StepReturns u res inst p' r
  | skipped : res = 0 → ¬ Passes (armReadCpsr p') inst → r = (0, p') → StepReturns u res inst p' r
  | executed : res = 0 → Passes (armReadCpsr p') inst → raises inst = none →
      (dispatch inst).run u p' inst = .ok r → r.1 = 0 ∨ r.1 = 255 → StepReturns u res inst p' r

section Step

theorem toUint8_number (k : Kind) : toUint8 k.number.toNat = k.number := by
  cases k <;> rfl

theorem number_ne_zero (k : Kind) : (k.number.toNat : Int) ≠ 0 := by
  cases k <;> decide

theorem raiseResult_quiet {r : Int × ArmCore} (h : r.1 = 0 ∨ r.1 = 255) :
    raiseResult r = .ok r := by
  obtain ⟨res, p⟩ := r
  rcases h with rfl | rfl <;> rfl

theorem raiseResult_number (p : ArmCore) (k : Kind) :
    raiseResult (k.number.toNat, p) =
      (armException p k.number >>= fun p' => .ok ((k.number.toNat : Int), p')) := by
  rw [raiseResult, if_pos (number_ne_zero k), toUint8_number]
  rfl

variable [Host] {u : Locals} {p p' : ArmCore} {res : Int} {inst : Word}

theorem armStep_raises {k : Kind} (hfetch : armFetch p u.inst = .ok (res, inst, p'))
    (h : Raises res (armReadCpsr p') inst k) :
    armStep u p = raiseResult ((k.number.toNat : Int), p') := by
  have hmode := (armFetch_mode hfetch).2
  cases h with
  | abort hres =>
    rw [armStep_eq, hfetch, ok_bind, if_pos hres]
    rfl
  | never hres hfield =>
    subst hres
    rw [armStep_of_fetch hfetch, stepFetched, executeFetched_never hfield]
    rfl
  | word hres hpass hraises =>
    subst hres
    rw [armStep_dispatch hfetch hpass, run_raises hmode hraises]
    rfl

/-- Every step that returns did so in one of the three ways. -/
theorem armStep_returns {r : Int × ArmCore} (h : armStep u p = .ok r) :
    ∃ res inst p', armFetch p u.inst = .ok (res, inst, p') ∧ StepReturns u res inst p' r := by
  have hfetch := h
  rw [armStep_eq] at hfetch
  obtain ⟨⟨res, inst, p'⟩, hfetch, hrest⟩ := bind_eq_ok.mp hfetch
  refine ⟨res, inst, p', hfetch, ?_⟩
  have hraised (k : Kind) (hk : Raises res (armReadCpsr p') inst k) :
      StepReturns u res inst p' r := by
    rw [armStep_raises hfetch hk, raiseResult_number] at h
    obtain ⟨p'', hentry, hr⟩ := bind_eq_ok.mp h
    rw [Except.ok.injEq] at hr
    subst hr
    exact .raised k hk rfl hentry
  by_cases hres : res = 0
  · subst hres
    by_cases hnever : condField inst = 0b1111
    · exact hraised _ (.never rfl hnever)
    · by_cases hpass : Passes (armReadCpsr p') inst
      · cases hword : raises inst with
        | some k => exact hraised k (.word rfl hpass hword)
        | none =>
          rw [armStep_dispatch hfetch hpass] at h
          obtain ⟨s, hs, hraise⟩ := bind_eq_ok.mp h
          have hquiet := run_quiet hword s hs
          rw [raiseResult_quiet hquiet, Except.ok.injEq] at hraise
          subst hraise
          exact .executed rfl hpass hword hs hquiet
      · rw [armStep_of_fetch hfetch, stepFetched, executeFetched_fails hnever hpass, ok_bind,
          raiseResult_quiet (Or.inl rfl), Except.ok.injEq] at h
        exact .skipped rfl hpass h.symm
  · exact hraised _ (.abort hres)

end Step

end ArmSimulator.Decoding
