import Mathlib.Data.Option.Basic
import Mathlib.Order.Basic

/-! # Reasoning about steps

A machine with a partial step function comes from a state to a postcondition if one of its
runs is defined and ends there. The rules for this compose runs and close loops on a measure
that falls with every turn.
-/

namespace Foundation.StepLogic

variable {σ : Type*} (step : σ → Option σ)

def run : ℕ → σ → Option σ
  | 0, s => some s
  | n + 1, s => step s >>= run n

/-- A run from the state is defined and ends in `Q`. -/
def Eventually (Q : σ → Prop) (s : σ) : Prop := ∃ n t, run step n s = some t ∧ Q t

variable {step} {P Q : σ → Prop} {s t : σ}

theorem run_add (m n : ℕ) (s : σ) : run step (m + n) s = run step m s >>= run step n := by
  induction m generalizing s with
  | zero => rw [Nat.zero_add]; rfl
  | succ m ih =>
    rw [Nat.succ_add, run, run]
    cases step s with
    | none => rfl
    | some t => exact ih t

namespace Eventually

theorem now (h : Q s) : Eventually step Q s := ⟨0, s, rfl, h⟩

theorem next (hstep : step s = some t) (h : Eventually step Q t) : Eventually step Q s := by
  obtain ⟨n, t', hrun, hQ⟩ := h
  refine ⟨n + 1, t', ?_, hQ⟩
  rw [run, hstep]
  exact hrun

theorem mono (h : Eventually step P s) (hPQ : ∀ t, P t → Q t) : Eventually step Q s := by
  obtain ⟨n, t, hrun, hP⟩ := h
  exact ⟨n, t, hrun, hPQ t hP⟩

theorem bind (h : Eventually step P s) (hPQ : ∀ t, P t → Eventually step Q t) :
    Eventually step Q s := by
  obtain ⟨m, t, hm, hP⟩ := h
  obtain ⟨n, t', hn, hQ⟩ := hPQ t hP
  refine ⟨m + n, t', ?_, hQ⟩
  rw [run_add, hm]
  exact hn

/-- A loop ends if every turn does so or brings its invariant back with a smaller measure. -/
theorem loop {I : σ → Prop} (measure : σ → ℕ)
    (hturn : ∀ s, I s → Eventually step (fun t => Q t ∨ I t ∧ measure t < measure s) s)
    (hs : I s) : Eventually step Q s := by
  induction h : measure s using Nat.strongRecOn generalizing s with
  | ind k ih =>
    refine (hturn s hs).bind ?_
    rintro t (hQ | ⟨hI, hlt⟩)
    · exact now hQ
    · exact ih _ (h ▸ hlt) hI rfl

end Eventually

end Foundation.StepLogic
