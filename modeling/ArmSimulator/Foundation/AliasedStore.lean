import Mathlib.Logic.Function.Basic
import Mathlib.Tactic.Common

/-! # Stores whose cells share locations

Each cell has a place, and two cells may have the same one. A ghost owner records
which cell a location was last written through. A cell whose location no other
cell has written since still agrees with the store in which cells are separate.
-/

namespace Foundation.AliasedStore

variable {C L V : Type*}

/-- No cell but `c` was the last to write the location of `c`. -/
def Fresh (place : C → L) (owner : L → Option C) (c : C) : Prop :=
  owner (place c) = none ∨ owner (place c) = some c

/-- `real` is `ideal` at every fresh cell. -/
structure Tracks (place : C → L) (owner : L → Option C) (ideal : C → V) (real : L → V) : Prop where
  placed : ∀ l c, owner l = some c → place c = l
  agree : ∀ c, Fresh place owner c → real (place c) = ideal c

variable {place : C → L} {owner : L → Option C} {ideal : C → V} {real : L → V}

theorem tracks_start (real : L → V) : Tracks place (fun _ => none) (real ∘ place) real where
  placed _ _ h := by simp at h
  agree _ _ := rfl

namespace Tracks

theorem fresh_of_alone (h : Tracks place owner ideal real) {c : C}
    (hc : ∀ c', place c' = place c → c' = c) : Fresh place owner c := by
  cases ho : owner (place c) with
  | none => exact Or.inl ho
  | some c' => exact Or.inr (hc c' (h.placed _ _ ho) ▸ ho)

variable [DecidableEq L]

theorem write [DecidableEq C] (h : Tracks place owner ideal real) (c : C) (v : V) :
    Tracks place (Function.update owner (place c) (some c)) (Function.update ideal c v)
      (Function.update real (place c) v) where
  placed l d hd := by
    by_cases hl : l = place c
    · subst hl
      rw [Function.update_self, Option.some.injEq] at hd
      rw [hd]
    · rw [Function.update_of_ne hl] at hd
      exact h.placed l d hd
  agree d hd := by
    by_cases hl : place d = place c
    -- the writer owns the location now, so a fresh cell there is the writer
    · have hcd : c = d := by simpa [Fresh, hl] using hd
      subst hcd
      rw [Function.update_self, Function.update_self]
    · have hne : d ≠ c := fun hdc => hl (congrArg place hdc)
      rw [Function.update_of_ne hl, Function.update_of_ne hne]
      refine h.agree d ?_
      rwa [Fresh, Function.update_of_ne hl] at hd

theorem write_outside (h : Tracks place owner ideal real) {l : L} (hl : ∀ c, place c ≠ l) (v : V) :
    Tracks place owner ideal (Function.update real l v) where
  placed := h.placed
  agree c hc := by rw [Function.update_of_ne (hl c)]; exact h.agree c hc

end Tracks

end Foundation.AliasedStore
