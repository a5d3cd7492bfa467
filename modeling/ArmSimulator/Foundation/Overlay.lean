import Mathlib.Tactic.Common

/-! # Cells covered by others

A cover gives values for some of the indices of an array. Writes to the other cells commute
with it, and of two covers laid one on the other the upper one shows where it has a value.
-/

namespace Foundation.Overlay

variable {β : Type*}

/-- Values for some of the indices. -/
abbrev Cover (β : Type*) := ℕ → Option β

namespace Cover

def overlay (s : Cover β) (xs : Array β) : Array β := xs.mapIdx fun i x => (s i).getD x

/-- `t` laid on `s`. -/
def upon (t s : Cover β) : Cover β := fun i => (t i).or (s i)

variable (s t : Cover β) (xs : Array β)

@[simp] theorem size_overlay : (s.overlay xs).size = xs.size := by simp [overlay]

@[simp] theorem getElem?_overlay (i : ℕ) : (s.overlay xs)[i]? = xs[i]?.map (s i).getD := by
  simp [overlay]

theorem getElem?_overlay_of_none {i : ℕ} (h : s i = none) : (s.overlay xs)[i]? = xs[i]? := by
  cases hx : xs[i]? <;> simp [h, hx]

theorem overlay_setIfInBounds {i : ℕ} (h : s i = none) (b : β) :
    s.overlay (xs.setIfInBounds i b) = (s.overlay xs).setIfInBounds i b := by
  simp [overlay, h]

theorem overlay_overlay : t.overlay (s.overlay xs) = (t.upon s).overlay xs := by
  apply Array.ext_getElem?
  intro i
  simp only [getElem?_overlay, Option.map_map, upon]
  congr 1
  funext x
  cases t i <;> simp

variable {s t xs}

theorem overlay_eq_self_iff :
    s.overlay xs = xs ↔ ∀ i b, s i = some b → i < xs.size → xs[i]? = some b := by
  constructor
  · intro h i b hs hi
    have hcell := getElem?_overlay s xs i
    rw [h, hs, Array.getElem?_eq_getElem hi] at hcell
    rw [Array.getElem?_eq_getElem hi, hcell]
    rfl
  · intro h
    apply Array.ext_getElem?
    intro i
    rw [getElem?_overlay]
    by_cases hi : i < xs.size
    · cases hs : s i with
      | none => simp [Array.getElem?_eq_getElem hi]
      | some b =>
        rw [h i b hs hi]
        rfl
    · rw [Array.getElem?_eq_none (Nat.le_of_not_lt hi)]
      rfl

end Cover

end Foundation.Overlay
