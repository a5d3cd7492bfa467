import Mathlib.Algebra.Order.Group.Nat
import Mathlib.Tactic.Common

/-! # Arrays whose blocks are reversed

The cells of an array in blocks of `n`, each block in the opposite order. A cell whose
opposite the array does not have stays where it is.
-/

namespace Foundation.BlockReversal

variable {β : Type*} {n : ℕ}

/-- The cell opposite to `i` in its block. -/
def opposite (n i : ℕ) : ℕ := i / n * n + (n - 1 - i % n)

theorem opposite_add {a r : ℕ} (ha : n ∣ a) (hr : r < n) :
    opposite n (a + r) = a + (n - 1 - r) := by
  obtain ⟨q, rfl⟩ := ha
  rw [opposite, Nat.mul_add_div (by omega), Nat.div_eq_of_lt hr, Nat.mul_add_mod,
    Nat.mod_eq_of_lt hr, Nat.add_zero, Nat.mul_comm]

theorem opposite_opposite (hn : 0 < n) (i : ℕ) : opposite n (opposite n i) = i := by
  have hr : i % n < n := Nat.mod_lt i hn
  have hsplit : i / n * n + i % n = i := Nat.div_add_mod' i n
  calc opposite n (opposite n i)
    _ = i / n * n + (n - 1 - (n - 1 - i % n)) :=
      opposite_add (Nat.dvd_mul_left n (i / n)) (by omega)
    _ = i := by omega

theorem opposite_inj (hn : 0 < n) {i j : ℕ} (h : opposite n i = opposite n j) : i = j := by
  rw [← opposite_opposite hn i, h, opposite_opposite hn]

def reverseBlocks (n : ℕ) (xs : Array β) : Array β :=
  xs.mapIdx fun i x => xs[opposite n i]?.getD x

variable {xs : Array β} {i : ℕ}

@[simp] theorem size_reverseBlocks : (reverseBlocks n xs).size = xs.size := by
  simp [reverseBlocks]

theorem getElem?_reverseBlocks (i : ℕ) :
    (reverseBlocks n xs)[i]? = xs[i]?.map fun x => xs[opposite n i]?.getD x := by
  simp [reverseBlocks]

theorem getElem?_reverseBlocks_of_lt (hi : i < xs.size) (hopposite : opposite n i < xs.size) :
    (reverseBlocks n xs)[i]? = xs[opposite n i]? := by
  rw [getElem?_reverseBlocks, Array.getElem?_eq_getElem hi, Array.getElem?_eq_getElem hopposite]
  rfl

theorem reverseBlocks_setIfInBounds (hn : 0 < n) (hi : i < xs.size)
    (hopposite : opposite n i < xs.size) (b : β) :
    reverseBlocks n (xs.setIfInBounds (opposite n i) b) =
      (reverseBlocks n xs).setIfInBounds i b := by
  apply Array.ext_getElem?
  intro j
  by_cases hj : i = j
  · subst hj
    rw [getElem?_reverseBlocks_of_lt (by simpa using hi) (by simpa using hopposite),
      Array.getElem?_setIfInBounds_self_of_lt hopposite,
      Array.getElem?_setIfInBounds_self_of_lt (by simpa using hi)]
  · have hne : opposite n i ≠ opposite n j := fun h => hj (opposite_inj hn h)
    rw [Array.getElem?_setIfInBounds_ne hj, getElem?_reverseBlocks, getElem?_reverseBlocks,
      Array.getElem?_setIfInBounds_ne hne]
    by_cases hopp : opposite n i = j
    · -- the written cell shows in its opposite only, which is `i`
      subst hopp
      rw [opposite_opposite hn, Array.getElem?_eq_getElem hi,
        Array.getElem?_setIfInBounds_self_of_lt hopposite, Array.getElem?_eq_getElem hopposite]
      rfl
    · rw [Array.getElem?_setIfInBounds_ne hopp]

end Foundation.BlockReversal
