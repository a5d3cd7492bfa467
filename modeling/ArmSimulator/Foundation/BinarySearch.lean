import Mathlib.Data.Int.Notation
import Mathlib.Order.Lattice
import Mathlib.Tactic.Common

/-! # Binary search on an inclusive interval

The search compares the key with the entry in the middle and goes on in the half
behind it or in the half before it. The interval may become empty on either side
or end as a single entry, which is tested last. On ascending entries it finds the
key exactly if one of them is the key.
-/

namespace Foundation.BinarySearch

variable {α : Type*} [LinearOrder α]

/-- Whether the key is found among the entries from `lo` to `hi`. -/
def search (f : ℤ → α) (key : α) (lo hi : ℤ) : Bool :=
  if lo < hi then
    if f ((lo + hi) / 2) < key then search f key ((lo + hi) / 2 + 1) hi
    else if key < f ((lo + hi) / 2) then search f key lo ((lo + hi) / 2 - 1)
    else true
  else lo = hi ∧ f lo = key
termination_by (hi - lo).toNat

def Ascending (f : ℤ → α) (lo hi : ℤ) : Prop := ∀ ⦃i j⦄, lo ≤ i → i ≤ j → j ≤ hi → f i ≤ f j

def Occurs (f : ℤ → α) (key : α) (lo hi : ℤ) : Prop := ∃ i, lo ≤ i ∧ i ≤ hi ∧ f i = key

variable {f : ℤ → α} {key : α} {lo hi m : ℤ}

theorem Ascending.mono {lo' hi' : ℤ} (h : Ascending f lo hi) (hlo : lo ≤ lo') (hhi : hi' ≤ hi) :
    Ascending f lo' hi' :=
  fun _ _ hi hij hj => h (Int.le_trans hlo hi) hij (Int.le_trans hj hhi)

theorem occurs_behind_iff (h : Ascending f lo hi) (hlo : lo ≤ m) (hhi : m ≤ hi)
    (hlt : f m < key) : Occurs f key (m + 1) hi ↔ Occurs f key lo hi := by
  constructor
  · rintro ⟨i, hi₁, hi₂, heq⟩
    exact ⟨i, by omega, hi₂, heq⟩
  · rintro ⟨i, hi₁, hi₂, heq⟩
    have hbehind : m < i := by
      by_contra hle
      exact absurd (h hi₁ (Int.not_lt.mp hle) hhi) (not_le.mpr (heq ▸ hlt))
    exact ⟨i, hbehind, hi₂, heq⟩

theorem occurs_before_iff (h : Ascending f lo hi) (hlo : lo ≤ m) (hhi : m ≤ hi)
    (hlt : key < f m) : Occurs f key lo (m - 1) ↔ Occurs f key lo hi := by
  constructor
  · rintro ⟨i, hi₁, hi₂, heq⟩
    exact ⟨i, hi₁, by omega, heq⟩
  · rintro ⟨i, hi₁, hi₂, heq⟩
    have hbefore : i < m := by
      by_contra hle
      exact absurd (h hlo (Int.not_lt.mp hle) hi₂) (not_le.mpr (heq ▸ hlt))
    exact ⟨i, hi₁, Int.le_sub_one_of_lt hbefore, heq⟩

/-- On ascending entries the search decides whether one of them is the key. -/
theorem search_iff (h : Ascending f lo hi) : search f key lo hi ↔ Occurs f key lo hi := by
  fun_induction search f key lo hi with
  | case1 lo hi hlt hsmall ih =>
    rw [ih (h.mono (by omega) (Int.le_refl hi)), occurs_behind_iff h (by omega) (by omega) hsmall]
  | case2 lo hi hlt _ hlarge ih =>
    rw [ih (h.mono (Int.le_refl lo) (by omega)), occurs_before_iff h (by omega) (by omega) hlarge]
  | case3 lo hi hlt hge hle =>
    exact iff_of_true rfl
      ⟨_, by omega, by omega, le_antisymm (not_lt.mp hle) (not_lt.mp hge)⟩
  | case4 lo hi hge =>
    rw [decide_eq_true_iff]
    constructor
    · rintro ⟨rfl, heq⟩
      exact ⟨lo, Int.le_refl lo, Int.le_refl lo, heq⟩
    · rintro ⟨i, hi₁, hi₂, heq⟩
      obtain rfl : i = lo := by omega
      exact ⟨by omega, heq⟩

end Foundation.BinarySearch
