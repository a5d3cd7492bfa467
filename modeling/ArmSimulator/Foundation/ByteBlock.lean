import Mathlib.Data.Nat.Basic
import Mathlib.Tactic.Common

/-! # Blocks of consecutive array cells

`writeBlock` stores a list upwards from a base index and `writeBlockDown` stores
the same cells from the last to the first. Both give the same array, a block
reads back as it was written, and no cell outside it changes.
-/

namespace Foundation.ByteBlock

variable {β : Type*}

def writeBlock (xs : Array β) : ℕ → List β → Array β
  | _, [] => xs
  | a, b :: bs => writeBlock (xs.setIfInBounds a b) (a + 1) bs

def writeBlockDown (xs : Array β) : ℕ → List β → Array β
  | _, [] => xs
  | a, b :: bs => (writeBlockDown xs (a + 1) bs).setIfInBounds a b

/-- The block `bs` sits at `a`. -/
def Holds (xs : Array β) (a : ℕ) (bs : List β) : Prop :=
  ∀ k (hk : k < bs.length), xs[a + k]? = some bs[k]

@[simp] theorem size_writeBlock (xs : Array β) (a : ℕ) (bs : List β) :
    (writeBlock xs a bs).size = xs.size := by
  induction bs generalizing xs a with
  | nil => rfl
  | cons b bs ih => rw [writeBlock, ih, Array.size_setIfInBounds]

theorem getElem?_writeBlock_outside (xs : Array β) (a : ℕ) (bs : List β) {i : ℕ}
    (hi : i < a ∨ a + bs.length ≤ i) : (writeBlock xs a bs)[i]? = xs[i]? := by
  induction bs generalizing xs a with
  | nil => rfl
  | cons b bs ih =>
    rw [List.length_cons] at hi
    rw [writeBlock, ih _ _ (by omega), Array.getElem?_setIfInBounds_ne (by omega)]

theorem getElem?_writeBlock_inside (xs : Array β) (a : ℕ) (bs : List β) {k : ℕ}
    (hk : k < bs.length) (ha : a + k < xs.size) : (writeBlock xs a bs)[a + k]? = some bs[k] := by
  induction bs generalizing xs a k with
  | nil => simp at hk
  | cons b bs ih =>
    rw [List.length_cons] at hk
    rw [writeBlock]
    cases k with
    | zero =>
      rw [getElem?_writeBlock_outside _ _ _ (by omega), Nat.add_zero,
        Array.getElem?_setIfInBounds_self_of_lt (by omega)]
      rfl
    | succ k =>
      have h := ih (xs.setIfInBounds a b) (a + 1) (k := k) (by omega)
        (by rw [Array.size_setIfInBounds]; omega)
      rw [show a + (k + 1) = a + 1 + k by omega, h]
      rfl

/-- A block reads back as it was written. -/
theorem holds_writeBlock (xs : Array β) (a : ℕ) (bs : List β) (ha : a + bs.length ≤ xs.size) :
    Holds (writeBlock xs a bs) a bs :=
  fun _ hk => getElem?_writeBlock_inside xs a bs hk (by omega)

theorem writeBlock_of_size_le (xs : Array β) {a : ℕ} (bs : List β) (ha : xs.size ≤ a) :
    writeBlock xs a bs = xs := by
  induction bs generalizing a with
  | nil => rfl
  | cons b bs ih =>
    rw [writeBlock, Array.setIfInBounds_eq_of_size_le ha, ih (by omega)]

theorem take_drop_writeBlock (xs : Array β) (a : ℕ) (bs : List β) (ha : a + bs.length ≤ xs.size) :
    ((writeBlock xs a bs).toList.drop a).take bs.length = bs := by
  apply List.ext_getElem?
  intro k
  rw [List.getElem?_take]
  split_ifs with hk
  · rw [List.getElem?_drop, Array.getElem?_toList, holds_writeBlock xs a bs ha k hk,
      List.getElem?_eq_getElem hk]
  · rw [List.getElem?_eq_none (by omega)]

theorem writeBlock_append (xs : Array β) (a : ℕ) (bs cs : List β) :
    writeBlock xs a (bs ++ cs) = writeBlock (writeBlock xs a bs) (a + bs.length) cs := by
  induction bs generalizing xs a with
  | nil => rfl
  | cons b bs ih =>
    rw [List.cons_append, writeBlock, ih, writeBlock, List.length_cons,
      show a + 1 + bs.length = a + (bs.length + 1) by omega]

theorem Holds.left {xs : Array β} {a : ℕ} {bs cs : List β} (h : Holds xs a (bs ++ cs)) :
    Holds xs a bs := by
  intro k hk
  rw [h k (by rw [List.length_append]; omega), List.getElem_append_left hk]

theorem Holds.right {xs : Array β} {a : ℕ} {bs cs : List β} (h : Holds xs a (bs ++ cs)) :
    Holds xs (a + bs.length) cs := by
  intro k hk
  have := h (bs.length + k) (by rw [List.length_append]; omega)
  rw [List.getElem_append_right (by omega)] at this
  rw [Nat.add_assoc, this]
  congr 2
  omega

theorem writeBlock_setIfInBounds_comm (xs : Array β) (a i : ℕ) (b : β) (bs : List β) (hi : i < a) :
    writeBlock (xs.setIfInBounds i b) a bs = (writeBlock xs a bs).setIfInBounds i b := by
  induction bs generalizing xs a with
  | nil => rfl
  | cons c bs ih =>
    rw [writeBlock, writeBlock, ← ih _ _ (by omega), Array.setIfInBounds_comm _ _ (by omega)]

/-- The order in which the cells of a block are stored makes no difference. -/
theorem writeBlockDown_eq (xs : Array β) (a : ℕ) (bs : List β) :
    writeBlockDown xs a bs = writeBlock xs a bs := by
  induction bs generalizing a with
  | nil => rfl
  | cons b bs ih =>
    rw [writeBlockDown, ih, writeBlock, writeBlock_setIfInBounds_comm _ _ _ _ _ (by omega)]

theorem setIfInBounds_self {xs : Array β} {i : ℕ} {b : β} (h : xs[i]? = some b) :
    xs.setIfInBounds i b = xs := by
  apply Array.ext_getElem?
  intro j
  rw [Array.getElem?_setIfInBounds]
  split_ifs with hj hlt
  · rw [← hj, h]
  · rw [← hj, Array.getElem?_eq_none (by omega)]
  · rfl

end Foundation.ByteBlock
