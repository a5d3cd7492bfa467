import Mathlib.Algebra.Ring.Parity
import Mathlib.Data.Finset.Card
import Mathlib.Data.Finset.Range
import Mathlib.Data.Nat.Bitwise

/-! # A bit that is kept, reset or toggled

A loop that keeps one bit of state and, at each index, keeps, resets or toggles
it ends with the parity of the toggles after the last reset. Scanning two
numbers bit by bit, with a toggle where only the second has a one, leaves
toggles pending only if the first number is smaller.
-/

namespace Foundation.FlipFlop

inductive Signal where
  | keep | reset | toggle
  deriving DecidableEq, Repr

def Signal.apply : Signal → Bool → Bool
  | keep, s => s
  | reset, _ => false
  | toggle, s => !s

variable (f : ℕ → Signal)

/-- The bit after the signals at `0, …, n - 1`. -/
def run (n : ℕ) : Bool := (List.range n).foldl (fun s i => (f i).apply s) false

theorem run_succ (n : ℕ) : run f (n + 1) = (f n).apply (run f n) := by
  simp [run, List.range_succ]

/-- The toggles below `n` that no reset below `n` follows. -/
def pending (n : ℕ) : Finset ℕ :=
  (Finset.range n).filter fun i => f i = .toggle ∧ ∀ j < n, i < j → f j ≠ .reset

theorem mem_pending {n i : ℕ} :
    i ∈ pending f n ↔ i < n ∧ f i = .toggle ∧ ∀ j < n, i < j → f j ≠ .reset := by
  simp [pending]

theorem pending_reset {n : ℕ} (h : f n = .reset) : pending f (n + 1) = ∅ := by
  rw [Finset.eq_empty_iff_forall_notMem]
  intro i hi
  obtain ⟨hin, ht, hr⟩ := (mem_pending f).mp hi
  rcases Nat.lt_succ_iff_lt_or_eq.mp hin with hlt | rfl
  · exact hr n n.lt_succ_self hlt h
  · rw [h] at ht
    simp at ht

theorem mem_pending_succ {n i : ℕ} (h : f n ≠ .reset) :
    i ∈ pending f (n + 1) ↔ i ∈ pending f n ∨ i = n ∧ f n = .toggle := by
  simp only [mem_pending]
  constructor
  · rintro ⟨hin, ht, hr⟩
    rcases Nat.lt_succ_iff_lt_or_eq.mp hin with hlt | rfl
    · exact Or.inl ⟨hlt, ht, fun j hj => hr j (by omega)⟩
    · exact Or.inr ⟨rfl, ht⟩
  · rintro (⟨hin, ht, hr⟩ | ⟨rfl, ht⟩)
    · refine ⟨by omega, ht, fun j hj hij => ?_⟩
      rcases Nat.lt_succ_iff_lt_or_eq.mp hj with hlt | rfl
      · exact hr j hlt hij
      · exact h
    · exact ⟨by omega, ht, fun j hj hij => by omega⟩

theorem pending_keep {n : ℕ} (h : f n = .keep) : pending f (n + 1) = pending f n := by
  ext i
  rw [mem_pending_succ f (by simp [h])]
  simp [h]

theorem pending_toggle {n : ℕ} (h : f n = .toggle) :
    pending f (n + 1) = insert n (pending f n) := by
  ext i
  rw [mem_pending_succ f (by simp [h]), Finset.mem_insert]
  simp [h, or_comm]

/-- The bit ends as the parity of the toggles after the last reset. -/
theorem run_eq_true_iff (n : ℕ) : run f n = true ↔ Odd (pending f n).card := by
  induction n with
  | zero => simp [run, pending]
  | succ n ih =>
    rw [run_succ]
    cases h : f n with
    | keep => rw [pending_keep f h, ← ih, Signal.apply]
    | reset => simp [pending_reset f h, Signal.apply]
    | toggle =>
      have hn : n ∉ pending f n := fun hn => absurd ((mem_pending f).mp hn).1 (lt_irrefl n)
      rw [pending_toggle f h, Finset.card_insert_of_notMem hn, Nat.odd_add_one, ← ih, Signal.apply]
      simp

/-- Equal bits keep, a one over a zero resets, a zero over a one toggles. -/
def compareSignal (a b i : ℕ) : Signal :=
  if a.testBit i = b.testBit i then .keep else if a.testBit i then .reset else .toggle

theorem mod_two_pow_succ (a n : ℕ) :
    a % 2 ^ (n + 1) = (a.testBit n).toNat * 2 ^ n + a % 2 ^ n := by
  rw [Nat.toNat_testBit, Nat.mod_pow_succ, Nat.add_comm, Nat.mul_comm]

/-- A toggle is pending exactly if the first number is below the second. -/
theorem pending_nonempty_iff (a b n : ℕ) :
    (pending (compareSignal a b) n).Nonempty ↔ a % 2 ^ n < b % 2 ^ n := by
  induction n with
  | zero => simp [pending, Nat.mod_one]
  | succ n ih =>
    have ha : a % 2 ^ n < 2 ^ n := Nat.mod_lt _ (Nat.two_pow_pos n)
    have hb : b % 2 ^ n < 2 ^ n := Nat.mod_lt _ (Nat.two_pow_pos n)
    rw [mod_two_pow_succ, mod_two_pow_succ]
    cases hc : compareSignal a b n with
    | keep =>
      have heq : a.testBit n = b.testBit n := by
        by_contra hne
        simp only [compareSignal, if_neg hne] at hc
        split at hc <;> simp at hc
      rw [pending_keep _ hc, ih, heq]
      omega
    | reset =>
      have hbits : a.testBit n = true ∧ b.testBit n = false := by
        unfold compareSignal at hc
        cases ha : a.testBit n <;> cases hb : b.testBit n <;> simp_all
      rw [pending_reset _ hc, hbits.1, hbits.2, Bool.toNat_false, Bool.toNat_true]
      exact iff_of_false Finset.not_nonempty_empty (by omega)
    | toggle =>
      have hbits : a.testBit n = false ∧ b.testBit n = true := by
        unfold compareSignal at hc
        cases ha : a.testBit n <;> cases hb : b.testBit n <;> simp_all
      rw [pending_toggle _ hc, hbits.1, hbits.2, Bool.toNat_false, Bool.toNat_true]
      exact iff_of_true (Finset.insert_nonempty _ _) (by omega)

end Foundation.FlipFlop
