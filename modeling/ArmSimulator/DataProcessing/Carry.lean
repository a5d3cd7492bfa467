import ArmSimulator.DataProcessing.Addition

/-! # The last carry and the last borrow

The loop of `getCarryFlag` stops below the sign, so what it returns is the carry
into bit 31. In a subtraction it also loses the borrow where a zero, a one and a
borrow meet, which leaves the parity of the borrows. Either is the last carry or
borrow for some operands only.
-/

namespace ArmSimulator.DataProcessing

open Machine Conditions Foundation.FlipFlop

/-- The flag of a sum is the carry out of all 32 bits. -/
def CarriesOut (a b : Word) : Prop := getCarryFlag a b .plus ↔ 2 ^ 32 ≤ a.toNat + b.toNat

/-- The flag of a difference is the borrow out of all 32 bits. -/
def BorrowsOut (a b : Word) : Prop := getCarryFlag a b .minus ↔ a.toNat < b.toNat

/-- The borrows below the sign are as many as it takes: with equal signs none or an odd
number, and otherwise an odd number exactly if the second operand has the sign. -/
def BorrowsSuffice (a b : Word) : Prop :=
  if a.msb = b.msb then borrows a b = ∅ ∨ Odd (borrows a b).card
  else b.msb ↔ Odd (borrows a b).card

variable (a b : Word)

theorem carriesOut_iff : CarriesOut a b ↔ Fits (a.toInt + b.toInt) := by
  have hcarry := carry_iff a b false
  rw [Bool.toNat_false, Nat.add_zero, Int.ofNat_zero, Int.add_zero] at hcarry
  rw [CarriesOut, ← hcarry, ← getCarryFlagAdd_eq]
  rfl

/-- Below the sign a borrow is left exactly if the rest of `a` is below that of `b`. -/
theorem borrows_nonempty_iff :
    (borrows a b).Nonempty ↔ a.toNat % 2 ^ 31 < b.toNat % 2 ^ 31 := by
  rw [borrows_eq, pending_nonempty_iff]

theorem borrowsOut_iff : BorrowsOut a b ↔ BorrowsSuffice a b := by
  have ha := a.isLt
  have hb := b.isLt
  have hflag : getCarryFlag a b .minus ↔ Odd (borrows a b).card := getCarryFlagSub_iff a b
  have hodd : Odd (borrows a b).card → (borrows a b).Nonempty := fun h =>
    Finset.card_pos.mp (Nat.pos_of_ne_zero fun hzero => Nat.not_odd_zero (hzero ▸ h))
  rw [BorrowsOut, BorrowsSuffice, hflag]
  split_ifs with hsign
  · have hlt : a.toNat < b.toNat ↔ (borrows a b).Nonempty := by
      rw [BitVec.msb_eq_decide, BitVec.msb_eq_decide, decide_eq_decide] at hsign
      rw [borrows_nonempty_iff]
      omega
    rw [hlt, ← Finset.not_nonempty_iff_eq_empty]
    tauto
  · have hlt : a.toNat < b.toNat ↔ b.msb := by
      rw [BitVec.msb_eq_decide, BitVec.msb_eq_decide, decide_eq_decide] at hsign
      rw [BitVec.msb_eq_decide, decide_eq_true_iff]
      omega
    rw [hlt]
    exact Iff.comm

/-- The carry is right exactly where the signed sum fits, the borrow exactly where there
are borrows enough. -/
theorem carryFlag_iff :
    (CarriesOut a b ↔ Fits (a.toInt + b.toInt)) ∧ (BorrowsOut a b ↔ BorrowsSuffice a b) :=
  ⟨carriesOut_iff a b, borrowsOut_iff a b⟩

/-- The sum of two signs has a carry, and 3 is borrowed from 0. -/
theorem carryFlag_fails :
    (¬ ∀ a b, CarriesOut a b) ∧ ¬ ∀ a b, BorrowsOut a b := by
  refine ⟨fun h => ?_, fun h => ?_⟩
  · have hflag : getCarryFlag 0x80000000 0x80000000 .plus = true := (h _ _).mpr (by decide)
    exact absurd hflag (by decide +kernel)
  · have hflag : getCarryFlag 0 3 .minus = true := (h _ _).mpr (by decide)
    exact absurd hflag (by decide +kernel)

end ArmSimulator.DataProcessing
