import ArmSimulator.Conditions.Table
import ArmSimulator.Foundation.FlipFlop

/-! # Conditions after a comparison

A compare should make the condition codes the order relations of its operands.
The borrow loop leaves the parity of the borrows above the last position where
the first operand has the only one, and the overflow formula is the opposite of
the subtraction's when the signs differ.
-/

namespace ArmSimulator.Conditions

open Machine Foundation.FlipFlop

/-- The conditions are the order of the operands, unsigned and signed. -/
structure CompareLaw (a b : Word) (accepts : Condition → Bool) : Prop where
  eq : accepts .eq ↔ a = b
  ne : accepts .ne ↔ a ≠ b
  cs : accepts .cs ↔ b.toNat ≤ a.toNat
  cc : accepts .cc ↔ a.toNat < b.toNat
  mi : accepts .mi ↔ (a - b).msb
  pl : accepts .pl ↔ ¬ (a - b).msb
  hi : accepts .hi ↔ b.toNat < a.toNat
  ls : accepts .ls ↔ a.toNat ≤ b.toNat
  ge : accepts .ge ↔ b.toInt ≤ a.toInt
  lt : accepts .lt ↔ a.toInt < b.toInt
  gt : accepts .gt ↔ b.toInt < a.toInt
  le : accepts .le ↔ a.toInt ≤ b.toInt

/-- `cmp` of `a` and `b` leaves flags that the decoder's table reads as their order. -/
def Compares (p : ArmCore) (rd : Nat) (a b : Word) (updateCPSR : Bool) : Prop :=
  ∃ p', executeInst 0b1010 p rd a b updateCPSR = .ok (0, p') ∧
    CompareLaw a b fun condition => armDecodeCondition condition.code (cpsrFlags p')

/-! ## Flags -/

/-- Four facts about the flags are enough for the law. -/
theorem compareLaw_iff {a b : Word} {n z c v : Bool} :
    CompareLaw a b (fun condition => condition.holds n z c v) ↔
      (z ↔ a = b) ∧ (n ↔ (a - b).msb) ∧ (c ↔ b.toNat ≤ a.toNat) ∧
        ((n == v) ↔ b.toInt ≤ a.toInt) := by
  have hnat : a = b ↔ a.toNat = b.toNat := BitVec.toNat_inj.symm
  have hint : a = b ↔ a.toInt = b.toInt := BitVec.toInt_inj.symm
  constructor
  · intro h
    exact ⟨h.eq, h.mi, h.cs, h.ge⟩
  · rintro ⟨hz, hn, hc, hv⟩
    have hz' : z = false ↔ a ≠ b := by rw [← Bool.not_eq_true, hz]
    have hn' : n = false ↔ ¬ (a - b).msb := by rw [← Bool.not_eq_true, hn]
    have hc' : c = false ↔ a.toNat < b.toNat := by rw [← Bool.not_eq_true, hc]; omega
    have hv' : (n != v) ↔ a.toInt < b.toInt := by
      rw [bne, Bool.not_eq_true', ← Bool.not_eq_true, hv]
      omega
    constructor
    case eq => exact hz
    case ne => rw [Condition.holds, Bool.not_eq_true', hz']
    case cs => exact hc
    case cc => rw [Condition.holds, Bool.not_eq_true', hc']
    case mi => exact hn
    case pl => rw [Condition.holds, Bool.not_eq_true', hn']
    case hi =>
      rw [Condition.holds, Bool.and_eq_true, Bool.not_eq_true', hc, hz', ne_eq, hnat]
      omega
    case ls =>
      rw [Condition.holds, Bool.or_eq_true, Bool.not_eq_true', hc', hz, hnat]
      omega
    case ge => exact hv
    case lt => exact hv'
    case gt =>
      rw [Condition.holds, Bool.and_eq_true, Bool.not_eq_true', hz', hv, ne_eq, hint]
      omega
    case le =>
      rw [Condition.holds, Bool.or_eq_true, hz, hv', hint]
      omega

theorem getLsbD_packFlags (cpsr : Word) (z n c v : Bool) (j : Nat) :
    (packFlags cpsr z n c v).getLsbD j = if j = 28 then v else if j = 29 then c
      else if j = 31 then n else if j = 30 then z else cpsr.getLsbD j := by
  have hstep (x : Word) (b : Bool) {i : Nat} (hi : i < 32) :
      (if b then setBit x i else clrBit x i).getLsbD j = if j = i then b else x.getLsbD j := by
    cases b <;> by_cases hj : j = i <;> simp [getLsbD_setBit _ hi, getLsbD_clrBit _ hi, hj]
  simp only [packFlags, List.foldl_cons, List.foldl_nil]
  rw [hstep _ v (by omega), hstep _ c (by omega), hstep _ n (by omega), hstep _ z (by omega)]

theorem accepts_packFlags (condition : Condition) (cpsr : Word) (z n c v : Bool) :
    condition.accepts (packFlags cpsr z n c v) = condition.holds n z c v := by
  rw [Condition.accepts, getLsbD_packFlags, getLsbD_packFlags, getLsbD_packFlags,
    getLsbD_packFlags]
  rfl

theorem executeInst_cmp (p : ArmCore) (rd : Nat) (a b : Word) (updateCPSR : Bool) :
    executeInst 0b1010 p rd a b updateCPSR = .ok (0, armWriteCpsr p (packFlags (armReadCpsr p)
      (a - b = 0) (getBit (a - b) 31 ≠ 0) (getCarryFlagSub a b)
        (getOverflowFlagSub (a - b) a b))) := by
  cases updateCPSR <;> rfl

theorem compares_iff_flags (p : ArmCore) (rd : Nat) (a b : Word) (updateCPSR : Bool) :
    Compares p rd a b updateCPSR ↔ CompareLaw a b fun condition =>
      condition.holds (a - b).msb (a - b = 0) (getCarryFlagSub a b)
        (getOverflowFlagSub (a - b) a b) := by
  have hn : decide (getBit (a - b) 31 ≠ 0) = (a - b).msb := by
    simp only [getBit_ne_zero, Bool.decide_eq_true, BitVec.msb_eq_getLsbD_last]
  have htable (x : Word) (condition : Condition) :
      armDecodeCondition condition.code (cpsrFlags (armWriteCpsr p x)) = condition.accepts x := by
    rw [armDecodeCondition_accepts, armReadCpsr, armWriteCpsr, readCpsr_writeCpsr]
  rw [Compares, executeInst_cmp]
  simp only [Except.ok.injEq, Prod.mk.injEq, true_and, exists_eq_left', htable, accepts_packFlags,
    hn]

/-! ## The borrow loop -/

theorem carryFlagStep_minus (a b : Word) (c : Bool) (i : Nat) :
    carryFlagStep a b .minus c i = (compareSignal a.toNat b.toNat i).apply c := by
  have ha : a.toNat.testBit i = a.getLsbD i := rfl
  have hb : b.toNat.testBit i = b.getLsbD i := rfl
  rw [compareSignal, ha, hb, carryFlagStep, getBit_eq, getBit_eq]
  cases a.getLsbD i <;> cases b.getLsbD i <;> cases c <;> rfl

theorem getCarryFlagSub_eq (a b : Word) :
    getCarryFlagSub a b = run (compareSignal a.toNat b.toNat) 31 := by
  rw [getCarryFlagSub, getCarryFlag, run]
  congr 1
  funext c i
  exact carryFlagStep_minus a b c i

/-- `x` alone has a one at position `i`. -/
def OneOver (x y : Word) (i : Nat) : Prop := x.getLsbD i = true ∧ y.getLsbD i = false

instance (x y : Word) (i : Nat) : Decidable (OneOver x y i) := inferInstanceAs (Decidable (_ ∧ _))

/-- At `i` only `b` has a one, and at no position between `i` and the sign has `a`
the only one. -/
def Borrows (a b : Word) (i : Nat) : Prop := OneOver b a i ∧ ∀ j < 31, i < j → ¬ OneOver a b j

instance (a b : Word) (i : Nat) : Decidable (Borrows a b i) := inferInstanceAs (Decidable (_ ∧ _))

def borrows (a b : Word) : Finset Nat := (Finset.range 31).filter (Borrows a b)

theorem borrows_eq (a b : Word) : borrows a b = pending (compareSignal a.toNat b.toNat) 31 := by
  have hsignal (i : Nat) : compareSignal a.toNat b.toNat i =
      if a.getLsbD i = b.getLsbD i then .keep else if a.getLsbD i then .reset else .toggle := rfl
  have htoggle (i : Nat) : OneOver b a i ↔ compareSignal a.toNat b.toNat i = .toggle := by
    rw [hsignal, OneOver]
    cases a.getLsbD i <;> cases b.getLsbD i <;> simp
  have hreset (j : Nat) : OneOver a b j ↔ compareSignal a.toNat b.toNat j = .reset := by
    rw [hsignal, OneOver]
    cases a.getLsbD j <;> cases b.getLsbD j <;> simp
  ext i
  rw [mem_pending, borrows, Finset.mem_filter, Finset.mem_range, Borrows, htoggle]
  simp only [hreset, ne_eq]

theorem getCarryFlagSub_iff (a b : Word) : getCarryFlagSub a b ↔ Odd (borrows a b).card := by
  rw [getCarryFlagSub_eq, run_eq_true_iff, borrows_eq]

/-- With equal signs, a carry means that `a` is below `b`. -/
theorem lt_of_getCarryFlagSub {a b : Word} (hsign : a.msb = b.msb) (h : getCarryFlagSub a b) :
    a.toNat < b.toNat := by
  rw [getCarryFlagSub_iff, borrows_eq] at h
  have hcard : 0 < (pending (compareSignal a.toNat b.toNat) 31).card := by
    obtain ⟨k, hk⟩ := h
    omega
  have hlow := (pending_nonempty_iff a.toNat b.toNat 31).mp (Finset.card_pos.mp hcard)
  have ha := a.isLt
  have hb := b.isLt
  rw [BitVec.msb_eq_decide, BitVec.msb_eq_decide, decide_eq_decide] at hsign
  omega

/-! ## Overflow -/

theorem getBit_sign_eq_iff (x y : Word) : getBit x 31 = getBit y 31 ↔ x.msb = y.msb := by
  rw [getBit_eq, getBit_eq, BitVec.msb_eq_getLsbD_last, BitVec.msb_eq_getLsbD_last]
  cases x.getLsbD 31 <;> cases y.getLsbD 31 <;> decide

theorem getOverflowFlagSub_eq (a b : Word) :
    getOverflowFlagSub (a - b) a b = (b.msb != a.msb && b.msb != (a - b).msb) := by
  simp only [getOverflowFlagSub, getOverflowFlag, ne_eq, getBit_sign_eq_iff]
  cases a.msb <;> cases b.msb <;> cases (a - b).msb <;> rfl

theorem msb_sub_iff {a b : Word} (hsign : a.msb = b.msb) :
    (a - b).msb ↔ a.toNat < b.toNat := by
  have ha := a.isLt
  have hb := b.isLt
  rw [BitVec.msb_eq_decide, BitVec.msb_eq_decide, decide_eq_decide] at hsign
  rw [BitVec.msb_eq_decide, BitVec.toNat_sub, decide_eq_true_iff]
  omega

theorem toInt_le_iff {a b : Word} (hsign : a.msb = b.msb) :
    b.toInt ≤ a.toInt ↔ b.toNat ≤ a.toNat := by
  rw [BitVec.toInt_eq_msb_cond, BitVec.toInt_eq_msb_cond, hsign]
  split <;> omega

/-- The signed order is read off the flags exactly when the signs agree. -/
theorem overflow_iff (a b : Word) :
    (((a - b).msb == getOverflowFlagSub (a - b) a b) ↔ b.toInt ≤ a.toInt) ↔ a.msb = b.msb := by
  have hle : b.msb ≠ a.msb → (b.toInt ≤ a.toInt ↔ a.msb = false) := by
    intro hsign
    have ha := a.isLt
    have hb := b.isLt
    rw [BitVec.toInt_eq_msb_cond, BitVec.toInt_eq_msb_cond]
    cases ha' : a.msb <;> cases hb' : b.msb <;> simp_all <;> omega
  rw [getOverflowFlagSub_eq]
  by_cases hsign : a.msb = b.msb
  · rw [toInt_le_iff hsign, ← not_lt, ← msb_sub_iff hsign, hsign]
    cases (a - b).msb <;> simp
  · have hne : b.msb ≠ a.msb := fun h => hsign h.symm
    rw [hle hne]
    cases ha : a.msb <;> cases hb : b.msb <;> cases hd : (a - b).msb <;> simp_all

/-! ## The comparison law -/

/-- `cmp` obeys the comparison law exactly for operands of one sign, the first
below the second, with an even number of borrows. -/
theorem compares_iff (p : ArmCore) (rd : Nat) (a b : Word) (updateCPSR : Bool) :
    Compares p rd a b updateCPSR ↔
      a.msb = b.msb ∧ a.toNat < b.toNat ∧ Even (borrows a b).card := by
  rw [compares_iff_flags, compareLaw_iff, overflow_iff]
  have hz : decide (a - b = 0) = true ↔ a = b := by
    rw [decide_eq_true_iff, sub_eq_zero]
  constructor
  · rintro ⟨-, -, hcarry, hsign⟩
    have hlt : a.toNat < b.toNat := by
      by_contra hge
      exact hge (lt_of_getCarryFlagSub hsign (hcarry.mpr (by omega)))
    refine ⟨hsign, hlt, ?_⟩
    rw [← Nat.not_odd_iff_even, ← getCarryFlagSub_iff, hcarry]
    omega
  · rintro ⟨hsign, hlt, heven⟩
    refine ⟨hz, Iff.rfl, ?_, hsign⟩
    rw [getCarryFlagSub_iff, ← Nat.not_even_iff_odd]
    exact iff_of_false (fun h => h heven) (by omega)

/-- A word compared with itself is not found higher or same. -/
theorem compare_equal_fails :
    ¬ ∀ (p : ArmCore) (rd : Nat) (a b : Word) (updateCPSR : Bool),
      Compares p rd a b updateCPSR := by
  intro h
  have hlaw := (compares_iff_flags _ _ _ _ _).mp (h ⟨0, fun _ => 0, ⟨#[], false⟩⟩ 0 0 0 true)
  have hcarry := (compareLaw_iff.mp hlaw).2.2.1.mpr le_rfl
  have hlt := lt_of_getCarryFlagSub rfl hcarry
  exact lt_irrefl _ hlt

end ArmSimulator.Conditions
