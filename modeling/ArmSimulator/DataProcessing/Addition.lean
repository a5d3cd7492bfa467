import ArmSimulator.DataProcessing.Effect

/-! # Addition

`getCarryFlag` stops below the sign, so C becomes the carry into bit 31 and not
the one out of it. ADC takes V for set when either of its two partial sums
overflows, although the second may bring the first back into range.
-/

namespace ArmSimulator.DataProcessing

open Machine RegisterFile Conditions

inductive Addition where
  | add | adc | cmn
  deriving DecidableEq, Repr

/-- The signed words. -/
def Fits (x : Int) : Prop := -2 ^ 31 ≤ x ∧ x < 2 ^ 31

instance (x : Int) : Decidable (Fits x) := inferInstanceAs (Decidable (_ ∧ _))

namespace Addition

def opcode : Addition → Nat
  | add => 0b0100
  | adc => 0b0101
  | cmn => 0b1011

def carryIn : Addition → Word → Bool
  | adc, cpsr => cpsr.getLsbD 29
  | _, _ => false

/-- The sum is in the register and the flags are those of it. -/
structure Leaves (i : Addition) (p : ArmCore) (rd : Fin 16) (a b : Word) (cin : Bool)
    (p' : ArmCore) : Prop where
  cells : ∀ l, l ≠ Position.cpsr → p'.reg l =
    if i ≠ cmn ∧ l = bankPosition (getMode p.reg) rd
    then BitVec.ofNat 32 (a.toNat + b.toNat + cin.toNat) else p.reg l
  carry : (armReadCpsr p').getLsbD 29 ↔ 2 ^ 32 ≤ a.toNat + b.toNat + cin.toNat
  overflow : (armReadCpsr p').getLsbD 28 ↔ ¬ Fits (a.toInt + b.toInt + cin.toNat)
  negative : (armReadCpsr p').getLsbD 31 = (BitVec.ofNat 32 (a.toNat + b.toNat + cin.toNat)).msb
  zero : (armReadCpsr p').getLsbD 30 ↔ BitVec.ofNat 32 (a.toNat + b.toNat + cin.toNat) = 0

def IsAddition (i : Addition) (p : ArmCore) (rd : Fin 16) (a b : Word) : Prop :=
  ∃ p', executeInst i.opcode p rd a b true = .ok (0, p') ∧
    i.Leaves p rd a b (i.carryIn (armReadCpsr p)) p'

end Addition

/-! ## The flags of the source -/

section Flags

variable (a b : Word) (c : Bool)

/-- One round of the loop is one full adder. -/
theorem carryFlagStep_plus (i : Nat) : carryFlagStep a b .plus c i =
    Bool.atLeastTwo (a.getLsbD i) (b.getLsbD i) c := by
  rw [carryFlagStep, getBit_eq, getBit_eq]
  cases a.getLsbD i <;> cases b.getLsbD i <;> cases c <;> rfl

theorem foldl_carryFlagStep (n : Nat) : (List.range n).foldl (carryFlagStep a b .plus) false =
    BitVec.carry n a b false := by
  induction n with
  | zero => exact BitVec.carry_zero.symm
  | succ n ih =>
    rw [List.range_succ, List.foldl_concat, ih, carryFlagStep_plus, BitVec.carry_succ]

theorem getCarryFlagAdd_eq : getCarryFlagAdd a b = BitVec.carry 31 a b false :=
  foldl_carryFlagStep a b 31

theorem getOverflowFlagAdd_eq : getOverflowFlagAdd (a + b) a b = BitVec.saddOverflow a b := by
  rw [BitVec.saddOverflow_eq]
  simp only [getOverflowFlagAdd, getOverflowFlag, ne_eq, getBit_sign_eq_iff]
  cases a.msb <;> cases b.msb <;> cases (a + b).msb <;> rfl

theorem saddOverflow_iff : BitVec.saddOverflow a b ↔ ¬ Fits (a.toInt + b.toInt) := by
  rw [BitVec.saddOverflow, Fits, Bool.or_eq_true, decide_eq_true_iff, decide_eq_true_iff]
  omega

theorem add_boolInt : b + a + boolInt c = BitVec.ofNat 32 (a.toNat + b.toNat + c.toNat) := by
  have hc : boolInt c = BitVec.ofNat 32 c.toNat := by cases c <;> rfl
  rw [hc, BitVec.add_comm b a, BitVec.ofNat_add, BitVec.ofNat_add, BitVec.ofNat_toNat,
    BitVec.ofNat_toNat, BitVec.setWidth_eq, BitVec.setWidth_eq]

theorem getCarryFlagAdd_again : (if !getCarryFlagAdd b a && c then getCarryFlagAdd (b + a) 1
    else getCarryFlagAdd b a) = BitVec.carry 31 a b c := by
  simp only [getCarryFlagAdd_eq, BitVec.carry, BitVec.toNat_add]
  cases c with
  | false => simp [Nat.add_comm]
  | true =>
    have hone : (1 : Word).toNat = 1 := rfl
    simp only [hone, Bool.and_true, Bool.not_eq_true', decide_eq_false_iff_not, Bool.toNat_false,
      Bool.toNat_true]
    split <;> rw [decide_eq_decide] <;> omega

theorem getOverflowFlagAdd_again : (if !getOverflowFlagAdd (b + a) b a && c
    then getOverflowFlagAdd (b + a + boolInt c) (a + b) 1 else getOverflowFlagAdd (b + a) b a) =
    decide (¬ (Fits (a.toInt + b.toInt) ∧ Fits (a.toInt + b.toInt + c.toNat))) := by
  rw [getOverflowFlagAdd_eq, BitVec.add_comm b a]
  by_cases hfirst : Fits (a.toInt + b.toInt)
  · have hnot : BitVec.saddOverflow b a = false := by
      rw [← Bool.not_eq_true, saddOverflow_iff, not_not, Int.add_comm]
      exact hfirst
    have hsum : (a + b).toInt = a.toInt + b.toInt := by
      rw [BitVec.add_comm, BitVec.toInt_add_of_not_saddOverflow (by rw [hnot]; decide),
        Int.add_comm]
    rw [hnot, Bool.eq_iff_iff, decide_eq_true_iff, and_iff_right hfirst]
    cases c with
    | false => simp [hfirst]
    | true =>
      change getOverflowFlagAdd (a + b + 1) (a + b) 1 ↔ _
      rw [getOverflowFlagAdd_eq, saddOverflow_iff, hsum]
      rfl
  · have hover : BitVec.saddOverflow b a :=
      (saddOverflow_iff b a).mpr (by rwa [Int.add_comm])
    simp [hover, hfirst]

/-- The carry into the sign is the one out of it when the signed sum fits. -/
theorem carry_iff : (BitVec.carry 31 a b c ↔ 2 ^ 32 ≤ a.toNat + b.toNat + c.toNat) ↔
    Fits (a.toInt + b.toInt + c.toNat) := by
  have ha := a.isLt
  have hb := b.isLt
  have hc : c.toNat ≤ 1 := c.toNat_le
  rw [BitVec.carry, decide_eq_true_iff, Fits, BitVec.toInt_eq_toNat_cond,
    BitVec.toInt_eq_toNat_cond]
  split <;> split <;> omega

end Flags

namespace Addition

/-- What `executeInst` assigns. -/
def result (i : Addition) (a b cpsr : Word) : AluResult where
  res := BitVec.ofNat 32 (a.toNat + b.toNat + (i.carryIn cpsr).toNat)
  cFlag := BitVec.carry 31 a b (i.carryIn cpsr)
  vFlag := ¬ (Fits (a.toInt + b.toInt) ∧ Fits (a.toInt + b.toInt + (i.carryIn cpsr).toNat))
  test := i = cmn

variable {i : Addition} {p p' : ArmCore} {rd : Fin 16} {a b : Word}

theorem aluOf_opcode (i : Addition) (a b cpsr : Word) :
    aluOf i.opcode cpsr a b = some (i.result a b cpsr) := by
  have hflag : decide (getBit cpsr 29 ≠ 0) = cpsr.getLsbD 29 := by
    simp only [getBit_ne_zero, Bool.decide_eq_true]
  have hres : b + a = BitVec.ofNat 32 (a.toNat + b.toNat + false.toNat) := by
    rw [← add_boolInt]
    exact (BitVec.add_zero _).symm
  have hcarry := getCarryFlagAdd_again a b false
  have hoverflow := getOverflowFlagAdd_again a b false
  simp only [Bool.and_false, Bool.false_eq_true, if_false] at hcarry hoverflow
  cases i
  case add => exact congrArg some ((AluResult.mk.injEq ..).mpr ⟨hres, hcarry, hoverflow, rfl⟩)
  case cmn =>
    have hcomm : getOverflowFlagAdd (a + b) a b = getOverflowFlagAdd (b + a) b a := by
      rw [getOverflowFlagAdd_eq, getOverflowFlagAdd_eq, BitVec.saddOverflow, Int.add_comm]
      rfl
    exact congrArg some ((AluResult.mk.injEq ..).mpr
      ⟨(BitVec.add_comm a b).trans hres, hcarry, hcomm.trans hoverflow, rfl⟩)
  case adc =>
    change aluSwitch 0b0101 (decide (getBit cpsr 29 ≠ 0)) _ a b = _
    rw [hflag]
    exact congrArg some ((AluResult.mk.injEq ..).mpr
      ⟨add_boolInt a b _, getCarryFlagAdd_again a b _, getOverflowFlagAdd_again a b _, rfl⟩)

theorem leaves_iff (hrd : rd ≠ 15)
    (h : Effect i.opcode p rd true (i.result a b (armReadCpsr p)) p') :
    i.Leaves p rd a b (i.carryIn (armReadCpsr p)) p' ↔
      Fits (a.toInt + b.toInt) ∧
        Fits (a.toInt + b.toInt + (i.carryIn (armReadCpsr p)).toNat) := by
  have hcpsr := h.status (Or.inl rfl) (Or.inl hrd)
  have htest : ¬ IsTest i.opcode ↔ i ≠ cmn := by cases i <;> decide
  have hcarry : (armReadCpsr p').getLsbD 29 = BitVec.carry 31 a b (i.carryIn (armReadCpsr p)) := by
    rw [hcpsr, getLsbD_flagsCpsr]
    rfl
  have hoverflow : (armReadCpsr p').getLsbD 28 = (i.result a b (armReadCpsr p)).vFlag := by
    rw [hcpsr, getLsbD_flagsCpsr]
    rfl
  constructor
  · intro hl
    have hfits := (carry_iff a b (i.carryIn (armReadCpsr p))).mp (hcarry ▸ hl.carry)
    refine ⟨?_, hfits⟩
    by_contra hfirst
    refine hl.overflow.mp ?_ hfits
    rw [hoverflow]
    exact decide_eq_true fun h => hfirst h.1
  · rintro ⟨hfirst, hfits⟩
    refine ⟨fun l hl => ?_, ?_, ?_, ?_, ?_⟩
    · rw [h.cells l hl]
      simp only [htest]
      rfl
    · rw [hcarry]
      exact (carry_iff a b _).mpr hfits
    · rw [hoverflow]
      exact iff_of_false (by simp [result, hfirst, hfits]) (not_not.mpr hfits)
    · rw [hcpsr, getLsbD_flagsCpsr, BitVec.msb_eq_getLsbD_last]
      rfl
    · rw [hcpsr, getLsbD_flagsCpsr]
      exact decide_eq_true_iff

theorem isAddition_iff_of_mode (hrd : rd ≠ 15) (hmode : i = cmn ∨ 16 ≤ getMode p.reg) :
    i.IsAddition p rd a b ↔ Fits (a.toInt + b.toInt) ∧
      Fits (a.toInt + b.toInt + (i.carryIn (armReadCpsr p)).toNat) := by
  have htest : IsTest i.opcode ↔ i = cmn := by cases i <;> decide
  obtain ⟨p', hrun, heffect⟩ :=
    exists_effect (hmode.imp_left htest.mpr) (i.aluOf_opcode a b (armReadCpsr p)) rd true
  rw [← leaves_iff hrd heffect, IsAddition, hrun]
  simp

theorem IsAddition.mode (h : i.IsAddition p rd a b) : i = cmn ∨ 16 ≤ getMode p.reg := by
  have htest : IsTest i.opcode ↔ i = cmn := by cases i <;> decide
  obtain ⟨p', hrun, -⟩ := h
  by_contra hmode
  rw [not_or, ← htest, not_le] at hmode
  exact not_executeInst_ok hmode.1 hmode.2 (i.aluOf_opcode a b _) rd true _ hrun

end Addition

/-- Addition is right exactly when the operands' signed sum fits a word, without the carry
and with it. -/
theorem isAddition_iff (i : Addition) (p : ArmCore) (rd : Fin 16) (a b : Word) (hrd : rd ≠ 15) :
    i.IsAddition p rd a b ↔ (i = .cmn ∨ 16 ≤ getMode p.reg) ∧ Fits (a.toInt + b.toInt) ∧
      Fits (a.toInt + b.toInt + (i.carryIn (armReadCpsr p)).toNat) := by
  constructor
  · intro h
    exact ⟨h.mode, (Addition.isAddition_iff_of_mode hrd h.mode).mp h⟩
  · rintro ⟨hmode, hfits⟩
    exact (Addition.isAddition_iff_of_mode hrd hmode).mpr hfits

theorem isAddition_adc : Addition.adc.IsAddition idle.core 1 1 2 :=
  (isAddition_iff .adc idle.core 1 1 2 (by decide)).mpr ⟨Or.inr idle.file.mode_ge, by decide⟩

/-- `adds` of 0x7fffffff and 1 sets C. -/
theorem adds_not_isAddition : ¬ ∀ (i : Addition) (p : ArmCore) (rd : Fin 16) (a b : Word),
    rd ≠ 15 → i.IsAddition p rd a b := by
  intro h
  have hadds := h .add idle.core 1 0x7FFFFFFF 1 (by decide)
  have hfits := (Addition.isAddition_iff_of_mode (by decide) hadds.mode).mp hadds
  exact absurd hfits.1 (by decide)

end ArmSimulator.DataProcessing
