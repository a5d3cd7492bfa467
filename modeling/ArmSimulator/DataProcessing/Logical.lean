import ArmSimulator.DataProcessing.Effect

/-! # Logical instructions

`executeInst` computes the logical instructions with `&&`, `||` and `!`, which
see of an operand only whether it is zero. The result is 0 or 1, and is the
bitwise one where that happens to be the same number.
-/

namespace ArmSimulator.DataProcessing

open Machine RegisterFile

inductive Logical where
  | and | eor | tst | teq | orr | bic
  deriving DecidableEq, Repr

namespace Logical

def opcode : Logical → Nat
  | and => 0b0000
  | eor => 0b0001
  | tst => 0b1000
  | teq => 0b1001
  | orr => 0b1100
  | bic => 0b1110

/-- What the instruction is for. -/
def bitwise : Logical → Word → Word → Word
  | and, a, b | tst, a, b => a &&& b
  | eor, a, b | teq, a, b => a ^^^ b
  | orr, a, b => a ||| b
  | bic, a, b => a &&& ~~~b

/-- What the source makes of its operands. -/
def truth : Logical → Word → Word → Bool
  | and, a, b | tst, a, b => a ≠ 0 ∧ b ≠ 0
  | eor, a, b | teq, a, b => (a ≠ 0 ∨ b ≠ 0) ∧ ¬ (a ≠ 0 ∧ b ≠ 0)
  | orr, a, b => a ≠ 0 ∨ b ≠ 0
  | bic, a, b => a ≠ 0 ∧ ~~~b ≠ 0

/-- The instruction leaves the bitwise result in its register, unless it is a test, and
in the flags if it sets them; V stays. -/
structure Leaves (i : Logical) (p : ArmCore) (rd : Fin 16) (a b : Word) (updateCPSR : Bool)
    (p' : ArmCore) : Prop where
  cells : ∀ l, l ≠ Position.cpsr → p'.reg l =
    if ¬ IsTest i.opcode ∧ l = bankPosition (getMode p.reg) rd then i.bitwise a b else p.reg l
  negative : updateCPSR → rd ≠ 15 → ((armReadCpsr p').getLsbD 31 = (i.bitwise a b).msb)
  zero : updateCPSR → rd ≠ 15 → ((armReadCpsr p').getLsbD 30 ↔ i.bitwise a b = 0)
  overflow : updateCPSR → rd ≠ 15 → (armReadCpsr p').getLsbD 28 = (armReadCpsr p).getLsbD 28

def IsBitwise (i : Logical) (p : ArmCore) (rd : Fin 16) (a b : Word) (updateCPSR : Bool) : Prop :=
  ∃ p', executeInst i.opcode p rd a b updateCPSR = .ok (0, p') ∧ i.Leaves p rd a b updateCPSR p'

/-- The operands for which a truth value is the bitwise result, or gives its flags. -/
def Agrees : Logical → Word → Word → Prop
  | and, a, b => a = 0 ∨ b = 0 ∨ a &&& b = 1
  | eor, a, b => a = b ∨ a = 0 ∧ b = 1 ∨ a = 1 ∧ b = 0
  | orr, a, b => (a = 0 ∨ a = 1) ∧ (b = 0 ∨ b = 1)
  | bic, a, b => a = 0 ∨ ~~~b = 0 ∨ a &&& ~~~b = 1
  | tst, a, b => a = 0 ∨ b = 0 ∨ a &&& b ≠ 0 ∧ ¬ (a &&& b).msb
  | teq, a, b => a = b ∨ a = 0 ∧ ¬ b.msb ∨ b = 0 ∧ ¬ a.msb

variable (i : Logical) (a b : Word)

theorem boolInt_eq_iff (c : Prop) [Decidable c] (x : Word) :
    boolInt c = x ↔ if c then x = 1 else x = 0 := by
  by_cases h : c
  · rw [if_pos h, boolInt, decide_eq_true h]
    exact eq_comm
  · rw [if_neg h, boolInt, decide_eq_false h]
    exact eq_comm

theorem or_eq_one {a b : Word} (h : a ||| b = 1) : (a = 0 ∨ a = 1) ∧ (b = 0 ∨ b = 1) := by
  have hnat : a.toNat ||| b.toNat = 1 := congrArg BitVec.toNat h
  have ha : a.toNat ≤ 1 := hnat ▸ Nat.left_le_or
  have hb : b.toNat ≤ 1 := hnat ▸ Nat.right_le_or
  have hsmall (x : Word) (hx : x.toNat ≤ 1) : x = 0 ∨ x = 1 := by
    bv_omega
  exact ⟨hsmall a ha, hsmall b hb⟩

theorem agrees_iff_result (h : ¬ IsTest i.opcode) :
    i.Agrees a b ↔ boolInt (i.truth a b) = i.bitwise a b := by
  cases i
  case tst => exact absurd (by decide) h
  case teq => exact absurd (by decide) h
  case and =>
    simp only [Agrees, truth, bitwise, boolInt_eq_iff]
    by_cases ha : a = 0#32 <;> by_cases hb : b = 0#32 <;> simp [ha, hb]
  case bic =>
    simp only [Agrees, truth, bitwise, boolInt_eq_iff]
    by_cases ha : a = 0#32 <;> by_cases hb : ~~~b = 0#32 <;> simp [ha, hb]
  case eor =>
    simp only [Agrees, truth, bitwise, boolInt_eq_iff]
    by_cases ha : a = 0#32 <;> by_cases hb : b = 0#32 <;> simp [ha, hb, BitVec.xor_eq_zero_iff]
    exact fun h => absurd h.symm hb
  case orr =>
    simp only [Agrees, truth, bitwise, boolInt_eq_iff]
    by_cases ha : a = 0#32 <;> by_cases hb : b = 0#32 <;> simp [ha, hb]
    exact ⟨by rintro ⟨rfl, rfl⟩; rfl, fun h =>
      ⟨(or_eq_one h).1.resolve_left ha, (or_eq_one h).2.resolve_left hb⟩⟩

theorem agrees_iff_flags (h : IsTest i.opcode) : i.Agrees a b ↔
    (boolInt (i.truth a b)).msb = (i.bitwise a b).msb ∧
      (boolInt (i.truth a b) = 0 ↔ i.bitwise a b = 0) := by
  have hmsb (c : Bool) : (boolInt c).msb = false := by cases c <;> rfl
  have hzero (c : Bool) : boolInt c = 0 ↔ c = false := by cases c <;> decide
  rw [hmsb, hzero]
  cases i
  case and => exact absurd h (by decide)
  case eor => exact absurd h (by decide)
  case orr => exact absurd h (by decide)
  case bic => exact absurd h (by decide)
  case tst =>
    simp only [Agrees, truth, bitwise]
    by_cases ha : a = 0#32 <;> by_cases hb : b = 0#32 <;> simp [ha, hb, and_comm]
  case teq =>
    simp only [Agrees, truth, bitwise]
    by_cases ha : a = 0#32 <;> by_cases hb : b = 0#32 <;> simp [ha, hb, BitVec.xor_eq_zero_iff]
    · exact fun h => h ▸ rfl
    · exact fun h => congrArg BitVec.msb h

def result (cpsr : Word) : AluResult :=
  ⟨boolInt (i.truth a b), getBit cpsr 29 ≠ 0, getBit cpsr 28 ≠ 0, decide (IsTest i.opcode)⟩

theorem aluOf_opcode (cpsr : Word) : aluOf i.opcode cpsr a b = some (i.result a b cpsr) := by
  cases i <;> rfl

variable {i a b} {p p' : ArmCore} {rd : Fin 16} {updateCPSR : Bool}

theorem leaves_iff (h : Effect i.opcode p rd updateCPSR (i.result a b (armReadCpsr p)) p') :
    i.Leaves p rd a b updateCPSR p' ↔
      (¬ IsTest i.opcode → boolInt (i.truth a b) = i.bitwise a b) ∧
      (updateCPSR → rd ≠ 15 → (boolInt (i.truth a b)).msb = (i.bitwise a b).msb ∧
        (boolInt (i.truth a b) = 0 ↔ i.bitwise a b = 0)) := by
  have hcpsr (hs : updateCPSR) (hrd : rd ≠ 15) := h.status (Or.inl hs) (Or.inl hrd)
  have hmsb (hs : updateCPSR) (hrd : rd ≠ 15) :
      (armReadCpsr p').getLsbD 31 = (boolInt (i.truth a b)).msb := by
    rw [hcpsr hs hrd, getLsbD_flagsCpsr, BitVec.msb_eq_getLsbD_last]
    rfl
  have hzero (hs : updateCPSR) (hrd : rd ≠ 15) :
      (armReadCpsr p').getLsbD 30 ↔ boolInt (i.truth a b) = 0 := by
    rw [hcpsr hs hrd, getLsbD_flagsCpsr]
    exact decide_eq_true_iff
  constructor
  · intro hl
    refine ⟨fun htest => ?_, fun hs hrd => ⟨?_, ?_⟩⟩
    · have hne := bankPosition_ne_cpsr (getMode_lt p.reg) (Nat.le_of_lt_succ rd.isLt)
      have hcell := h.cells _ hne
      rwa [hl.cells _ hne, if_pos ⟨htest, rfl⟩, if_pos ⟨htest, rfl⟩, eq_comm] at hcell
    · rw [← hmsb hs hrd, hl.negative hs hrd]
    · rw [← hzero hs hrd, hl.zero hs hrd]
  · rintro ⟨hres, hflags⟩
    refine ⟨fun l hl => ?_, fun hs hrd => ?_, fun hs hrd => ?_, fun hs hrd => ?_⟩
    · rw [h.cells l hl]
      split_ifs with hwrite
      · exact hres hwrite.1
      · rfl
    · rw [hmsb hs hrd, (hflags hs hrd).1]
    · rw [hzero hs hrd, (hflags hs hrd).2]
    · rw [hcpsr hs hrd, getLsbD_flagsCpsr, if_pos rfl]
      change decide (getBit (armReadCpsr p) 28 ≠ 0) = _
      simp only [getBit_ne_zero, Bool.decide_eq_true]

theorem exists_leaves_iff (i : Logical) (p : ArmCore) (rd : Fin 16) (a b : Word)
    (updateCPSR : Bool) (hmode : IsTest i.opcode ∨ 16 ≤ getMode p.reg) : ∃ p',
    (i.IsBitwise p rd a b updateCPSR ↔ i.Leaves p rd a b updateCPSR p') ∧
      Effect i.opcode p rd updateCPSR (i.result a b (armReadCpsr p)) p' := by
  obtain ⟨p', hrun, heffect⟩ :=
    exists_effect hmode (i.aluOf_opcode a b (armReadCpsr p)) rd updateCPSR
  refine ⟨p', ?_, heffect⟩
  rw [IsBitwise, hrun]
  simp

theorem IsBitwise.mode (h : i.IsBitwise p rd a b updateCPSR) (htest : ¬ IsTest i.opcode) :
    16 ≤ getMode p.reg := by
  obtain ⟨p', hrun, -⟩ := h
  by_contra hlt
  exact not_executeInst_ok htest (by omega) (i.aluOf_opcode a b _) rd updateCPSR _ hrun

theorem IsBitwise.result_eq (h : i.IsBitwise p rd a b updateCPSR) (htest : ¬ IsTest i.opcode) :
    boolInt (i.truth a b) = i.bitwise a b := by
  obtain ⟨p', hiff, heffect⟩ := exists_leaves_iff i p rd a b updateCPSR (Or.inr (h.mode htest))
  exact ((leaves_iff heffect).mp (hiff.mp h)).1 htest

end Logical

/-- A logical instruction is bitwise exactly for operands whose truth value is the bitwise
result; a test only has to give its flags, and only a result register needs a mode. -/
theorem isBitwise_iff (i : Logical) (p : ArmCore) (rd : Fin 16) (a b : Word) (updateCPSR : Bool) :
    i.IsBitwise p rd a b updateCPSR ↔
      if IsTest i.opcode then updateCPSR → rd ≠ 15 → i.Agrees a b
      else 16 ≤ getMode p.reg ∧ i.Agrees a b := by
  split_ifs with htest
  · obtain ⟨p', hiff, heffect⟩ := i.exists_leaves_iff p rd a b updateCPSR (Or.inl htest)
    rw [hiff, Logical.leaves_iff heffect, i.agrees_iff_flags a b htest]
    exact and_iff_right (fun hno => absurd htest hno)
  · rw [i.agrees_iff_result a b htest]
    constructor
    · intro h
      exact ⟨h.mode htest, h.result_eq htest⟩
    · rintro ⟨hmode, hres⟩
      obtain ⟨p', hiff, heffect⟩ := i.exists_leaves_iff p rd a b updateCPSR (Or.inr hmode)
      refine hiff.mpr ((Logical.leaves_iff heffect).mpr ⟨fun _ => hres, fun _ _ => ?_⟩)
      rw [hres]
      exact ⟨rfl, Iff.rfl⟩

/-- `and` of 2 and 2 writes 1. -/
theorem and_not_isBitwise : ¬ ∀ (i : Logical) (p : ArmCore) (rd : Fin 16) (a b : Word)
    (updateCPSR : Bool), i.IsBitwise p rd a b updateCPSR := by
  intro h
  have hres := (h .and idle.core 1 2 2 false).result_eq (by decide)
  exact absurd hres (by decide)

end ArmSimulator.DataProcessing
