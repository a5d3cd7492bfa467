import ArmSimulator.DataProcessing.Operands
import ArmSimulator.Shifting.Specification

/-! # The second operand of a data-processing instruction

`getShifterOperand` makes no shift unless the amount is positive as a signed
int, so the amount 0 of a field stands for no shift at all. A right shift of a
signed int is never logical, a register amount keeps all its 32 bits for LSL and
LSR, and the loop that selects the shift stops before ROR by a register.
-/

namespace ArmSimulator.Shifting

open Machine RegisterFile Transfers DataProcessing Foundation.ExceptRun

/-- The register of a shift amount. -/
def rs (ins : Word) : Fin 16 := ⟨(getBits ins 11 8).toNat, toNat_getBits_lt ins (by omega)⟩

/-- The second operand the architecture defines. Register amounts are taken modulo 256. -/
def specifiedOperand (p : ArmCore) (ins : Word) : Word :=
  if getBit ins 4 = 0 then
    immediateShift (shiftOf ins) ((armReadCpsr p).getLsbD 29) (registerValue p (rm ins))
      (getBits ins 11 7).toNat
  else places (shiftOf ins) (registerValue p (rm ins)) ((registerValue p (rs ins)).toNat % 256)

/-- None of the registers of the operand is the program counter. -/
structure AvoidsPc (ins : Word) : Prop where
  rn : rn ins ≠ 15
  rm : rm ins ≠ 15
  rs : getBit ins 4 ≠ 0 → rs ins ≠ 15

/-- The words that the shift by an amount field gets right. -/
def ExactImmediate (shift : Shift) (c : Bool) (x : Word) (k : Nat) : Prop :=
  match shift with
  | .lsl => True
  | .lsr => if k = 0 then x = 0 else ¬ x.msb
  | .asr => k = 0 → x = 0 ∨ x = ~~~0
  | .ror => k = 0 → x = if c then ~~~0 else 0

variable [Host]

/-- The words `x` and amounts `r` that the shift by a register gets right; where the count is
outside `0..31` this depends on the machine's shifts. -/
def ExactRegister (shift : Shift) (x r : Word) : Prop :=
  let k := r.toNat % 256
  if r.toInt ≤ 0 then places shift x k = x
  else
    match shift with
    | .lsl => 32 ≤ r.toInt → Host.shl x r.toInt = x <<< k
    | .lsr => if r.toInt < 32 then ¬ x.msb else Host.sar x r.toInt = x >>> k
    | .asr => (k = 0 → ¬ x.msb ∨ x = ~~~0 ∨ Host.shl (~~~0) 32 = 0) ∧ (32 ≤ k →
        Host.shr x k ||| (if x.msb then cShl (~~~0) (32 - k) else 0) = x.sshiftRight k)
    | .ror => places .ror x k = x

def Exact (p : ArmCore) (ins : Word) : Prop :=
  if getBit ins 4 = 0 then
    ExactImmediate (shiftOf ins) ((armReadCpsr p).getLsbD 29) (registerValue p (rm ins))
      (getBits ins 11 7).toNat
  else ExactRegister (shiftOf ins) (registerValue p (rm ins)) (registerValue p (rs ins))

/-! ## The selection of the shift -/

theorem shiftOperand_eq (p : ArmCore) (ins so : Word) : shiftOperand p ins so =
    if getBit ins 4 = 0 then .ok (getShifterOperandImmediate ins so (shiftOf ins))
    else if shiftOf ins = .ror then .ok so
    else getShifterOperandRegister p ins so (shiftOf ins) := by
  have hbit : (getBit ins 4).toNat = ins.toNat / 16 % 2 := by
    rw [getBit, BitVec.toNat_and, BitVec.toNat_ushiftRight, Nat.shiftRight_eq_div_pow]
    exact Nat.and_one_is_mod _
  have hindex : (getBits ins 6 4).toNat = 2 * (getBits ins 6 5).toNat + (getBit ins 4).toNat := by
    rw [hbit, toNat_getBits ins (by omega), toNat_getBits ins (by omega)]
    omega
  have hshift : (getBits ins 6 5).toNat < 4 := toNat_getBits_lt ins (h := 6) (l := 5) (by omega)
  have hcases : (getBits ins 6 5).toNat = 0 ∨ (getBits ins 6 5).toNat = 1 ∨
      (getBits ins 6 5).toNat = 2 ∨ (getBits ins 6 5).toNat = 3 := by omega
  by_cases hb : getBit ins 4 = 0
  · rcases hcases with hs | hs | hs | hs <;> simp [shiftOperand, shiftOf, hindex, hs, hb]
  · have hone : (getBit ins 4).toNat = 1 := by
      have hne : (getBit ins 4).toNat ≠ 0 := fun hzero => hb (BitVec.eq_of_toNat_eq hzero)
      omega
    rw [if_neg hb]
    rcases hcases with hs | hs | hs | hs <;> simp [shiftOperand, shiftOf, hindex, hs, hone]

theorem getShifterOperandImmediate_iff (ins x : Word) (shift : Shift) (c : Bool) :
    getShifterOperandImmediate ins x shift = immediateShift shift c x (getBits ins 11 7).toNat ↔
      ExactImmediate shift c x (getBits ins 11 7).toNat := by
  have hlt : (getBits ins 11 7).toNat < 32 := toNat_getBits_lt ins (h := 11) (l := 7) (by omega)
  rw [getShifterOperandImmediate]
  generalize getBits ins 11 7 = si at hlt
  have hint : si.toInt = si.toNat := BitVec.toInt_eq_toNat_of_lt (by omega)
  have hbyte : (si.setWidth 8).toNat = si.toNat := by
    rw [BitVec.toNat_setWidth, Nat.mod_eq_of_lt (by omega)]
  unfold getShifterOperand immediateShift
  rw [hint]
  by_cases hk : si.toNat = 0
  · rw [if_neg (by omega), if_pos hk]
    cases shift with
    | lsl => exact iff_of_true rfl trivial
    | lsr => simp only [ExactImmediate, if_pos hk, places, ushiftRight_width]
    | asr => simp only [ExactImmediate, forall_prop_of_true hk, places, sshiftRight_width_eq_iff]
    | ror => simp only [ExactImmediate, forall_prop_of_true hk, eq_comm (a := x), rrx_eq_iff]
  · have hpos : 0 < si.toNat := Nat.pos_of_ne_zero hk
    rw [if_pos (by omega), if_neg hk]
    cases shift with
    | lsl => exact iff_of_true (cShl_eq x hlt) trivial
    | lsr => simp only [ExactImmediate, if_neg hk, places, cSar_eq x hlt, sshiftRight_eq_iff x hk]
    | asr =>
      have hasr := asr_eq x (b := si.setWidth 8) (by omega) (by omega)
      exact iff_of_true (hbyte ▸ hasr) fun h => absurd h hk
    | ror =>
      have hror := ror_eq x (b := si.setWidth 8) (by omega) (by omega)
      exact iff_of_true (hbyte ▸ hror) fun h => absurd h hk

theorem asr_iff (x : Word) (b : Byte) : asr x b = x.sshiftRight b.toNat ↔
    (b.toNat = 0 → ¬ x.msb ∨ x = ~~~0 ∨ Host.shl (~~~0) 32 = 0) ∧ (32 ≤ b.toNat →
      Host.shr x b.toNat ||| (if x.msb then cShl (~~~0) (32 - b.toNat) else 0) =
        x.sshiftRight b.toNat) := by
  rcases Nat.eq_zero_or_pos b.toNat with hb | hb
  · have hwidth : cShl (~~~0) 32 = Host.shl (~~~0) 32 := cShl_out _ le_rfl
    have hcases := Host.shl_width (~~~0)
    have hzero : cShr x 0 = x := cShr_zero x
    have hbyte : ((32 : Int) - (0 : Nat)) = 32 := rfl
    rw [asr_msb, hb, forall_prop_of_true rfl, BitVec.sshiftRight_zero, hbyte, hwidth]
    change cShr x 0 ||| _ = x ↔ _
    rw [hzero, and_iff_left (fun h => absurd h (by omega))]
    cases x.msb with
    | false => simp
    | true =>
      rcases hcases with h | h
      · have hor : x ||| ~~~0 = ~~~0 := (congrArg _ BitVec.not_zero).trans BitVec.or_allOnes
        rw [h, if_pos rfl, hor, eq_comm]
        simp
      · rw [h]
        simp
  · rcases Nat.lt_or_ge b.toNat 32 with h32 | h32
    · refine iff_of_true (asr_eq x hb h32) ⟨fun h => absurd h (by omega), fun h => ?_⟩
      exact absurd h (by omega)
    · rw [asr_msb, cShr_out x (by omega), forall_prop_of_true h32,
        and_iff_right (fun h => absurd h (by omega))]

theorem getShifterOperand_iff (x r : Word) {shift : Shift} (hror : shift ≠ .ror) :
    getShifterOperand x r shift = places shift x (r.toNat % 256) ↔ ExactRegister shift x r := by
  have hbyte : (r.setWidth 8).toNat = r.toNat % 256 := BitVec.toNat_setWidth 8 r
  unfold getShifterOperand ExactRegister
  by_cases hr : r.toInt ≤ 0
  · rw [if_neg (by omega), if_pos hr, eq_comm]
  have hlt := r.isLt
  obtain ⟨hint, hlt⟩ : r.toInt = r.toNat ∧ r.toNat < 2 ^ 31 := by
    rw [BitVec.toInt_eq_toNat_cond] at hr ⊢
    split at hr <;> omega
  rw [if_pos (by omega), if_neg hr, hint]
  cases shift with
  | ror => exact absurd rfl hror
  | lsl =>
    change cShl x r.toNat = x <<< (r.toNat % 256) ↔ _
    rcases Nat.lt_or_ge r.toNat 32 with h32 | h32
    · rw [cShl_eq x h32, Nat.mod_eq_of_lt (by omega)]
      exact iff_of_true rfl fun h => absurd h (by omega)
    · rw [cShl_out x (by omega), forall_prop_of_true (by omega)]
  | lsr =>
    change cSar x r.toNat = x >>> (r.toNat % 256) ↔ _
    rcases Nat.lt_or_ge r.toNat 32 with h32 | h32
    · rw [cSar_eq x h32, Nat.mod_eq_of_lt (by omega), if_pos (by omega),
        sshiftRight_eq_iff x (by omega)]
    · rw [cSar_out x (by omega), if_neg (by omega)]
  | asr =>
    change asr x (r.setWidth 8) = x.sshiftRight (r.toNat % 256) ↔ _
    rw [← hbyte]
    exact asr_iff x (r.setWidth 8)

/-! ## The operand -/

theorem shiftOperand_iff {p : ArmCore} (hmode : 16 ≤ getMode p.reg) (ins : Word) :
    shiftOperand p ins (registerValue p (rm ins)) = .ok (specifiedOperand p ins) ↔
      Exact p ins := by
  unfold specifiedOperand Exact
  rw [shiftOperand_eq]
  split_ifs with hbit hror
  · rw [Except.ok.injEq]
    exact getShifterOperandImmediate_iff ins _ _ _
  · rw [hror, Except.ok.injEq, ExactRegister, eq_comm]
    simp only [ite_self]
  · have hrs : armReadRegister p (getBits ins 11 8).toNat = .ok (registerValue p (rs ins)) :=
      armReadRegister_value hmode (rs ins)
    rw [getShifterOperandRegister, hrs, ok_bind, pure_eq_ok]
    exact getShifterOperand_iff _ _ hror

theorem exists_shiftOperands_iff {p : ArmCore} (hmode : 16 ≤ getMode p.reg) {ins : Word}
    (h : AvoidsPc ins) :
    (∃ valueRn, shiftOperands p ins = .ok (valueRn, specifiedOperand p ins)) ↔ Exact p ins := by
  rw [← shiftOperand_iff hmode, shiftOperands, shiftInputs_eq hmode, if_neg h.rm, if_neg h.rn,
    ok_bind]
  constructor
  · rintro ⟨valueRn, hrun⟩
    obtain ⟨operand, hoperand, hpair⟩ := bind_eq_ok.mp hrun
    rw [pure_eq_ok, Prod.mk.injEq] at hpair
    rw [hoperand, hpair.2]
  · intro hoperand
    refine ⟨registerValue p (rn ins), ?_⟩
    simp only [hoperand]
    rfl

/-- The operand of a word in the register form is the specified one exactly for the words and
amounts that its shift gets right. -/
theorem shiftOperands_iff (p : ArmCore) {ins : Word} (h : AvoidsPc ins) :
    (∃ valueRn, shiftOperands p ins = .ok (valueRn, specifiedOperand p ins)) ↔
      16 ≤ getMode p.reg ∧ Exact p ins := by
  by_cases hmode : 16 ≤ getMode p.reg
  · rw [and_iff_right hmode, exists_shiftOperands_iff hmode h]
  · refine iff_of_false ?_ fun h => hmode h.1
    rintro ⟨valueRn, hrun⟩
    obtain ⟨inputs, hinputs, -⟩ := bind_eq_ok.mp hrun
    obtain ⟨x, hx, -⟩ := bind_eq_ok.mp hinputs
    exact hmode (armReadRegister_mode (Nat.le_of_lt_succ (rm ins).isLt) hx)

omit [Host] in
/-- `mov r1, r2, lsl #1` -/
theorem shiftOperands_lsl : ∃ valueRn, @shiftOperands Host.x86 idle.core 0xE1A01082 =
    .ok (valueRn, specifiedOperand idle.core 0xE1A01082) :=
  (@shiftOperands_iff Host.x86 idle.core 0xE1A01082 ⟨by decide, by decide, by decide⟩).mpr
    ⟨idle.file.mode_ge, by
      have hshift : shiftOf 0xE1A01082 = .lsl := by decide
      unfold Exact
      rw [if_pos (by decide), hshift]
      trivial⟩

omit [Host] in
/-- `mov r1, r2, lsr #1` of 0x80000000 shifts the sign in. -/
theorem lsr_not_specified : ¬ ∀ (_ : Host) (p : ArmCore) (ins : Word), AvoidsPc ins →
    ∃ valueRn, shiftOperands p ins = .ok (valueRn, specifiedOperand p ins) := by
  intro h
  let q := idle.write 2 0x80000000
  have havoid : AvoidsPc 0xE1A010A2 := ⟨by decide, by decide, by decide⟩
  have hmode : 16 ≤ getMode q.core.reg := q.file.mode_ge
  have hexact := (@exists_shiftOperands_iff Host.x86 _ hmode _ havoid).mp (h Host.x86 _ _ havoid)
  have hshift : shiftOf 0xE1A010A2 = .lsr := by decide
  have hamount : (getBits 0xE1A010A2 11 7).toNat = 1 := by decide
  have hrm : rm 0xE1A010A2 = 2 := by decide
  have hvalue : registerValue q.core 2 = 0x80000000 := by
    rw [registerValue_core, Processor.register, Processor.write_cells]
    rfl
  unfold Exact at hexact
  rw [if_pos (by decide), hshift, hamount, hrm, hvalue] at hexact
  exact hexact (by decide)

end ArmSimulator.Shifting
