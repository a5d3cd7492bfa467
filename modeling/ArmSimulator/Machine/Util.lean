import ArmSimulator.Machine.Host

/-! # Bit macros and shifts of `util.h` and `util.c`

The macros are written with the shifts of `~0` they expand to; the lemmas give
each one bit by bit, which is the form the rest of the development uses.
-/

namespace ArmSimulator.Machine

/-- `((~0) >> n) << n` on a signed `~0` -/
def onesFrom (n : Nat) : Word := ((~~~0#32).sshiftRight n) <<< n

def getBit (x : Word) (i : Nat) : Word := (x >>> i) &&& 1

def setBit (x : Word) (i : Nat) : Word := x ||| (1#32 <<< i)

def clrBit (x : Word) (i : Nat) : Word := x &&& ~~~(1#32 <<< i)

/-- Whether `x` is shifted as signed makes no difference below bit 32. -/
def getBits (x : Word) (h l : Nat) : Word := (x >>> l) &&& ~~~onesFrom (h - l + 1)

def setBits (x : Word) (h l : Nat) (bits : Word) : Word :=
  (x &&& ~~~onesFrom l) ||| (x &&& onesFrom (h + 1)) ||| (bits <<< l)

def reverse2 (x : Half) : Half := ((x &&& 0xFF) <<< 8) ||| ((x >>> 8) &&& 0xFF)

def reverse4 (x : Word) : Word :=
  ((x &&& 0xFF) <<< 24) ||| (((x >>> 8) &&& 0xFF) <<< 16) |||
    (((x >>> 16) &&& 0xFF) <<< 8) ||| ((x >>> 24) &&& 0xFF)

def asr [Host] (value : Word) (shift : Byte) : Word :=
  cShr value shift.toNat ||| (if getBit value 31 ≠ 0 then cShl (~~~0#32) (32 - shift.toNat) else 0)

def ror [Host] (value : Word) (rotation : Byte) : Word :=
  cShr value rotation.toNat ||| cShl value (32 - rotation.toNat)

theorem getLsbD_onesFrom (n i : Nat) :
    (onesFrom n).getLsbD i = (decide (n ≤ i) && decide (i < 32)) := by
  have hone : (~~~0#32).sshiftRight n = ~~~0#32 := by
    rw [BitVec.not_zero]
    apply BitVec.eq_of_getLsbD_eq
    intro j hj
    rw [BitVec.getLsbD_sshiftRight, BitVec.getLsbD_allOnes, BitVec.getLsbD_allOnes,
      BitVec.msb_allOnes (by omega)]
    split <;> simp_all
  rw [onesFrom, hone, BitVec.getLsbD_shiftLeft, BitVec.getLsbD_not]
  by_cases hi : i < 32 <;> by_cases hn : i < n <;> simp [hi, hn]; omega

theorem getLsbD_one (i : Nat) : (1#32).getLsbD i = decide (i = 0) := by
  simp [BitVec.getLsbD_one]

theorem getLsbD_getBit (x : Word) (i j : Nat) :
    (getBit x i).getLsbD j = (decide (j = 0) && x.getLsbD i) := by
  by_cases hj : j = 0
  · subst j; simp [getBit]
  · simp [getBit, hj]

theorem getBit_eq (x : Word) (i : Nat) : getBit x i = if x.getLsbD i then 1 else 0 := by
  apply BitVec.eq_of_getLsbD_eq
  intro j _
  rw [getLsbD_getBit]
  by_cases hx : x.getLsbD i <;> by_cases hj : j = 0 <;> simp [hx, hj]

@[simp] theorem getBit_ne_zero (x : Word) (i : Nat) : getBit x i ≠ 0 ↔ x.getLsbD i = true := by
  rw [getBit_eq]
  by_cases hx : x.getLsbD i <;> simp [hx]

@[simp] theorem getBit_eq_zero (x : Word) (i : Nat) : getBit x i = 0 ↔ x.getLsbD i = false := by
  rw [getBit_eq]
  by_cases hx : x.getLsbD i <;> simp [hx]

@[simp] theorem getBit_eq_one (x : Word) (i : Nat) : getBit x i = 1 ↔ x.getLsbD i = true := by
  rw [getBit_eq]
  by_cases hx : x.getLsbD i <;> simp [hx]

theorem getLsbD_bit {i : Nat} (hi : i < 32) (j : Nat) :
    (1#32 <<< i).getLsbD j = decide (j = i) := by
  by_cases hj : j = i
  · subst j; simp [hi]
  · by_cases hlt : j < i
    · simp [hj, hlt]
    · have hsub : j - i ≠ 0 := by omega
      simp [hj, hlt, hsub]

theorem getLsbD_setBit (x : Word) {i : Nat} (hi : i < 32) (j : Nat) :
    (setBit x i).getLsbD j = (decide (j = i) || x.getLsbD j) := by
  rw [setBit, BitVec.getLsbD_or, getLsbD_bit hi, Bool.or_comm]

theorem getLsbD_clrBit (x : Word) {i : Nat} (hi : i < 32) (j : Nat) :
    (clrBit x i).getLsbD j = (!decide (j = i) && x.getLsbD j) := by
  rw [clrBit, BitVec.getLsbD_and, BitVec.getLsbD_not, getLsbD_bit hi, Bool.and_comm]
  by_cases hj : j < 32
  · simp [hj]
  · rw [BitVec.getLsbD_of_ge x j (by omega)]
    simp

theorem getLsbD_getBits (x : Word) (h l i : Nat) :
    (getBits x h l).getLsbD i = (decide (i ≤ h - l) && x.getLsbD (l + i)) := by
  rw [getBits, BitVec.getLsbD_and, BitVec.getLsbD_not, getLsbD_onesFrom,
    BitVec.getLsbD_ushiftRight, Bool.and_comm]
  by_cases hi : i < 32
  · by_cases hl : i ≤ h - l
    · simp only [hi, hl, show ¬ h - l + 1 ≤ i by omega, decide_true, decide_false,
        Bool.not_false, Bool.and_true]
    · simp only [hi, hl, show h - l + 1 ≤ i by omega, decide_true, decide_false,
        Bool.true_and, Bool.not_true, Bool.and_false, Bool.false_and]
  · rw [BitVec.getLsbD_of_ge x _ (by omega)]
    simp

theorem getBit_getBits (x : Word) {h l i : Nat} (hi : i ≤ h - l) :
    getBit (getBits x h l) i = getBit x (l + i) := by
  rw [getBit_eq, getBit_eq, getLsbD_getBits, decide_eq_true hi, Bool.true_and]

theorem getBits_getBits (x : Word) {h l h' l' : Nat} (hl : l' ≤ h') (hh : h' ≤ h - l) :
    getBits (getBits x h l) h' l' = getBits x (l + h') (l + l') := by
  apply BitVec.eq_of_getLsbD_eq
  intro i _
  rw [getLsbD_getBits, getLsbD_getBits, getLsbD_getBits, Nat.add_assoc,
    show l + h' - (l + l') = h' - l' by omega]
  by_cases hi : i ≤ h' - l'
  · rw [decide_eq_true hi, decide_eq_true (by omega), Bool.true_and, Bool.true_and]
  · rw [decide_eq_false hi, Bool.false_and, Bool.false_and]

theorem getBits_eq_extract (x : Word) (h l : Nat) :
    getBits x h l = (x.extractLsb' l (h - l + 1)).setWidth 32 := by
  apply BitVec.eq_of_getLsbD_eq
  intro i hi
  rw [getLsbD_getBits, BitVec.getLsbD_setWidth, BitVec.getLsbD_extractLsb']
  by_cases hl : i ≤ h - l
  · simp [hi, hl, Nat.lt_succ_of_le hl]
  · simp [hl, show ¬ i < h - l + 1 by omega]

theorem toNat_getBits (x : Word) {h l : Nat} (hh : h < 32) :
    (getBits x h l).toNat = x.toNat / 2 ^ l % 2 ^ (h - l + 1) := by
  have hle : 2 ^ (h - l + 1) ≤ 2 ^ 32 := Nat.pow_le_pow_right (by omega) (by omega)
  have hlt : x.toNat / 2 ^ l % 2 ^ (h - l + 1) < 2 ^ (h - l + 1) :=
    Nat.mod_lt _ (Nat.two_pow_pos _)
  rw [getBits_eq_extract, BitVec.toNat_setWidth, BitVec.extractLsb'_toNat,
    Nat.shiftRight_eq_div_pow, Nat.mod_eq_of_lt (by omega)]

theorem toNat_getBits_lt (x : Word) {h l : Nat} (hh : h < 32) :
    (getBits x h l).toNat < 2 ^ (h - l + 1) := by
  rw [toNat_getBits x hh]
  exact Nat.mod_lt _ (Nat.two_pow_pos _)

theorem getLsbD_setBits (x : Word) (h l : Nat) (bits : Word) (i : Nat) :
    (setBits x h l bits).getLsbD i =
      (decide (i < 32) && (((decide (i < l) || decide (h < i)) && x.getLsbD i) ||
        (decide (l ≤ i) && bits.getLsbD (i - l)))) := by
  simp only [setBits, BitVec.getLsbD_or, BitVec.getLsbD_and, BitVec.getLsbD_not,
    BitVec.getLsbD_shiftLeft, getLsbD_onesFrom, Nat.succ_le_iff]
  by_cases hi : i < 32
  · by_cases hl : l ≤ i <;> by_cases hh : h < i <;>
      simp [hi, hl, hh, Nat.lt_of_not_le, Nat.not_lt.mpr]
  · rw [BitVec.getLsbD_of_ge x i (by omega)]
    simp [hi]

theorem getBits_setBits (x : Word) {h l : Nat} (hl : l ≤ h) (hh : h < 32) {bits : Word}
    (hbits : bits.toNat < 2 ^ (h - l + 1)) : getBits (setBits x h l bits) h l = bits := by
  apply BitVec.eq_of_getLsbD_eq
  intro i hi
  rw [getLsbD_getBits, getLsbD_setBits]
  by_cases hle : i ≤ h - l
  · have h₁ : ¬ h < l + i := by omega
    simp [hle, h₁, show l + i < 32 by omega]
  · have hbit : bits.getLsbD i = false := Nat.testBit_lt_two_pow
      (Nat.lt_of_lt_of_le hbits (Nat.pow_le_pow_right (by omega) (by omega)))
    simp [hle, hbit]

end ArmSimulator.Machine
