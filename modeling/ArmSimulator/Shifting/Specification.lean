import ArmSimulator.Machine.DataProcessing

/-! # Shifts as the architecture defines them

Operands of data-processing instructions and offsets of loads and stores name
one of four shifts. In the amount field of an instruction 0 stands for 32, and
in a rotation for one place through the carry flag. The functions `asr` and
`ror` of the source agree with this below 32.
-/

namespace ArmSimulator.Shifting

open Machine

/-- The shift that bits 6..5 of an instruction name. -/
def shiftOf (ins : Word) : Shift :=
  match (getBits ins 6 5).toNat with
  | 0 => .lsl
  | 1 => .lsr
  | 2 => .asr
  | _ => .ror

/-- The shift by any number of places. -/
def places : Shift → Word → Nat → Word
  | .lsl, x, n => x <<< n
  | .lsr, x, n => x >>> n
  | .asr, x, n => x.sshiftRight n
  | .ror, x, n => x.rotateRight n

/-- One place to the right, the carry flag coming in at the top. -/
def rrx (c : Bool) (x : Word) : Word := (boolInt c <<< 31) ||| (x >>> 1)

/-- The shift by the amount field of an instruction, under a carry flag. -/
def immediateShift (shift : Shift) (c : Bool) (x : Word) (k : Nat) : Word :=
  if k = 0 then
    match shift with
    | .lsl => x
    | .lsr => places .lsr x 32
    | .asr => places .asr x 32
    | .ror => rrx c x
  else places shift x k

/-! ## Words a shift leaves alone -/

theorem getLsbD_fill (c : Bool) {i : Nat} (hi : i < 32) :
    (if c then ~~~0 else 0 : Word).getLsbD i = c := by
  cases c
  · exact BitVec.getLsbD_zero
  · have hall : ∀ i < 32, (~~~0 : Word).getLsbD i = true := by decide
    exact hall i hi

section Words

variable (x : Word) {n : Nat}

theorem sshiftRight_width : x.sshiftRight 32 = if x.msb then ~~~0 else 0 := by
  apply BitVec.eq_of_getLsbD_eq
  intro i hi
  rw [BitVec.getLsbD_sshiftRight, if_neg (by omega), decide_eq_false (by omega), Bool.not_false,
    Bool.true_and]
  exact (getLsbD_fill x.msb hi).symm

theorem ushiftRight_width : x >>> 32 = 0 := by
  apply BitVec.eq_of_getLsbD_eq
  intro i _
  rw [BitVec.getLsbD_ushiftRight, BitVec.getLsbD_of_ge x _ (by omega)]
  exact BitVec.getLsbD_zero.symm

theorem sshiftRight_eq_iff (hn : n ≠ 0) : x.sshiftRight n = x >>> n ↔ ¬ x.msb := by
  constructor
  · intro h hmsb
    have hsign : (x >>> n).msb = true := by rw [← h, BitVec.msb_sshiftRight, hmsb]
    rw [BitVec.msb_eq_getLsbD_last, BitVec.getLsbD_ushiftRight,
      BitVec.getLsbD_of_ge x _ (by omega)] at hsign
    simp at hsign
  · intro h
    exact BitVec.sshiftRight_eq_of_msb_false (Bool.eq_false_iff.mpr h)

theorem sshiftRight_width_eq_iff : x = x.sshiftRight 32 ↔ x = 0 ∨ x = ~~~0 := by
  rw [sshiftRight_width]
  constructor
  · intro h
    cases hmsb : x.msb
    · rw [hmsb] at h
      exact Or.inl h
    · rw [hmsb] at h
      exact Or.inr h
  · rintro (rfl | rfl) <;> rfl

theorem getLsbD_rrx (c : Bool) {i : Nat} (hi : i < 32) :
    (rrx c x).getLsbD i = if i = 31 then c else x.getLsbD (i + 1) := by
  have hc (j : Nat) : (boolInt c).getLsbD j = (decide (j = 0) && c) := by
    cases c
    · exact BitVec.getLsbD_zero.trans (Bool.and_false _).symm
    · exact (getLsbD_one j).trans (Bool.and_true _).symm
  rw [rrx, BitVec.getLsbD_or, BitVec.getLsbD_shiftLeft, BitVec.getLsbD_ushiftRight, hc,
    Nat.add_comm 1 i]
  by_cases h31 : i = 31
  · subst h31
    rw [BitVec.getLsbD_of_ge x _ (by omega)]
    simp
  · simp [h31, show i < 31 by omega]

theorem rrx_eq_iff (c : Bool) : rrx c x = x ↔ x = if c then ~~~0 else 0 := by
  constructor
  · intro h
    have hbit (i : Nat) (hi : i < 32) := h ▸ getLsbD_rrx x c hi
    have hall (k : Nat) : k < 32 → x.getLsbD (31 - k) = c := by
      induction k with
      | zero => exact fun _ => hbit 31 (by omega)
      | succ k ih =>
        intro hk
        rw [hbit _ (by omega), if_neg (by omega), ← ih (by omega)]
        congr 1
        omega
    apply BitVec.eq_of_getLsbD_eq
    intro i hi
    rw [getLsbD_fill c hi, ← hall (31 - i) (by omega)]
    congr 1
    omega
  · intro h
    apply BitVec.eq_of_getLsbD_eq
    intro i hi
    rw [getLsbD_rrx x c hi, h, getLsbD_fill c hi]
    split
    · rfl
    · exact getLsbD_fill c (by omega)

end Words

/-! ## The bits of a shifted word -/

/-- The bit that the shift by an amount field moves to bit `j`. -/
def movedTo (shift : Shift) (k j : Nat) : Option Nat :=
  match shift with
  | .lsl => if k ≤ j then some (j - k) else none
  | .lsr => if k ≠ 0 ∧ k + j < 32 then some (k + j) else none
  | .asr => if k ≠ 0 ∧ k + j < 32 then some (k + j) else some 31
  | .ror => if k ≠ 0 then some ((k + j) % 32) else if j = 31 then none else some (j + 1)

/-- A bit of the shifted word is a bit of the word or the same for all words. -/
theorem getLsbD_immediateShift (shift : Shift) (c : Bool) {k j : Nat} (hk : k < 32) (hj : j < 32) :
    ∃ fill, ∀ x, (immediateShift shift c x k).getLsbD j =
      (movedTo shift k j).elim fill x.getLsbD := by
  by_cases hzero : k = 0
  · subst hzero
    cases shift with
    | lsl => exact ⟨false, fun x => rfl⟩
    | lsr =>
      refine ⟨false, fun x => ?_⟩
      change (x >>> 32).getLsbD j = false
      rw [ushiftRight_width]
      exact BitVec.getLsbD_zero
    | asr =>
      refine ⟨false, fun x => ?_⟩
      change (x.sshiftRight 32).getLsbD j = x.getLsbD 31
      rw [sshiftRight_width, getLsbD_fill _ hj, BitVec.msb_eq_getLsbD_last]
    | ror =>
      refine ⟨c, fun x => ?_⟩
      change (rrx c x).getLsbD j = (if j = 31 then none else some (j + 1)).elim c x.getLsbD
      rw [getLsbD_rrx x c hj]
      split <;> rfl
  · refine ⟨false, fun x => ?_⟩
    have hplaces : immediateShift shift c x k = places shift x k := if_neg hzero
    rw [hplaces]
    cases shift with
    | lsl =>
      rw [places, movedTo, BitVec.getLsbD_shiftLeft, decide_eq_true hj, Bool.true_and]
      split
      · rw [decide_eq_false (by omega)]
        rfl
      · rw [decide_eq_true (by omega)]
        rfl
    | lsr =>
      rw [places, movedTo, BitVec.getLsbD_ushiftRight]
      split
      · rfl
      · exact BitVec.getLsbD_of_ge x _ (by omega)
    | asr =>
      rw [places, movedTo, BitVec.getLsbD_sshiftRight, decide_eq_false (by omega), Bool.not_false,
        Bool.true_and, BitVec.msb_eq_getLsbD_last]
      by_cases hin : k + j < 32
      · rw [if_pos hin, if_pos ⟨hzero, hin⟩]
        rfl
      · rw [if_neg hin, if_neg fun h => hin h.2]
        rfl
    | ror =>
      rw [places, movedTo, if_pos hzero, BitVec.getLsbD_rotateRight_of_lt hk]
      by_cases hin : j < 32 - k
      · rw [decide_eq_true hin, Nat.mod_eq_of_lt (by omega)]
        rfl
      · rw [decide_eq_false hin, decide_eq_true hj, Nat.mod_eq_sub_mod (by omega),
          Nat.mod_eq_of_lt (by omega), show k + j - 32 = j - (32 - k) by omega]
        rfl

theorem immediateShift_eq_iff (shift : Shift) (c : Bool) {k : Nat} (hk : k < 32) (x y : Word) :
    immediateShift shift c x k = immediateShift shift c y k ↔
      ∀ j < 32, ∀ i ∈ movedTo shift k j, x.getLsbD i = y.getLsbD i := by
  constructor
  · intro h j hj i hi
    obtain ⟨fill, hbit⟩ := getLsbD_immediateShift shift c hk hj
    have hx := hbit x
    rw [h, hbit y, Option.mem_def.mp hi] at hx
    exact hx.symm
  · intro h
    apply BitVec.eq_of_getLsbD_eq
    intro j hj
    obtain ⟨fill, hbit⟩ := getLsbD_immediateShift shift c hk hj
    rw [hbit x, hbit y]
    cases hmoved : movedTo shift k j with
    | none => rfl
    | some i => exact h j hj i hmoved

/-! ## The functions of the source -/

section Host

variable [Host] (x : Word)

theorem cShl_eq {n : Nat} (hn : n < 32) : cShl x n = x <<< n := by
  rw [cShl, if_pos (by omega), Int.toNat_natCast]

theorem cShl_out {n : Int} (hn : 32 ≤ n) : cShl x n = Host.shl x n := by
  rw [cShl, if_neg (by omega)]

theorem cShr_eq {n : Nat} (hn : n < 32) : cShr x n = x >>> n := by
  rw [cShr, if_pos (by omega), Int.toNat_natCast]

theorem cShr_out {n : Int} (hn : 32 ≤ n) : cShr x n = Host.shr x n := by
  rw [cShr, if_neg (by omega)]

theorem cSar_eq {n : Nat} (hn : n < 32) : cSar x n = x.sshiftRight n := by
  rw [cSar, if_pos (by omega), Int.toNat_natCast]

theorem cSar_out {n : Int} (hn : 32 ≤ n) : cSar x n = Host.sar x n := by
  rw [cSar, if_neg (by omega)]

variable {b : Byte}

theorem asr_msb : asr x b =
    cShr x b.toNat ||| if x.msb then cShl (~~~0) (32 - b.toNat) else 0 := by
  have hsign : getBit x 31 ≠ 0 ↔ x.msb := by rw [getBit_ne_zero, BitVec.msb_eq_getLsbD_last]
  simp only [asr, hsign]
  rfl

theorem asr_eq (hb : 0 < b.toNat) (h32 : b.toNat < 32) : asr x b = x.sshiftRight b.toNat := by
  have hsub : (32 : Int) - b.toNat = (32 - b.toNat : Nat) := by omega
  have hfill : ∀ i < 32, (~~~0 : Word).getLsbD i = true := by decide
  rw [asr_msb, hsub, cShr_eq x h32, cShl_eq _ (by omega)]
  apply BitVec.eq_of_getLsbD_eq
  intro i hi
  rw [BitVec.getLsbD_or, BitVec.getLsbD_ushiftRight, BitVec.getLsbD_sshiftRight,
    decide_eq_false (by omega), Bool.not_false, Bool.true_and]
  have hones : (if x.msb then (~~~0 : Word) <<< (32 - b.toNat) else 0).getLsbD i =
      (x.msb && decide (32 - b.toNat ≤ i)) := by
    cases x.msb
    · exact BitVec.getLsbD_zero
    · rw [if_pos rfl, BitVec.getLsbD_shiftLeft, hfill _ (by omega), decide_eq_true hi,
        Bool.true_and, Bool.and_true, Bool.true_and, ← decide_not, decide_eq_decide, not_lt]
  rw [hones]
  by_cases hin : b.toNat + i < 32
  · rw [if_pos hin, decide_eq_false (by omega), Bool.and_false, Bool.or_false]
  · rw [if_neg hin, decide_eq_true (by omega), BitVec.getLsbD_of_ge x _ (by omega), Bool.and_true,
      Bool.false_or]

theorem ror_eq (hb : 0 < b.toNat) (h32 : b.toNat < 32) : ror x b = x.rotateRight b.toNat := by
  have hsub : (32 : Int) - b.toNat = (32 - b.toNat : Nat) := by omega
  rw [ror, hsub, cShr_eq x h32, cShl_eq x (by omega), BitVec.rotateRight_def,
    Nat.mod_eq_of_lt h32]

end Host

end ArmSimulator.Shifting
