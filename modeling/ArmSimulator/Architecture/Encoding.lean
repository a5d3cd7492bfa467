import ArmSimulator.Architecture.Instructions
import ArmSimulator.Branching.Branch
import ArmSimulator.Shifting.BarrelShifter
import ArmSimulator.Status.Fields
import ArmSimulator.Transfers.Block
import ArmSimulator.Transfers.PlainOffset

/-! # What a decoded word is

The simulator's handlers look at the same fields of a word as the programmer's model. A word
that the model decodes is one of the words that the handlers are known to execute.
-/

namespace ArmSimulator.Architecture

open Machine RegisterFile Storage Transfers Decoding DataProcessing Shifting

variable {w : Word}

theorem getBits_field (w : Word) {h l : ℕ} (hh : h < 32) : (getBits w h l).toNat = field w h l :=
  toNat_getBits w hh

theorem registerField_rd (w : Word) : registerField w 12 = rd w :=
  Fin.ext (getBits_field w (h := 15) (l := 12) (by omega)).symm

theorem registerField_rn (w : Word) : registerField w 16 = rn w :=
  Fin.ext (getBits_field w (h := 19) (l := 16) (by omega)).symm

theorem registerField_rm (w : Word) : registerField w 0 = rm w :=
  Fin.ext (getBits_field w (h := 3) (l := 0) (by omega)).symm

/-! ## Conditions -/

def Condition.code : Condition → ℕ
  | eq => 0
  | ne => 1
  | mi => 4
  | pl => 5
  | al => 14

theorem decodeCondition_code {c : Condition} (h : decodeCondition w = some c) :
    condField w = c.code := by
  have hfield : condField w = field w 31 28 := getBits_field w (by omega)
  rw [hfield]
  unfold decodeCondition at h
  split at h
  case h_6 => cases h
  all_goals
    rename_i hcode
    cases h
    exact hcode

theorem passes_iff {c : Condition} (h : decodeCondition w = some c) (cpsr : Word) :
    Passes cpsr w ↔ c.holds (cpsr.getLsbD 31) (cpsr.getLsbD 30) := by
  rw [Passes, decodeCondition_code h]
  constructor
  · rintro (hal | ⟨condition, hcode, haccepts⟩)
    · cases c <;> first | rfl | exact absurd hal (by decide)
    · cases c <;> cases condition <;> first | exact haccepts | exact absurd hcode (by decide)
  · intro hholds
    cases c with
    | eq => exact Or.inr ⟨.eq, rfl, hholds⟩
    | ne => exact Or.inr ⟨.ne, rfl, hholds⟩
    | mi => exact Or.inr ⟨.mi, rfl, hholds⟩
    | pl => exact Or.inr ⟨.pl, rfl, hholds⟩
    | al => exact Or.inl rfl

theorem condField_ne {c : Condition} (h : decodeCondition w = some c) : condField w ≠ 0b1111 := by
  rw [decodeCondition_code h]
  cases c <;> decide

/-! ## Operations -/

def Operation.code : Operation → ℕ
  | sub => 2
  | rsb => 3
  | add => 4
  | cmp => 10
  | cmn => 11
  | mov => 13
  | mvn => 15

theorem Operation.isTest_code (operation : Operation) :
    IsTest operation.code ↔ operation.compares := by
  cases operation <;> decide

theorem decodeOperation_code {operation : Operation} (h : decodeOperation w = some operation) :
    field w 24 21 = operation.code := by
  unfold decodeOperation at h
  split at h
  case h_8 => cases h
  all_goals
    rename_i hcode
    cases h
    exact hcode

theorem Operation.aluOf_code (operation : Operation) (cpsr a b : Word) :
    ∃ r, aluOf operation.code cpsr a b = some r ∧ r.res = operation.result a b := by
  cases operation with
  | add => exact ⟨_, rfl, BitVec.add_comm b a⟩
  | cmn => exact ⟨_, rfl, rfl⟩
  | sub => exact ⟨_, rfl, rfl⟩
  | rsb => exact ⟨_, rfl, rfl⟩
  | cmp => exact ⟨_, rfl, rfl⟩
  | mov => exact ⟨_, rfl, rfl⟩
  | mvn => exact ⟨_, rfl, rfl⟩

/-! ## Operands -/

section Operands

variable [Host] {q : Processor}

omit [Host] in
theorem decodeShift_eq {shift : Shift} (h : decodeShift w = some shift) :
    shiftOf w = shift ∧ shift ≠ .lsr ∧ (shift = .lsl ∨ field w 11 7 ≠ 0) := by
  have hfield : (getBits w 6 5).toNat = field w 6 5 := getBits_field w (by omega)
  unfold shiftOf
  rw [hfield]
  unfold decodeShift at h
  split at h
  case h_1 hzero =>
    cases h
    rw [hzero]
    exact ⟨rfl, by decide, Or.inl rfl⟩
  case h_4 => cases h
  case h_2 hfield =>
    split_ifs at h with hamount
    cases h
    rw [hfield]
    exact ⟨rfl, by decide, Or.inr hamount⟩
  case h_3 hfield =>
    split_ifs at h with hamount
    cases h
    rw [hfield]
    exact ⟨rfl, by decide, Or.inr hamount⟩

/-- The simulator shifts to the right like the model, by no place and logically aside. -/
theorem shiftOperand_register {shift : Shift} (h : decodeShift w = some shift)
    (hbit : w.getLsbD 4 = false) (p : ArmCore) (x : Word) :
    shiftOperand p w x = .ok (places shift x (field w 11 7)) := by
  obtain ⟨hshift, hlsr, hamount⟩ := decodeShift_eq h
  have hfield : (getBits w 11 7).toNat = field w 11 7 := getBits_field w (by omega)
  have hexact : ExactImmediate shift false x (getBits w 11 7).toNat := by
    rw [hfield]
    cases shift with
    | lsl => trivial
    | lsr => exact absurd rfl hlsr
    | asr => exact fun hzero => absurd hzero (hamount.resolve_left (by decide))
    | ror => exact fun hzero => absurd hzero (hamount.resolve_left (by decide))
  have hplaces : immediateShift shift false x (field w 11 7) = places shift x (field w 11 7) := by
    unfold immediateShift
    split_ifs with hzero
    · rcases hamount with rfl | hne
      · rw [hzero]
        exact (BitVec.shiftLeft_zero x).symm
      · exact absurd hzero hne
    · rfl
  rw [shiftOperand_eq, if_pos ((getBit_eq_zero w 4).mpr hbit), hshift,
    (getShifterOperandImmediate_iff w x shift false).mpr hexact, hfield, hplaces]

/-- The rotation of a constant, by no place as well. -/
theorem ror_field (w : Word) : ror (getBits w 7 0) ((2 * getBits w 11 8).setWidth 8) =
    (BitVec.ofNat 32 (field w 7 0)).rotateRight (2 * field w 11 8) := by
  have hamount : (getBits w 11 8).toNat = field w 11 8 := getBits_field w (by omega)
  have hlt : (getBits w 11 8).toNat < 16 := toNat_getBits_lt w (h := 11) (l := 8) (by omega)
  have hvalue : getBits w 7 0 = BitVec.ofNat 32 (field w 7 0) := by
    rw [← getBits_field w (h := 7) (l := 0) (by omega), BitVec.ofNat_toNat, BitVec.setWidth_eq]
  have htwo : (2 : Word).toNat = 2 := rfl
  have hbyte : ((2 * getBits w 11 8).setWidth 8).toNat = 2 * field w 11 8 := by
    rw [BitVec.toNat_setWidth, BitVec.toNat_mul, htwo, hamount, Nat.mod_eq_of_lt (by omega),
      Nat.mod_eq_of_lt (by omega)]
  rw [← hvalue]
  by_cases hzero : field w 11 8 = 0
  · have hnone : (2 * getBits w 11 8).setWidth 8 = 0 := BitVec.eq_of_toNat_eq (by
      rw [hbyte, hzero]
      rfl)
    rw [hnone, Status.ror_zero, hzero, Nat.mul_zero, BitVec.rotateRight_def, Nat.zero_mod,
      BitVec.ushiftRight_zero, BitVec.shiftLeft_eq_zero le_rfl, BitVec.or_zero]
  · rw [ror_eq _ (by omega) (by omega), hbyte]

end Operands

/-! ## Words -/

/-- What a word encodes, in the terms of the simulator's handlers. -/
inductive Encodes (w : Word) : Instruction → Prop where
  | compute {operation : Operation} {x : Operand} : field w 27 25 ≤ 1 →
      decodeOperation w = some operation → decodeOperand w = some x →
      (if operation.compares then w.getLsbD 20 = true else w.getLsbD 20 = true → rd w ≠ 15) →
      Encodes w (.compute operation (w.getLsbD 20) (rd w) (rn w) x)
  | branch : dispatch w = .branch → Encodes w (.branch (w.getLsbD 24) (Branching.offset w))
  | load {x : Operand} : IsPlainWord w → decodeOffset w = some x → w.getLsbD 20 = true →
      rd w ≠ 15 → Encodes w (.load (rd w) (rn w) (w.getLsbD 23) x)
  | store {x : Operand} : IsPlainWord w → decodeOffset w = some x → w.getLsbD 20 = false →
      Encodes w (.store (rd w) (rn w) (w.getLsbD 23) x)
  | loadBlock : IsBlock w → w.getLsbD 20 = true → 15 ∉ listed w →
      Encodes w (.loadBlock (rn w) (w.getLsbD 24) (w.getLsbD 23) (listed w))
  | storeBlock : IsBlock w → w.getLsbD 20 = false →
      Encodes w (.storeBlock (rn w) (w.getLsbD 24) (w.getLsbD 23) (listed w))

section Decode

variable {i : Instruction}

theorem decodeCompute_encodes (hclass : field w 27 25 ≤ 1) (h : decodeCompute w = some i) :
    Encodes w i := by
  obtain ⟨operation, hoperation, h⟩ := Option.bind_eq_some_iff.mp h
  obtain ⟨x, hx, h⟩ := Option.bind_eq_some_iff.mp h
  rw [registerField_rd, registerField_rn] at h
  obtain ⟨hflags, h⟩ := Option.ite_none_right_eq_some.mp h
  cases h
  exact .compute hclass hoperation hx hflags

theorem decodeTransfer_encodes (hclass : field w 27 25 = 2 ∨ field w 27 25 = 3)
    (hal : condField w = 0b1110) (h : decodeTransfer w = some i) : Encodes w i := by
  obtain ⟨x, hx, h⟩ := Option.bind_eq_some_iff.mp h
  rw [registerField_rd, registerField_rn] at h
  obtain ⟨⟨hbefore, hword, hkept⟩, h⟩ := Option.ite_none_right_eq_some.mp h
  have hfield : (getBits w 27 25).toNat = field w 27 25 := getBits_field w (by omega)
  have hplain : IsPlainWord w := by
    refine ⟨hal, ?_, (getBit_eq_zero w 22).mpr hword, (getBit_ne_zero w 24).mpr hbefore,
      (getBit_eq_zero w 21).mpr hkept⟩
    rw [hfield]
    refine hclass.imp_right fun hthree => ⟨hthree, ?_⟩
    rw [decodeOffset, if_neg (by omega)] at hx
    obtain ⟨hzero, -⟩ := Option.ite_none_right_eq_some.mp hx
    exact BitVec.eq_of_toNat_eq ((getBits_field w (by omega)).trans hzero)
  by_cases hl : w.getLsbD 20 = true
  · rw [if_pos hl] at h
    obtain ⟨hrd, h⟩ := Option.ite_none_right_eq_some.mp h
    cases h
    exact .load hplain hx hl hrd
  · rw [if_neg hl] at h
    cases h
    exact .store hplain hx (eq_false_of_ne_true hl)

theorem registers_listed (w : Word) :
    (List.finRange 16).filter (fun r : Fin 16 => w.getLsbD r.val) = listed w := by
  refine List.filter_congr fun r _ => ?_
  have hlt := r.isLt
  rw [named, getBit_getBits w (by omega), Nat.zero_add]
  simp only [getBit_ne_zero, Bool.decide_eq_true]

theorem decodeBlock_encodes (hclass : field w 27 25 = 4) (hal : condField w = 0b1110)
    (h : decodeBlock w = some i) : Encodes w i := by
  unfold decodeBlock at h
  rw [registers_listed, registerField_rn] at h
  obtain ⟨-, h⟩ := Option.ite_none_right_eq_some.mp h
  have hblock : IsBlock w := ⟨hal, (getBits_field w (by omega)).trans hclass⟩
  by_cases hl : w.getLsbD 20 = true
  · rw [if_pos hl] at h
    obtain ⟨hpc, h⟩ := Option.ite_none_right_eq_some.mp h
    cases h
    exact .loadBlock hblock hl hpc
  · rw [if_neg hl] at h
    cases h
    exact .storeBlock hblock (eq_false_of_ne_true hl)

theorem decode_encodes {c : Condition} (h : decode w = some (c, i)) :
    decodeCondition w = some c ∧ Encodes w i := by
  obtain ⟨condition, hcondition, h⟩ := Option.bind_eq_some_iff.mp h
  obtain ⟨instruction, hinstruction, h⟩ := Option.bind_eq_some_iff.mp h
  cases h
  refine ⟨hcondition, ?_⟩
  have hcode := decodeCondition_code hcondition
  unfold decodeClass at hinstruction
  split at hinstruction
  case h_1 hclass => exact decodeCompute_encodes (by omega) hinstruction
  case h_2 hclass => exact decodeCompute_encodes (by omega) hinstruction
  case h_3 hclass =>
    obtain ⟨rfl, hinstruction⟩ := Option.ite_none_right_eq_some.mp hinstruction
    exact decodeTransfer_encodes (Or.inl hclass) hcode hinstruction
  case h_4 hclass =>
    obtain ⟨rfl, hinstruction⟩ := Option.ite_none_right_eq_some.mp hinstruction
    exact decodeTransfer_encodes (Or.inr hclass) hcode hinstruction
  case h_5 hclass =>
    obtain ⟨rfl, hinstruction⟩ := Option.ite_none_right_eq_some.mp hinstruction
    exact decodeBlock_encodes hclass hcode hinstruction
  case h_6 hclass =>
    cases hinstruction
    have hfield : (getBits w 27 25).toNat = 5 := (getBits_field w (by omega)).trans hclass
    refine .branch ?_
    unfold dispatch
    rw [hfield]
    rfl
  case h_7 => cases hinstruction

end Decode

end ArmSimulator.Architecture
