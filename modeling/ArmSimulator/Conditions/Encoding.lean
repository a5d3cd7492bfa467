import ArmSimulator.Machine.Instruction
import ArmSimulator.Transfers.Target

/-! # The condition field of an instruction

Only the decoder and `condition_passed` read the four bits above bit 27. Every
handler that does not ask `condition_passed` therefore does the same for an
instruction and for its variant under `AL`, and so does the search for the
target of a load or store.
-/

namespace ArmSimulator.Conditions

open Machine Transfers Foundation.ExceptRun

/-- The instruction with its condition field replaced by `AL`. -/
def withAL (ins : Word) : Word := setBits ins 31 28 0b1110

theorem getLsbD_withAL (ins : Word) {i : Nat} (hi : i < 28) :
    (withAL ins).getLsbD i = ins.getLsbD i := by
  rw [withAL, getLsbD_setBits]
  simp [hi, show i < 32 by omega, show ¬ 28 ≤ i by omega]

theorem condField_withAL (ins : Word) : condField (withAL ins) = 0b1110 := by
  rw [condField, withAL, getBits_setBits _ (by omega) (by omega) (by decide)]
  rfl

theorem getBits_withAL (ins : Word) {h l : Nat} (hl : l ≤ h) (hh : h < 28) :
    getBits (withAL ins) h l = getBits ins h l := by
  apply BitVec.eq_of_getLsbD_eq
  intro i _
  rw [getLsbD_getBits, getLsbD_getBits]
  by_cases hi : i ≤ h - l
  · rw [getLsbD_withAL ins (by omega)]
  · simp [hi]

theorem getBit_withAL (ins : Word) {i : Nat} (hi : i < 28) :
    getBit (withAL ins) i = getBit ins i := by
  rw [getBit_eq, getBit_eq, getLsbD_withAL ins hi]

theorem and_withAL (ins : Word) : withAL ins &&& 0xFFFFFF = ins &&& 0xFFFFFF := by
  have hmask : ∀ i < 32, 28 ≤ i → (0xFFFFFF : Word).getLsbD i = false := by decide
  apply BitVec.eq_of_getLsbD_eq
  intro i hi
  rw [BitVec.getLsbD_and, BitVec.getLsbD_and]
  by_cases hlow : i < 28
  · rw [getLsbD_withAL ins hlow]
  · rw [hmask i hi (by omega), Bool.and_false, Bool.and_false]

/-! ## Data processing, branches and status moves -/

section Handlers

variable (p : ArmCore) (ins : Word)

theorem writePsr_withAL (value : Byte) (R : Bool) :
    writePsr p (withAL ins) value R = writePsr p ins value R := by
  have hfields (psr : Word) : psrFields (withAL ins) psr value = psrFields ins psr value := by
    simp (disch := decide) only [psrFields, getBit_withAL]
  simp only [writePsr, hfields]

theorem armBranch_withAL : armBranch p (withAL ins) = armBranch p ins := by
  simp (disch := decide) only [armBranch, getBit_withAL, getBits_withAL]

theorem armCoprocessorOthersSwi_withAL :
    armCoprocessorOthersSwi p (withAL ins) = armCoprocessorOthersSwi p ins := by
  simp (disch := decide) only [armCoprocessorOthersSwi, getBit_withAL, and_withAL]

variable [Host]

theorem armMiscellaneous_withAL : armMiscellaneous p (withAL ins) = armMiscellaneous p ins := by
  simp (disch := decide) only [armMiscellaneous, getBit_withAL, getBits_withAL, writePsr_withAL]

theorem armDataProcessingShift_withAL :
    armDataProcessingShift p (withAL ins) = armDataProcessingShift p ins := by
  simp (disch := decide) only [armDataProcessingShift, shiftOperand, getShifterOperandImmediate,
    getShifterOperandRegister, getBit_withAL, getBits_withAL]

theorem armDataProcessingImmediateMsr_withAL :
    armDataProcessingImmediateMsr p (withAL ins) = armDataProcessingImmediateMsr p ins := by
  simp (disch := decide) only [armDataProcessingImmediateMsr, getBit_withAL, getBits_withAL]

end Handlers

/-! ## Loads and stores -/

section Transfers

variable (u : Locals) (p : ArmCore) (ins : Word)

theorem op_withAL (leftOp rightOp : Word) :
    op (withAL ins) leftOp rightOp = op ins leftOp rightOp := by
  simp (disch := decide) only [op, getBit_withAL]

theorem pBit_withAL : pBit (withAL ins) = pBit ins := by
  simp (disch := decide) only [pBit, getBit_withAL]

theorem wBit_withAL : wBit (withAL ins) = wBit ins := by
  simp (disch := decide) only [wBit, getBit_withAL]

/-- The address of a load or store; `condition_passed` decides on the base alone. -/
theorem addrmodeLoadStore_address (address rn addWord : Word) :
    (addrmodeLoadStore p ins address rn addWord).1 =
      if pBit ins then op ins rn addWord else if wBit ins then address else rn := by
  rw [addrmodeLoadStore]
  cases pBit ins <;> cases wBit ins <;> cases conditionPassed p (getBits ins 31 28) <;> rfl

theorem addrmodeLoadStoreMiscellaneous_address (rn offset : Word) :
    (·.1) <$> addrmodeLoadStoreMiscellaneous p ins rn offset =
      (fun rm => if pBit ins then op ins rn (if getBit ins 22 = 0 then rm else offset) else rn) <$>
        armReadRegister p (getBits ins 3 0).toNat := by
  rw [addrmodeLoadStoreMiscellaneous]
  cases armReadRegister p (getBits ins 3 0).toNat with
  | error e => rfl
  | ok rm =>
    simp only [ok_bind]
    cases pBit ins with
    | false => rfl
    | true => by_cases hb : getBit ins 22 = 0 <;> simp [hb, pure, Except.pure]

theorem armLoadStoreMultiple_withAL :
    armLoadStoreMultiple u p (withAL ins) = armLoadStoreMultiple u p ins := by
  simp (disch := decide) only [armLoadStoreMultiple, addrmodeLoadStoreMultiple,
    executeInstrMultiple, pBit_withAL, getBit_withAL, getBits_withAL]
  rfl

theorem isLoadStore_withAL : IsLoadStore (withAL ins) ↔ IsLoadStore ins := by
  simp (disch := decide) only [IsLoadStore, getBit_withAL, getBits_withAL]

variable [Host]

theorem setIndex_withAL (rm : Byte) : setIndex p (withAL ins) rm = setIndex p ins rm := by
  simp (disch := decide) only [setIndex, getBits_withAL]

/-- Handler and address of a load or store do not depend on the condition. -/
theorem target_withAL : target u p (withAL ins) = target u p ins := by
  have hmisc (rn rm : Word) :
      (fun r => Target.miscellaneous r.1) <$> addrmodeLoadStoreMiscellaneous p (withAL ins) rn rm =
        (fun r => Target.miscellaneous r.1) <$> addrmodeLoadStoreMiscellaneous p ins rn rm := by
    have h : (·.1) <$> addrmodeLoadStoreMiscellaneous p (withAL ins) rn rm =
        (·.1) <$> addrmodeLoadStoreMiscellaneous p ins rn rm := by
      simp (disch := decide) only [addrmodeLoadStoreMiscellaneous_address, op_withAL,
        pBit_withAL, getBit_withAL, getBits_withAL]
    simpa only [Functor.map_map] using congrArg (Target.miscellaneous <$> ·) h
  simp (disch := decide) only [target, hmisc, addrmodeLoadStore_address, setIndex_withAL,
    op_withAL, pBit_withAL, wBit_withAL, getBit_withAL, getBits_withAL]

/-- Apart from loads and stores, no instruction depends on its condition. -/
theorem executeClass_withAL (h : ¬ IsLoadStore ins) :
    executeClass u p (withAL ins) = executeClass u p ins := by
  simp (disch := decide) only [executeClass, getBits_withAL, getBit_withAL,
    armMiscellaneous_withAL, armDataProcessingShift_withAL, armDataProcessingImmediateMsr_withAL,
    armLoadStoreMultiple_withAL, armCoprocessorLoadStore, armBranch_withAL,
    armCoprocessorOthersSwi_withAL]
  generalize hclass : (getBits ins 27 25).toNat = c
  match c with
  | 0 =>
    simp only
    split
    · rfl
    · rename_i hmisc
      rw [if_neg fun hbits => h (.inr (.inr ⟨hclass, hmisc, hbits⟩)),
        if_neg fun hbits => h (.inr (.inr ⟨hclass, hmisc, hbits⟩))]
  | 2 => exact absurd (.inl hclass) h
  | 3 => exact absurd (.inr (.inl hclass)) h
  | 1 | 4 | 5 | 6 | 7 | _ + 8 => rfl

end Transfers

end ArmSimulator.Conditions
