import ArmSimulator.Conditions.Comparison
import ArmSimulator.DataProcessing.Effect
import ArmSimulator.Decoding.Outcome
import ArmSimulator.Transfers.Changes

/-! # What instructions leave of the status

Every handler keeps the status except for the flags and bit 5, with two
exceptions that can be told from the instruction word: a move to the status and
a write of the program counter that restores the saved status.
-/

namespace ArmSimulator.Status

open Machine Transfers Conditions Decoding DataProcessing Exceptions Foundation.ExceptRun

/-- The status is the same below the flags, bit 5 apart. -/
def Keeps (p p' : ArmCore) : Prop :=
  ∀ j < 28, j ≠ 5 → (armReadCpsr p').getLsbD j = (armReadCpsr p).getLsbD j

section Keeps

variable {p p' p'' : ArmCore}

theorem Keeps.refl (p : ArmCore) : Keeps p p := fun _ _ _ => rfl

theorem Keeps.trans (h : Keeps p p') (h' : Keeps p' p'') : Keeps p p'' :=
  fun j hj hj5 => (h' j hj hj5).trans (h j hj hj5)

theorem keeps_of_eq (h : armReadCpsr p' = armReadCpsr p) : Keeps p p' :=
  fun j _ _ => congrArg (fun x => x.getLsbD j) h

theorem modeBits_eq_of_bits {x y : Word} (h : ∀ j ≤ 4, x.getLsbD j = y.getLsbD j) :
    getBits x 4 0 = getBits y 4 0 := by
  apply BitVec.eq_of_getLsbD_eq
  intro i _
  rw [getLsbD_getBits, getLsbD_getBits, Nat.zero_add]
  by_cases hi : i ≤ 4
  · rw [h i hi]
  · rw [decide_eq_false (by omega), Bool.false_and, Bool.false_and]

theorem getMode_eq_of_bits
    (h : ∀ j ≤ 4, (armReadCpsr p').getLsbD j = (armReadCpsr p).getLsbD j) :
    getMode p'.reg = getMode p.reg := congrArg BitVec.toNat (modeBits_eq_of_bits h)

theorem Keeps.mode (h : Keeps p p') : getMode p'.reg = getMode p.reg :=
  getMode_eq_of_bits fun j hj => h j (by omega) (by omega)

theorem keeps_armWriteRegister (p : ArmCore) (reg : Nat) (value : Word) :
    Ensures (armWriteRegister p reg value) (Keeps p) :=
  (armWriteRegister_cpsr p reg value).mono fun _ h => keeps_of_eq h

theorem keeps_armWriteSpsr (p : ArmCore) (value : Word) :
    Ensures (armWriteSpsr p value) (Keeps p) :=
  (armWriteSpsr_cpsr p value).mono fun _ h => keeps_of_eq h

theorem keeps_packFlags (p : ArmCore) (z n c v : Bool) :
    Keeps p (armWriteCpsr p (packFlags (armReadCpsr p) z n c v)) := by
  intro j hj _
  rw [armReadCpsr, armWriteCpsr, readCpsr_writeCpsr, getLsbD_packFlags, if_neg (by omega),
    if_neg (by omega), if_neg (by omega), if_neg (by omega)]

theorem keeps_thumbCpsr (p : ArmCore) (word : Word) :
    Keeps p (armWriteCpsr p (thumbCpsr (armReadCpsr p) word)) := by
  intro j _ hj
  rw [armReadCpsr, armWriteCpsr, readCpsr_writeCpsr, thumbCpsr]
  split
  · rw [getLsbD_setBit _ (by omega), decide_eq_false hj, Bool.false_or]
  · rw [getLsbD_clrBit _ (by omega), decide_eq_false hj, Bool.not_false, Bool.true_and]

theorem keeps_of_changes {written : Nat → Prop} (h : Changes written p p') : Keeps p p' := by
  induction h with
  | none => exact Keeps.refl p
  | memory _ _ ih => exact ih
  | thumb _ word ih => exact ih.trans (keeps_thumbCpsr _ word)
  | register _ _ hwrite ih => exact ih.trans (keeps_armWriteRegister _ _ _ _ hwrite)

end Keeps

section Handlers

variable [Host]

theorem armLoadStore_keeps (u : Locals) (p : ArmCore) (ins : Word) :
    Ensures (armLoadStore u p ins) fun r => Keeps p r.2 :=
  (armLoadStore_changes u p ins).mono fun _ ⟨_, _, h⟩ => keeps_of_changes h

omit [Host] in
theorem armLoadStoreMultiple_keeps (u : Locals) (p : ArmCore) (ins : Word) :
    Ensures (armLoadStoreMultiple u p ins) fun r => Keeps p r.2 :=
  (armLoadStoreMultiple_changes u p ins).mono fun _ h => keeps_of_changes h

omit [Host] in
theorem armBranch_keeps (p : ArmCore) (ins : Word) :
    Ensures (armBranch p ins) fun r => Keeps p r.2 := by
  have hjump (p' : ArmCore) (h : Keeps p p') (f : Word → Word) : Ensures (do
      let pc ← armReadRegister p' 15
      let p' ← armWriteRegister p' 15 (f pc)
      return ((0 : Int), p')) fun r => Keeps p r.2 :=
    ensures_bind fun _ => (keeps_armWriteRegister p' _ _).bind fun _ h' => ensures_pure (h.trans h')
  unfold armBranch
  simp only
  split
  · exact ensures_bind fun _ => (keeps_armWriteRegister p _ _).bind fun p' h => hjump p' h _
  · exact hjump p (Keeps.refl p) _

omit [Host] in
theorem armCoprocessorOthersSwi_keeps (p : ArmCore) (ins : Word) :
    Ensures (armCoprocessorOthersSwi p ins) fun r => Keeps p r.2 := by
  unfold armCoprocessorOthersSwi
  split
  · split
    · exact ensures_error _
    · exact ensures_ok (Keeps.refl p)
  · exact ensures_ok (Keeps.refl p)

/-! ## Data processing -/

omit [Host] in
theorem currentModeHasSpsr_of_eq {p p' : ArmCore} (h : armReadCpsr p' = armReadCpsr p) :
    currentModeHasSpsr p'.reg ↔ currentModeHasSpsr p.reg := by
  rw [currentModeHasSpsr, currentModeHasSpsr, getMode_of_cpsr h]

/-- A data-processing instruction that restores the saved status. -/
def RestoresStatus (p : ArmCore) (opcode rd : Nat) (updateCPSR : Bool) : Prop :=
  updateCPSR ∧ rd = 15 ∧ ¬ IsTest opcode ∧ currentModeHasSpsr p.reg

omit [Host] in
theorem executeInst_keeps (ins : Word) (p : ArmCore) (rd : Nat) (valueRn operand : Word)
    (updateCPSR : Bool) (h : ¬ RestoresStatus p (getBits ins 24 21).toNat rd updateCPSR) :
    Ensures (executeInst (getBits ins 24 21).toNat p rd valueRn operand updateCPSR)
      fun r => Keeps p r.2 := by
  have hop : (getBits ins 24 21).toNat < 16 := toNat_getBits_lt ins (h := 24) (l := 21) (by omega)
  obtain ⟨r, hr⟩ := exists_aluOf hop (armReadCpsr p) valueRn operand
  have htest := aluSwitch_test hr
  have hwrite : Ensures (if IsTest (getBits ins 24 21).toNat then pure p
      else armWriteRegister p rd r.res) fun p' => armReadCpsr p' = armReadCpsr p := by
    split
    · exact ensures_pure rfl
    · exact armWriteRegister_cpsr p rd r.res
  rw [executeInst_eq hr]
  refine hwrite.bind fun p' hp' => ?_
  have hflags : Keeps p (armWriteCpsr p' (flagsCpsr (armReadCpsr p) r)) := by
    intro j hj hj5
    have hpack := keeps_packFlags p (r.res = 0) (getBit r.res 31 ≠ 0) r.cFlag r.vFlag j hj hj5
    rw [armReadCpsr, armWriteCpsr, readCpsr_writeCpsr] at hpack ⊢
    exact hpack
  unfold updateStatus
  split
  · split
    · split
      · rename_i hupdate hpc hspsr
        rw [currentModeHasSpsr_of_eq hp'] at hspsr
        simp only [htest, Bool.and_eq_true, Bool.not_eq_true', decide_eq_false_iff_not,
          decide_eq_true_eq, Bool.or_eq_true] at hupdate hpc
        exact absurd ⟨hupdate.resolve_right hpc.1, hpc.2, hpc.1, hspsr⟩ h
      · exact ensures_pure (keeps_of_eq hp')
    · exact ensures_pure hflags
  · exact ensures_pure (keeps_of_eq hp')

end Handlers

/-! ## Moves to the status -/

/-- A move to the status, not to the saved one. -/
structure IsStatusWrite (inst : Word) : Prop where
  dispatched : dispatch inst = .miscellaneous
  msr : getBits inst 21 20 = 0b10
  cpsr : getBit inst 22 = 0

/-- An instruction that restores the saved status in the modes that have one. -/
structure IsStatusReturn (inst : Word) : Prop where
  dispatched : dispatch inst = .dataProcessingShift ∨ dispatch inst = .dataProcessingImmediateMsr
  update : getBit inst 20 = 1
  pc : (getBits inst 15 12).toNat = 15
  writes : ¬ IsTest (getBits inst 24 21).toNat

section Moves

variable [Host]

/-- The byte a status register move writes. -/
def msrByte (p : ArmCore) (ins : Word) : Except Stop Byte :=
  if getBit ins 25 ≠ 0 then
    .ok ((ror (((getBits ins 7 0).setWidth 8).setWidth 32)
      ((2 * getBits ins 11 8).setWidth 8)).setWidth 8)
  else do
    let value ← armReadRegister p (getBits ins 3 0).toNat
    return value.setWidth 8

theorem armMiscellaneous_msr (p : ArmCore) {ins : Word} (h : getBits ins 21 20 = 0b10) :
    armMiscellaneous p ins = (msrByte p ins >>= fun value =>
      writePsr p ins value (getBit ins 22 ≠ 0) >>= fun p' => .ok (0, p')) := by
  unfold armMiscellaneous msrByte
  simp only [h, if_true]
  split
  · rfl
  · rw [bind_assoc]
    rfl

omit [Host] in
theorem armMiscellaneous_cpsr (p : ArmCore) (ins : Word) (value : Byte) (h : getBit ins 22 = 0) :
    writePsr p ins value (getBit ins 22 ≠ 0) =
      .ok (armWriteCpsr p (psrFields ins (armReadCpsr p) value)) := by
  rw [writePsr, decide_eq_false (not_not.mpr h)]
  rfl

theorem armMiscellaneous_keeps (p : ArmCore) (ins : Word)
    (h : ¬ (getBits ins 21 20 = 0b10 ∧ getBit ins 22 = 0)) :
    Ensures (armMiscellaneous p ins) fun r => Keeps p r.2 := by
  by_cases hmsr : getBits ins 21 20 = 0b10
  · have hspsr : getBit ins 22 ≠ 0 := fun h22 => h ⟨hmsr, h22⟩
    rw [armMiscellaneous_msr p hmsr]
    refine ensures_bind fun value => Ensures.bind ?_ fun p' hp' => ensures_ok hp'
    rw [writePsr, decide_eq_true hspsr]
    exact ensures_bind fun _ => keeps_armWriteSpsr p _
  · unfold armMiscellaneous
    simp only [hmsr, if_false]
    split
    · exact ensures_bind fun _ => (keeps_armWriteRegister p _ _).bind fun _ hp => ensures_pure hp
    · exact ensures_bind fun _ => (keeps_armWriteRegister p _ _).bind fun _ hp => ensures_pure hp

theorem armDataProcessingShift_keeps (p : ArmCore) (ins : Word)
    (h : ¬ RestoresStatus p (getBits ins 24 21).toNat (getBits ins 15 12).toNat
      (getBit ins 20 ≠ 0)) :
    Ensures (armDataProcessingShift p ins) fun r => Keeps p r.2 :=
  ensures_bind fun _ => ensures_bind fun _ => ensures_bind fun _ =>
    executeInst_keeps ins p _ _ _ _ h

theorem armDataProcessingImmediateMsr_keeps (p : ArmCore) (ins : Word)
    (h : ¬ RestoresStatus p (getBits ins 24 21).toNat (getBits ins 15 12).toNat
      (getBit ins 20 ≠ 0)) :
    Ensures (armDataProcessingImmediateMsr p ins) fun r => Keeps p r.2 :=
  ensures_bind fun _ => executeInst_keeps ins p _ _ _ _ h

/-- Every instruction keeps the status but a move to it and a return to the saved one. -/
theorem run_keeps (u : Locals) (p : ArmCore) (inst : Word) (hwrite : ¬ IsStatusWrite inst)
    (hreturn : ¬ (IsStatusReturn inst ∧ currentModeHasSpsr p.reg)) :
    Ensures ((dispatch inst).run u p inst) fun r => Keeps p r.2 := by
  have hrestores (hd : dispatch inst = .dataProcessingShift ∨
      dispatch inst = .dataProcessingImmediateMsr) : ¬ RestoresStatus p
        (getBits inst 24 21).toNat (getBits inst 15 12).toNat (getBit inst 20 ≠ 0) := by
    rintro ⟨hs, hpc, htest, hspsr⟩
    have hbit : getBit inst 20 = 1 :=
      (getBit_eq_one inst 20).mpr ((getBit_ne_zero inst 20).mp (of_decide_eq_true hs))
    exact hreturn ⟨⟨hd, hbit, hpc, htest⟩, hspsr⟩
  cases hd : dispatch inst with
  | miscellaneous =>
    exact armMiscellaneous_keeps p inst fun h => hwrite ⟨hd, h.1, h.2⟩
  | loadStore => exact armLoadStore_keeps u p inst
  | dataProcessingShift => exact armDataProcessingShift_keeps p inst (hrestores (Or.inl hd))
  | dataProcessingImmediateMsr =>
    exact armDataProcessingImmediateMsr_keeps p inst (hrestores (Or.inr hd))
  | loadStoreMultiple => exact armLoadStoreMultiple_keeps u p inst
  | coprocessorLoadStore => exact ensures_ok (Keeps.refl p)
  | branch => exact armBranch_keeps p inst
  | coprocessorOthersSwi => exact armCoprocessorOthersSwi_keeps p inst

end Moves

theorem getLsbD_psrFields (ins psr : Word) (value : Byte) {j : Nat} (hj : j < 8) :
    (psrFields ins psr value).getLsbD j =
      if getBit ins 16 = 1 then value.getLsbD j else psr.getLsbD j := by
  have hbelow (x y : Word) (h : Nat) {l : Nat} (hl : 8 ≤ l) :
      (setBits x h l y).getLsbD j = x.getLsbD j := by
    rw [getLsbD_setBits, decide_eq_true (show j < 32 by omega),
      decide_eq_true (show j < l by omega), decide_eq_false (show ¬ l ≤ j by omega)]
    simp
  have hbyte (x : Word) : (setBits x 7 0 (value.setWidth 32)).getLsbD j = value.getLsbD j := by
    rw [getLsbD_setBits, decide_eq_true (show j < 32 by omega),
      decide_eq_false (show ¬ 7 < j by omega), BitVec.getLsbD_setWidth,
      decide_eq_true (show j - 0 < 32 by omega)]
    simp
  have htop (x : Word) (c : Prop) [Decidable c] :
      (if c then setBit x 31 else clrBit x 31).getLsbD j = x.getLsbD j := by
    have h31 : j ≠ 31 := by omega
    split
    · rw [getLsbD_setBit _ (by omega), decide_eq_false h31, Bool.false_or]
    · rw [getLsbD_clrBit _ (by omega), decide_eq_false h31, Bool.not_false, Bool.true_and]
  have hif (c : Prop) [Decidable c] (x y : Word) (h : x.getLsbD j = y.getLsbD j) :
      (if c then x else y).getLsbD j = y.getLsbD j := by
    split
    · exact h
    · rfl
  have hlow : (if getBit ins 16 ≠ 0 then setBits psr 7 0 (value.setWidth 32) else psr).getLsbD j =
      if getBit ins 16 = 1 then value.getLsbD j else psr.getLsbD j := by
    simp only [getBit_ne_zero, getBit_eq_one]
    split
    · exact hbyte psr
    · rfl
  unfold psrFields
  rw [hif _ _ _ (by rw [htop, hbelow _ _ _ (by omega)]), hif _ _ _ (hbelow _ _ _ (by omega)),
    hif _ _ _ (hbelow _ _ _ (by omega)), hlow]

theorem getLsbD_statusWrite (p : ArmCore) (ins : Word) (value : Byte) {j : Nat} (hj : j < 8) :
    (armReadCpsr (armWriteCpsr p (psrFields ins (armReadCpsr p) value))).getLsbD j =
      if getBit ins 16 = 1 then value.getLsbD j else (armReadCpsr p).getLsbD j := by
  rw [← getLsbD_psrFields _ _ _ hj, armReadCpsr, armWriteCpsr, readCpsr_writeCpsr]

end ArmSimulator.Status
