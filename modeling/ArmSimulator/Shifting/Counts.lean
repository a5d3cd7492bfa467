import ArmSimulator.Foundation.Recording
import ArmSimulator.Shifting.BarrelShifter
import ArmSimulator.Transfers.Target

/-! # The counts of the shifts

The functions that shift by a count which is not a constant, once more with a record of the
counts. The results are those of the functions without it. Counts from instruction fields
are in range but for a rotation by 0, which shifts left by 32; an amount in a register is
only tested to be positive.
-/

namespace ArmSimulator.Shifting

open Machine RegisterFile Transfers Decoding DataProcessing Foundation.ExceptRun
  Foundation.Recording Foundation.Recording.Recorded

/-- A count for which C defines the shift of a 32-bit operand. -/
def InRange (n : Int) : Prop := 0 ≤ n ∧ n < 32

instance (n : Int) : Decidable (InRange n) := inferInstanceAs (Decidable (_ ∧ _))

/-- A computation of the simulator with the counts of its shifts. -/
abbrev Counted (α : Type) := Recorded Int Stop α

/-! ## The functions with their counts -/

section Functions

variable [Host]

def shlCounted (x : Word) (n : Int) : Counted Word := record n (cShl x n)

def shrCounted (x : Word) (n : Int) : Counted Word := record n (cShr x n)

def sarCounted (x : Word) (n : Int) : Counted Word := record n (cSar x n)

def asrCounted (value : Word) (shift : Byte) : Counted Word := do
  let low ← shrCounted value shift.toNat
  let high ← if getBit value 31 ≠ 0 then shlCounted (~~~0#32) (32 - shift.toNat) else pure 0
  return low ||| high

def rorCounted (value : Word) (rotation : Byte) : Counted Word := do
  let low ← shrCounted value rotation.toNat
  let high ← shlCounted value (32 - rotation.toNat)
  return low ||| high

def getShifterOperandCounted (so si : Word) (operand : Shift) : Counted Word :=
  if 0 < si.toInt then
    match operand with
    | .lsl => shlCounted so si.toInt
    | .lsr => sarCounted so si.toInt
    | .asr => asrCounted so (si.setWidth 8)
    | .ror => rorCounted so (si.setWidth 8)
  else pure so

def getShifterOperandRegisterCounted (p : ArmCore) (ins so : Word) (operand : Shift) :
    Counted Word := do
  let si ← lift (armReadRegister p (getBits ins 11 8).toNat)
  getShifterOperandCounted so si operand

def shiftOperandCounted (p : ArmCore) (ins so : Word) : Counted Word :=
  if getBit ins 4 = 0 then getShifterOperandCounted so (getBits ins 11 7) (shiftOf ins)
  else if shiftOf ins = .ror then pure so
  else getShifterOperandRegisterCounted p ins so (shiftOf ins)

def setIndexCounted (proc : ArmCore) (ins : Word) (rm : Byte) : Counted Word :=
  let shift := (getBits ins 6 5).toNat
  let shiftImm := getBits ins 11 7
  let value := rm.setWidth 32
  match shift with
  | 0 => shlCounted value shiftImm.toNat
  | 1 => if shiftImm ≠ 0 then sarCounted value shiftImm.toNat else pure 0
  | 2 => if shiftImm ≠ 0 then asrCounted value (shiftImm.setWidth 8)
    else pure (if getBit value 31 ≠ 0 then 0xFFFFFFFF else 0)
  | 3 => if shiftImm ≠ 0 then rorCounted value (shiftImm.setWidth 8)
    else do
      let carry ← shlCounted (getBit (armReadCpsr proc) 29) 31
      let low ← sarCounted value 1
      return carry ||| low
  | _ => pure 0

/-! ## The handlers with their counts -/

def armDataProcessingShiftCounted (p : ArmCore) (ins : Word) : Counted (Int × ArmCore) := do
  let (valueRn, so) ← lift (shiftInputs p ins)
  let operand ← shiftOperandCounted p ins so
  lift (execute p ins (valueRn, operand))

def armDataProcessingImmediateMsrCounted (p : ArmCore) (ins : Word) :
    Counted (Int × ArmCore) := do
  let operand ← rorCounted (getBits ins 7 0) ((2 * getBits ins 11 8).setWidth 8)
  lift do
    let valueRn ← armReadRegister p (rn ins)
    execute p ins (valueRn, operand)

def armMiscellaneousCounted (p : ArmCore) (ins : Word) : Counted (Int × ArmCore) :=
  if getBits ins 21 20 = 0b10 ∧ getBit ins 25 ≠ 0 then do
    let immediate : Byte := (getBits ins 7 0).setWidth 8
    let immediate ← rorCounted (immediate.setWidth 32) ((2 * getBits ins 11 8).setWidth 8)
    lift do
      let p ← writePsr p ins (immediate.setWidth 8) (getBit ins 22 ≠ 0)
      return (0, p)
  else lift (armMiscellaneous p ins)

/-- Only the scaled offsets of class 011 shift. -/
def armLoadStoreCounted (u : Locals) (p : ArmCore) (ins : Word) : Counted (Int × ArmCore) :=
  if (getBits ins 27 25).toNat = 3 then do
    let rn ← lift (armReadRegister p (getBits ins 19 16).toNat)
    let rm ← lift (armReadRegister p (getBits ins 3 0).toNat)
    let a : Bool := ¬ getBits ins 11 4 ≠ 0
    if a || (!(getBit ins 4 ≠ 0 : Bool) && (pBit ins || !wBit ins)) then
      let add ← if a then pure rm else setIndexCounted p ins (rm.setWidth 8)
      lift (perform u p ins (.wordByte (addrmodeLoadStore p ins u.address rn add).1))
    else return (0, p)
  else lift (armLoadStore u p ins)

/-- The other handlers do not shift with these functions. -/
def runCounted (u : Locals) (p : ArmCore) (ins : Word) : Counted (Int × ArmCore) :=
  match dispatch ins with
  | .dataProcessingShift => armDataProcessingShiftCounted p ins
  | .dataProcessingImmediateMsr => armDataProcessingImmediateMsrCounted p ins
  | .miscellaneous => armMiscellaneousCounted p ins
  | .loadStore => armLoadStoreCounted u p ins
  | handler => lift (handler.run u p ins)

end Functions

/-! ## Without the record -/

section Results

variable [Host] {u : Locals} {p : ArmCore} {ins : Word}

theorem result_asrCounted (value : Word) (shift : Byte) :
    (asrCounted value shift).result = .ok (asr value shift) := by
  unfold asrCounted asr
  split <;> rfl

theorem result_rorCounted (value : Word) (rotation : Byte) :
    (rorCounted value rotation).result = .ok (ror value rotation) := rfl

theorem result_getShifterOperandCounted (so si : Word) (operand : Shift) :
    (getShifterOperandCounted so si operand).result = .ok (getShifterOperand so si operand) := by
  unfold getShifterOperandCounted getShifterOperand
  split
  · cases operand with
    | asr => exact result_asrCounted so _
    | _ => rfl
  · rfl

theorem result_shiftOperandCounted (p : ArmCore) (ins so : Word) :
    (shiftOperandCounted p ins so).result = shiftOperand p ins so := by
  rw [shiftOperand_eq]
  unfold shiftOperandCounted
  split
  · exact result_getShifterOperandCounted so _ _
  · split
    · rfl
    · rw [getShifterOperandRegisterCounted, getShifterOperandRegister, result_bind, result_lift]
      exact congrArg _ (funext fun si => result_getShifterOperandCounted so si _)

theorem result_setIndexCounted (p : ArmCore) (ins : Word) (rm : Byte) :
    (setIndexCounted p ins rm).result = .ok (setIndex p ins rm) := by
  have hcarry (x : Word) : cShl x 31 = x <<< 31 := cShl_eq x (n := 31) (by decide)
  unfold setIndexCounted setIndex
  dsimp only
  rw [← hcarry]
  generalize (getBits ins 6 5).toNat = shift
  by_cases himm : getBits ins 11 7 ≠ 0
  · simp only [if_pos himm]
    rcases shift with _ | _ | _ | _ | shift
    · rfl
    · rfl
    · exact result_asrCounted _ _
    · rfl
    · rfl
  · simp only [if_neg himm]
    rcases shift with _ | _ | _ | _ | shift <;> rfl

/-- The handler the decoder calls, with and without the record. -/
theorem result_runCounted (u : Locals) (p : ArmCore) (ins : Word) :
    (runCounted u p ins).result = (dispatch ins).run u p ins := by
  unfold runCounted
  cases dispatch ins with
  | dataProcessingShift =>
    simp only [armDataProcessingShiftCounted, result_bind, result_lift, result_shiftOperandCounted,
      Handler.run, armDataProcessingShift_operands, shiftOperands, bind_assoc, pure_bind]
  | dataProcessingImmediateMsr =>
    simp only [armDataProcessingImmediateMsrCounted, result_bind, result_rorCounted, result_lift,
      ok_bind, Handler.run, armDataProcessingImmediateMsr_operands, immediateOperands, bind_assoc,
      pure_bind]
  | miscellaneous =>
    simp only [armMiscellaneousCounted, Handler.run]
    split
    · rename_i hmsr
      simp only [result_bind, result_rorCounted, result_lift, ok_bind, armMiscellaneous,
        if_pos hmsr.1, if_pos hmsr.2]
    · rfl
  | loadStore =>
    simp only [armLoadStoreCounted, Handler.run]
    split
    · rename_i hclass
      simp only [result_bind, result_lift, armLoadStore_target, target, hclass, bind_assoc]
      refine congrArg _ (funext fun rn => congrArg _ (funext fun rm => ?_))
      split
      · split
        · rfl
        · rw [result_bind, result_setIndexCounted, ok_bind]
          rfl
      · rfl
    · rfl
  | _ => rfl

end Results

/-! ## The counts of the functions -/

section Counts

variable [Host] {p : ArmCore} {ins : Word}

theorem all_asrCounted_iff (value : Word) (shift : Byte) : All InRange (asrCounted value shift) ↔
    shift.toNat < 32 ∧ (value.msb → shift.toNat ≠ 0) := by
  have hsign : getBit value 31 ≠ 0 ↔ value.msb := by
    rw [getBit_ne_zero, BitVec.msb_eq_getLsbD_last]
  have hlast (low : Word) (x : Counted Word) :
      All InRange (x >>= fun high => pure (low ||| high)) ↔ All InRange x :=
    all_bind_lift_iff
  rw [asrCounted, all_bind_iff, shrCounted, all_record_iff, result_record, InRange]
  simp only [hsign, Except.ok.injEq, forall_eq']
  split
  · rename_i hmsb
    rw [hlast, shlCounted, all_record_iff, InRange, forall_prop_of_true hmsb]
    omega
  · rename_i hmsb
    rw [hlast, and_iff_left (all_pure _), and_iff_left fun h => absurd h hmsb]
    omega

theorem all_rorCounted_iff (value : Word) (rotation : Byte) :
    All InRange (rorCounted value rotation) ↔ rotation.toNat ≠ 0 ∧ rotation.toNat < 32 := by
  have hlast (low : Word) (x : Counted Word) :
      All InRange (x >>= fun high => pure (low ||| high)) ↔ All InRange x :=
    all_bind_lift_iff
  rw [rorCounted, all_bind_iff, shrCounted, all_record_iff, result_record, InRange]
  simp only [hlast, Except.ok.injEq, forall_eq']
  rw [shlCounted, all_record_iff, InRange]
  omega

/-- The amounts in a register whose counts are in range, for an operand `x`. -/
def AmountFits (shift : Shift) (x r : Word) : Prop :=
  0 < r.toInt → match shift with
    | .lsl | .lsr => r.toInt < 32
    | .asr => r.toNat % 256 < 32 ∧ (x.msb → r.toNat % 256 ≠ 0)
    | .ror => r.toNat % 256 ≠ 0 ∧ r.toNat % 256 < 32

theorem all_getShifterOperandCounted_iff (so si : Word) (operand : Shift) :
    All InRange (getShifterOperandCounted so si operand) ↔ AmountFits operand so si := by
  have hbyte : (si.setWidth 8).toNat = si.toNat % 256 := BitVec.toNat_setWidth 8 si
  unfold getShifterOperandCounted AmountFits
  split
  · rename_i hpos
    rw [forall_prop_of_true hpos]
    cases operand with
    | lsl => exact all_record_iff.trans (and_iff_right hpos.le)
    | lsr => exact all_record_iff.trans (and_iff_right hpos.le)
    | asr => exact (all_asrCounted_iff so _).trans (by rw [hbyte])
    | ror => exact (all_rorCounted_iff so _).trans (by rw [hbyte])
  · rename_i hpos
    exact iff_of_true (all_pure so) fun h => absurd h hpos

omit [Host] in
theorem amountFits_field (shift : Shift) (x ins : Word) :
    AmountFits shift x (getBits ins 11 7) := by
  have hlt : (getBits ins 11 7).toNat < 32 := toNat_getBits_lt ins (h := 11) (l := 7) (by omega)
  generalize getBits ins 11 7 = k at hlt
  have hint : k.toInt = k.toNat := BitVec.toInt_eq_toNat_of_lt (by omega)
  intro hpos
  cases shift with
  | lsl => omega
  | lsr => omega
  | asr => exact ⟨by omega, fun _ => by omega⟩
  | ror => exact ⟨by omega, by omega⟩

theorem all_setIndexCounted (p : ArmCore) (ins : Word) (rm : Byte) :
    All InRange (setIndexCounted p ins rm) := by
  have hlt : (getBits ins 11 7).toNat < 32 := toNat_getBits_lt ins (h := 11) (l := 7) (by omega)
  have hbyte : ((getBits ins 11 7).setWidth 8).toNat = (getBits ins 11 7).toNat := by
    rw [BitVec.toNat_setWidth, Nat.mod_eq_of_lt (by omega)]
  have hne (h : getBits ins 11 7 ≠ 0) : (getBits ins 11 7).toNat ≠ 0 := fun hzero =>
    h (BitVec.eq_of_toNat_eq hzero)
  have hrange : InRange (getBits ins 11 7).toNat := ⟨by omega, by omega⟩
  unfold setIndexCounted
  dsimp only
  split
  · exact all_record_iff.mpr hrange
  · split
    · exact all_record_iff.mpr hrange
    · exact all_pure _
  · split
    · rename_i himm
      exact (all_asrCounted_iff _ _).mpr ⟨by omega, fun _ => by rw [hbyte]; exact hne himm⟩
    · exact all_pure _
  · split
    · rename_i himm
      exact (all_rorCounted_iff _ _).mpr ⟨by rw [hbyte]; exact hne himm, by omega⟩
    · refine all_bind_iff.mpr ⟨all_record_iff.mpr (by decide), fun carry _ => ?_⟩
      exact all_bind_lift_iff.mpr (all_record_iff.mpr (by decide))
  · exact all_pure _

theorem all_shiftOperandCounted_iff (p : ArmCore) (ins so : Word) :
    All InRange (shiftOperandCounted p ins so) ↔ (getBit ins 4 ≠ 0 → shiftOf ins ≠ .ror →
      ∀ r, armReadRegister p (getBits ins 11 8).toNat = .ok r → AmountFits (shiftOf ins) so r) := by
  unfold shiftOperandCounted
  split
  · rename_i hfield
    refine iff_of_true ?_ fun hregister => absurd hfield hregister
    exact (all_getShifterOperandCounted_iff so _ _).mpr (amountFits_field _ so ins)
  · rename_i hregister
    rw [forall_prop_of_true hregister]
    split
    · rename_i hror
      exact iff_of_true (all_pure so) fun hother => absurd hror hother
    · rename_i hother
      rw [forall_prop_of_true hother, getShifterOperandRegisterCounted, all_lift_bind_iff]
      simp only [all_getShifterOperandCounted_iff]

theorem all_rotation_iff (value : Word) (ins : Word) :
    All InRange (rorCounted value ((2 * getBits ins 11 8).setWidth 8)) ↔ getBits ins 11 8 ≠ 0 := by
  have hlt : (getBits ins 11 8).toNat < 16 := toNat_getBits_lt ins (h := 11) (l := 8) (by omega)
  have htwo : ((2 * getBits ins 11 8).setWidth 8).toNat = 2 * (getBits ins 11 8).toNat := by
    rw [BitVec.toNat_setWidth, BitVec.toNat_mul]
    change 2 * (getBits ins 11 8).toNat % 2 ^ 32 % 2 ^ 8 = _
    omega
  have hzero : getBits ins 11 8 ≠ 0 ↔ (getBits ins 11 8).toNat ≠ 0 :=
    not_congr BitVec.toNat_inj.symm
  rw [all_rorCounted_iff, htwo, hzero]
  omega

end Counts

/-! ## Instructions -/

/-- The shifts of an instruction have counts in range. -/
def CountsFit (p : ArmCore) (ins : Word) : Prop :=
  match dispatch ins with
  | .dataProcessingShift =>
    ∀ operands, shiftInputs p ins = .ok operands → getBit ins 4 ≠ 0 → shiftOf ins ≠ .ror →
      ∀ r, armReadRegister p (getBits ins 11 8).toNat = .ok r →
        AmountFits (shiftOf ins) operands.2 r
  | .dataProcessingImmediateMsr => getBits ins 11 8 ≠ 0
  | .miscellaneous => getBits ins 21 20 = 0b10 → getBit ins 25 ≠ 0 → getBits ins 11 8 ≠ 0
  | _ => True

section Instructions

variable [Host] {u : Locals} {p : ArmCore} {ins : Word}

theorem all_armLoadStoreCounted (u : Locals) (p : ArmCore) (ins : Word) :
    All InRange (armLoadStoreCounted u p ins) := by
  unfold armLoadStoreCounted
  split
  · refine all_lift_bind_iff.mpr fun rn _ => all_lift_bind_iff.mpr fun rm _ => ?_
    dsimp only
    split
    · split
      · exact all_lift_bind_iff.mpr fun _ _ => all_lift _
      · exact all_bind_lift_iff.mpr (all_setIndexCounted p ins _)
    · exact all_pure _
  · exact all_lift _

theorem all_runCounted_iff (u : Locals) (p : ArmCore) (ins : Word) :
    All InRange (runCounted u p ins) ↔ CountsFit p ins := by
  unfold runCounted CountsFit
  cases dispatch ins with
  | dataProcessingShift =>
    dsimp only
    rw [armDataProcessingShiftCounted, all_lift_bind_iff]
    simp only [all_bind_lift_iff, all_shiftOperandCounted_iff]
  | dataProcessingImmediateMsr =>
    exact all_bind_lift_iff.trans (all_rotation_iff _ ins)
  | miscellaneous =>
    dsimp only
    unfold armMiscellaneousCounted
    split
    · rename_i hmsr
      rw [forall_prop_of_true hmsr.1, forall_prop_of_true hmsr.2]
      exact all_bind_lift_iff.trans (all_rotation_iff _ ins)
    · rename_i hother
      exact iff_of_true (all_lift _) fun hmove himm => absurd ⟨hmove, himm⟩ hother
  | loadStore => exact iff_of_true (all_armLoadStoreCounted u p ins) trivial
  | _ => exact iff_of_true (all_lift _) trivial

end Instructions

/-! ## Machines -/

section Machines

variable (h h' : Host) {u : Locals} {p : ArmCore} {ins : Word}

theorem shlCounted_agree (x : Word) (n : Int) :
    Agree InRange (@shlCounted h x n) (@shlCounted h' x n) :=
  agree_record fun hrange => by
    rw [InRange] at hrange
    simp only [cShl, if_pos hrange]

theorem shrCounted_agree (x : Word) (n : Int) :
    Agree InRange (@shrCounted h x n) (@shrCounted h' x n) :=
  agree_record fun hrange => by
    rw [InRange] at hrange
    simp only [cShr, if_pos hrange]

theorem sarCounted_agree (x : Word) (n : Int) :
    Agree InRange (@sarCounted h x n) (@sarCounted h' x n) :=
  agree_record fun hrange => by
    rw [InRange] at hrange
    simp only [cSar, if_pos hrange]

theorem asrCounted_agree (value : Word) (shift : Byte) :
    Agree InRange (@asrCounted h value shift) (@asrCounted h' value shift) := by
  unfold asrCounted
  refine (shrCounted_agree h h' _ _).bind fun low => ?_
  dsimp only
  split
  · exact (shlCounted_agree h h' _ _).bind fun high => agree_refl _
  · exact agree_refl _

theorem rorCounted_agree (value : Word) (rotation : Byte) :
    Agree InRange (@rorCounted h value rotation) (@rorCounted h' value rotation) := by
  unfold rorCounted
  exact (shrCounted_agree h h' _ _).bind fun low =>
    (shlCounted_agree h h' _ _).bind fun high => agree_refl _

theorem getShifterOperandCounted_agree (so si : Word) (operand : Shift) :
    Agree InRange (@getShifterOperandCounted h so si operand)
      (@getShifterOperandCounted h' so si operand) := by
  unfold getShifterOperandCounted
  split
  · cases operand with
    | lsl => exact shlCounted_agree h h' _ _
    | lsr => exact sarCounted_agree h h' _ _
    | asr => exact asrCounted_agree h h' _ _
    | ror => exact rorCounted_agree h h' _ _
  · exact agree_refl _

theorem shiftOperandCounted_agree (p : ArmCore) (ins so : Word) :
    Agree InRange (@shiftOperandCounted h p ins so) (@shiftOperandCounted h' p ins so) := by
  unfold shiftOperandCounted getShifterOperandRegisterCounted
  split
  · exact getShifterOperandCounted_agree h h' _ _ _
  · split
    · exact agree_refl _
    · exact (agree_refl _).bind fun si => getShifterOperandCounted_agree h h' _ _ _

theorem setIndexCounted_agree (p : ArmCore) (ins : Word) (rm : Byte) :
    Agree InRange (@setIndexCounted h p ins rm) (@setIndexCounted h' p ins rm) := by
  unfold setIndexCounted
  dsimp only
  split
  · exact shlCounted_agree h h' _ _
  · split
    · exact sarCounted_agree h h' _ _
    · exact agree_refl _
  · split
    · exact asrCounted_agree h h' _ _
    · exact agree_refl _
  · split
    · exact rorCounted_agree h h' _ _
    · exact (shlCounted_agree h h' _ _).bind fun carry =>
        (sarCounted_agree h h' _ _).bind fun low => agree_refl _
  · exact agree_refl _

theorem armMiscellaneousCounted_agree (p : ArmCore) (ins : Word) :
    Agree InRange (@armMiscellaneousCounted h p ins) (@armMiscellaneousCounted h' p ins) := by
  unfold armMiscellaneousCounted
  split
  · exact (rorCounted_agree h h' _ _).bind fun immediate => agree_refl _
  · rename_i hother
    have hsame : @armMiscellaneous h p ins = @armMiscellaneous h' p ins := by
      unfold armMiscellaneous
      dsimp only
      split
      · rename_i hmove
        rw [if_neg fun himm => hother ⟨hmove, himm⟩, if_neg fun himm => hother ⟨hmove, himm⟩]
      · rfl
    rw [hsame]
    exact agree_refl _

theorem armLoadStoreCounted_agree (u : Locals) (p : ArmCore) (ins : Word) :
    Agree InRange (@armLoadStoreCounted h u p ins) (@armLoadStoreCounted h' u p ins) := by
  unfold armLoadStoreCounted
  split
  · refine (agree_refl _).bind fun rn => (agree_refl _).bind fun rm => ?_
    dsimp only
    split
    · split
      · exact agree_refl _
      · exact (setIndexCounted_agree h h' _ _ _).bind fun add => agree_refl _
    · exact agree_refl _
  · rename_i hclass
    have hsame : @armLoadStore h u p ins = @armLoadStore h' u p ins := by
      unfold armLoadStore
      refine congrArg _ (funext fun rn => congrArg _ (funext fun rm => ?_))
      dsimp only
      split
      · rfl
      · rfl
      · rename_i hthree
        exact absurd hthree hclass
      · rfl
    rw [hsame]
    exact agree_refl _

theorem runCounted_agree (u : Locals) (p : ArmCore) (ins : Word) :
    Agree InRange (@runCounted h u p ins) (@runCounted h' u p ins) := by
  unfold runCounted
  cases dispatch ins with
  | dataProcessingShift =>
    exact (agree_refl _).bind fun inputs =>
      (shiftOperandCounted_agree h h' _ _ _).bind fun operand => agree_refl _
  | dataProcessingImmediateMsr =>
    exact (rorCounted_agree h h' _ _).bind fun operand => agree_refl _
  | miscellaneous => exact armMiscellaneousCounted_agree h h' p ins
  | loadStore => exact armLoadStoreCounted_agree h h' u p ins
  | _ => exact agree_refl _

end Machines

/-- Every shift of the instruction has a count in range, and its outcome is that of any
machine. -/
structure ShiftsDefined (h : Host) (u : Locals) (p : ArmCore) (ins : Word) : Prop where
  counts : All InRange (@runCounted h u p ins)
  outcome : ∀ h' : Host, @Handler.run h' u p ins (dispatch ins) =
    @Handler.run h u p ins (dispatch ins)

/-- The counts stay in range except in rotations of immediate operands by 0 and in shifts by
large amounts in registers, or by a multiple of 256 in the case of ASR. -/
theorem shiftsDefined_iff (h : Host) (u : Locals) (p : ArmCore) (ins : Word) :
    ShiftsDefined h u p ins ↔ CountsFit p ins := by
  rw [← all_runCounted_iff u p ins]
  refine ⟨fun hdefined => hdefined.counts, fun hcounts => ⟨hcounts, fun h' => ?_⟩⟩
  have hsame := congrArg Recorded.result (runCounted_agree h h' u p ins hcounts)
  rw [@result_runCounted h u p ins, @result_runCounted h' u p ins] at hsame
  exact hsame.symm

/-- `mov r0, #1` shifts left by 32. -/
theorem shifts_undefined : ¬ ∀ (h : Host) (u : Locals) (p : ArmCore) (ins : Word),
    ShiftsDefined h u p ins := by
  intro h
  let host := Host.x86
  have hcounts := (h host ⟨0, 0, 0, 0, 0, 0⟩ (program .usr #[]).core 0xE3A00001).counts
  rw [all_runCounted_iff] at hcounts
  have hrotation : getBits 0xE3A00001 11 8 ≠ 0 := hcounts
  exact absurd hrotation (by decide)

end ArmSimulator.Shifting
