import ArmSimulator.Decoding.Dispatch

/-! # Words the decoder has no instruction for

Which words raise an exception when they run can be read off the word: the
coprocessor classes, a software interrupt, and the codes the load/store unit
does not know. Multiplies are among the latter. The words of class 011 with bit
4 set and those next to the status register moves end with 0 instead.
-/

namespace ArmSimulator.Decoding

open Machine RegisterFile Conditions Exceptions Foundation.ExceptRun

/-! ## Words that raise an exception -/

/-- The exception a word ends in when it runs, if any. -/
def raises (inst : Word) : Option Kind :=
  match dispatch inst with
  | .loadStore =>
    if (getBits inst 27 25).toNat = 0 ∧ ¬ IsMiscellaneousCode (miscellaneousCode inst) then
      some .undefinedInstruction
    else none
  | .coprocessorLoadStore => some .undefinedInstruction
  | .coprocessorOthersSwi =>
    if getBit inst 24 ≠ 0 then
      if inst &&& 0xFFFFFF = 0x123456 then none else some .softwareInterrupt
    else some .undefinedInstruction
  | _ => none

section Run

variable [Host] {u : Locals} {p : ArmCore} {inst : Word}

omit [Host] in
theorem armLoadStore_reads (inst : Word) (hmode : 16 ≤ getMode p.reg) : ∃ rn rm,
    armReadRegister p (getBits inst 19 16).toNat = .ok rn ∧
      armReadRegister p (getBits inst 3 0).toNat = .ok rm := by
  obtain ⟨rn, hrn⟩ := armReadRegister_field hmode inst (h := 19) (l := 16) (by omega) rfl
  obtain ⟨rm, hrm⟩ := armReadRegister_field hmode inst (h := 3) (l := 0) (by omega) rfl
  exact ⟨rn, rm, hrn, hrm⟩

omit [Host] in
theorem addrmodeLoadStoreMiscellaneous_ok (inst : Word) (hmode : 16 ≤ getMode p.reg)
    (rn offset : Word) :
    ∃ r, addrmodeLoadStoreMiscellaneous p inst rn offset = .ok r := by
  obtain ⟨_, rm, -, hrm⟩ := armLoadStore_reads inst hmode
  unfold addrmodeLoadStoreMiscellaneous
  rw [hrm, ok_bind]
  split <;> exact ⟨_, rfl⟩

theorem armLoadStore_undefined (hmode : 16 ≤ getMode p.reg)
    (hclass : (getBits inst 27 25).toNat = 0)
    (hcode : ¬ IsMiscellaneousCode (miscellaneousCode inst)) :
    armLoadStore u p inst = .ok (Exception.undefinedInstruction, p) := by
  obtain ⟨rn, rm, hrn, hrm⟩ := armLoadStore_reads inst hmode
  obtain ⟨r, hr⟩ := addrmodeLoadStoreMiscellaneous_ok inst hmode rn rm
  unfold armLoadStore
  rw [hrn, ok_bind, hrm, ok_bind, hclass]
  change (addrmodeLoadStoreMiscellaneous p inst rn rm >>= fun r =>
    handlerResult <$> executeInstrMiscellaneous u p inst r.1) = _
  rw [hr, ok_bind, executeInstrMiscellaneous_undefined u p inst _ hcode]
  rfl

/-- Class 011 with bit 4 set is skipped. -/
theorem armLoadStore_skipped (hclass : (getBits inst 27 25).toNat = 3) (hbit : getBit inst 4 = 1) :
    Ensures (armLoadStore u p inst) fun r => r = (0, p) := by
  have hbit4 : inst.getLsbD 4 := (getBit_eq_one inst 4).mp hbit
  have hfield : getBits inst 11 4 ≠ 0 := by
    intro h
    have h0 := getLsbD_getBits inst 11 4 0
    rw [h, hbit4] at h0
    exact absurd h0 (by decide)
  unfold armLoadStore
  refine ensures_bind fun rn => ensures_bind fun rm => ?_
  rw [hclass]
  dsimp only
  simp only [hfield, hbit, ne_eq, not_false_eq_true, not_true_eq_false, decide_false,
    Bool.false_or]
  exact ensures_pure rfl

theorem run_raises {k : Kind} (hmode : 16 ≤ getMode p.reg) (h : raises inst = some k) :
    (dispatch inst).run u p inst = .ok (k.number.toNat, p) := by
  unfold raises at h
  cases hd : dispatch inst with
  | loadStore =>
    simp only [hd] at h
    split at h
    · rename_i hcode
      rw [Option.some.injEq] at h
      subst h
      exact armLoadStore_undefined hmode hcode.1 hcode.2
    · exact absurd h (by simp)
  | coprocessorLoadStore =>
    simp only [hd, Option.some.injEq] at h
    subst h
    rfl
  | coprocessorOthersSwi =>
    simp only [hd] at h
    change armCoprocessorOthersSwi p inst = _
    unfold armCoprocessorOthersSwi
    split at h
    · rename_i hswi
      rw [if_pos hswi]
      split at h
      · exact absurd h (by simp)
      · rename_i hexit
        rw [Option.some.injEq] at h
        subst h
        rw [if_neg hexit]
        rfl
    · rename_i hcoprocessor
      rw [Option.some.injEq] at h
      subst h
      rw [if_neg hcoprocessor]
      rfl
  | miscellaneous | dataProcessingShift | dataProcessingImmediateMsr | loadStoreMultiple | branch =>
    simp [hd] at h

omit [Host] in
theorem handlerResult_quiet {r : Byte × ArmCore} (h : Quiet r) :
    (handlerResult r).1 = 0 ∨ (handlerResult r).1 = 255 := by
  obtain ⟨b, p⟩ := r
  rcases h with rfl | rfl
  · exact Or.inl rfl
  · exact Or.inr rfl

theorem run_quiet (h : raises inst = none) :
    Ensures ((dispatch inst).run u p inst) fun r => r.1 = 0 ∨ r.1 = 255 := by
  unfold raises at h
  cases hd : dispatch inst with
  | loadStore =>
    simp only [hd] at h
    split at h
    · exact absurd h (by simp)
    · rename_i hcode
      have hword (a : Word) := (executeInstrWordByte_quiet u p inst a).mono
        fun _ hr => handlerResult_quiet hr
      change Ensures (armLoadStore u p inst) _
      unfold armLoadStore
      refine ensures_bind fun rn => ensures_bind fun rm => ?_
      simp only
      split
      · rename_i hclass
        have hknown := not_not.mp (not_and.mp hcode hclass)
        refine ensures_bind fun r => Ensures.map ?_
        exact (executeInstrMiscellaneous_quiet u p inst _ hknown).mono
          fun _ hr => handlerResult_quiet hr
      · exact Ensures.map (hword _)
      · split
        · exact Ensures.map (hword _)
        · exact ensures_pure (Or.inl rfl)
      · rename_i h0 h2 h3
        rcases class_of_loadStore hd with hc | hc | hc
        · exact absurd hc h0
        · exact absurd hc h2
        · exact absurd hc h3
  | coprocessorLoadStore => simp [hd] at h
  | coprocessorOthersSwi =>
    simp only [hd] at h
    change Ensures (armCoprocessorOthersSwi p inst) _
    unfold armCoprocessorOthersSwi
    split at h
    · rename_i hswi
      rw [if_pos hswi]
      split at h
      · rename_i hexit
        rw [if_pos hexit]
        exact ensures_error _
      · exact absurd h (by simp)
    · exact absurd h (by simp)
  | miscellaneous => exact (armMiscellaneous_zero p inst).mono fun _ => Or.inl
  | dataProcessingShift => exact (armDataProcessingShift_zero p inst).mono fun _ => Or.inl
  | dataProcessingImmediateMsr =>
    exact (armDataProcessingImmediateMsr_zero p inst).mono fun _ => Or.inl
  | loadStoreMultiple =>
    exact ensures_bind fun _ => Ensures.map <|
      (executeInstrMultiple_quiet u p inst _ _).mono fun _ hr => handlerResult_quiet hr
  | branch => exact (armBranch_zero p inst).mono fun _ => Or.inl

end Run

/-! ## The unimplemented classes -/

/-- Class 011 with bit 4 set. -/
def IsUndefinedSpace (inst : Word) : Prop := (getBits inst 27 25).toNat = 3 ∧ getBit inst 4 = 1

/-- Class 000 with bits 24..23 equal to `10` and bit 20 clear, other than the moves and the
extra loads and stores. -/
def IsMiscellaneousSpace (inst : Word) : Prop :=
  (getBits inst 27 25).toNat = 0 ∧ getBits inst 24 23 = 0b10 ∧ getBit inst 20 = 0 ∧
    getBits inst 7 4 ≠ 0 ∧ ¬ IsExtraLoadStore inst

def IsMultiply (inst : Word) : Prop := getBits inst 27 24 = 0b0000 ∧ getBits inst 7 4 = 0b1001

def IsCoprocessor (inst : Word) : Prop :=
  (getBits inst 27 25).toNat = 6 ∨ getBits inst 27 24 = 0b1110

/-- The classes the simulator has no handler of its own for. -/
def IsUnimplemented (inst : Word) : Prop :=
  IsUndefinedSpace inst ∨ IsMiscellaneousSpace inst ∨ IsMultiply inst ∨ IsCoprocessor inst

section Words

variable {inst : Word}

theorem classField_eq (inst : Word) : getBits inst 27 25 = getBits (getBits inst 27 24) 3 1 :=
  (@getBits_getBits inst 27 24 3 1 (by omega) (by omega)).symm

theorem raises_multiply (h : IsMultiply inst) : raises inst = some .undefinedInstruction := by
  obtain ⟨hhigh, hlow⟩ := h
  have hclass : (getBits inst 27 25).toNat = 0 := by
    rw [classField_eq, hhigh]
    rfl
  have h24 : getBit inst 24 = 0 := by
    rw [← getBit_getBits inst (h := 27) (l := 24) (i := 0) (by omega), hhigh]
    rfl
  have hbit (i : Nat) (hi : i ≤ 3) : getBit inst (4 + i) = getBit 0b1001 i := by
    rw [← getBit_getBits inst (h := 7) (l := 4) hi, hlow]
  have h4 := hbit 0 (by omega)
  have h5 := hbit 1 (by omega)
  have h6 := hbit 2 (by omega)
  have h7 := hbit 3 (by omega)
  have hmove : ¬ IsStatusMove inst := by
    rw [isStatusMove_iff]
    intro hneg
    exact absurd (h24.symm.trans hneg.1) (by decide)
  have hdispatch : dispatch inst = .loadStore := by
    unfold dispatch
    rw [hclass]
    simp only [hmove, if_false]
    exact if_pos ⟨h4, h7⟩
  have hcode : ¬ IsMiscellaneousCode (miscellaneousCode inst) := by
    have h5' : getBit inst 5 = 0 := h5
    have h6' : getBit inst 6 = 0 := h6
    rw [miscellaneousCode, h5', h6', getBit_eq]
    cases inst.getLsbD 20 <;> decide
  unfold raises
  simp only [hdispatch, hclass, hcode, not_false_eq_true, and_self, if_true]

theorem raises_coprocessor (h : IsCoprocessor inst) : raises inst = some .undefinedInstruction := by
  rcases h with h | h
  · unfold raises dispatch
    simp only [h]
  · have hclass : (getBits inst 27 25).toNat = 7 := by
      rw [classField_eq, h]
      rfl
    have h24 : getBit inst 24 = 0 := by
      rw [← getBit_getBits inst (h := 27) (l := 24) (i := 0) (by omega), h]
      rfl
    unfold raises dispatch
    simp only [hclass, h24, ne_eq, not_true_eq_false, if_false]

variable [Host] {u : Locals} {p p' : ArmCore}

theorem run_gap (h : IsUndefinedSpace inst ∨ IsMiscellaneousSpace inst) :
    Ensures ((dispatch inst).run u p inst) fun r => r.1 = 0 := by
  rcases h with ⟨hclass, hbit⟩ | ⟨hclass, hop, hbit, -⟩
  · have hdispatch : dispatch inst = .loadStore := by
      unfold dispatch
      rw [hclass]
      rfl
    rw [hdispatch]
    exact (armLoadStore_skipped hclass hbit).mono fun r hr => hr ▸ rfl
  · have hmove : IsStatusMove inst := (isStatusMove_iff_bit20 inst).mpr ⟨hop, hbit⟩
    have hdispatch : dispatch inst = .miscellaneous := by
      unfold dispatch
      rw [hclass]
      exact if_pos hmove
    rw [hdispatch]
    exact armMiscellaneous_zero p inst

/-- The step reports an undefined instruction, and all it changes is what the fetch and
the exception entry change. -/
def Refused (u : Locals) (p p' : ArmCore) : Prop :=
  ∃ p'', armException p' Kind.undefinedInstruction.number = .ok p'' ∧ armStep u p = .ok (2, p'')

/-- Of the unimplemented words exactly the multiplies and the coprocessor instructions
are refused. -/
theorem unimplemented_iff (hfetch : armFetch p u.inst = .ok (0, inst, p'))
    (hpass : Passes (armReadCpsr p') inst) (hins : IsUnimplemented inst) :
    Refused u p p' ↔ IsMultiply inst ∨ IsCoprocessor inst := by
  have hmode := (armFetch_mode hfetch).2
  constructor
  · rintro ⟨p'', -, hstep⟩
    rw [armStep_dispatch hfetch hpass] at hstep
    obtain ⟨r, hr, hraise⟩ := bind_eq_ok.mp hstep
    have hfst : (2 : Int) = r.1 := raiseResult_fst r _ hraise
    have hgap (h : IsUndefinedSpace inst ∨ IsMiscellaneousSpace inst) : False := by
      rw [run_gap h r hr] at hfst
      exact absurd hfst (by decide)
    rcases hins with h | h | h | h
    · exact (hgap (Or.inl h)).elim
    · exact (hgap (Or.inr h)).elim
    · exact Or.inl h
    · exact Or.inr h
  · intro h
    have hraises : raises inst = some .undefinedInstruction := h.elim raises_multiply
      raises_coprocessor
    obtain ⟨p'', hentry⟩ := armException_ok hmode .undefinedInstruction
    refine ⟨p'', hentry, ?_⟩
    rw [armStep_dispatch hfetch hpass, run_raises hmode hraises, ok_bind]
    change (armException p' Kind.undefinedInstruction.number >>= fun p'' => .ok (2, p'')) = _
    rw [hentry]
    rfl

end Words

/-- `mul r0, r1, r2` -/
theorem unimplemented_mul :
    @Refused Host.x86 ⟨0, 0, 0, 0, 0, 0⟩ (program .svc #[0x91, 0x02, 0x00, 0xE0]).core
      (fetched (program .svc #[0x91, 0x02, 0x00, 0xE0])).core ↔
    IsMultiply 0xE0000291 ∨ IsCoprocessor 0xE0000291 :=
  @unimplemented_iff 0xE0000291 Host.x86 ⟨0, 0, 0, 0, 0, 0⟩ _ _ (program_fetch .svc rfl)
    (Or.inl (by decide)) (Or.inr (Or.inr (Or.inl ⟨by decide, by decide⟩)))

/-- The breakpoint of the debugger is executed as if it were nothing. -/
theorem breakpoint_is_skipped : ¬ ∀ (_ : Host) (u : Locals) (p p' : ArmCore) (inst : Word),
    armFetch p u.inst = .ok (0, inst, p') → Passes (armReadCpsr p') inst →
    IsUnimplemented inst → Refused u p p' := by
  intro h
  let host := Host.x86
  have hspace : IsUndefinedSpace 0xE7F000F0 := ⟨by decide, by decide⟩
  have hfetch := @program_fetch .svc #[0xF0, 0x00, 0xF0, 0xE7] 0 0xE7F000F0 rfl
  have hpass : Passes (armReadCpsr (fetched (program .svc #[0xF0, 0x00, 0xF0, 0xE7])).core)
      0xE7F000F0 := Or.inl (by decide)
  obtain ⟨p'', -, hstep⟩ := h host ⟨0, 0, 0, 0, 0, 0⟩ _ _ _ hfetch hpass (Or.inl hspace)
  rw [armStep_dispatch (u := ⟨0, 0, 0, 0, 0, 0⟩) hfetch hpass] at hstep
  obtain ⟨r, hr, hraise⟩ := bind_eq_ok.mp hstep
  have hfst : (2 : Int) = r.1 := raiseResult_fst r _ hraise
  rw [run_gap (Or.inl hspace) r hr] at hfst
  exact absurd hfst (by decide)

end ArmSimulator.Decoding
