import ArmSimulator.Machine.Instruction
import ArmSimulator.Storage.Bounds

/-! # What an executed instruction reports

An instruction ends with 0, with a memory failure, or with one of the two
exceptions it can raise; the latter leave the state as the fetch left it. A
memory failure is reported as 255, the `uint8_t` value of -1.
-/

namespace ArmSimulator.Exceptions

open Machine Storage Foundation.ExceptRun

/-- The report of a handler that started in `proc`. -/
def Reports (proc : ArmCore) (r : Byte × ArmCore) : Prop :=
  r.1 = 0 ∨ r.1 = 255 ∨ r.1 = 2 ∧ r.2 = proc

/-- The result of an instruction that started in `p`. -/
def Results (p : ArmCore) (r : Int × ArmCore) : Prop :=
  r.1 = 0 ∨ r.1 = 255 ∨ (r.1 = 2 ∨ r.1 = 3) ∧ r.2 = p

theorem results_handler {proc : ArmCore} {r : Byte × ArmCore} (h : Reports proc r) :
    Results proc (handlerResult r) := by
  obtain ⟨b, p⟩ := r
  rcases h with h | h | ⟨h, hp⟩
  · exact Or.inl (by rw [handlerResult, h]; rfl)
  · exact Or.inr (Or.inl (by rw [handlerResult, h]; rfl))
  · exact Or.inr (Or.inr ⟨Or.inl (by rw [handlerResult, h]; rfl), hp⟩)

/-- A report that raises no exception. -/
def Quiet (r : Byte × ArmCore) : Prop := r.1 = 0 ∨ r.1 = 255

theorem Quiet.reports {proc : ArmCore} {r : Byte × ArmCore} (h : Quiet r) : Reports proc r :=
  h.imp_right Or.inl

theorem toUint8_result {result : Int} (h : result = 0 ∨ result = -1) :
    toUint8 result = 0 ∨ toUint8 result = 255 := by
  rcases h with rfl | rfl
  · exact Or.inl rfl
  · exact Or.inr rfl

theorem quiet_memory {p : ArmCore} {result : Int} (h : result = 0 ∨ result = -1) :
    Quiet (toUint8 result, p) :=
  toUint8_result h

section Memory

variable (p : ArmCore) (a : Word)

theorem armReadByte_result (v : Byte) : Ensures (armReadByte p a v) fun r => r.1 = 0 ∨ r.1 = -1 :=
  (memoryReadByte_boundTested v).result

theorem armReadHalf_result (v : Half) : Ensures (armReadHalf p a v) fun r => r.1 = 0 ∨ r.1 = -1 :=
  (memoryReadHalf_boundTested v).result

theorem armReadWord_result (v : Word) : Ensures (armReadWord p a v) fun r => r.1 = 0 ∨ r.1 = -1 :=
  (memoryReadWord_boundTested v).result

theorem armWriteHalf_result (v : Half) :
    Ensures (armWriteHalf p a v) fun r => r.1 = 0 ∨ r.1 = -1 :=
  (memoryWriteHalf_boundTested v).result.bind fun _ h => ensures_pure h

theorem armWriteWord_result (v : Word) :
    Ensures (armWriteWord p a v) fun r => r.1 = 0 ∨ r.1 = -1 :=
  (memoryWriteWord_boundTested v).result.bind fun _ h => ensures_pure h

end Memory

/-! ## Loads and stores -/

/-- The bits L, S and H as `execute_instr_miscellaneous` combines them. -/
def miscellaneousCode (ins : Word) : Nat :=
  ((getBit ins 20 <<< 2) + (getBit ins 6 <<< 1) + getBit ins 5).toNat

/-- The codes that name an instruction. -/
def IsMiscellaneousCode (code : Nat) : Prop := code = 1 ∨ code = 2 ∨ code = 3 ∨ code = 5

instance (code : Nat) : Decidable (IsMiscellaneousCode code) :=
  inferInstanceAs (Decidable (_ ∨ _ ∨ _ ∨ _))

theorem executeInstrMiscellaneous_quiet (u : Locals) (proc : ArmCore) (ins address : Word)
    (hcode : IsMiscellaneousCode (miscellaneousCode ins)) :
    Ensures (executeInstrMiscellaneous u proc ins address) Quiet := by
  have hzero (p : ArmCore) : Quiet (0, p) := Or.inl rfl
  unfold executeInstrMiscellaneous
  simp only
  split
  · split
    · refine ensures_bind fun _ => (armWriteHalf_result _ _ _).bind fun r h => ?_
      exact ensures_pure (quiet_memory h)
    · exact ensures_pure (hzero _)
  · split
    · exact ensures_pure (hzero _)
    · refine ensures_bind fun r => ?_
      split
      · refine ensures_bind fun _ => ensures_bind fun _ => ?_
        split
        · exact ensures_pure (hzero _)
        · exact ensures_bind fun _ => ensures_pure (hzero _)
      · exact ensures_pure (hzero _)
  · split
    · exact ensures_pure (hzero _)
    · refine ensures_bind fun _ => (armWriteWord_result _ _ _).bind fun r h => ?_
      split
      · refine ensures_bind fun _ => (armWriteWord_result _ _ _).bind fun r h => ?_
        exact ensures_pure (quiet_memory h)
      · exact ensures_pure (quiet_memory h)
  · refine (armReadHalf_result _ _ _).bind fun r h => ?_
    split <;> exact ensures_bind fun _ => ensures_pure (quiet_memory h)
  · rename_i h1 h2 h3 h5
    rcases hcode with h | h | h | h
    · exact absurd h h1
    · exact absurd h h2
    · exact absurd h h3
    · exact absurd h h5

theorem executeInstrMiscellaneous_undefined (u : Locals) (proc : ArmCore) (ins address : Word)
    (hcode : ¬ IsMiscellaneousCode (miscellaneousCode ins)) :
    executeInstrMiscellaneous u proc ins address =
      .ok (toUint8 Exception.undefinedInstruction, proc) := by
  unfold executeInstrMiscellaneous
  simp only
  split
  · rename_i h
    exact absurd (Or.inl h) hcode
  · rename_i h
    exact absurd (Or.inr (Or.inl h)) hcode
  · rename_i h
    exact absurd (Or.inr (Or.inr (Or.inl h))) hcode
  · rename_i h
    exact absurd (Or.inr (Or.inr (Or.inr h))) hcode
  · rfl

theorem executeInstrMiscellaneous_reports (u : Locals) (proc : ArmCore) (ins address : Word) :
    Ensures (executeInstrMiscellaneous u proc ins address) (Reports proc) := by
  by_cases hcode : IsMiscellaneousCode (miscellaneousCode ins)
  · exact (executeInstrMiscellaneous_quiet u proc ins address hcode).mono fun _ h => h.reports
  · rw [executeInstrMiscellaneous_undefined u proc ins address hcode]
    exact ensures_ok (Or.inr (Or.inr ⟨rfl, rfl⟩))

theorem executeInstrWordByte_quiet (u : Locals) (proc : ArmCore) (ins address : Word) :
    Ensures (executeInstrWordByte u proc ins address) Quiet := by
  have hzero (p : ArmCore) : Quiet (0, p) := Or.inl rfl
  unfold executeInstrWordByte executeLdr
  simp only
  split
  · split
    · refine (armReadByte_result _ _ _).bind fun r h => ?_
      split <;> exact ensures_bind fun _ => ensures_pure (quiet_memory h)
    · refine ensures_bind fun r => ?_
      split
      · exact ensures_bind fun _ => ensures_pure (hzero _)
      · exact ensures_bind fun _ => ensures_pure (hzero _)
  · split
    · split
      · exact ensures_bind fun _ => ensures_bind fun _ => ensures_pure (hzero _)
      · exact ensures_pure (hzero _)
    · split
      · refine ensures_bind fun _ => (armWriteWord_result _ _ _).bind fun r h => ?_
        exact ensures_pure (quiet_memory h)
      · exact ensures_pure (hzero _)

theorem executeInstrWordByte_reports (u : Locals) (proc : ArmCore) (ins address : Word) :
    Ensures (executeInstrWordByte u proc ins address) (Reports proc) :=
  (executeInstrWordByte_quiet u proc ins address).mono fun _ h => h.reports

/-- The loops only ever record a memory result. -/
def Recorded (s : MultipleState) : Prop := s.res = 0 ∨ s.res = 255

theorem ldmStep_recorded (registers : Word) (s : MultipleState) (i : Nat) (h : Recorded s) :
    Ensures (ldmStep registers s i) Recorded := by
  unfold ldmStep
  simp only
  split
  · refine (armReadWord_result _ _ _).bind fun r hr => ?_
    split <;> exact ensures_bind fun _ => ensures_pure (toUint8_result hr)
  · exact ensures_ok h

theorem ldmPc_recorded (registers : Word) (s : MultipleState) (h : Recorded s) :
    Ensures (ldmPc registers s) Recorded := by
  unfold ldmPc
  split
  · refine (armReadWord_result _ _ _).bind fun r hr => ensures_bind fun _ => ?_
    exact ensures_pure (toUint8_result hr)
  · exact ensures_ok h

theorem stmStep_recorded (registers : Word) (s : MultipleState) (i : Nat) (h : Recorded s) :
    Ensures (stmStep registers s i) Recorded := by
  unfold stmStep
  split
  · refine ensures_bind fun _ => (armWriteWord_result _ _ _).bind fun r hr => ?_
    exact ensures_pure (toUint8_result hr)
  · exact ensures_ok h

theorem executeInstrMultiple_quiet (u : Locals) (proc : ArmCore)
    (ins startAddress endAddress : Word) :
    Ensures (executeInstrMultiple u proc ins startAddress endAddress) Quiet := by
  have hend (s : MultipleState) (hs : Recorded s) : Ensures (if endAddress = s.address - 4 then
      pure (s.res, s.proc) else .error .assertion : Except Stop (Byte × ArmCore)) Quiet := by
    split
    · exact ensures_pure hs
    · exact ensures_error _
  unfold executeInstrMultiple
  simp only
  split
  · refine (ensures_foldlM (fun s i => ldmStep_recorded _ s i) _ (Or.inl rfl)).bind fun s hs => ?_
    exact (ldmPc_recorded _ s hs).bind hend
  · exact (ensures_foldlM (fun s i => stmStep_recorded _ s i) _ (Or.inl rfl)).bind hend

theorem executeInstrMultiple_reports (u : Locals) (proc : ArmCore)
    (ins startAddress endAddress : Word) :
    Ensures (executeInstrMultiple u proc ins startAddress endAddress) (Reports proc) :=
  (executeInstrMultiple_quiet u proc ins startAddress endAddress).mono fun _ h => h.reports

section Handlers

variable [Host]

theorem armLoadStore_results (u : Locals) (proc : ArmCore) (ins : Word) :
    Ensures (armLoadStore u proc ins) (Results proc) := by
  have hword (a : Word) := (executeInstrWordByte_reports u proc ins a).mono
    fun _ h => results_handler h
  unfold armLoadStore
  refine ensures_bind fun rn => ensures_bind fun rm => ?_
  simp only
  split
  · refine ensures_bind fun r => Ensures.map ?_
    exact (executeInstrMiscellaneous_reports u proc ins _).mono fun _ h => results_handler h
  · exact Ensures.map (hword _)
  · split
    · exact Ensures.map (hword _)
    · exact ensures_pure (Or.inl rfl)
  · exact ensures_pure (Or.inr (Or.inr ⟨Or.inl rfl, rfl⟩))

omit [Host] in
theorem armLoadStoreMultiple_results (u : Locals) (proc : ArmCore) (ins : Word) :
    Ensures (armLoadStoreMultiple u proc ins) (Results proc) :=
  ensures_bind fun _ => Ensures.map <|
    (executeInstrMultiple_reports u proc ins _ _).mono fun _ h => results_handler h

/-! ## The other classes -/

omit [Host] in
theorem aluSwitch_ne_none {opcode : Nat} (hop : opcode < 16) (c v : Bool) (valueRn operand : Word) :
    aluSwitch opcode c v valueRn operand ≠ none := by
  rcases opcode with _ | _ | _ | _ | _ | _ | _ | _ | _ | _ | _ | _ | _ | _ | _ | _ | opcode
  all_goals first | exact Option.some_ne_none _ | omega

omit [Host] in
theorem executeInst_zero (ins : Word) (p : ArmCore) (rd : Nat) (valueRn operand : Word)
    (updateCPSR : Bool) :
    Ensures (executeInst (getBits ins 24 21).toNat p rd valueRn operand updateCPSR)
      fun r => r.1 = 0 := by
  have hlt : (getBits ins 24 21).toNat < 16 :=
    toNat_getBits_lt ins (h := 24) (l := 21) (by omega)
  unfold executeInst
  simp only
  split
  · rename_i hnone
    exact absurd hnone (aluSwitch_ne_none hlt _ _ _ _)
  · split <;> refine ensures_bind fun p' => ?_
    all_goals
      split
      · split
        · split
          · exact ensures_bind fun _ => ensures_pure rfl
          · exact ensures_pure rfl
        · exact ensures_pure rfl
      · exact ensures_pure rfl

theorem armDataProcessingShift_zero (p : ArmCore) (ins : Word) :
    Ensures (armDataProcessingShift p ins) fun r => r.1 = 0 :=
  ensures_bind fun _ => ensures_bind fun _ => ensures_bind fun _ =>
    executeInst_zero ins p _ _ _ _

theorem armDataProcessingImmediateMsr_zero (p : ArmCore) (ins : Word) :
    Ensures (armDataProcessingImmediateMsr p ins) fun r => r.1 = 0 :=
  ensures_bind fun _ => executeInst_zero ins p _ _ _ _

theorem armMiscellaneous_zero (p : ArmCore) (ins : Word) :
    Ensures (armMiscellaneous p ins) fun r => r.1 = 0 := by
  unfold armMiscellaneous
  simp only
  split
  · split
    · exact ensures_bind fun _ => ensures_pure rfl
    · exact ensures_bind fun _ => ensures_bind fun _ => ensures_pure rfl
  · split <;> exact ensures_bind fun _ => ensures_bind fun _ => ensures_pure rfl

omit [Host] in
theorem armBranch_zero (p : ArmCore) (ins : Word) :
    Ensures (armBranch p ins) fun r => r.1 = 0 := by
  have hjump (p' : ArmCore) (f : Word → Word) : Ensures (do
      let pc ← armReadRegister p' 15
      let p' ← armWriteRegister p' 15 (f pc)
      return ((0 : Int), p')) fun r => r.1 = 0 :=
    ensures_bind fun _ => ensures_bind fun _ => ensures_pure rfl
  unfold armBranch
  simp only
  split
  · exact ensures_bind fun _ => ensures_bind fun _ => hjump _ _
  · exact ensures_bind fun _ => hjump _ _

theorem armDataProcessingShift_results (p : ArmCore) (ins : Word) :
    Ensures (armDataProcessingShift p ins) (Results p) :=
  (armDataProcessingShift_zero p ins).mono fun _ => Or.inl

theorem armDataProcessingImmediateMsr_results (p : ArmCore) (ins : Word) :
    Ensures (armDataProcessingImmediateMsr p ins) (Results p) :=
  (armDataProcessingImmediateMsr_zero p ins).mono fun _ => Or.inl

theorem armMiscellaneous_results (p : ArmCore) (ins : Word) :
    Ensures (armMiscellaneous p ins) (Results p) :=
  (armMiscellaneous_zero p ins).mono fun _ => Or.inl

omit [Host] in
theorem armBranch_results (p : ArmCore) (ins : Word) :
    Ensures (armBranch p ins) (Results p) :=
  (armBranch_zero p ins).mono fun _ => Or.inl

omit [Host] in
theorem armCoprocessorOthersSwi_results (p : ArmCore) (ins : Word) :
    Ensures (armCoprocessorOthersSwi p ins) (Results p) := by
  unfold armCoprocessorOthersSwi
  split
  · split
    · exact ensures_error _
    · exact ensures_ok (Or.inr (Or.inr ⟨Or.inr rfl, rfl⟩))
  · exact ensures_ok (Or.inr (Or.inr ⟨Or.inl rfl, rfl⟩))

theorem executeClass_results (u : Locals) (p : ArmCore) (inst : Word) :
    Ensures (executeClass u p inst) (Results p) := by
  unfold executeClass
  split
  · split
    · exact armMiscellaneous_results p inst
    · split
      · exact armLoadStore_results u p inst
      · exact armDataProcessingShift_results p inst
  · split
    · exact armMiscellaneous_results p inst
    · exact armDataProcessingImmediateMsr_results p inst
  · exact armLoadStore_results u p inst
  · exact armLoadStore_results u p inst
  · exact armLoadStoreMultiple_results u p inst
  · exact ensures_ok (Or.inr (Or.inr ⟨Or.inl rfl, rfl⟩))
  · exact armBranch_results p inst
  · exact armCoprocessorOthersSwi_results p inst
  · exact ensures_ok (Or.inl rfl)

/-- Every instruction word, in every state, ends in one of the four ways. -/
theorem executeFetched_results (u : Locals) (p : ArmCore) (inst : Word) :
    Ensures (executeFetched u p inst) (Results p) := by
  unfold executeFetched
  split
  · exact ensures_ok (Or.inr (Or.inr ⟨Or.inl rfl, rfl⟩))
  · split
    · exact ensures_ok (Or.inl rfl)
    · exact executeClass_results u p inst

end Handlers

end ArmSimulator.Exceptions
