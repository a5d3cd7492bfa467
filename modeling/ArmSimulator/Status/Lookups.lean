import ArmSimulator.Decoding.Halting
import ArmSimulator.Status.Indices

/-! # Safe lookups

In a valid mode every lookup of a register selects an assigned entry of the bank table, and
every lookup of a saved status one that was never assigned. What remains to be told is when
an instruction or an entry accesses a saved status.
-/

namespace ArmSimulator.Status

open Machine RegisterFile Transfers Conditions Decoding DataProcessing Exceptions
  Foundation.ExceptRun Foundation.Recording Foundation.Recording.Recorded

def ValidMode (p : ArmCore) : Prop := ∃ m : Mode, getMode p.reg = m.bits

/-- The index of a mode and a column is in `0..496` and its entry is assigned. -/
def IndexSafe (i : ℕ × ℕ) : Prop :=
  16 ≤ i.1 ∧ modeRegisterIndex (i.1 - 16) i.2 ≤ 496 ∧
    armModeRegister (modeRegisterIndex (i.1 - 16) i.2) ≠ none

/-- A move from or to the saved status. -/
def IsSavedMove (inst : Word) : Prop := dispatch inst = .miscellaneous ∧ getBit inst 22 = 1

/-! ## The table -/

theorem indexSafe_register (m : Mode) {reg : ℕ} (hreg : reg ≤ 15) : IndexSafe (m.bits, reg) := by
  have hrange := m.bits_range
  refine ⟨hrange.1, ?_, ?_⟩
  · rw [modeRegisterIndex_eq _ _ (by omega)]
    omega
  · rw [armModeRegister_assigned _ _ (by omega) (by omega)]
    exact Option.some_ne_none _

theorem not_indexSafe_saved (mode : ℕ) : ¬ IndexSafe (mode, 17) :=
  fun h => h.2.2 (armModeRegister_unassigned _)

theorem all_modePositionIndexed_iff {P : ℕ × ℕ → Prop} {mode reg : ℕ} :
    All P (modePositionIndexed mode reg) ↔ P (mode, reg) := by
  rw [All, modePositionIndexed]
  exact List.forall_mem_singleton

/-! ## Registers -/

section Registers

variable {p : ArmCore}

theorem ValidMode.of_eq {p' : ArmCore} (h : ValidMode p) (hmode : getMode p'.reg = getMode p.reg) :
    ValidMode p' := h.imp fun _ hm => hmode.trans hm

theorem ValidMode.armWriteRegister (h : ValidMode p) (reg : ℕ) (value : Word) :
    Ensures (armWriteRegister p reg value) ValidMode :=
  (keeps_armWriteRegister p reg value).mono fun _ hp => h.of_eq hp.mode

theorem ValidMode.armWriteWord (h : ValidMode p) (address value : Word) :
    Ensures (armWriteWord p address value) fun r => ValidMode r.2 :=
  ensures_bind fun _ => ensures_pure h

theorem ValidMode.thumb (h : ValidMode p) (word : Word) :
    ValidMode (armWriteCpsr p (thumbCpsr (armReadCpsr p) word)) :=
  h.of_eq (keeps_thumbCpsr p word).mode

theorem ValidMode.banked (h : ValidMode p) : Banked p := by
  obtain ⟨m, hm⟩ := h
  exact m.bits_range.1.trans_eq hm.symm

theorem all_armReadRegisterIndexed (h : ValidMode p) (reg : ℕ) :
    All IndexSafe (armReadRegisterIndexed p reg) := by
  obtain ⟨m, hm⟩ := h
  unfold armReadRegisterIndexed readRegisterIndexed
  refine all_bind_lift_iff.mpr ?_
  split
  · exact all_pure _
  · rename_i hreg
    refine all_bind_lift_iff.mpr (all_modePositionIndexed_iff.mpr ?_)
    exact hm ▸ indexSafe_register m (not_not.mp hreg).2

theorem all_armWriteRegisterIndexed (h : ValidMode p) (reg : ℕ) (value : Word) :
    All IndexSafe (armWriteRegisterIndexed p reg value) := by
  obtain ⟨m, hm⟩ := h
  unfold armWriteRegisterIndexed writeRegisterIndexed
  refine all_bind_lift_iff.mpr ?_
  split
  · exact all_pure _
  · rename_i hreg
    refine all_bind_lift_iff.mpr (all_modePositionIndexed_iff.mpr ?_)
    exact hm ▸ indexSafe_register m (not_not.mp hreg).2

theorem yields_armReadRegister (h : ValidMode p) (reg : ℕ) :
    Yields IndexSafe (armReadRegisterIndexed p reg) fun _ => True :=
  ⟨all_armReadRegisterIndexed h reg, ensures_true _⟩

theorem yields_armWriteRegister (h : ValidMode p) (reg : ℕ) (value : Word) :
    Yields IndexSafe (armWriteRegisterIndexed p reg value) ValidMode := by
  refine ⟨all_armWriteRegisterIndexed h reg value, ?_⟩
  rw [result_armWriteRegisterIndexed]
  exact h.armWriteRegister reg value

theorem all_armReadSpsrIndexed_iff : All IndexSafe (armReadSpsrIndexed p) ↔ ¬ hasSpsr p.reg := by
  unfold armReadSpsrIndexed readSpsrIndexed
  split
  · rename_i hspsr
    exact iff_of_true (all_pure _) hspsr
  · rename_i hspsr
    refine iff_of_false (fun hall => ?_) hspsr
    exact not_indexSafe_saved _ (all_modePositionIndexed_iff.mp (all_bind_lift_iff.mp hall))

theorem all_armWriteSpsrIndexed_iff {value : Word} :
    All IndexSafe (armWriteSpsrIndexed p value) ↔ ¬ hasSpsr p.reg := by
  unfold armWriteSpsrIndexed writeSpsrIndexed
  refine all_bind_lift_iff.trans ?_
  split
  · rename_i hspsr
    exact iff_of_true (all_pure _) hspsr
  · rename_i hspsr
    refine iff_of_false (fun hall => ?_) hspsr
    exact not_indexSafe_saved _ (all_modePositionIndexed_iff.mp (all_bind_lift_iff.mp hall))

end Registers

/-! ## Instructions without a saved status -/

section Instructions

variable {p : ArmCore}

theorem yields_armFetch (h : ValidMode p) (value : Word) :
    Yields IndexSafe (armFetchIndexed p value) fun r => ValidMode r.2.2 :=
  (yields_armReadRegister (p := { p with cycleCount := p.cycleCount + 1 }) h 15).bind fun _ _ =>
    (yields_lift (ensures_true _)).bind fun _ _ =>
      (yields_armWriteRegister (p := { p with cycleCount := p.cycleCount + 1 }) h 15 _).bind
        fun _ hp => yields_pure hp

theorem yields_armBranch (h : ValidMode p) (ins : Word) :
    Yields IndexSafe (armBranchIndexed p ins) fun _ => True := by
  have hjump {p : ArmCore} (h : ValidMode p) (f : Word → Word) : Yields IndexSafe (do
      let pc ← armReadRegisterIndexed p 15
      let p ← armWriteRegisterIndexed p 15 (f pc)
      return ((0 : Int), p)) fun _ => True :=
    (yields_armReadRegister h 15).bind fun _ _ => (yields_armWriteRegister h 15 _).bind fun _ _ =>
      yields_pure trivial
  unfold armBranchIndexed
  dsimp only
  split
  · exact (yields_armReadRegister h 15).bind fun _ _ =>
      (yields_armWriteRegister h 14 _).bind fun _ hp => hjump hp _
  · exact hjump h _

theorem yields_executeInstrMiscellaneous (h : ValidMode p) (u : Locals) (ins address : Word) :
    Yields IndexSafe (executeInstrMiscellaneousIndexed u p ins address) fun _ => True := by
  unfold executeInstrMiscellaneousIndexed
  dsimp only
  split
  · split
    · exact (yields_armReadRegister h _).bind fun _ _ =>
        (yields_lift (ensures_true _)).bind fun _ _ => yields_pure trivial
    · exact yields_pure trivial
  · split
    · exact yields_pure trivial
    · refine (yields_lift (ensures_true _)).bind fun r _ => ?_
      split
      · refine (yields_armWriteRegister h _ _).bind fun p hp =>
          (yields_lift (ensures_true _)).bind fun r _ => ?_
        split
        · exact yields_pure trivial
        · exact (yields_armWriteRegister hp _ _).bind fun _ _ => yields_pure trivial
      · exact yields_pure trivial
  · split
    · exact yields_pure trivial
    · refine (yields_armReadRegister h _).bind fun value _ =>
        (yields_lift (h.armWriteWord address value)).bind fun r hr => ?_
      split
      · exact (yields_armReadRegister hr _).bind fun _ _ =>
          (yields_lift (ensures_true _)).bind fun _ _ => yields_pure trivial
      · exact yields_pure trivial
  · refine (yields_lift (ensures_true _)).bind fun r _ => ?_
    split
    · exact (yields_armWriteRegister h _ _).bind fun _ _ => yields_pure trivial
    · exact yields_pure trivial
  · exact yields_pure trivial

theorem yields_executeInstrWordByte (h : ValidMode p) (u : Locals) (ins address : Word) :
    Yields IndexSafe (executeInstrWordByteIndexed u p ins address) fun _ => True := by
  unfold executeInstrWordByteIndexed executeLdrIndexed
  dsimp only
  split
  · split
    · refine (yields_lift (ensures_true _)).bind fun r _ => ?_
      split
      · exact (yields_armWriteRegister h _ _).bind fun _ _ => yields_pure trivial
      · exact yields_pure trivial
    · refine (yields_lift (ensures_true _)).bind fun r _ => ?_
      split
      · exact (yields_armWriteRegister (h.thumb _) _ _).bind fun _ _ => yields_pure trivial
      · exact (yields_armWriteRegister h _ _).bind fun _ _ => yields_pure trivial
  · split
    · split
      · exact (yields_armReadRegister h _).bind fun _ _ =>
          (yields_lift (ensures_true _)).bind fun _ _ => yields_pure trivial
      · exact yields_pure trivial
    · split
      · exact (yields_armReadRegister h _).bind fun _ _ =>
          (yields_lift (ensures_true _)).bind fun _ _ => yields_pure trivial
      · exact yields_pure trivial

theorem yields_ldmStep (registers : Word) (s : MultipleState) (i : ℕ) (h : ValidMode s.proc) :
    Yields IndexSafe (ldmStepIndexed registers s i) fun s => ValidMode s.proc := by
  unfold ldmStepIndexed
  split
  · refine (yields_lift (ensures_true _)).bind fun r _ => ?_
    dsimp only
    split
    · exact (yields_armWriteRegister h _ _).bind fun _ hp => yields_pure hp
    · exact yields_pure h
  · exact yields_pure h

theorem yields_ldmPc (registers : Word) (s : MultipleState) (h : ValidMode s.proc) :
    Yields IndexSafe (ldmPcIndexed registers s) fun _ => True := by
  unfold ldmPcIndexed
  split
  · exact (yields_lift (ensures_true _)).bind fun r _ =>
      (yields_armWriteRegister (h.thumb _) _ _).bind fun _ _ => yields_pure trivial
  · exact yields_pure trivial

theorem yields_stmStep (registers : Word) (s : MultipleState) (i : ℕ) (h : ValidMode s.proc) :
    Yields IndexSafe (stmStepIndexed registers s i) fun s => ValidMode s.proc := by
  unfold stmStepIndexed
  split
  · exact (yields_armReadRegister h _).bind fun value _ =>
      (yields_lift (h.armWriteWord _ value)).bind fun _ hp => yields_pure hp
  · exact yields_pure h

theorem yields_executeInstrMultiple (h : ValidMode p) (u : Locals) (ins start stop : Word) :
    Yields IndexSafe (executeInstrMultipleIndexed u p ins start stop) fun _ => True := by
  have hend (s : MultipleState) : Yields IndexSafe
      (if stop = s.address - 4 then pure (s.res, s.proc) else
        (lift (.error .assertion) : Indexed (Byte × ArmCore))) fun _ => True := by
    split
    · exact yields_pure trivial
    · exact yields_lift (ensures_true _)
  unfold executeInstrMultipleIndexed
  dsimp only
  split
  · refine (yields_foldlM (yields_ldmStep _) _ ?_).bind fun s hs =>
      (yields_ldmPc _ s hs).bind fun s _ => hend s
    exact h
  · refine (yields_foldlM (yields_stmStep _) _ ?_).bind fun s _ => hend s
    exact h

variable [Host]

theorem yields_armLoadStore (h : ValidMode p) (u : Locals) (ins : Word) :
    Yields IndexSafe (armLoadStoreIndexed u p ins) fun _ => True := by
  have hmode (rn rm : Word) : Yields IndexSafe
      (addrmodeLoadStoreMiscellaneousIndexed p ins rn rm) fun _ => True := by
    refine (yields_armReadRegister h _).bind fun _ _ => ?_
    dsimp only
    split
    · exact yields_pure trivial
    · exact yields_pure trivial
  unfold armLoadStoreIndexed
  refine (yields_armReadRegister h _).bind fun rn _ =>
    (yields_armReadRegister h _).bind fun rm _ => ?_
  dsimp only
  split
  · exact (hmode rn rm).bind fun _ _ =>
      (yields_executeInstrMiscellaneous h u ins _).bind fun _ _ => yields_pure trivial
  · exact (yields_executeInstrWordByte h u ins _).bind fun _ _ => yields_pure trivial
  · split
    · exact (yields_executeInstrWordByte h u ins _).bind fun _ _ => yields_pure trivial
    · exact yields_pure trivial
  · exact yields_pure trivial

omit [Host] in
theorem yields_armLoadStoreMultiple (h : ValidMode p) (u : Locals) (ins : Word) :
    Yields IndexSafe (armLoadStoreMultipleIndexed u p ins) fun _ => True :=
  (yields_armReadRegister h _).bind fun _ _ =>
    (yields_executeInstrMultiple h u ins _ _).bind fun _ _ => yields_pure trivial

end Instructions

/-! ## Accesses to a saved status -/

section Saved

variable {p : ArmCore}

theorem hasSpsr_of_current (h : currentModeHasSpsr p.reg) : hasSpsr p.reg := by
  unfold currentModeHasSpsr at h
  unfold hasSpsr
  rcases h with h | h | h | h | h <;> rw [h] <;> decide

theorem all_read_bind_iff {α : Type} (h : ValidMode p) (reg : ℕ) {f : Word → Indexed α} {C : Prop}
    (hf : ∀ value, All IndexSafe (f value) ↔ C) :
    All IndexSafe (armReadRegisterIndexed p reg >>= f) ↔ C := by
  have hread := all_armReadRegisterIndexed h reg
  refine (all_bind_congr (fun _ => ?_) fun value _ => hf value).trans (and_iff_right hread)
  rw [result_armReadRegisterIndexed]
  exact armReadRegister_returns h.banked reg

theorem all_write_bind_iff {α : Type} (h : ValidMode p) (reg : ℕ) (value : Word)
    {f : ArmCore → Indexed α} {C : Prop}
    (hf : ∀ p', armReadCpsr p' = armReadCpsr p → (All IndexSafe (f p') ↔ C)) :
    All IndexSafe (armWriteRegisterIndexed p reg value >>= f) ↔ C := by
  have hwrite := all_armWriteRegisterIndexed h reg value
  refine (all_bind_congr (fun _ => ?_) fun p' hp' => hf p' ?_).trans (and_iff_right hwrite)
  · rw [result_armWriteRegisterIndexed]
    exact (armWriteRegister_returns h.banked reg value).mono fun _ _ => trivial
  · rw [result_armWriteRegisterIndexed] at hp'
    exact armWriteRegister_cpsr p reg value p' hp'

theorem all_executeInstIndexed_iff (h : ValidMode p) {opcode : ℕ} (hop : opcode < 16) (rd : ℕ)
    (valueRn operand : Word) (updateCPSR : Bool) :
    All IndexSafe (executeInstIndexed opcode p rd valueRn operand updateCPSR) ↔
      ¬ RestoresStatus p opcode rd updateCPSR := by
  obtain ⟨⟨res, c, v, test⟩, hr⟩ := exists_aluOf hop (armReadCpsr p) valueRn operand
  have htest : test = decide (IsTest opcode) := aluSwitch_test hr
  unfold aluOf at hr
  simp only [executeInstIndexed, hr]
  by_cases hop : IsTest opcode
  · rw [decide_eq_true hop] at htest
    subst htest
    refine iff_of_true ?_ fun hrestores => hrestores.2.2.1 hop
    simp only [Bool.not_true, Bool.false_eq_true, if_false, Bool.or_true, if_true,
      Bool.false_and]
    exact all_pure _
  · rw [decide_eq_false hop] at htest
    subst htest
    simp only [Bool.not_false, if_true, Bool.or_false, Bool.true_and, decide_eq_true_eq]
    refine all_write_bind_iff h rd res fun p' hp' => ?_
    rw [RestoresStatus, ← currentModeHasSpsr_of_eq hp']
    split
    · split
      · split
        · rename_i hupdate hpc hspsr
          refine iff_of_false (fun hall => ?_) fun hno => hno ⟨hupdate, hpc, hop, hspsr⟩
          exact all_armReadSpsrIndexed_iff.mp (all_bind_lift_iff.mp hall) (hasSpsr_of_current hspsr)
        · rename_i hspsr
          exact iff_of_true (all_pure _) fun hrestores => hspsr hrestores.2.2.2
      · rename_i hpc
        exact iff_of_true (all_pure _) fun hrestores => hpc hrestores.2.1
    · rename_i hupdate
      exact iff_of_true (all_pure _) fun hrestores => hupdate hrestores.1

theorem all_writePsrIndexed_iff (ins : Word) (value : Byte) (R : Bool) :
    All IndexSafe (writePsrIndexed p ins value R) ↔ ¬ (R ∧ hasSpsr p.reg) := by
  unfold writePsrIndexed
  cases R with
  | false => exact iff_of_true (all_pure _) fun hspsr => absurd hspsr.1 Bool.false_ne_true
  | true =>
    simp only [if_true, true_and]
    rw [all_bind_iff, all_armReadSpsrIndexed_iff]
    exact and_iff_left_of_imp fun hspsr psr _ => all_armWriteSpsrIndexed_iff.mpr hspsr

variable [Host]

theorem all_armMiscellaneousIndexed_iff (h : ValidMode p) (ins : Word) :
    All IndexSafe (armMiscellaneousIndexed p ins) ↔ ¬ (getBit ins 22 = 1 ∧ hasSpsr p.reg) := by
  have hbit : getBit ins 22 = 1 ↔ decide (getBit ins 22 ≠ 0) = true := by
    rw [decide_eq_true_iff, getBit_eq_one, getBit_ne_zero]
  rw [hbit]
  unfold armMiscellaneousIndexed
  dsimp only
  generalize decide (getBit ins 22 ≠ 0) = R
  split
  · split
    · exact all_bind_lift_iff.trans (all_writePsrIndexed_iff ins _ R)
    · exact all_read_bind_iff h _ fun value =>
        all_bind_lift_iff.trans (all_writePsrIndexed_iff ins _ R)
  · have hwrite (value : Word) : All IndexSafe
        (armWriteRegisterIndexed p (getBits ins 15 12).toNat value >>=
          fun p => pure ((0 : Int), p)) :=
      all_bind_lift_iff.mpr (all_armWriteRegisterIndexed h _ value)
    cases R with
    | false =>
      exact iff_of_true (hwrite _) fun hspsr => absurd hspsr.1 Bool.false_ne_true
    | true =>
      simp only [if_true, true_and]
      rw [all_bind_iff, all_armReadSpsrIndexed_iff]
      exact and_iff_left fun value _ => hwrite value

omit [Host] in
theorem restoresStatus_iff {ins : Word} (hd : dispatch ins = .dataProcessingShift ∨
      dispatch ins = .dataProcessingImmediateMsr) :
    RestoresStatus p (getBits ins 24 21).toNat (getBits ins 15 12).toNat
      (decide (getBit ins 20 ≠ 0)) ↔ IsStatusReturn ins ∧ currentModeHasSpsr p.reg := by
  have hbit : decide (getBit ins 20 ≠ 0) = true ↔ getBit ins 20 = 1 := by
    rw [decide_eq_true_iff, getBit_eq_one, getBit_ne_zero]
  rw [RestoresStatus, hbit]
  exact ⟨fun ⟨hs, hpc, htest, hspsr⟩ => ⟨⟨hd, hs, hpc, htest⟩, hspsr⟩,
    fun ⟨hreturn, hspsr⟩ => ⟨hreturn.update, hreturn.pc, hreturn.writes, hspsr⟩⟩

theorem all_shiftOperandIndexed (h : ValidMode p) (ins so : Word) :
    All IndexSafe (shiftOperandIndexed p ins so) := by
  unfold shiftOperandIndexed
  dsimp only
  split
  · split
    · exact all_pure _
    · exact all_bind_lift_iff.mpr (all_armReadRegisterIndexed h _)
  · exact all_pure _

/-- Only moves from and to a saved status and returns to it look one up. -/
theorem all_runIndexed_iff (h : ValidMode p) (u : Locals) (ins : Word) :
    All IndexSafe (runIndexed u p ins) ↔ ¬ (IsSavedMove ins ∧ hasSpsr p.reg) ∧
      ¬ (IsStatusReturn ins ∧ currentModeHasSpsr p.reg) := by
  have hop : (getBits ins 24 21).toNat < 16 := toNat_getBits_lt ins (h := 24) (l := 21) (by omega)
  have hother {x : Indexed (Int × ArmCore)} (hx : All IndexSafe x)
      (hmove : dispatch ins ≠ .miscellaneous) (hshift : dispatch ins ≠ .dataProcessingShift)
      (himm : dispatch ins ≠ .dataProcessingImmediateMsr) :
      All IndexSafe x ↔ ¬ (IsSavedMove ins ∧ hasSpsr p.reg) ∧
        ¬ (IsStatusReturn ins ∧ currentModeHasSpsr p.reg) :=
    iff_of_true hx ⟨fun hsaved => hmove hsaved.1.1,
      fun hreturn => hreturn.1.dispatched.elim hshift himm⟩
  unfold runIndexed
  cases hd : dispatch ins with
  | miscellaneous =>
    have hreturn : ¬ (IsStatusReturn ins ∧ currentModeHasSpsr p.reg) := by
      rintro ⟨hreturn, -⟩
      rcases hreturn.dispatched with hd' | hd' <;> rw [hd] at hd' <;> cases hd'
    rw [and_iff_left hreturn, IsSavedMove, and_iff_right hd]
    exact all_armMiscellaneousIndexed_iff h ins
  | dataProcessingShift =>
    have hmove : ¬ (IsSavedMove ins ∧ hasSpsr p.reg) := fun hmove => by
      rw [IsSavedMove, hd] at hmove
      cases hmove.1.1
    rw [and_iff_right hmove, ← restoresStatus_iff (Or.inl hd)]
    refine all_read_bind_iff h _ fun _ => all_read_bind_iff h _ fun valueRn => ?_
    refine (all_bind_congr (fun _ => ?_) fun operand _ =>
      all_executeInstIndexed_iff h hop _ _ operand _).trans (and_iff_right ?_)
    · rw [result_shiftOperandIndexed]
      exact shiftOperand_returns h.banked ins _
    · exact all_shiftOperandIndexed h ins _
  | dataProcessingImmediateMsr =>
    have hmove : ¬ (IsSavedMove ins ∧ hasSpsr p.reg) := fun hmove => by
      rw [IsSavedMove, hd] at hmove
      cases hmove.1.1
    rw [and_iff_right hmove, ← restoresStatus_iff (Or.inr hd)]
    exact all_read_bind_iff h _ fun valueRn => all_executeInstIndexed_iff h hop _ _ _ _
  | loadStore =>
    exact hother (yields_armLoadStore h u ins).1 (by simp [hd]) (by simp [hd]) (by simp [hd])
  | loadStoreMultiple =>
    exact hother (yields_armLoadStoreMultiple h u ins).1 (by simp [hd]) (by simp [hd])
      (by simp [hd])
  | branch => exact hother (yields_armBranch h ins).1 (by simp [hd]) (by simp [hd]) (by simp [hd])
  | coprocessorLoadStore =>
    exact hother (all_lift _) (by simp [hd]) (by simp [hd]) (by simp [hd])
  | coprocessorOthersSwi =>
    exact hother (all_lift _) (by simp [hd]) (by simp [hd]) (by simp [hd])

end Saved

/-! ## Entries -/

section Entries

variable {p : ArmCore}

theorem armExceptionIndexed_number (p : ArmCore) (k : Kind) :
    armExceptionIndexed p k.number =
      executeIndexed p k.needSpsr (BitVec.ofNat 32 k.mode.bits) k.count k.state k.vector := by
  cases k <;> rfl

theorem all_armExceptionIndexed_iff (h : ValidMode p) (k : Kind) :
    All IndexSafe (armExceptionIndexed p k.number) ↔ ¬ k.needSpsr := by
  rw [armExceptionIndexed_number, executeIndexed]
  refine all_read_bind_iff h 13 fun sp => all_read_bind_iff h 15 fun pc => ?_
  -- from here on the registers are those of the entered mode
  have hentered : getMode (armWriteCpsr p (entryStatus (armReadCpsr p) k).value).reg =
      k.mode.bits := (Processor.ofStatus p (entryStatus (armReadCpsr p) k)).file.mode_eq
  have hvalid {p' : ArmCore} (hmode : getMode p'.reg = k.mode.bits) : ValidMode p' :=
    ⟨k.mode, hmode⟩
  refine all_write_bind_iff (hvalid hentered) 13 sp fun p₁ hp₁ => ?_
  have hmode₁ := (getMode_of_cpsr hp₁).trans hentered
  refine all_write_bind_iff (hvalid hmode₁) 14 _ fun p₂ hp₂ => ?_
  have hmode₂ := (getMode_of_cpsr hp₂).trans hmode₁
  cases k.needSpsr with
  | false => exact iff_of_true (all_armWriteRegisterIndexed (hvalid hmode₂) 15 _) Bool.false_ne_true
  | true =>
    refine iff_of_false (fun hall => ?_) fun hno => hno rfl
    refine all_armWriteSpsrIndexed_iff.mp (all_bind_iff.mp hall).1 ?_
    rw [hasSpsr, hmode₂]
    cases k <;> decide

theorem all_armExceptionIndexed_ignored {b : Byte} (h : ∀ k : Kind, b ≠ k.number) :
    All IndexSafe (armExceptionIndexed p b) := by
  have hnumber := toNat_of_ne_number h
  unfold armExceptionIndexed
  split
  case h_8 => exact all_pure _
  all_goals omega

theorem all_raiseResultIndexed_number (h : ValidMode p) (k : Kind) :
    All IndexSafe (raiseResultIndexed (k.number.toNat, p)) ↔ ¬ k.needSpsr := by
  rw [raiseResultIndexed, if_pos (number_ne_zero k), toUint8_number]
  exact all_bind_lift_iff.trans (all_armExceptionIndexed_iff h k)

theorem all_raiseResultIndexed_quiet {r : Int × ArmCore} (h : r.1 = 0 ∨ r.1 = 255) :
    All IndexSafe (raiseResultIndexed r) := by
  obtain ⟨res, p⟩ := r
  rcases h with rfl | rfl
  · exact all_pure _
  · exact all_pure _

end Entries

/-! ## Steps -/

section Step

variable [Host] {u : Locals} {p p' : ArmCore} {res : Int} {inst : Word}

omit [Host] in
theorem needSpsr_of_raises {cpsr : Word} {k : Kind} (h : Raises res cpsr inst k) :
    k.needSpsr := by
  cases h with
  | abort _ => rfl
  | never _ _ => rfl
  | word _ _ hword =>
    unfold raises at hword
    split at hword
    · split at hword
      · exact Option.some.inj hword ▸ rfl
      · simp at hword
    · exact Option.some.inj hword ▸ rfl
    · split at hword
      · split at hword
        · simp at hword
        · exact Option.some.inj hword ▸ rfl
      · exact Option.some.inj hword ▸ rfl
    · simp at hword

omit [Host] in
theorem passes_iff_decoded (hfield : condField inst ≠ 0b1111) : Passes (armReadCpsr p) inst ↔
    ¬ (condField inst ≠ 0b1110 ∧ ¬ armDecodeCondition (condField inst) (cpsrFlags p)) := by
  have hlt : condField inst < 16 := toNat_getBits_lt inst (h := 31) (l := 28) (by omega)
  rw [not_and, not_not]
  constructor
  · rintro (hal | ⟨condition, hcode, haccepts⟩) hne
    · exact absurd hal hne
    · rw [hcode, armDecodeCondition_accepts]
      exact haccepts
  · intro h
    by_cases hal : condField inst = 0b1110
    · exact Or.inl hal
    · obtain ⟨condition, hcode⟩ := Condition.exists_code (c := condField inst) (by omega)
      have hdecoded := h hal
      rw [← hcode, armDecodeCondition_accepts] at hdecoded
      exact Or.inr ⟨condition, hcode.symm, hdecoded⟩

theorem all_fetchedIndexed_iff (h : ValidMode p') :
    All IndexSafe ((if res ≠ 0 then pure (Exception.prefetchAbort, p')
        else executeFetchedIndexed u p' inst) >>= raiseResultIndexed) ↔
      (∀ k, ¬ Raises res (armReadCpsr p') inst k) ∧
        (res = 0 → Passes (armReadCpsr p') inst → ¬ (IsSavedMove inst ∧ hasSpsr p'.reg) ∧
          ¬ (IsStatusReturn inst ∧ currentModeHasSpsr p'.reg)) := by
  have hraised {k : Kind} (hk : Raises res (armReadCpsr p') inst k) {C : Prop} :
      All IndexSafe (raiseResultIndexed (k.number.toNat, p')) ↔
        (∀ k, ¬ Raises res (armReadCpsr p') inst k) ∧ C :=
    (all_raiseResultIndexed_number h k).trans
      (iff_of_false (fun hno => hno (needSpsr_of_raises hk)) fun hno => hno.1 k hk)
  by_cases hres : res = 0
  · subst hres
    rw [if_neg fun hne => hne rfl]
    unfold executeFetchedIndexed
    by_cases hnever : condField inst = 0b1111
    · rw [if_pos hnever]
      exact hraised (k := .undefinedInstruction) (.never rfl hnever)
    · rw [if_neg hnever]
      by_cases hpass : Passes (armReadCpsr p') inst
      · rw [if_neg ((passes_iff_decoded hnever).mp hpass), all_bind_iff, result_runIndexed]
        cases hword : raises inst with
        | some k =>
          have hrun := run_raises (u := u) h.banked hword
          refine iff_of_false (fun hall => ?_) fun hno => hno.1 k (.word rfl hpass hword)
          have hraise := (all_raiseResultIndexed_number h k).mp (hall.2 _ hrun)
          exact hraise (needSpsr_of_raises (.word rfl hpass hword))
        | none =>
          have hno (k : Kind) : ¬ Raises 0 (armReadCpsr p') inst k := by
            rintro (hne | ⟨_, hfield⟩ | ⟨_, _, hsome⟩)
            · exact hne rfl
            · exact hnever hfield
            · rw [hword] at hsome
              cases hsome
          rw [and_iff_left fun r hr => all_raiseResultIndexed_quiet (run_quiet hword r hr),
            all_runIndexed_iff h, and_iff_right hno]
          exact ⟨fun hall _ _ => hall, fun hall => hall rfl hpass⟩
      · rw [if_pos (not_not.mp fun hno => hpass ((passes_iff_decoded hnever).mpr hno))]
        refine iff_of_true (all_raiseResultIndexed_quiet (Or.inl rfl))
          ⟨?_, fun _ hp => absurd hp hpass⟩
        rintro k (hne | ⟨_, hfield⟩ | ⟨_, hp, _⟩)
        · exact hne rfl
        · exact hnever hfield
        · exact hpass hp
  · rw [if_pos hres]
    exact hraised (k := .prefetchAbort) (.abort hres)

/-- A step accesses a saved status exactly where it raises an exception or runs a move from
or to it or a return. -/
theorem all_armStepIndexed_iff (h : ValidMode p) : All IndexSafe (armStepIndexed u p) ↔
    ∀ res inst p', armFetch p u.inst = .ok (res, inst, p') →
      (∀ k, ¬ Raises res (armReadCpsr p') inst k) ∧
        (res = 0 → Passes (armReadCpsr p') inst → ¬ (IsSavedMove inst ∧ hasSpsr p'.reg) ∧
          ¬ (IsStatusReturn inst ∧ currentModeHasSpsr p'.reg)) := by
  have hfetch := yields_armFetch h u.inst
  rw [armStepIndexed, armExecuteInstructionIndexed, bind_bind, all_bind_iff,
    and_iff_right hfetch.1, result_armFetchIndexed]
  have hvalid {res : Int} {inst : Word} {p' : ArmCore}
      (hr : armFetch p u.inst = .ok (res, inst, p')) : ValidMode p' :=
    hfetch.2 _ ((result_armFetchIndexed p u.inst).trans hr)
  constructor
  · intro hall res inst p' hr
    exact (all_fetchedIndexed_iff (hvalid hr)).mp (hall _ hr)
  · rintro hall ⟨res, inst, p'⟩ hr
    exact (all_fetchedIndexed_iff (hvalid hr)).mpr (hall _ _ _ hr)

end Step

end ArmSimulator.Status
