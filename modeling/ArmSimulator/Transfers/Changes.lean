import ArmSimulator.Exceptions.Outcome
import ArmSimulator.Transfers.Target

/-! # What loads and stores change

Whatever their accesses return, the handlers write memory, the registers they
load, and bit 5 of the status. The updated base of the addressing modes is not
among these.
-/

namespace ArmSimulator.Transfers

open Machine Exceptions Foundation.ExceptRun

/-- The states reached by writes of memory, of bit 5 of the status and of the registers
`written`. -/
inductive Changes (written : Nat → Prop) (p : ArmCore) : ArmCore → Prop where
  | none : Changes written p p
  | memory {p' : ArmCore} (h : Changes written p p') (mem : Memory) :
      Changes written p { p' with mem }
  | thumb {p' : ArmCore} (h : Changes written p p') (word : Word) :
      Changes written p (armWriteCpsr p' (thumbCpsr (armReadCpsr p') word))
  | register {p' p'' : ArmCore} (h : Changes written p p') {reg : Nat} {value : Word}
      (hreg : written reg) (hwrite : armWriteRegister p' reg value = .ok p'') :
      Changes written p p''

section Changes

variable {written : Nat → Prop} {p p' : ArmCore}

theorem Changes.writeRegister (h : Changes written p p') {reg : Nat} (hreg : written reg)
    (value : Word) : Ensures (armWriteRegister p' reg value) (Changes written p) :=
  fun _ hwrite => h.register hreg hwrite

theorem Changes.writeByte (h : Changes written p p') (address : Word) (value : Byte) :
    Ensures (armWriteByte p' address value) fun r => Changes written p r.2 :=
  ensures_bind fun r => ensures_pure (h.memory r.2)

theorem Changes.writeHalf (h : Changes written p p') (address : Word) (value : Half) :
    Ensures (armWriteHalf p' address value) fun r => Changes written p r.2 :=
  ensures_bind fun r => ensures_pure (h.memory r.2)

theorem Changes.writeWord (h : Changes written p p') (address : Word) (value : Word) :
    Ensures (armWriteWord p' address value) fun r => Changes written p r.2 :=
  ensures_bind fun r => ensures_pure (h.memory r.2)

end Changes

/-- The registers a load writes at its target. -/
def Loads (ins : Word) : Target → Nat → Prop
  | .miscellaneous _, reg =>
    miscellaneousCode ins = 5 ∧ reg = (getBits ins 15 12).toNat ∨ miscellaneousCode ins = 2 ∧
      (reg = (getBits ins 15 12).toNat ∨ reg = (getBits ins 15 12).toNat + 1)
  | .wordByte _, reg => getBit ins 20 ≠ 0 ∧ reg = (getBits ins 15 12).toNat
  | _, _ => False

/-- The registers a block transfer writes. -/
def LoadsListed (ins : Word) (reg : Nat) : Prop :=
  getBit ins 20 ≠ 0 ∧ getBit (getBits ins 15 0) reg ≠ 0

section Handlers

variable (u : Locals) (p : ArmCore) (ins : Word)

theorem executeInstrMiscellaneous_changes (address : Word) :
    Ensures (executeInstrMiscellaneous u p ins address)
      fun r => Changes (Loads ins (.miscellaneous address)) p r.2 := by
  have hnone : Changes (Loads ins (.miscellaneous address)) p p := .none
  have hsame {b : Byte} : Ensures (pure (b, p) : Except Stop (Byte × ArmCore))
      fun r => Changes (Loads ins (.miscellaneous address)) p r.2 := ensures_pure hnone
  unfold executeInstrMiscellaneous
  simp only
  split
  · split
    · exact ensures_bind fun _ => (hnone.writeHalf _ _).bind fun _ h => ensures_pure h
    · exact hsame
  · rename_i hcode
    have hfirst : Loads ins (.miscellaneous address) (getBits ins 15 12).toNat :=
      Or.inr ⟨hcode, Or.inl rfl⟩
    have hsecond : Loads ins (.miscellaneous address) ((getBits ins 15 12).toNat + 1) :=
      Or.inr ⟨hcode, Or.inr rfl⟩
    split
    · exact hsame
    · refine ensures_bind fun r => ?_
      split
      · refine (hnone.writeRegister hfirst _).bind fun p₁ h₁ =>
          ensures_bind fun r => ?_
        split
        · exact ensures_pure h₁
        · exact (h₁.writeRegister hsecond _).bind fun _ h₂ => ensures_pure h₂
      · exact hsame
  · split
    · exact hsame
    · refine ensures_bind fun _ => (hnone.writeWord _ _).bind fun r h₁ => ?_
      split
      · exact ensures_bind fun _ => (h₁.writeWord _ _).bind fun _ h₂ => ensures_pure h₂
      · exact ensures_pure h₁
  · rename_i hcode
    have hload : Loads ins (.miscellaneous address) (getBits ins 15 12).toNat :=
      Or.inl ⟨hcode, rfl⟩
    refine ensures_bind fun r => ?_
    split
    · exact (hnone.writeRegister hload _).bind fun _ h => ensures_pure h
    · exact hsame
  · exact hsame

theorem executeInstrWordByte_changes (address : Word) :
    Ensures (executeInstrWordByte u p ins address)
      fun r => Changes (Loads ins (.wordByte address)) p r.2 := by
  have hnone : Changes (Loads ins (.wordByte address)) p p := .none
  have hsame {b : Byte} : Ensures (pure (b, p) : Except Stop (Byte × ArmCore))
      fun r => Changes (Loads ins (.wordByte address)) p r.2 := ensures_pure hnone
  unfold executeInstrWordByte executeLdr
  simp only
  split
  · rename_i hl
    have hload : Loads ins (.wordByte address) (getBits ins 15 12).toNat :=
      ⟨of_decide_eq_true hl, rfl⟩
    split
    · refine ensures_bind fun r => ?_
      split
      · exact (hnone.writeRegister hload _).bind fun _ h => ensures_pure h
      · exact hsame
    · refine ensures_bind fun r => ?_
      split
      · exact ((hnone.thumb r.2).writeRegister hload _).bind fun _ h => ensures_pure h
      · exact (hnone.writeRegister hload _).bind fun _ h => ensures_pure h
  · split
    · split
      · exact ensures_bind fun _ => (hnone.writeByte _ _).bind fun _ h => ensures_pure h
      · exact hsame
    · split
      · exact ensures_bind fun _ => (hnone.writeWord _ _).bind fun _ h => ensures_pure h
      · exact hsame

theorem perform_changes (t : Target) :
    Ensures (perform u p ins t) fun r => Changes (Loads ins t) p r.2 := by
  cases t with
  | miscellaneous address =>
    exact Ensures.map ((executeInstrMiscellaneous_changes u p ins address).mono fun _ h => h)
  | wordByte address =>
    exact Ensures.map ((executeInstrWordByte_changes u p ins address).mono fun _ h => h)
  | skipped => exact ensures_ok .none
  | undefined => exact ensures_ok .none

variable {u p ins}

theorem ldmStep_changes (hl : getBit ins 20 ≠ 0) (s : MultipleState) (i : Nat)
    (h : Changes (LoadsListed ins) p s.proc) :
    Ensures (ldmStep (getBits ins 15 0) s i) fun s' => Changes (LoadsListed ins) p s'.proc := by
  unfold ldmStep
  simp only
  split
  · rename_i hstep
    refine ensures_bind fun r => ?_
    split
    · exact (h.writeRegister ⟨hl, hstep.2⟩ _).bind fun _ hs => ensures_pure hs
    · exact ensures_pure h
  · exact ensures_ok h

theorem ldmPc_changes (hl : getBit ins 20 ≠ 0) (s : MultipleState)
    (h : Changes (LoadsListed ins) p s.proc) :
    Ensures (ldmPc (getBits ins 15 0) s) fun s' => Changes (LoadsListed ins) p s'.proc := by
  unfold ldmPc
  split
  · rename_i hstep
    refine ensures_bind fun r => ?_
    exact ((h.thumb r.2).writeRegister ⟨hl, hstep.1⟩ _).bind fun _ hs => ensures_pure hs
  · exact ensures_ok h

theorem stmStep_changes (s : MultipleState) (i : Nat) (h : Changes (LoadsListed ins) p s.proc) :
    Ensures (stmStep (getBits ins 15 0) s i) fun s' => Changes (LoadsListed ins) p s'.proc := by
  unfold stmStep
  split
  · exact ensures_bind fun _ => (h.writeWord _ _).bind fun _ hs => ensures_pure hs
  · exact ensures_ok h

theorem executeInstrMultiple_changes (startAddress endAddress : Word) :
    Ensures (executeInstrMultiple u p ins startAddress endAddress)
      fun r => Changes (LoadsListed ins) p r.2 := by
  have hend (s : MultipleState) (hs : Changes (LoadsListed ins) p s.proc) :
      Ensures (if endAddress = s.address - 4 then pure (s.res, s.proc) else .error .assertion :
        Except Stop (Byte × ArmCore)) fun r => Changes (LoadsListed ins) p r.2 := by
    split
    · exact ensures_pure hs
    · exact ensures_error _
  have hstart : Changes (LoadsListed ins) p (⟨p, 0, startAddress, u.word⟩ : MultipleState).proc :=
    .none
  unfold executeInstrMultiple
  simp only
  split
  · rename_i hl
    refine (ensures_foldlM (ldmStep_changes hl) _ hstart).bind fun s hs => ?_
    exact (ldmPc_changes hl s hs).bind hend
  · exact (ensures_foldlM stmStep_changes _ hstart).bind hend

theorem armLoadStoreMultiple_changes (u : Locals) (p : ArmCore) (ins : Word) :
    Ensures (armLoadStoreMultiple u p ins) fun r => Changes (LoadsListed ins) p r.2 :=
  ensures_bind fun _ => Ensures.map ((executeInstrMultiple_changes _ _).mono fun _ h => h)

theorem armLoadStore_changes [Host] (u : Locals) (p : ArmCore) (ins : Word) :
    Ensures (armLoadStore u p ins) fun r =>
      ∃ t, target u p ins = .ok t ∧ Changes (Loads ins t) p r.2 := by
  intro r hr
  rw [armLoadStore_target] at hr
  obtain ⟨t, ht, hperform⟩ := bind_eq_ok.mp hr
  exact ⟨t, ht, perform_changes u p ins t r hperform⟩

end Handlers

end ArmSimulator.Transfers
