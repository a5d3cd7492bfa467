import ArmSimulator.Shifting.Specification
import ArmSimulator.Transfers.PlainOffset

/-! # Addresses with a scaled index

`set_index` makes the shift that the architecture defines, but its parameter is
a `uint8_t`: only the low byte of the index register arrives. The address is
right when the shift drops every other bit that is set.
-/

namespace ArmSimulator.Transfers

open Machine RegisterFile Storage Decoding Exceptions Shifting Foundation.ExceptRun

/-- An unconditional load or store at a base plus or minus a shifted register. -/
structure IsScaled (ins : Word) : Prop where
  condition : condField ins = 0b1110
  cls : (getBits ins 27 25).toNat = 3
  immediate : getBit ins 4 = 0
  scaled : getBits ins 11 4 ≠ 0
  preIndexed : getBit ins 24 ≠ 0
  rm : rm ins ≠ 15

/-- The index the architecture defines. -/
def specifiedIndex (q : Processor) (ins : Word) : Word :=
  immediateShift (shiftOf ins) ((readCpsr q.file.cells).getLsbD 29) (q.register (rm ins))
    (getBits ins 11 7).toNat

/-- Past its low byte the index register has no bit that the shift keeps. -/
def FitsByte (q : Processor) (ins : Word) : Prop :=
  ∀ j < 32, ∀ i ∈ movedTo (shiftOf ins) (getBits ins 11 7).toNat j, 8 ≤ i →
    (q.register (rm ins)).getLsbD i = false

section Index

variable [Host]

/-- The step performs the load or store at this address. -/
structure AccessesAt (u : Locals) (q : Processor) (ins a : Word) : Prop where
  located : target u (fetched q).core ins = .ok (.wordByte a)
  stepped : armStep u q.core = (perform u (fetched q).core ins (.wordByte a) >>= raiseResult)

theorem setIndex_eq (p : ArmCore) (ins : Word) (b : Byte) : setIndex p ins b =
    immediateShift (shiftOf ins) ((armReadCpsr p).getLsbD 29) (b.setWidth 32)
      (getBits ins 11 7).toNat := by
  have hk : (getBits ins 11 7).toNat < 32 := toNat_getBits_lt ins (h := 11) (l := 7) (by omega)
  have hshift : (getBits ins 6 5).toNat < 4 := toNat_getBits_lt ins (h := 6) (l := 5) (by omega)
  have hbyte : ((getBits ins 11 7).setWidth 8).toNat = (getBits ins 11 7).toNat := by
    rw [BitVec.toNat_setWidth, Nat.mod_eq_of_lt (by omega)]
  have hsign : (b.setWidth 32).msb = false := by
    rw [BitVec.msb_eq_getLsbD_last, BitVec.getLsbD_setWidth, BitVec.getLsbD_of_ge b _ (by omega),
      Bool.and_false]
  have htop : getBit (b.setWidth 32) 31 = 0 := by
    rw [getBit_eq_zero, ← BitVec.msb_eq_getLsbD_last, hsign]
  have hcarry : getBit (armReadCpsr p) 29 = boolInt ((armReadCpsr p).getLsbD 29) := by
    rw [getBit_eq]
    rfl
  have hone : cSar (b.setWidth 32) 1 = b.setWidth 32 >>> 1 := by
    rw [← BitVec.sshiftRight_eq_of_msb_false hsign]
    exact cSar_eq _ (n := 1) (by omega)
  have hzero : getBits ins 11 7 = 0 ↔ (getBits ins 11 7).toNat = 0 := BitVec.toNat_inj.symm
  unfold setIndex immediateShift shiftOf
  generalize (getBits ins 6 5).toNat = s at hshift
  by_cases hk0 : (getBits ins 11 7).toNat = 0
  · have hnat : (0 : Word).toNat = 0 := rfl
    rw [hzero.mpr hk0, hnat]
    rcases s with _ | _ | _ | _ | s
    · exact (cShl_eq _ (n := 0) (by omega)).trans (BitVec.shiftLeft_zero _)
    · exact (ushiftRight_width _).symm
    · simp only [htop, ne_eq, not_true_eq_false, if_true, if_false, places, sshiftRight_width,
        hsign, Bool.false_eq_true]
    · simp only [ne_eq, not_true_eq_false, if_true, if_false, hcarry, hone, rrx]
    · omega
  · have hk0' : getBits ins 11 7 ≠ 0 := fun h => hk0 (hzero.mp h)
    have hshr : cSar (b.setWidth 32) (getBits ins 11 7).toNat =
        b.setWidth 32 >>> (getBits ins 11 7).toNat := by
      rw [← BitVec.sshiftRight_eq_of_msb_false hsign]
      exact cSar_eq _ hk
    have hasr := asr_eq (b.setWidth 32) (b := (getBits ins 11 7).setWidth 8) (by omega) (by omega)
    have hror := ror_eq (b.setWidth 32) (b := (getBits ins 11 7).setWidth 8) (by omega) (by omega)
    rw [hbyte] at hasr hror
    rcases s with _ | _ | _ | _ | s
    · simp only [hk0, if_false, places]
      exact cShl_eq _ hk
    · simp only [hk0, hk0', ne_eq, not_false_eq_true, if_true, if_false, places, hshr]
    · simp only [hk0, hk0', ne_eq, not_false_eq_true, if_true, if_false, places, hasr]
    · simp only [hk0, hk0', ne_eq, not_false_eq_true, if_true, if_false, places, hror]
    · omega

variable {q : Processor} {ins : Word} {u : Locals}

theorem target_scaled (h : IsScaled ins) : target u (fetched q).core ins =
    .ok (.wordByte (offsetAddress q ins (immediateShift (shiftOf ins)
      ((readCpsr q.file.cells).getLsbD 29) (((q.register (rm ins)).setWidth 8).setWidth 32)
      (getBits ins 11 7).toNat))) := by
  have hrm : operand q (rm ins) = q.register (rm ins) := if_neg h.rm
  have hcpsr : armReadCpsr (fetched q).core = readCpsr q.file.cells := fetched_cpsr q
  rw [target_register h.cls (decide_eq_true h.preIndexed) (Or.inr h.immediate), if_neg h.scaled,
    setIndex_eq, hrm, hcpsr]

theorem armStep_scaled (h : IsScaled ins)
    (hread : memoryReadWord q.mem (pcAddress q) u.inst = .ok (0, ins)) :
    armStep u q.core = (target u (fetched q).core ins >>= fun t =>
      perform u (fetched q).core ins t >>= raiseResult) := by
  have hdispatch : dispatch ins = .loadStore := by
    unfold dispatch
    rw [h.cls]
    rfl
  rw [armStep_run hread (Or.inl h.condition), hdispatch, Handler.run, armLoadStore_target,
    bind_assoc]

omit [Host] in
theorem offsetAddress_inj (q : Processor) (ins : Word) {offset offset' : Word} :
    offsetAddress q ins offset = offsetAddress q ins offset' ↔ offset = offset' := by
  unfold offsetAddress
  split
  · exact add_right_inj _
  · exact sub_right_inj

omit [Host] in
theorem fitsByte_iff : FitsByte q ins ↔
    immediateShift (shiftOf ins) ((readCpsr q.file.cells).getLsbD 29)
      (((q.register (rm ins)).setWidth 8).setWidth 32) (getBits ins 11 7).toNat =
    specifiedIndex q ins := by
  have hk : (getBits ins 11 7).toNat < 32 := toNat_getBits_lt ins (h := 11) (l := 7) (by omega)
  have hbyte (i : Nat) : (((q.register (rm ins)).setWidth 8).setWidth 32).getLsbD i =
      (decide (i < 8) && (q.register (rm ins)).getLsbD i) := by
    rw [BitVec.getLsbD_setWidth, BitVec.getLsbD_setWidth]
    by_cases hi : i < 8
    · rw [decide_eq_true (show i < 32 by omega), Bool.true_and]
    · rw [decide_eq_false hi, Bool.false_and, Bool.and_false]
  rw [specifiedIndex, immediateShift_eq_iff _ _ hk]
  refine forall₄_congr fun j _ i _ => ?_
  rw [hbyte]
  by_cases hi : i < 8
  · rw [decide_eq_true hi, Bool.true_and]
    exact iff_of_true (fun h => absurd h (by omega)) rfl
  · rw [decide_eq_false hi, Bool.false_and, eq_comm (a := false)]
    exact forall_prop_of_true (by omega)

/-- The address is the defined one exactly when the shift keeps no bit of the index register
past its low byte. -/
theorem accessesAt_iff (h : IsScaled ins)
    (hread : memoryReadWord q.mem (pcAddress q) u.inst = .ok (0, ins)) :
    AccessesAt u q ins (offsetAddress q ins (specifiedIndex q ins)) ↔ FitsByte q ins := by
  rw [fitsByte_iff, ← offsetAddress_inj q ins]
  constructor
  · intro haccess
    have hlocated := haccess.located
    rw [target_scaled h, Except.ok.injEq, Target.wordByte.injEq] at hlocated
    exact hlocated
  · intro heq
    have hlocated := target_scaled (u := u) (q := q) h
    rw [heq] at hlocated
    refine ⟨hlocated, ?_⟩
    rw [armStep_scaled h hread, hlocated]
    rfl

end Index

/-- `ldr r1, [r2, r3, lsl #1]` at address 0, and a word at 8. -/
def scaledProgram : Processor :=
  program .usr #[0x83, 0x10, 0x92, 0xE7, 0, 0, 0, 0, 1, 0, 0, 0]

theorem isScaled_ldr : IsScaled 0xE7921083 :=
  ⟨by decide, by decide, by decide, by decide, by decide, by decide⟩

theorem scaledProgram_read (index : Word) : memoryReadWord (scaledProgram.write 3 index).mem
    (pcAddress (scaledProgram.write 3 index)) 0 = .ok (0, 0xE7921083) := by
  have hpc : pcAddress (scaledProgram.write 3 index) = pcAddress scaledProgram := by
    rw [pcAddress, Processor.write_cells, if_neg (by decide)]
    rfl
  have hread : memoryReadWord scaledProgram.mem (pcAddress scaledProgram) 0 =
      .ok (0, 0xE7921083) := memoryReadWord_program .usr rfl
  rw [hpc]
  exact hread

theorem accessesAt_eight :
    @AccessesAt Host.x86 ⟨0, 0, 0, 0, 0, 0⟩ (scaledProgram.write 3 4) 0xE7921083 8 := by
  have hindex : specifiedIndex (scaledProgram.write 3 4) 0xE7921083 = 8 := by decide
  have haddress : offsetAddress (scaledProgram.write 3 4) 0xE7921083 8 = 8 := by decide
  have haccess := (@accessesAt_iff Host.x86 (scaledProgram.write 3 4) 0xE7921083
    ⟨0, 0, 0, 0, 0, 0⟩ isScaled_ldr (scaledProgram_read 4)).mpr
      (fitsByte_iff.mpr (by rw [hindex]; decide))
  rwa [hindex, haddress] at haccess

/-- The index 0x100 is lost. -/
theorem index_truncated : ¬ ∀ (_ : Host) (u : Locals) (q : Processor) (ins : Word), IsScaled ins →
    memoryReadWord q.mem (pcAddress q) u.inst = .ok (0, ins) →
    AccessesAt u q ins (offsetAddress q ins (specifiedIndex q ins)) := by
  intro h
  let host := Host.x86
  have haccess := h host ⟨0, 0, 0, 0, 0, 0⟩ _ _ isScaled_ldr (scaledProgram_read 0x100)
  have hlocated := haccess.located
  rw [target_scaled isScaled_ldr, Except.ok.injEq, Target.wordByte.injEq, offsetAddress_inj,
    ← fitsByte_iff] at hlocated
  have hbit := hlocated 9 (by decide) 8 (by decide) (by decide)
  exact absurd hbit (by decide)

end ArmSimulator.Transfers
