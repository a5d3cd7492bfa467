import ArmSimulator.Transfers.Block
import ArmSimulator.Transfers.Changes
import ArmSimulator.Transfers.ScaledIndex

/-! # The updated base register

The addressing modes compute an updated base in a local variable of
`arm_load_store` and `arm_load_store_multiple`, which nothing writes back. So
the base register keeps its value in all forms, and is right in the forms that
should update it only where the update is by zero.
-/

namespace ArmSimulator.Transfers

open Machine RegisterFile Storage Shifting Decoding Exceptions Foundation.ExceptRun

/-- The words and bytes, halves and block transfers that the decoder executes as such. -/
inductive IsTransfer (ins : Word) : Prop where
  | wordByte (h : (getBits ins 27 25).toNat = 2 ∨ (getBits ins 27 25).toNat = 3 ∧
      (getBits ins 11 4 = 0 ∨ getBit ins 4 = 0))
  | half (cls : (getBits ins 27 25).toNat = 0) (kind : getBits ins 6 5 = 1)
      (executed : dispatch ins = .loadStore)
  | multiple (h : (getBits ins 27 25).toNat = 4)

def LoadsBase (ins : Word) : Prop :=
  getBit ins 20 ≠ 0 ∧
    if (getBits ins 27 25).toNat = 4 then rn ins ∈ listed ins else rd ins = rn ins

/-- Block transfers write back with the bit W; the others when they are post-indexed, too. -/
def WritesBack (ins : Word) : Prop :=
  getBit ins 21 ≠ 0 ∨ (getBits ins 27 25).toNat ≠ 4 ∧ getBit ins 24 = 0

instance (ins : Word) : Decidable (WritesBack ins) := inferInstanceAs (Decidable (_ ∨ _))

/-- What the base moves by. -/
def baseOffset (q : Processor) (ins : Word) : Word :=
  match (getBits ins 27 25).toNat with
  | 0 => if getBit ins 22 ≠ 0 then setOffset ins else operand q (rm ins)
  | 2 => getBits ins 11 0
  | 3 => if getBits ins 11 4 = 0 then operand q (rm ins) else specifiedIndex q ins
  | _ => BitVec.ofNat 32 (4 * (listed ins).length)

def updatedBase (q : Processor) (ins : Word) : Word :=
  if WritesBack ins then
    if getBit ins 23 ≠ 0 then q.register (rn ins) + baseOffset q ins
    else q.register (rn ins) - baseOffset q ins
  else q.register (rn ins)

/-- A load of the block below the base after a store of one above it, or the other way round. -/
structure Inverse (ins ins₁ : Word) : Prop where
  block : IsBlock ins₁
  load : getBit ins₁ 20 ≠ 0
  writeback : getBit ins₁ 21 ≠ 0
  base : rn ins₁ = rn ins
  list : getBits ins₁ 15 0 = getBits ins 15 0
  before : getBit ins₁ 24 ≠ getBit ins 24
  up : getBit ins₁ 23 ≠ getBit ins 23

/-! ## What is kept -/

section Kept

variable {q : Processor} {p' : ArmCore} {reg : Fin 16} {written : Nat → Prop}

theorem armWriteRegister_invalid (p : ArmCore) {r : Nat} (hr : 16 ≤ r) (value : Word) :
    armWriteRegister p r value = .ok p := by
  have hinvalid : ¬ isValid r := fun h => by
    have := h.2
    omega
  rw [armWriteRegister, writeRegister, if_pos hinvalid]
  rfl

theorem exists_of_changes (h : Changes written q.core p') (hreg : ¬ written reg) (hpc : reg ≠ 15) :
    ∃ q' : Processor, q'.core = p' ∧ q'.file.mode = q.file.mode ∧
      q'.register reg = q.register reg := by
  induction h with
  | none => exact ⟨q, rfl, rfl, rfl⟩
  | memory _ mem ih =>
    obtain ⟨q', rfl, hmode, hsame⟩ := ih
    exact ⟨{ q' with mem }, rfl, hmode, hsame⟩
  | thumb _ word ih =>
    obtain ⟨q', rfl, hmode, hsame⟩ := ih
    refine ⟨q'.withFile (q'.file.writeStatus (thumbStatus q'.file word)), rfl, hmode, ?_⟩
    rw [← hsame, Processor.register, Processor.register, if_neg hpc, if_neg hpc]
    exact Function.update_of_ne (position_ne_cpsr q'.file.mode reg) _ _
  | @register _ _ _ r value hr hwrite ih =>
    obtain ⟨q', rfl, hmode, hsame⟩ := ih
    by_cases hlt : r < 16
    · have hok : armWriteRegister q'.core r value = _ := q'.armWriteRegister_eq ⟨r, hlt⟩ value
      rw [hok, Except.ok.injEq] at hwrite
      have hne : reg ≠ ⟨r, hlt⟩ := fun h => hreg (congrArg Fin.val h ▸ hr)
      refine ⟨q'.write ⟨r, hlt⟩ value, hwrite, hmode, ?_⟩
      rw [← hsame, Processor.register, Processor.register, if_neg hpc, if_neg hpc]
      exact Function.update_of_ne (fun h => hne (reg_eq_of_position h)) _ _
    · rw [armWriteRegister_invalid _ (by omega), Except.ok.injEq] at hwrite
      exact ⟨q', hwrite, hmode, hsame⟩

end Kept

section Base

variable [Host] {q : Processor} {ins : Word} {u : Locals} {p' : ArmCore}

omit [Host] in
theorem miscellaneousCode_half (h : getBits ins 6 5 = 1) :
    miscellaneousCode ins = if getBit ins 20 ≠ 0 then 5 else 1 := by
  have h5 : getBit ins 5 = 1 := by
    rw [← getBit_getBits ins (h := 6) (l := 5) (i := 0) (by omega), h]
    rfl
  have h6 : getBit ins 6 = 0 := by
    rw [← getBit_getBits ins (h := 6) (l := 5) (i := 1) (by omega), h]
    rfl
  rw [miscellaneousCode, h5, h6, getBit_eq]
  cases ins.getLsbD 20 <;> decide

theorem target_class {p : ArmCore} {t : Target} (h : target u p ins = .ok t) :
    ((getBits ins 27 25).toNat = 0 → ∃ a, t = .miscellaneous a) ∧
      ((getBits ins 27 25).toNat = 2 ∨ (getBits ins 27 25).toNat = 3 →
        t = .skipped ∨ ∃ a, t = .wordByte a) := by
  unfold target at h
  obtain ⟨base, -, h⟩ := bind_eq_ok.mp h
  obtain ⟨index, -, h⟩ := bind_eq_ok.mp h
  refine ⟨fun hc => ?_, fun hc => ?_⟩
  · rw [hc] at h
    obtain ⟨r, -, rfl⟩ := map_eq_ok.mp h
    exact ⟨_, rfl⟩
  · rcases hc with hc | hc
    · rw [hc] at h
      exact Or.inr ⟨_, (pure_eq_ok.mp h).symm⟩
    · rw [hc] at h
      simp only at h
      split at h
      · exact Or.inr ⟨_, (pure_eq_ok.mp h).symm⟩
      · exact Or.inl (pure_eq_ok.mp h).symm

theorem not_loads {p : ArmCore} {t : Target} (htransfer : IsTransfer ins)
    (hcls : (getBits ins 27 25).toNat ≠ 4) (hload : ¬ LoadsBase ins)
    (ht : target u p ins = .ok t) : ¬ Loads ins t (rn ins) := by
  have hrd : getBit ins 20 ≠ 0 → (rn ins : Nat) ≠ (getBits ins 15 12).toNat := by
    intro hl heq
    exact hload ⟨hl, by rw [if_neg hcls]; exact (Fin.ext heq).symm⟩
  obtain ⟨hzero, hword⟩ := target_class ht
  cases htransfer with
  | wordByte h =>
    rcases hword (h.imp_right And.left) with rfl | ⟨a, rfl⟩
    · exact fun h => h
    · exact fun h => hrd h.1 h.2
  | half cls kind =>
    obtain ⟨a, rfl⟩ := hzero cls
    have hcode := miscellaneousCode_half kind
    rintro (⟨h5, hreg⟩ | ⟨h2, -⟩)
    · by_cases hl : getBit ins 20 ≠ 0
      · exact hrd hl hreg
      · rw [hcode, if_neg hl] at h5
        exact absurd h5 (by decide)
    · rw [hcode] at h2
      split at h2 <;> exact absurd h2 (by decide)
  | multiple h => exact absurd h hcls

/-- A transfer that returns 0 leaves its base register alone. -/
theorem base_kept (htransfer : IsTransfer ins) (hal : condField ins = 0b1110)
    (hread : memoryReadWord q.mem (pcAddress q) u.inst = .ok (0, ins)) (hrn : rn ins ≠ 15)
    (hload : ¬ LoadsBase ins) (hstep : armStep u q.core = .ok (0, p')) :
    ∃ q' : Processor, q'.core = p' ∧ q'.file.mode = q.file.mode ∧
      q'.register (rn ins) = q.register (rn ins) := by
  have hbase : (fetched q).register (rn ins) = q.register (rn ins) := by
    rw [register_fetched, operand, if_neg hrn]
  rw [armStep_run hread (Or.inl hal)] at hstep
  obtain ⟨⟨code, p⟩, hrun, hraise⟩ := bind_eq_ok.mp hstep
  have hcode : code = 0 := (raiseResult_fst _ _ hraise).symm
  subst hcode
  have hp : p = p' := congrArg Prod.snd (Except.ok.inj hraise)
  subst hp
  rw [← hbase]
  by_cases hcls : (getBits ins 27 25).toNat = 4
  · have hdispatch : dispatch ins = .loadStoreMultiple := by
      unfold dispatch
      rw [hcls]
      rfl
    rw [hdispatch] at hrun
    have hchanges := armLoadStoreMultiple_changes u (fetched q).core ins _ hrun
    refine exists_of_changes hchanges (fun hl => hload ⟨hl.1, ?_⟩) hrn
    rw [if_pos hcls]
    exact List.mem_filter.mpr ⟨List.mem_finRange _, decide_eq_true hl.2⟩
  · have hdispatch : dispatch ins = .loadStore := by
      cases htransfer with
      | wordByte h =>
        unfold dispatch
        rcases h with h | ⟨h, -⟩
        · rw [h]
          rfl
        · rw [h]
          rfl
      | half _ _ executed => exact executed
      | multiple h => exact absurd h hcls
    rw [hdispatch] at hrun
    obtain ⟨t, ht, hchanges⟩ := armLoadStore_changes u (fetched q).core ins _ hrun
    exact exists_of_changes hchanges (not_loads htransfer hcls hload ht) hrn

/-- What a transfer leaves in its base register; after a store of a block the inverse load
finds the block there. -/
structure UpdatesBase (q : Processor) (ins : Word) (p' : ArmCore) : Prop where
  base : armReadRegister p' (rn ins) = .ok (updatedBase q ins)
  inverse : (getBits ins 27 25).toNat = 4 → getBit ins 20 = 0 → getBit ins 21 ≠ 0 →
    15 ∉ listed ins → rn ins ∉ listed ins →
    ∀ (u : Locals) (q₁ : Processor) (ins₁ : Word) (p₁ : ArmCore), q₁.core = p' →
      memoryReadWord q₁.mem (pcAddress q₁) u.inst = .ok (0, ins₁) → Inverse ins ins₁ →
      armStep u q₁.core = .ok (0, p₁) →
      armReadRegister p₁ (rn ins) = .ok (q.register (rn ins)) ∧
        ∀ reg ∈ listed ins, armReadRegister p₁ reg = .ok (q.register reg)

omit [Host] in
theorem updatedBase_eq_iff : q.register (rn ins) = updatedBase q ins ↔
    (WritesBack ins → baseOffset q ins = 0) := by
  rw [updatedBase]
  split_ifs with hback hup
  · rw [forall_prop_of_true hback, eq_comm]
    exact add_eq_left
  · rw [forall_prop_of_true hback, eq_comm]
    exact sub_eq_self
  · exact iff_of_true rfl fun h => absurd h hback

omit [Host] in
theorem listed_eq_nil (hcls : (getBits ins 27 25).toNat = 4) (h : baseOffset q ins = 0) :
    listed ins = [] := by
  have hlen := length_listed ins
  have hzero : BitVec.ofNat 32 (4 * (listed ins).length) = 0 := by
    unfold baseOffset at h
    rwa [hcls] at h
  have hnat := congrArg BitVec.toNat hzero
  rw [BitVec.toNat_ofNat, Nat.mod_eq_of_lt (by omega)] at hnat
  exact List.length_eq_zero_iff.mp (by change _ = 0 at hnat; omega)

end Base

/-- `stmia r0!, {r1, r2}` at address 0. -/
def stmBackProgram : Processor := program .usr #[0x06, 0x00, 0xA0, 0xE8, 0, 0, 0, 0]

theorem stmProgram_step : ∃ q' : Processor,
    @armStep Host.x86 ⟨0, 0, 0, 0, 0, 0⟩ stmProgram.core = .ok (0, q'.core) :=
  ⟨_, @armStep_stm stmProgram 0xE8800006 ⟨0, 0, 0, 0, 0, 0⟩ Host.x86 ⟨by decide, by decide⟩
    (memoryReadWord_program .usr rfl) (by decide) fun _ => by decide⟩

/-- `str r1, [r2, r3, lsl #1]!` at address 0, with an index that is shifted out. -/
def strBackProgram : Processor :=
  (((program .usr #[0x83, 0x10, 0xA2, 0xE7, 0, 0, 0, 0]).write 1 7).write 2 4).write 3 0x80000000

theorem strBackProgram_read :
    memoryReadWord strBackProgram.mem (pcAddress strBackProgram) 0 = .ok (0, 0xE7A21083) := by
  have hpc : pcAddress strBackProgram = 0 := by decide
  rw [hpc]
  rfl

theorem strBackProgram_step : ∃ q' : Processor,
    @armStep Host.x86 ⟨0, 0, 0, 0, 0, 0⟩ strBackProgram.core = .ok (0, q'.core) := by
  let host := Host.x86
  have hscaled : IsScaled 0xE7A21083 :=
    ⟨by decide, by decide, by decide, by decide, by decide, by decide⟩
  have haddress : offsetAddress strBackProgram 0xE7A21083 (immediateShift (shiftOf 0xE7A21083)
      ((readCpsr strBackProgram.file.cells).getLsbD 29)
      (((strBackProgram.register (rm 0xE7A21083)).setWidth 8).setWidth 32)
      (getBits 0xE7A21083 11 7).toNat) = 4 := by decide
  rw [armStep_scaled hscaled strBackProgram_read, target_scaled hscaled, haddress, ok_bind,
    perform, executeInstrWordByte_str (q := fetched strBackProgram) hscaled.condition (by decide)
      (by decide) (by decide) (by decide)]
  exact ⟨_, rfl⟩

end ArmSimulator.Transfers
