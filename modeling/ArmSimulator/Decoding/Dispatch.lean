import ArmSimulator.Conditions.Transparency
import ArmSimulator.Exceptions.Step

/-! # The decoder as a choice of handler

`arm_execute_instruction` looks at eleven bits of a word and calls one of eight
handlers. In class 000 the test for status register moves comes before the one
for the extra loads and stores, and it accepts the stores among them that are
pre-indexed with a negative offset.
-/

namespace ArmSimulator.Decoding

open Machine RegisterFile Storage Transfers Conditions Exceptions Foundation.ExceptRun

/-- The functions the decoder calls. -/
inductive Handler where
  | miscellaneous | loadStore | dataProcessingShift | dataProcessingImmediateMsr
  | loadStoreMultiple | coprocessorLoadStore | branch | coprocessorOthersSwi
  deriving DecidableEq, Repr

/-- Bits 24..23 are `10` and bit 20 is clear. -/
def IsStatusMove (inst : Word) : Prop :=
  getBits inst 24 23 = 0b10 ∧ (getBits inst 21 20 = 0b00 ∨ getBits inst 21 20 = 0b10)

instance (inst : Word) : Decidable (IsStatusMove inst) := inferInstanceAs (Decidable (_ ∧ _))

def dispatch (inst : Word) : Handler :=
  match (getBits inst 27 25).toNat with
  | 0 =>
    if IsStatusMove inst then .miscellaneous
    else if getBit inst 4 = 1 ∧ getBit inst 7 = 1 then .loadStore
    else .dataProcessingShift
  | 1 =>
    if getBits inst 24 23 = 0b10 ∧ getBits inst 21 20 = 0b10 then .miscellaneous
    else .dataProcessingImmediateMsr
  | 2 | 3 => .loadStore
  | 4 => .loadStoreMultiple
  | 5 => .branch
  | 6 => .coprocessorLoadStore
  | _ => .coprocessorOthersSwi

theorem class_of_loadStore {inst : Word} (h : dispatch inst = .loadStore) :
    (getBits inst 27 25).toNat = 0 ∨ (getBits inst 27 25).toNat = 2 ∨
      (getBits inst 27 25).toNat = 3 := by
  unfold dispatch at h
  split at h
  · rename_i hc
    exact Or.inl hc
  · split at h <;> simp at h
  · rename_i hc
    exact Or.inr (Or.inl hc)
  · rename_i hc
    exact Or.inr (Or.inr hc)
  all_goals simp at h

section Run

variable [Host]

def Handler.run (u : Locals) (p : ArmCore) (inst : Word) : Handler → Except Stop (Int × ArmCore)
  | miscellaneous => armMiscellaneous p inst
  | loadStore => armLoadStore u p inst
  | dataProcessingShift => armDataProcessingShift p inst
  | dataProcessingImmediateMsr => armDataProcessingImmediateMsr p inst
  | loadStoreMultiple => armLoadStoreMultiple u p inst
  | coprocessorLoadStore => armCoprocessorLoadStore p inst
  | branch => armBranch p inst
  | coprocessorOthersSwi => armCoprocessorOthersSwi p inst

omit [Host] in
theorem classField_lt (inst : Word) : (getBits inst 27 25).toNat < 8 :=
  toNat_getBits_lt inst (h := 27) (l := 25) (by omega)

theorem executeClass_dispatch (u : Locals) (p : ArmCore) (inst : Word) :
    executeClass u p inst = (dispatch inst).run u p inst := by
  have hlt := classField_lt inst
  unfold executeClass dispatch
  generalize (getBits inst 27 25).toNat = c at hlt ⊢
  rcases c with _ | _ | _ | _ | _ | _ | _ | _ | c
  · change (if IsStatusMove inst then armMiscellaneous p inst
        else if getBit inst 4 = 1 ∧ getBit inst 7 = 1 then armLoadStore u p inst
        else armDataProcessingShift p inst) =
      (if IsStatusMove inst then Handler.miscellaneous
        else if getBit inst 4 = 1 ∧ getBit inst 7 = 1 then Handler.loadStore
        else Handler.dataProcessingShift).run u p inst
    split_ifs <;> rfl
  · change (if getBits inst 24 23 = 0b10 ∧ getBits inst 21 20 = 0b10 then armMiscellaneous p inst
        else armDataProcessingImmediateMsr p inst) =
      (if getBits inst 24 23 = 0b10 ∧ getBits inst 21 20 = 0b10 then Handler.miscellaneous
        else Handler.dataProcessingImmediateMsr).run u p inst
    split_ifs <;> rfl
  all_goals first | rfl | omega

end Run

/-! ## Fetched instructions -/

/-- The condition field lets the instruction run under this status. -/
def Passes (cpsr inst : Word) : Prop :=
  condField inst = 0b1110 ∨
    ∃ condition : Condition, condField inst = condition.code ∧ condition.accepts cpsr

section Step

variable [Host] {u : Locals} {p p' : ArmCore} {inst : Word}

theorem executeFetched_passes (h : Passes (armReadCpsr p) inst) :
    executeFetched u p inst = (dispatch inst).run u p inst := by
  rw [← executeClass_dispatch]
  rcases h with h | ⟨condition, h, haccepts⟩
  · rw [executeFetched, h]
    rfl
  · exact executeFetched_accepts h haccepts

theorem executeFetched_never (h : condField inst = 0b1111) :
    executeFetched u p inst = .ok (Exception.undefinedInstruction, p) := by
  rw [executeFetched, if_pos h]

theorem executeFetched_fails (hfield : condField inst ≠ 0b1111)
    (h : ¬ Passes (armReadCpsr p) inst) : executeFetched u p inst = .ok (0, p) := by
  have hlt : condField inst < 16 := toNat_getBits_lt inst (h := 31) (l := 28) (by omega)
  have hal : condField inst ≠ 0b1110 := fun hal => h (Or.inl hal)
  obtain ⟨condition, hcode⟩ := Condition.exists_code (c := condField inst) (by omega)
  exact executeFetched_refuses hcode.symm fun haccepts =>
    h (Or.inr ⟨condition, hcode.symm, haccepts⟩)

theorem armStep_of_fetch (hfetch : armFetch p u.inst = .ok (0, inst, p')) :
    armStep u p = stepFetched u p' inst := by
  rw [armStep_eq, hfetch]
  rfl

theorem armStep_dispatch (hfetch : armFetch p u.inst = .ok (0, inst, p'))
    (hpass : Passes (armReadCpsr p') inst) :
    armStep u p = ((dispatch inst).run u p' inst >>= raiseResult) := by
  rw [armStep_of_fetch hfetch, stepFetched, executeFetched_passes hpass]

theorem armStep_run {q : Processor}
    (hread : memoryReadWord q.mem (pcAddress q) u.inst = .ok (0, inst))
    (hpass : Passes (readCpsr q.file.cells) inst) :
    armStep u q.core = ((dispatch inst).run u (fetched q).core inst >>= raiseResult) := by
  have hfetch : armFetch q.core u.inst = .ok (0, inst, (fetched q).core) := by
    rw [armFetch_eq, hread]
    rfl
  have hcpsr : armReadCpsr (fetched q).core = readCpsr q.file.cells := fetched_cpsr q
  exact armStep_dispatch hfetch (hcpsr ▸ hpass)

end Step

/-- A memory image run from address 0 in a mode, with all registers zero. -/
def program (m : Mode) (image : Array Byte) : Processor where
  cycleCount := 0
  file := File.blank (modeStatus m)
  mem := ⟨image, false⟩

theorem pcAddress_program (m : Mode) (image : Array Byte) : pcAddress (program m image) = 0 := by
  have hcell : (program m image).file.cells 15 = 0 := rfl
  rw [pcAddress, hcell]
  decide

theorem memoryReadWord_program (m : Mode) {image : Array Byte} {old inst : Word}
    (h : memoryReadWord ⟨image, false⟩ 0 old = .ok (0, inst)) :
    memoryReadWord (program m image).mem (pcAddress (program m image)) old = .ok (0, inst) := by
  rw [pcAddress_program]
  exact h

theorem program_fetch (m : Mode) {image : Array Byte} {value inst : Word}
    (h : memoryReadWord ⟨image, false⟩ 0 value = .ok (0, inst)) :
    armFetch (program m image).core value = .ok (0, inst, (fetched (program m image)).core) := by
  rw [armFetch_eq, pcAddress_program]
  change (memoryReadWord ⟨image, false⟩ 0 value >>= _) = _
  rw [h]
  rfl

/-! ## The extra loads and stores -/

/-- Class 000 with bits 7 and 4 set and bits 6..5 not both clear. -/
structure IsExtraLoadStore (inst : Word) : Prop where
  cls : (getBits inst 27 25).toNat = 0
  bit7 : getBit inst 7 = 1
  bit4 : getBit inst 4 = 1
  kind : getBits inst 6 5 ≠ 0

/-- `P` set, `U` and `L` clear. -/
def IsNegativePreIndexedStore (inst : Word) : Prop :=
  getBit inst 24 = 1 ∧ getBit inst 23 = 0 ∧ getBit inst 20 = 0

instance (inst : Word) : Decidable (IsNegativePreIndexedStore inst) :=
  inferInstanceAs (Decidable (_ ∧ _ ∧ _))

theorem getBits_pair (x : Word) (l : Nat) (hl : l + 1 < 32) :
    (getBits x (l + 1) l).toNat = 2 * (getBit x (l + 1)).toNat + (getBit x l).toNat := by
  have hlt : (getBits x (l + 1) l).toNat < 2 ^ 2 := by
    have h := toNat_getBits_lt x (h := l + 1) (l := l) (by omega)
    rwa [show l + 1 - l + 1 = 2 by omega] at h
  have hbit (i : Nat) (hi : i < 2) : (getBits x (l + 1) l).toNat.testBit i = x.getLsbD (l + i) := by
    have h := getLsbD_getBits x (l + 1) l i
    rwa [decide_eq_true (by omega), Bool.true_and] at h
  have h0 := hbit 0 (by omega)
  have h1 := hbit 1 (by omega)
  rw [Nat.testBit_eq_decide_div_mod_eq] at h0 h1
  rw [getBit_eq, getBit_eq]
  cases hx0 : x.getLsbD l <;> cases hx1 : x.getLsbD (l + 1) <;> simp_all <;> omega

theorem isStatusMove_iff_bit20 (inst : Word) :
    IsStatusMove inst ↔ getBits inst 24 23 = 0b10 ∧ getBit inst 20 = 0 := by
  have h20 := getBits_pair inst 20 (by omega)
  rw [getBit_eq, getBit_eq] at h20
  simp only [IsStatusMove, ← BitVec.toNat_inj] at h20 ⊢
  rw [h20, getBit_eq]
  cases inst.getLsbD 21 <;> cases inst.getLsbD 20 <;> simp

theorem isStatusMove_iff (inst : Word) : IsStatusMove inst ↔ IsNegativePreIndexedStore inst := by
  have h24 := getBits_pair inst 23 (by omega)
  rw [isStatusMove_iff_bit20, IsNegativePreIndexedStore, ← and_assoc]
  refine and_congr_left fun _ => ?_
  rw [getBit_eq, getBit_eq] at h24
  rw [← BitVec.toNat_inj, h24, getBit_eq, getBit_eq]
  cases inst.getLsbD 24 <;> cases inst.getLsbD 23 <;> decide

section Separation

variable [Host]

/-- The step of a fetched word is that of the load/store unit. -/
structure PerformsLoadStore (u : Locals) (p p' : ArmCore) (inst : Word) : Prop where
  dispatched : dispatch inst = .loadStore
  stepped : armStep u p = (armLoadStore u p' inst >>= raiseResult)

omit [Host] in
theorem dispatch_extraLoadStore {inst : Word} (h : IsExtraLoadStore inst) : dispatch inst =
    if IsNegativePreIndexedStore inst then .miscellaneous else .loadStore := by
  have hbits : getBit inst 4 = 1 ∧ getBit inst 7 = 1 := ⟨h.bit4, h.bit7⟩
  unfold dispatch
  rw [h.cls]
  simp only [isStatusMove_iff, hbits, and_self, if_true]

/-- An extra load or store reaches its unit unless it is a store with a negative
pre-indexed offset, which runs as a status register move. -/
theorem extraLoadStore_iff {u : Locals} {p p' : ArmCore} {inst : Word}
    (hfetch : armFetch p u.inst = .ok (0, inst, p')) (hins : IsExtraLoadStore inst)
    (hpass : Passes (armReadCpsr p') inst) :
    PerformsLoadStore u p p' inst ↔ ¬ IsNegativePreIndexedStore inst := by
  have hdispatch := dispatch_extraLoadStore hins
  constructor
  · intro h hneg
    rw [if_pos hneg, h.dispatched] at hdispatch
    exact absurd hdispatch (by decide)
  · intro hneg
    rw [if_neg hneg] at hdispatch
    refine ⟨hdispatch, ?_⟩
    rw [armStep_dispatch hfetch hpass, hdispatch]
    rfl

end Separation

/-- `strh r2, [r1, -r3]` at address 0, with `r1` past the end of a memory of four bytes. -/
def strhProgram : Processor where
  cycleCount := 0
  file := (File.blank (modeStatus .svc)).write 1 0x100
  mem := ⟨#[0xB3, 0x20, 0x01, 0xE1], false⟩

theorem strhProgram_fetch (value : Word) :
    armFetch strhProgram.core value = .ok (0, 0xE10120B3, (fetched strhProgram).core) := by
  have hpc : pcAddress strhProgram = 0 := by decide
  rw [armFetch_eq, hpc]
  rfl

/-- `ldrh r2, [r1, -r3]` differs in the bit L and is performed. -/
def ldrhProgram : Processor := program .svc #[0xB3, 0x20, 0x11, 0xE1]

theorem extraLoadStore_ldrh :
    @PerformsLoadStore Host.x86 ⟨0, 0, 0, 0, 0, 0⟩ ldrhProgram.core (fetched ldrhProgram).core
      0xE11120B3 ↔ ¬ IsNegativePreIndexedStore 0xE11120B3 :=
  @extraLoadStore_iff Host.x86 ⟨0, 0, 0, 0, 0, 0⟩ _ _ _ (program_fetch .svc rfl)
    ⟨by decide, by decide, by decide, by decide⟩ (Or.inl (by decide))

section Counterexample

variable [Host] (u : Locals)

theorem strhProgram_step : armStep u strhProgram.core =
    .ok (0, ((fetched strhProgram).write 2 (readCpsr (fetched strhProgram).file.cells)).core) := by
  have hmove (p : ArmCore) : armMiscellaneous p 0xE10120B3 =
      (armWriteRegister p 2 (armReadCpsr p) >>= fun p => .ok (0, p)) := rfl
  have hwrite : armWriteRegister (fetched strhProgram).core 2 _ = _ :=
    (fetched strhProgram).armWriteRegister_eq 2 (armReadCpsr (fetched strhProgram).core)
  have hdispatch : dispatch 0xE10120B3 = .miscellaneous := by decide
  have hpass : Passes (armReadCpsr (fetched strhProgram).core) 0xE10120B3 := Or.inl (by decide)
  have hfetch := strhProgram_fetch u.inst
  rw [armStep_dispatch hfetch hpass, hdispatch, Handler.run, hmove, hwrite]
  rfl

theorem strhProgram_loadStore : armLoadStore u (fetched strhProgram).core 0xE10120B3 =
    .ok (255, (fetched strhProgram).core) := by
  have hreg (reg : Fin 16) := (fetched strhProgram).armReadRegister_eq reg
  have hrn : armReadRegister (fetched strhProgram).core 1 = .ok 0x100 := hreg 1
  have hrd : armReadRegister (fetched strhProgram).core 2 = .ok 0 := hreg 2
  have hrm : armReadRegister (fetched strhProgram).core 3 = .ok 0 := hreg 3
  have htarget : target u (fetched strhProgram).core 0xE10120B3 = .ok (.miscellaneous 0x100) := by
    change (armReadRegister (fetched strhProgram).core 1 >>= fun rn =>
      armReadRegister (fetched strhProgram).core 3 >>= fun _ =>
      (fun r => Target.miscellaneous r.1) <$> (armReadRegister (fetched strhProgram).core 3
        >>= fun rm => .ok (op 0xE10120B3 rn rm, rn))) = _
    rw [hrn, hrm]
    rfl
  have hstore : storeWidth 0xE10120B3 (.miscellaneous 0x100) = some (.half, 0x100) := by decide
  have hreject : memoryWrite .half (fetched strhProgram).core.mem 0x100 (storeValue .half 0) =
      .ok (-1, (fetched strhProgram).core.mem) := rfl
  have hpassed : conditionPassed (fetched strhProgram).core 0xE10120B3 = true := rfl
  have hfield : (getBits 0xE10120B3 15 12).toNat = 2 := by decide
  rw [armLoadStore_target, htarget, ok_bind, perform_store hstore, hpassed, if_pos rfl, hfield, hrd,
    ok_bind, storeAt, hreject]
  rfl

end Counterexample

/-- A store with a negative pre-indexed offset does not have the step of its unit. -/
theorem strh_runs_as_mrs : ¬ ∀ (_ : Host) (u : Locals) (p p' : ArmCore) (inst : Word),
    armFetch p u.inst = .ok (0, inst, p') → IsExtraLoadStore inst →
    Passes (armReadCpsr p') inst → armStep u p = (armLoadStore u p' inst >>= raiseResult) := by
  intro h
  let host := Host.x86
  have hstep := h host ⟨0, 0, 0, 0, 0, 0⟩ _ _ _ (strhProgram_fetch 0)
    ⟨by decide, by decide, by decide, by decide⟩ (Or.inl (by decide))
  rw [strhProgram_step, strhProgram_loadStore] at hstep
  have hresult := congrArg Prod.fst (Except.ok.inj hstep)
  exact absurd hresult (by decide)

end ArmSimulator.Decoding
