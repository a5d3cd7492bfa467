import ArmSimulator.Exceptions.Step
import ArmSimulator.Transfers.Target

/-! # Data aborts

A failed access should end in the data abort exception. The -1 of the memory
functions reaches `arm_step` as 255, which `arm_exception` ignores, or is
dropped before, so no step ever reports a data abort.
-/

namespace ArmSimulator.Exceptions

open Machine RegisterFile Storage Transfers Foundation.ExceptRun

/-- The memory functions of a width fail at an address. -/
def Rejects (n : Width) (mem : Memory) (a : Word) : Prop :=
  (∀ v, memoryRead n mem a v = .ok (-1, v)) ∧ ∀ v, memoryWrite n mem a v = .ok (-1, mem)

/-- The number of registers a multiple transfer names. -/
def registerCount (ins : Word) : Nat :=
  (List.range 16).countP fun i => getBit (getBits ins 15 0) i ≠ 0

/-- A load or store that makes an access the memory functions reject. -/
inductive FailedAccess [Host] (u : Locals) (p : ArmCore) (ins : Word) : Prop where
  | wordByte (h : IsLoadStore ins) (a : Word) (ha : target u p ins = .ok (.wordByte a))
      (hreject : Rejects (if getBit ins 22 ≠ 0 then .byte else .word) p.mem a)
  | half (h : IsLoadStore ins) (a : Word) (ha : target u p ins = .ok (.miscellaneous a))
      (hhalf : getBits ins 6 5 = 1) (hreject : Rejects .half p.mem a)
  | multiple (h : (getBits ins 27 25).toNat = 4) (rn : Word)
      (hrn : armReadRegister p (getBits ins 19 16).toNat = .ok rn) (i : Nat)
      (hi : i < registerCount ins)
      (hreject : Rejects .word p.mem
        ((addrmodeLoadStoreMultiple p ins rn).1 + BitVec.ofNat 32 (4 * i)))

/-- The step reports a data abort and has entered it. -/
def DataAborts [Host] (u : Locals) (p : ArmCore) : Prop :=
  ∃ p', armStep u p = .ok (Exception.dataAbort, p') ∧ p'.reg 15 = 0x10 ∧
    getMode p'.reg = Mode.abt.bits

theorem rejects_of_bound {n : Width} {mem : Memory} {a : Word}
    (h : mem.values.size ≤ (lastByte a n).toNat) : Rejects n mem a :=
  ⟨fun v => (memoryRead_boundTested v).rejected h, fun v => (memoryWrite_boundTested v).rejected h⟩

section Step

variable [Host]

theorem armExecuteInstruction_result (u : Locals) (p : ArmCore) :
    Ensures (armExecuteInstruction u p) fun r => r.1 ≠ Exception.dataAbort := by
  refine ensures_bind fun ⟨res, inst, p'⟩ => ?_
  simp only
  split
  · exact ensures_pure (show Exception.prefetchAbort ≠ Exception.dataAbort by decide)
  · refine (executeFetched_results u p' inst).mono fun r hr => ?_
    rcases hr with h | h | ⟨h | h, -⟩ <;> rw [h] <;> decide

/-- No instruction, in whatever state, makes a step report a data abort. -/
theorem armStep_result (u : Locals) (p : ArmCore) :
    Ensures (armStep u p) fun r => r.1 ≠ Exception.dataAbort :=
  (armExecuteInstruction_result u p).bind fun r hr s hs => by rwa [raiseResult_fst r s hs]

end Step

/-- No step enters the data abort exception, whatever access fails in it. -/
theorem data_abort_never (host : Host) (u : Locals) (p : ArmCore) : ¬ DataAborts u p := by
  rintro ⟨p', hstep, -⟩
  exact armStep_result u p _ hstep rfl

/-- `str r0, [r1, #0xFF0]` in a memory of four bytes. -/
def strProgram : Processor where
  cycleCount := 0
  file := File.blank (modeStatus .svc)
  mem := ⟨#[0xF0, 0x0F, 0x81, 0xE5], false⟩

theorem target_str [Host] (u : Locals) (proc : ArmCore) : target u proc 0xE5810FF0 =
    (armReadRegister proc 1 >>= fun rn => armReadRegister proc 0 >>= fun _ =>
      .ok (.wordByte (rn + 0xFF0 * 1))) := rfl

theorem strProgram_failedAccess [Host] (u : Locals) :
    FailedAccess u (fetched strProgram).core 0xE5810FF0 := by
  have hrn : armReadRegister (fetched strProgram).core 1 = .ok ((fetched strProgram).register 1) :=
    (fetched strProgram).armReadRegister_eq 1
  have hrm : armReadRegister (fetched strProgram).core 0 = .ok ((fetched strProgram).register 0) :=
    (fetched strProgram).armReadRegister_eq 0
  have ha : target u (fetched strProgram).core 0xE5810FF0 = .ok (.wordByte 0xFF0) := by
    have hzero : (fetched strProgram).register 1 = 0 := rfl
    rw [target_str, hrn, ok_bind, hrm, ok_bind, hzero]
    rfl
  exact .wordByte (by decide) 0xFF0 ha (rejects_of_bound (by decide))

/-- The failed store is reported as 255 and raises nothing. -/
theorem data_abort_missed : ¬ ∀ (_host : Host) (u : Locals) (q : Processor) (ins : Word),
    memoryReadWord q.mem (pcAddress q) u.inst = .ok (0, ins) → condField ins = 0b1110 →
    FailedAccess u (fetched q).core ins → DataAborts u q.core := by
  intro h
  have hpc : pcAddress strProgram = 0 := by decide
  obtain ⟨p', hstep, -⟩ := h Host.x86 ⟨0, 0, 0, 0, 0, 0⟩ strProgram 0xE5810FF0
    (by rw [hpc]; rfl) (by decide) (@strProgram_failedAccess Host.x86 _)
  exact @armStep_result Host.x86 _ _ _ hstep rfl

end ArmSimulator.Exceptions
