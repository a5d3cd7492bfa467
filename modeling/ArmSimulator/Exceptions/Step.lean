import ArmSimulator.Exceptions.Entry
import ArmSimulator.Exceptions.Outcome

/-! # Steps that raise an exception

A step fetches at the stored program counter, executes, and raises a nonzero
result as an exception. From a valid mode the raised exceptions are the entries
of `enter` from the state right after the fetch; the result 255 of a failed
memory access raises none.
-/

namespace ArmSimulator.Exceptions

open Machine RegisterFile Foundation.ExceptRun

/-! ## The program counter -/

theorem and_clearBit (x : Word) (h : x.getLsbD 1 = false) : x &&& 0xFFFFFFFD = x := by
  have hmask : ∀ i < 32, (0xFFFFFFFD : Word).getLsbD i = !decide (i = 1) := by decide
  apply BitVec.eq_of_getLsbD_eq
  intro i hi
  rw [BitVec.getLsbD_and, hmask i hi]
  by_cases h1 : i = 1
  · rw [h1, h, Bool.false_and]
  · rw [decide_eq_false h1, Bool.not_false, Bool.and_true]

theorem getLsbD_readPc (x : Word) : (readPc x).getLsbD 1 = false := by
  rw [readPc, BitVec.getLsbD_and, show (0xFFFFFFFD : Word).getLsbD 1 = false by decide,
    Bool.and_false]

theorem getLsbD_add_multiple (x : Word) {y : Word} (hy : 4 ∣ y.toNat) :
    (x + y).getLsbD 1 = x.getLsbD 1 := by
  simp only [BitVec.getLsbD, Nat.testBit_eq_decide_div_mod_eq, BitVec.toNat_add]
  congr 1
  rw [eq_iff_iff]
  omega

theorem getLsbD_add_four (x : Word) : (x + 4).getLsbD 1 = x.getLsbD 1 :=
  getLsbD_add_multiple x (Nat.dvd_refl 4)

theorem readPc_readPc (x : Word) : readPc (readPc x) = readPc x + 4 := by
  rw [readPc, and_clearBit _ ((getLsbD_add_four _).trans (getLsbD_readPc x))]

theorem readPc_sub (x : Word) : readPc (readPc x - 4) = readPc x := by
  rw [readPc, BitVec.sub_add_cancel, and_clearBit _ (getLsbD_readPc x)]

/-- The address `arm_fetch` computes. -/
def fetchAddress (p : ArmCore) : Except Stop Word := do
  return (← armReadRegister p 15) - 4

/-- The address of the instruction a processor executes next. -/
def pcAddress (q : Processor) : Word := readPc (q.file.cells 15) - 4

theorem fetchAddress_core (q : Processor) : fetchAddress q.core = .ok (pcAddress q) := by
  rw [fetchAddress, q.armReadRegister_pc, ok_bind]
  rfl

theorem pcAddress_next {q q' : Processor} (h : q'.file.cells 15 = readPc (q.file.cells 15)) :
    pcAddress q' = pcAddress q + 4 := by
  rw [pcAddress, h, readPc_readPc, BitVec.add_sub_cancel, pcAddress, BitVec.sub_add_cancel]

/-- The processor once it has fetched. -/
def fetched (q : Processor) : Processor :=
  { q.write 15 (pcAddress q + 4) with cycleCount := q.cycleCount + 1 }

theorem fetched_mode (q : Processor) : (fetched q).file.mode = q.file.mode := rfl

theorem fetched_cells (q : Processor) (l : Position) : (fetched q).file.cells l =
    if l = 15 then readPc (q.file.cells 15) else q.file.cells l := by
  have hpc : pcAddress q + 4 = readPc (q.file.cells 15) := BitVec.sub_add_cancel _ _
  change (q.write 15 (pcAddress q + 4)).file.cells l = _
  rw [Processor.write_cells, position_pc, hpc]

theorem fetched_cpsr (q : Processor) : readCpsr (fetched q).file.cells = readCpsr q.file.cells := by
  rw [readCpsr, fetched_cells, if_neg (by decide)]
  rfl

theorem armFetch_eq (q : Processor) (value : Word) : armFetch q.core value =
    (memoryReadWord q.mem (pcAddress q) value >>= fun r => .ok (r.1, r.2, (fetched q).core)) := by
  have hread : armReadRegister { q.core with cycleCount := q.core.cycleCount + 1 } 15 =
      .ok (readPc (q.file.cells 15)) :=
    Processor.armReadRegister_pc { q with cycleCount := q.cycleCount + 1 }
  have hwrite (v : Word) :
      armWriteRegister { q.core with cycleCount := q.core.cycleCount + 1 } 15 v =
        .ok { q.write 15 v with cycleCount := q.cycleCount + 1 }.core :=
    Processor.armWriteRegister_pc { q with cycleCount := q.cycleCount + 1 } v
  rw [armFetch]
  simp only [hread, ok_bind, hwrite]
  rfl

section Step

variable [Host]

theorem armStep_fetched (u : Locals) (q : Processor) {inst : Word}
    (h : memoryReadWord q.mem (pcAddress q) u.inst = .ok (0, inst)) :
    armStep u q.core = (executeFetched u (fetched q).core inst >>= raiseResult) := by
  rw [armStep, armExecuteInstruction, armFetch_eq, h]
  rfl

theorem armStep_abort (u : Locals) (q : Processor) {r : Int × Word}
    (h : memoryReadWord q.mem (pcAddress q) u.inst = .ok r) (hr : r.1 ≠ 0) :
    armStep u q.core = .ok (4, (enter (fetched q) .prefetchAbort).core) := by
  have henter : armException (fetched q).core 4 = .ok (enter (fetched q) .prefetchAbort).core :=
    armException_enter (fetched q) .prefetchAbort
  rw [armStep, armExecuteInstruction, armFetch_eq, h]
  simp only [ok_bind, hr, ne_eq, not_false_eq_true, if_true]
  change (armException (fetched q).core 4 >>= fun p => .ok (4, p)) = _
  rw [henter]
  rfl

omit [Host] in
theorem raiseResult_kind (q : Processor) {r : Int} {k : Kind} (hr : r ≠ 0)
    (hk : toUint8 r = k.number) : raiseResult (r, q.core) = .ok (r, (enter q k).core) := by
  rw [raiseResult, if_pos hr, hk, armException_enter]
  rfl

omit [Host] in
theorem raiseResult_fst (r : Int × ArmCore) : Ensures (raiseResult r) fun s => s.1 = r.1 := by
  unfold raiseResult
  split
  · exact ensures_bind fun _ => ensures_pure rfl
  · exact ensures_ok rfl

/-- How a step from a valid mode can end. -/
def StepEnds (q : Processor) (r : Int × ArmCore) : Prop :=
  r.1 = 0 ∨ r.1 = 255 ∨
    r = (2, (enter (fetched q) .undefinedInstruction).core) ∨
    r = (3, (enter (fetched q) .softwareInterrupt).core) ∨
    r = (4, (enter (fetched q) .prefetchAbort).core)

theorem armStep_ends (u : Locals) (q : Processor) : Ensures (armStep u q.core) (StepEnds q) := by
  intro r h
  cases hread : memoryReadWord q.mem (pcAddress q) u.inst with
  | error e =>
    rw [armStep, armExecuteInstruction, armFetch_eq, hread] at h
    exact absurd h (by simp [bind, Except.bind])
  | ok word =>
    by_cases hcode : word.1 = 0
    · have hword : memoryReadWord q.mem (pcAddress q) u.inst = .ok (0, word.2) := by
        rw [hread, ← hcode]
      rw [armStep_fetched u q hword] at h
      obtain ⟨s, hs, hraise⟩ := bind_eq_ok.mp h
      obtain ⟨code, p⟩ := s
      have hfst := raiseResult_fst _ _ hraise
      rcases executeFetched_results u (fetched q).core word.2 _ hs with h0 | h255 | ⟨h2 | h3, hp⟩
      · exact Or.inl (hfst.trans h0)
      · exact Or.inr (Or.inl (hfst.trans h255))
      · simp only at h2 hp
        subst h2 hp
        rw [raiseResult_kind (k := .undefinedInstruction) _ (by decide) rfl] at hraise
        exact Or.inr (Or.inr (Or.inl (Except.ok.inj hraise).symm))
      · simp only at h3 hp
        subst h3 hp
        rw [raiseResult_kind (k := .softwareInterrupt) _ (by decide) rfl] at hraise
        exact Or.inr (Or.inr (Or.inr (Or.inl (Except.ok.inj hraise).symm)))
    · rw [armStep_abort u q hread hcode] at h
      exact Or.inr (Or.inr (Or.inr (Or.inr (Except.ok.inj h).symm)))

end Step

end ArmSimulator.Exceptions
