import ArmSimulator.DataProcessing.StraightLine
import ArmSimulator.Debugger.Framing
import ArmSimulator.Decoding.Dispatch
import ArmSimulator.Storage.Faults

/-! # Continuing up to a breakpoint

`cont` peeks at the next word before every step. A failed read leaves the last
word it read, which was no breakpoint, or the loop would have ended there. Once
the first read has succeeded, the loop is the iteration of the step up to the
first state whose next word is a breakpoint.
-/

namespace ArmSimulator.Debugger

open Machine Machine.Gdb RegisterFile DataProcessing Exceptions Foundation.ExceptRun Storage

/-- The word the debugger stores over an instruction to stop in front of it. -/
def IsBreakpoint (w : Word) : Prop := w &&& 0xFFF000F0 = 0xE7F000F0

instance (w : Word) : Decidable (IsBreakpoint w) := inferInstanceAs (Decidable (_ = _))

/-- The word at the next fetch address can be read and is `w`. -/
def Fetches (p : ArmCore) (w : Word) : Prop :=
  ∃ a, fetchAddress p = .ok a ∧ ∀ old, armReadWord p a old = .ok (0, w)

def AtBreakpoint (p : ArmCore) : Prop := ∃ w, Fetches p w ∧ IsBreakpoint w

variable {p p' : ArmCore}

theorem Fetches.unique {w w' : Word} (h : Fetches p w) (h' : Fetches p w') : w = w' := by
  obtain ⟨a, ha, hread⟩ := h
  obtain ⟨a', ha', hread'⟩ := h'
  rw [ha, Except.ok.injEq] at ha'
  subst ha'
  have hsame := (hread 0).symm.trans (hread' 0)
  rw [Except.ok.injEq, Prod.mk.injEq] at hsame
  exact hsame.2

/-- What a read of the next word returns: the word, or what the variable held before. -/
theorem read_next {a old w : Word} {r : Int} (ha : fetchAddress p = .ok a)
    (h : armReadWord p a old = .ok (r, w)) : Fetches p w ∨ w = old ∧ ∀ x, ¬ Fetches p x := by
  by_cases hadmitted : Admitted p.mem .word a
  · have hr : r = 0 := (memoryReadWord_boundTested old).passed hadmitted r w h
    subst hr
    exact Or.inl ⟨a, ha, fun old' => (memoryRead_admitted hadmitted old' old).trans h⟩
  · have hreject (old : Word) : armReadWord p a old = .ok (-1, old) :=
      memoryRead_rejected hadmitted old
    rw [hreject, Except.ok.injEq, Prod.mk.injEq] at h
    refine Or.inr ⟨h.2.symm, ?_⟩
    rintro x ⟨a', ha', hread⟩
    rw [ha, Except.ok.injEq] at ha'
    subst ha'
    exact absurd ((hreject 0).symm.trans (hread 0)) (by simp)

theorem armFetch_fetches {old w : Word} (h : armFetch p old = .ok (0, w, p')) : Fetches p w := by
  obtain ⟨pc, hpc, h⟩ := bind_eq_ok.mp h
  obtain ⟨⟨r, w'⟩, hread, h⟩ := bind_eq_ok.mp h
  obtain ⟨p'', -, h⟩ := bind_eq_ok.mp h
  rw [pure_eq_ok, Prod.mk.injEq, Prod.mk.injEq] at h
  obtain ⟨rfl, rfl, -⟩ := h
  have ha : fetchAddress p = .ok (pc - 4) := by
    have hpc : armReadRegister p 15 = .ok pc := hpc
    rw [fetchAddress, hpc]
    rfl
  have hadmitted : Admitted p.mem .word (pc - 4) := by
    by_contra hadmitted
    have hreject := memoryRead_rejected (n := .word) hadmitted old
    exact absurd (hreject.symm.trans hread) (by simp)
  exact ⟨pc - 4, ha, fun old' => (memoryRead_admitted hadmitted old' old).trans hread⟩

section Loop

variable [Host]

/-- `k` calls of `arm_step`, each with its own locals. -/
def armSteps : ℕ → (ℕ → Locals) → ArmCore → Except Stop ArmCore
  | 0, _, p => .ok p
  | k + 1, steps, p => do
    let (_, p) ← armStep (steps 0) p
    armSteps k (fun i => steps (i + 1)) p

/-- From `p` to `p'` in `k` steps, none of which fetches a breakpoint. -/
structure StepsTo (k : ℕ) (steps : ℕ → Locals) (p p' : ArmCore) : Prop where
  run : armSteps k steps p = .ok p'
  clear : ∀ j < k, ∃ q, armSteps j steps p = .ok q ∧ ¬ AtBreakpoint q ∧
    ∀ old w q', armFetch q old = .ok (0, w, q') → ¬ IsBreakpoint w

theorem stepsTo_zero (steps : ℕ → Locals) (p : ArmCore) : StepsTo 0 steps p p :=
  ⟨rfl, fun j hj => absurd hj (Nat.not_lt_zero j)⟩

theorem stepsTo_succ {k : ℕ} {steps : ℕ → Locals} {p₁ : ArmCore} {r : Int}
    (hp : ¬ AtBreakpoint p) (hstep : armStep (steps 0) p = .ok (r, p₁))
    (h : StepsTo k (fun i => steps (i + 1)) p₁ p') : StepsTo (k + 1) steps p p' := by
  have hrun (j : ℕ) : armSteps (j + 1) steps p = armSteps j (fun i => steps (i + 1)) p₁ := by
    rw [armSteps, hstep]
    rfl
  refine ⟨(hrun k).trans h.run, fun j hj => ?_⟩
  cases j with
  | zero =>
    exact ⟨p, rfl, hp, fun _ w _ hfetch hw => hp ⟨w, armFetch_fetches hfetch, hw⟩⟩
  | succ j =>
    obtain ⟨q, hq, hclear⟩ := h.clear j (Nat.lt_of_succ_lt_succ hj)
    exact ⟨q, (hrun j).trans hq, hclear⟩

theorem stepsTo_inv {k : ℕ} {steps : ℕ → Locals} (h : StepsTo (k + 1) steps p p') :
    ¬ AtBreakpoint p ∧ ∃ r, armStep (steps 0) p = .ok r ∧
      StepsTo k (fun i => steps (i + 1)) r.2 p' := by
  obtain ⟨q, hq, hclear, -⟩ := h.clear 0 k.succ_pos
  obtain rfl : p = q := Except.ok.inj hq
  obtain ⟨r, hr, hrest⟩ := bind_eq_ok.mp h.run
  refine ⟨hclear, r, hr, hrest, fun j hj => ?_⟩
  obtain ⟨q, hq, hclear⟩ := h.clear (j + 1) (Nat.succ_lt_succ hj)
  obtain ⟨r', hr', hq⟩ := bind_eq_ok.mp hq
  rw [hr, Except.ok.injEq] at hr'
  exact ⟨q, hr' ▸ hq, hclear⟩

/-- The steps up to the next breakpoint use no variable that they have not assigned. -/
def StepsAssign (p : ArmCore) : Prop :=
  ∀ k steps q, StepsTo k steps p q → ¬ AtBreakpoint q → Ignores fun u => armStep u q

theorem StepsAssign.next {u : Locals} {r : Int × ArmCore} (h : StepsAssign p)
    (hp : ¬ AtBreakpoint p) (hstep : armStep u p = .ok r) : StepsAssign r.2 := by
  intro k steps q hq
  let steps' : ℕ → Locals := fun i => i.casesOn u steps
  have hnext : StepsTo (k + 1) steps' p q := stepsTo_succ hp hstep hq
  exact h (k + 1) steps' q hnext

theorem stepsTo_unique {k k' : ℕ} {steps steps' : ℕ → Locals} {q q' : ArmCore}
    (hassign : StepsAssign p) (h : StepsTo k steps p q) (hq : AtBreakpoint q)
    (h' : StepsTo k' steps' p q') (hq' : AtBreakpoint q') : q = q' := by
  induction k generalizing k' steps steps' p with
  | zero =>
    obtain rfl : p = q := Except.ok.inj h.run
    cases k' with
    | zero => exact Except.ok.inj h'.run
    | succ k' => exact absurd hq (stepsTo_inv h').1
  | succ k ih =>
    obtain ⟨hclear, r, hstep, hrest⟩ := stepsTo_inv h
    cases k' with
    | zero =>
      obtain rfl : p = q' := Except.ok.inj h'.run
      exact absurd hq' hclear
    | succ k' =>
      obtain ⟨-, r', hstep', hrest'⟩ := stepsTo_inv h'
      have hsame : armStep (steps 0) p = armStep (steps' 0) p :=
        hassign 0 steps p (stepsTo_zero steps p) hclear _ _
      rw [hstep, hstep', Except.ok.injEq] at hsame
      subst hsame
      exact ih (hassign.next hclear hstep) hrest hrest'

theorem contLoop_succ {turns : ℕ} {steps : ℕ → Locals} {instruction : Word} {e e' : Int}
    (h : contLoop (turns + 1) steps instruction p e = .ok (p', e')) :
    ∃ a r w, fetchAddress p = .ok a ∧ armReadWord p a instruction = .ok (r, w) ∧
      if IsBreakpoint w then p' = p else ∃ e₁ p₁, armStep (steps 0) p = .ok (e₁, p₁) ∧
        contLoop turns (fun i => steps (i + 1)) w p₁ e₁ = .ok (p', e') := by
  obtain ⟨pc, hpc, h⟩ := bind_eq_ok.mp h
  obtain ⟨⟨r, w⟩, hread, h⟩ := bind_eq_ok.mp h
  rw [lift_eq_ok] at hpc hread
  refine ⟨pc - 4, r, w, by rw [fetchAddress, hpc]; rfl, hread, ?_⟩
  split_ifs with hw
  · have h : (.ok (p, e) : Except Halt (ArmCore × Int)) = .ok (p', e') := (if_pos hw).symm.trans h
    rw [Except.ok.injEq, Prod.mk.injEq] at h
    exact h.1.symm
  · obtain ⟨⟨e₁, p₁⟩, hstep, hrest⟩ := bind_eq_ok.mp ((if_neg hw).symm.trans h)
    exact ⟨e₁, p₁, lift_eq_ok.mp hstep, hrest⟩

theorem contLoop_atBreakpoint {turns : ℕ} (steps : ℕ → Locals) (instruction : Word) (e : Int)
    (h : AtBreakpoint p) : contLoop (turns + 1) steps instruction p e = .ok (p, e) := by
  obtain ⟨w, ⟨a, ha, hread⟩, hw⟩ := h
  obtain ⟨pc, hpc, hpc'⟩ := bind_eq_ok.mp ha
  rw [pure_eq_ok] at hpc'
  subst hpc'
  refine bind_eq_ok.mpr ⟨pc, lift_eq_ok.mpr hpc, bind_eq_ok.mpr ⟨(0, w), ?_, if_pos hw⟩⟩
  exact lift_eq_ok.mpr (hread instruction)

theorem contLoop_step {turns : ℕ} {steps : ℕ → Locals} {instruction pc w : Word} {r e₁ : Int}
    {p₁ : ArmCore} (hpc : armReadRegister p 15 = .ok pc)
    (hread : armReadWord p (pc - 4) instruction = .ok (r, w)) (hw : ¬ IsBreakpoint w)
    (hstep : armStep (steps 0) p = .ok (e₁, p₁)) (e : Int) :
    contLoop (turns + 1) steps instruction p e =
      contLoop turns (fun i => steps (i + 1)) w p₁ e₁ := by
  rw [contLoop, lift_eq_ok.mpr hpc, ok_bind]
  dsimp only
  rw [lift_eq_ok.mpr hread, ok_bind]
  refine (if_neg hw).trans ?_
  rw [lift_eq_ok.mpr hstep, ok_bind]

/-- The loop with a word in `instruction` that is no breakpoint, or a next word to replace it. -/
theorem contLoop_stepsTo {turns : ℕ} {steps : ℕ → Locals} {instruction : Word} {e e' : Int}
    (hpeek : ¬ IsBreakpoint instruction ∨ ∃ w, Fetches p w)
    (h : contLoop turns steps instruction p e = .ok (p', e')) :
    ∃ k < turns, StepsTo k steps p p' ∧ AtBreakpoint p' := by
  induction turns generalizing steps instruction p e with
  | zero => exact absurd h (by simp [contLoop])
  | succ turns ih =>
    obtain ⟨a, r, w, ha, hread, h⟩ := contLoop_succ h
    have hnext := read_next ha hread
    by_cases hw : IsBreakpoint w
    · rw [if_pos hw] at h
      subst h
      refine ⟨0, turns.succ_pos, stepsTo_zero _ _, ?_⟩
      rcases hnext with hfetch | ⟨rfl, hnone⟩
      · exact ⟨w, hfetch, hw⟩
      · rcases hpeek with hstale | ⟨x, hx⟩
        · exact absurd hw hstale
        · exact absurd hx (hnone x)
    · rw [if_neg hw] at h
      obtain ⟨e₁, p₁, hstep, hrest⟩ := h
      obtain ⟨k, hk, hrun, hbreak⟩ := ih (Or.inl hw) hrest
      have hp : ¬ AtBreakpoint p := by
        rintro ⟨x, hx, hxbreak⟩
        rcases hnext with hfetch | ⟨-, hnone⟩
        · exact hw (hfetch.unique hx ▸ hxbreak)
        · exact hnone x hx
      exact ⟨k + 1, Nat.succ_lt_succ hk, stepsTo_succ hp hstep hrun, hbreak⟩

omit [Host] in
theorem gdbSendStopReason_arm (gdb : GdbProtocolData) :
    Returns (gdbSendStopReason gdb) fun gdb' => gdb'.arm = gdb.arm := by
  have hsend {s : List Byte} (hs : IsPayload s) (hlen : s.length + 5 ≤ maxPacketSize) :
      Returns (gdbSendData gdb s) fun gdb' => gdb'.arm = gdb.arm := by
    obtain ⟨gdb', hsend, hanswered⟩ := gdbSendData_answered gdb hs hlen
    exact ⟨gdb', hsend, hanswered.arm⟩
  unfold gdbSendStopReason
  split_ifs
  · exact hsend (by decide) (by decide)
  · exact hsend (by decide) (by decide)
  · exact hsend (by decide) (by decide)

/-- Where the first word can be fetched and the loop ends, the request ends after the
steps up to the first breakpoint. -/
theorem cont_stepsTo (gdb : GdbProtocolData) (u : HandlerLocals) {turns : ℕ} {arm : ArmCore}
    {e : Int} (hfirst : ∃ w, Fetches gdb.arm w)
    (hloop : contLoop turns u.steps u.instruction gdb.arm gdb.targetException = .ok (arm, e)) :
    Returns (Gdb.cont gdb u turns) fun gdb' => gdb'.arm = arm ∧
      ∃ k < turns, StepsTo k u.steps gdb.arm gdb'.arm ∧ AtBreakpoint gdb'.arm := by
  obtain ⟨gdb', hreason, harm⟩ := gdbSendStopReason_arm { gdb with arm, targetException := e }
  have harm : gdb'.arm = arm := harm
  refine ⟨gdb', ?_, harm, harm ▸ contLoop_stepsTo (Or.inr hfirst) hloop⟩
  rw [Gdb.cont, hloop, ok_bind]
  exact lift_eq_ok.mpr hreason

end Loop

/-- `movs r1, #1` at address 0 and a breakpoint behind it. -/
def breakProgram : Processor :=
  Decoding.program .svc #[0x01, 0x10, 0xB0, 0xE3, 0xF0, 0x00, 0xF0, 0xE7]

theorem breakProgram_fetches : Fetches breakProgram.core 0xE3B01001 :=
  ⟨0, by rw [fetchAddress_core, breakProgram, Decoding.pcAddress_program], fun _ => rfl⟩

theorem breakProgram_steps (u : Locals) : ∃ q : Processor,
    @armStep Host.x86 u breakProgram.core = .ok (0, q.core) ∧ AtBreakpoint q.core := by
  let host := Host.x86
  obtain ⟨-, q, hstep, hframe⟩ := dataProcessing_step breakProgram 0xE3B01001
    (isDataProcessing_mov (Or.inl rfl)) u (Decoding.memoryReadWord_program .svc rfl)
  have hpc : pcAddress q = 4 := by
    rw [pcAddress_next hframe.pc, breakProgram, Decoding.pcAddress_program]
    rfl
  refine ⟨q, hstep, 0xE7F000F0, ⟨4, by rw [fetchAddress_core, hpc], fun old => ?_⟩, by decide⟩
  have hread : memoryReadWord breakProgram.mem 4 old = .ok (0, 0xE7F000F0) := rfl
  rw [← hframe.mem] at hread
  exact hread

theorem cont_stopped : ¬ AtBreakpoint breakProgram.core ∧ ∃ arm,
    Returns (@Gdb.cont Host.x86 (session breakProgram.core) noLocals 2) fun gdb' =>
      gdb'.arm = arm ∧ ∃ k < 2, @StepsTo Host.x86 k noLocals.steps breakProgram.core gdb'.arm ∧
        AtBreakpoint gdb'.arm := by
  let host := Host.x86
  have hclear : ¬ IsBreakpoint 0xE3B01001 := by decide
  obtain ⟨q, hstep, hbreak⟩ := breakProgram_steps (noLocals.steps 0)
  have hpc := breakProgram.armReadRegister_pc
  have hloop : contLoop 2 noLocals.steps noLocals.instruction breakProgram.core 0 =
      .ok (q.core, 0) := by
    rw [contLoop_step hpc rfl hclear hstep]
    exact contLoop_atBreakpoint _ _ _ hbreak
  refine ⟨fun ⟨w, hw, hbreak⟩ => hclear (breakProgram_fetches.unique hw ▸ hbreak), q.core, ?_⟩
  exact cont_stepsTo (session breakProgram.core) noLocals ⟨_, breakProgram_fetches⟩ hloop

end ArmSimulator.Debugger
