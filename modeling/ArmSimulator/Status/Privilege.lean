import ArmSimulator.Exceptions.Masking
import ArmSimulator.Status.Frame

/-! # Privilege

User code should leave the mode and the interrupt masks alone. The masks
`UserMask` and `PrivMask` and the test for a privileged mode exist in the source,
but `write_psr` uses none of them: a move to the lowest byte of the status writes
what it is given, in every mode.
-/

namespace ArmSimulator.Status

open Machine RegisterFile Decoding Exceptions Foundation.ExceptRun

/-- The mode bits and the masks of fast and normal interrupts. -/
def privilegeBits : List Nat := [0, 1, 2, 3, 4, 6, 7]

def SamePrivileges (p p' : ArmCore) : Prop :=
  ∀ j ∈ privilegeBits, (armReadCpsr p').getLsbD j = (armReadCpsr p).getLsbD j

/-- The step returned the number of an exception. -/
def TakesException (r : Int × ArmCore) : Prop := 1 ≤ r.1 ∧ r.1 ≤ 7

section Privileges

variable {p p' p'' : ArmCore}

theorem SamePrivileges.trans (h : SamePrivileges p p') (h' : SamePrivileges p' p'') :
    SamePrivileges p p'' := fun j hj => (h' j hj).trans (h j hj)

theorem Keeps.samePrivileges (h : Keeps p p') : SamePrivileges p p' := by
  intro j hj
  have hrange : ∀ j ∈ privilegeBits, j < 28 ∧ j ≠ 5 := by decide
  exact h j (hrange j hj).1 (hrange j hj).2

theorem SamePrivileges.mode (h : SamePrivileges p p') : getMode p'.reg = getMode p.reg := by
  have hmem : ∀ j ≤ 4, j ∈ privilegeBits := by decide
  exact getMode_eq_of_bits fun j hj => h j (hmem j hj)

theorem fetch_samePrivileges {value word : Word} {res : Int}
    (h : armFetch p value = .ok (res, word, p')) : SamePrivileges p p' :=
  fun j _ => congrArg (fun x => x.getLsbD j) (armFetch_cpsr p value _ h).1

end Privileges

/-! ## One step -/

section Step

variable [Host] {u : Locals} {p p' : ArmCore} {inst : Word}

theorem run_statusWrite (hwrite : IsStatusWrite inst) :
    (dispatch inst).run u p inst = (msrByte p inst >>= fun value =>
      .ok (0, armWriteCpsr p (psrFields inst (armReadCpsr p) value))) := by
  rw [hwrite.dispatched, Handler.run, armMiscellaneous_msr p hwrite.msr]
  refine congrArg _ (funext fun value => ?_)
  rw [armMiscellaneous_cpsr p inst value hwrite.cpsr]
  rfl

theorem armStep_statusWrite {value : Byte} (hfetch : armFetch p u.inst = .ok (0, inst, p'))
    (hpass : Passes (armReadCpsr p') inst) (hwrite : IsStatusWrite inst)
    (hvalue : msrByte p' inst = .ok value) :
    armStep u p = .ok (0, armWriteCpsr p' (psrFields inst (armReadCpsr p') value)) := by
  rw [armStep_dispatch hfetch hpass, run_statusWrite hwrite, hvalue]
  rfl

omit [Host] in
theorem samePrivileges_statusWrite_iff (value : Byte) :
    SamePrivileges p (armWriteCpsr p (psrFields inst (armReadCpsr p) value)) ↔
      (getBit inst 16 = 1 → ∀ j ∈ privilegeBits, value.getLsbD j = (armReadCpsr p).getLsbD j) := by
  have hrange : ∀ j ∈ privilegeBits, j < 8 := by decide
  constructor
  · intro h h16 j hj
    have hsame := h j hj
    rwa [getLsbD_statusWrite _ _ _ (hrange j hj), if_pos h16] at hsame
  · intro h j hj
    rw [getLsbD_statusWrite _ _ _ (hrange j hj)]
    split
    · rename_i h16
      exact h h16 j hj
    · rfl

/-- The word writes other privileges to the status than the ones it finds. -/
def GrantsPrivileges (p : ArmCore) (inst : Word) : Prop :=
  IsStatusWrite inst ∧ getBit inst 16 = 1 ∧
    ∃ value, msrByte p inst = .ok value ∧
      ∃ j ∈ privilegeBits, value.getLsbD j ≠ (armReadCpsr p).getLsbD j

theorem run_samePrivileges_iff (husr : getMode p.reg = Mode.usr.bits) {r : Int × ArmCore}
    (h : (dispatch inst).run u p inst = .ok r) :
    SamePrivileges p r.2 ↔ ¬ GrantsPrivileges p inst := by
  have hspsr : ¬ currentModeHasSpsr p.reg := by
    rw [currentModeHasSpsr, husr]
    decide
  by_cases hwrite : IsStatusWrite inst
  · rw [run_statusWrite hwrite] at h
    obtain ⟨value, hvalue, hr⟩ := bind_eq_ok.mp h
    rw [Except.ok.injEq] at hr
    subst hr
    rw [samePrivileges_statusWrite_iff, GrantsPrivileges]
    simp only [hwrite, hvalue, true_and, Except.ok.injEq, exists_eq_left', ne_eq, not_and,
      not_exists, not_not]
  · have hkeeps := run_keeps u p inst hwrite (fun hreturn => hspsr hreturn.2) r h
    exact iff_of_true hkeeps.samePrivileges fun hgrants => hwrite hgrants.1

end Step

/-! ## Runs of user code -/

section Runs

variable [Host]

/-- A step of user code that takes no exception keeps the privileges. -/
def Confined (p : ArmCore) : Event → Prop
  | .step u => getMode p.reg = Mode.usr.bits →
      ∀ r, armStep u p = .ok r → ¬ TakesException r → SamePrivileges p r.2
  | .irq _ => True

/-- User code does not run a word that grants it other privileges. -/
def Unprivileged (p : ArmCore) : Event → Prop
  | .step u => getMode p.reg = Mode.usr.bits →
      ∀ inst p', armFetch p u.inst = .ok (0, inst, p') → Passes (armReadCpsr p') inst →
        ¬ GrantsPrivileges p' inst
  | .irq _ => True

def Undisturbed (p : ArmCore) : Event → Prop
  | .step u => ∀ r, armStep u p = .ok r → ¬ TakesException r
  | .irq b => ∀ k : Kind, b ≠ k.number

omit [Host] in
theorem takesException_number {k : Kind} {r : Int × ArmCore} (h : r.1 = k.number.toNat) :
    TakesException r := by
  rw [TakesException, h]
  cases k <;> decide

theorem confined_iff (p : ArmCore) (e : Event) : Confined p e ↔ Unprivileged p e := by
  cases e with
  | irq b => exact Iff.rfl
  | step u =>
    refine forall_congr' fun husr =>
      ⟨fun h inst p' hfetch hpass hgrants => ?_, fun h r hr hno => ?_⟩
    · have hfetched := fetch_samePrivileges hfetch
      have husr' : getMode p'.reg = Mode.usr.bits := hfetched.mode.trans husr
      obtain ⟨hwrite, -, value, hvalue, -⟩ := id hgrants
      have hrun : (dispatch inst).run u p' inst =
          .ok (0, armWriteCpsr p' (psrFields inst (armReadCpsr p') value)) := by
        rw [run_statusWrite hwrite, hvalue]
        rfl
      have hstep := armStep_statusWrite hfetch hpass hwrite hvalue
      have hsame := h _ hstep fun htakes => Int.not_le.mpr Int.zero_lt_one htakes.1
      refine (run_samePrivileges_iff husr' hrun).mp (fun j hj => ?_) hgrants
      exact (hsame j hj).trans (hfetched j hj).symm
    · obtain ⟨res, inst, p', hfetch, hreturns⟩ := armStep_returns hr
      have hfetched := fetch_samePrivileges hfetch
      have husr' : getMode p'.reg = Mode.usr.bits := hfetched.mode.trans husr
      cases hreturns with
      | raised k _ hnumber _ => exact absurd (takesException_number hnumber) hno
      | skipped _ _ hskip =>
        subst hskip
        exact hfetched
      | executed hres hpass _ hrun _ =>
        subst hres
        exact hfetched.trans ((run_samePrivileges_iff husr' hrun).mpr (h inst p' hfetch hpass))

theorem samePrivileges_run (es : List Event) {p : ArmCore} (husr : getMode p.reg = Mode.usr.bits)
    (hconfined : Along happen Confined p es) (hquiet : Along happen Undisturbed p es) :
    Ensures (es.foldlM happen p) (SamePrivileges p) := by
  induction es generalizing p with
  | nil => exact ensures_pure fun _ _ => rfl
  | cons e es ih =>
    rw [List.foldlM_cons]
    intro q hq
    obtain ⟨p', hp', hq⟩ := bind_eq_ok.mp hq
    have hsame : SamePrivileges p p' := by
      cases e with
      | irq b =>
        have hstay : irqListener p b = .ok p := armException_ignored p hquiet.1
        rw [happen, hstay, Except.ok.injEq] at hp'
        exact hp' ▸ fun _ _ => rfl
      | step u =>
        obtain ⟨r, hr, hfst⟩ := map_eq_ok.mp hp'
        exact hfst ▸ hconfined.1 husr r hr (hquiet.1 r hr)
    have hrest := ih (hsame.mode.trans husr) (hconfined.2 p' hp') (hquiet.2 p' hp')
    exact hsame.trans (hrest q hq)

/-- User code changes its privileges by taking an exception only. -/
structure KeepsPrivileges (p : ArmCore) (es : List Event) : Prop where
  steps : Along happen Confined p es
  run : getMode p.reg = Mode.usr.bits → Along happen Undisturbed p es →
    Ensures (es.foldlM happen p) (SamePrivileges p)

/-- A run keeps user code confined exactly when it executes no move that grants privileges. -/
theorem keepsPrivileges_iff (p : ArmCore) (es : List Event) :
    KeepsPrivileges p es ↔ Along happen Unprivileged p es := by
  rw [← along_congr confined_iff es]
  exact ⟨fun h => h.steps, fun h => ⟨h, fun husr hquiet => samePrivileges_run es husr h hquiet⟩⟩

end Runs

/-- `msr cpsr_c, #0x13` in user mode. -/
theorem msr_grants_privileges :
    ¬ ∀ (host : Host) (p : ArmCore) (es : List Event), @KeepsPrivileges host p es := by
  intro h
  let host := Host.x86
  have hsteps := (h host (program .usr #[0x13, 0xF0, 0x21, 0xE3]).core
    [.step ⟨0, 0, 0, 0, 0, 0⟩]).steps
  have hfetch := @program_fetch .usr #[0x13, 0xF0, 0x21, 0xE3] 0 0xE321F013 rfl
  have hbyte (p : ArmCore) : msrByte p 0xE321F013 = .ok 0x13 := by
    rw [msrByte, if_pos (by decide)]
    exact congrArg _ (by decide)
  refine (confined_iff _ _).mp hsteps.1 rfl _ _ hfetch (Or.inl (by decide))
    ⟨⟨by decide, by decide, by decide⟩, by decide, 0x13, hbyte _, 0, by decide, ?_⟩
  decide

end ArmSimulator.Status
