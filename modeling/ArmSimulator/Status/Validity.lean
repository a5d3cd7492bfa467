import ArmSimulator.Status.Lookups
import ArmSimulator.Status.Privilege

/-! # Valid modes and the bank table

The bank table has rows for modes 16 to 31 and columns for the sixteen registers,
the status and the saved status. The last column is never assigned, so that every
access to a saved status selects an unassigned entry; and the modes stay valid
only if no status is written from a byte or a saved status that is not one.
-/

namespace ArmSimulator.Status

open Machine RegisterFile DataProcessing Decoding Exceptions Foundation.ExceptRun
  Foundation.Recording Foundation.Recording.Recorded

section Events

variable [Host]

/-- The mode is valid before and after the event, and every index it looks up is safe. -/
structure Safe (p : ArmCore) (e : Event) : Prop where
  valid : ValidMode p
  next : Ensures (happen p e) ValidMode
  indices : All IndexSafe (happenIndexed p e)

/-- A fetched word that neither accesses a saved status nor writes an invalid mode. -/
structure BenignWord (p p' : ArmCore) (inst : Word) : Prop where
  moves : IsSavedMove inst → ¬ hasSpsr p.reg
  returns : IsStatusReturn inst → ¬ currentModeHasSpsr p.reg
  mode : IsStatusWrite inst → getBit inst 16 = 1 → ∀ value, msrByte p' inst = .ok value →
    ∃ m : Mode, (getBits (value.setWidth 32) 4 0).toNat = m.bits

/-- The event delivers no exception that saves the status, and its word is benign. -/
def Benign (p : ArmCore) : Event → Prop
  | .step u => ∀ res inst p', armFetch p u.inst = .ok (res, inst, p') →
      (∀ k, ¬ Raises res (armReadCpsr p') inst k) ∧
        (res = 0 → Passes (armReadCpsr p') inst → BenignWord p p' inst)
  | .irq b => ∀ k : Kind, k.needSpsr → b ≠ k.number

end Events

/-! ## One event -/

section Event

variable [Host] {p : ArmCore}

omit [Host] in
theorem getMode_statusWrite (inst : Word) (value : Byte) :
    getMode (armWriteCpsr p (psrFields inst (armReadCpsr p) value)).reg =
      if getBit inst 16 = 1 then (getBits (value.setWidth 32) 4 0).toNat else getMode p.reg := by
  split_ifs with h16
  · refine congrArg BitVec.toNat (modeBits_eq_of_bits fun j hj => ?_)
    have hbit := getLsbD_statusWrite p inst value (show j < 8 by omega)
    rw [if_pos h16] at hbit
    rw [BitVec.getLsbD_setWidth, decide_eq_true (show j < 32 by omega), Bool.true_and]
    exact hbit
  · refine getMode_eq_of_bits fun j hj => ?_
    rw [getLsbD_statusWrite p inst value (by omega), if_neg h16]

theorem run_validMode {u : Locals} {p' : ArmCore} {inst : Word} (hvalid : ValidMode p)
    (hmode : getMode p'.reg = getMode p.reg) (h : BenignWord p p' inst) :
    Ensures ((dispatch inst).run u p' inst) fun r => ValidMode r.2 := by
  by_cases hwrite : IsStatusWrite inst
  · rw [run_statusWrite hwrite]
    intro r hr
    obtain ⟨value, hvalue, hr⟩ := bind_eq_ok.mp hr
    rw [Except.ok.injEq] at hr
    subst hr
    rw [ValidMode, getMode_statusWrite]
    split
    · rename_i h16
      exact h.mode hwrite h16 value hvalue
    · exact hvalid.of_eq hmode
  · have hreturn : ¬ (IsStatusReturn inst ∧ currentModeHasSpsr p'.reg) := by
      rintro ⟨hreturn, hspsr⟩
      rw [currentModeHasSpsr, hmode] at hspsr
      exact h.returns hreturn hspsr
    exact (run_keeps u p' inst hwrite hreturn).mono fun r hr =>
      hvalid.of_eq (hr.mode.trans hmode)

theorem next_of_benign {e : Event} (hvalid : ValidMode p) (h : Benign p e) :
    Ensures (happen p e) ValidMode := by
  cases e with
  | irq b =>
    by_cases hb : ∃ k : Kind, b = k.number
    · obtain ⟨k, rfl⟩ := hb
      exact (armException_mode p k).mono fun p' hp' => ⟨k.mode, hp'⟩
    · rw [happen, irqListener, armException_ignored p (not_exists.mp hb)]
      exact ensures_ok hvalid
  | step u =>
    refine Ensures.map fun r hr => ?_
    obtain ⟨res, inst, p', hfetch, hreturns⟩ := armStep_returns hr
    have hmode := (armFetch_mode hfetch).1
    obtain ⟨hno, hword⟩ := h res inst p' hfetch
    cases hreturns with
    | raised k hk _ _ => exact absurd hk (hno k)
    | skipped _ _ hskip => exact hskip ▸ hvalid.of_eq hmode
    | executed hres hpass _ hrun _ => exact run_validMode hvalid hmode (hword hres hpass) r hrun

theorem indices_of_benign {e : Event} (hvalid : ValidMode p) (h : Benign p e) :
    All IndexSafe (happenIndexed p e) := by
  cases e with
  | irq b =>
    by_cases hb : ∃ k : Kind, b = k.number
    · obtain ⟨k, rfl⟩ := hb
      exact (all_armExceptionIndexed_iff hvalid k).mpr fun hk => h k hk rfl
    · exact all_armExceptionIndexed_ignored (not_exists.mp hb)
  | step u =>
    refine all_bind_lift_iff.mpr ((all_armStepIndexed_iff hvalid).mpr fun res inst p' hfetch => ?_)
    obtain ⟨hno, hword⟩ := h res inst p' hfetch
    refine ⟨hno, fun hres hpass => ?_⟩
    rw [hasSpsr, currentModeHasSpsr, (armFetch_mode hfetch).1]
    exact ⟨fun hmove => (hword hres hpass).moves hmove.1 hmove.2,
      fun hreturn => (hword hres hpass).returns hreturn.1 hreturn.2⟩

theorem safe_of_benign {e : Event} (hvalid : ValidMode p) (h : Benign p e) : Safe p e :=
  ⟨hvalid, next_of_benign hvalid h, indices_of_benign hvalid h⟩

theorem benign_of_safe {e : Event} (h : Safe p e) : Benign p e := by
  cases e with
  | irq b =>
    rintro k hk rfl
    exact (all_armExceptionIndexed_iff h.valid k).mp h.indices hk
  | step u =>
    intro res inst p' hfetch
    obtain ⟨hno, hsaved⟩ := (all_armStepIndexed_iff h.valid).mp
      (all_bind_lift_iff.mp h.indices) res inst p' hfetch
    refine ⟨hno, fun hres hpass => ?_⟩
    obtain ⟨hmove, hreturn⟩ := hsaved hres hpass
    rw [hasSpsr, (armFetch_mode hfetch).1] at hmove
    rw [currentModeHasSpsr, (armFetch_mode hfetch).1] at hreturn
    refine ⟨fun hsaved hspsr => hmove ⟨hsaved, hspsr⟩,
      fun hstatus hspsr => hreturn ⟨hstatus, hspsr⟩, fun hwrite h16 value hvalue => ?_⟩
    subst hres
    have hstep : happen p (.step u) =
        .ok (armWriteCpsr p' (psrFields inst (armReadCpsr p') value)) := by
      rw [happen, armStep_statusWrite hfetch hpass hwrite hvalue]
      rfl
    have hnext := h.next _ hstep
    rwa [ValidMode, getMode_statusWrite, if_pos h16] at hnext

end Event

/-! ## Runs from reset -/

theorem validMode_created (registers : Registers) (mem : Memory) :
    ValidMode (created registers mem).core :=
  ⟨(created registers mem).file.mode, (created registers mem).file.mode_eq⟩

/-- From reset every state has a valid mode and every index into the bank table is safe
exactly when no event accesses a saved status or writes an invalid mode. -/
theorem tableSafe_iff [Host] (registers : Registers) (mem : Memory) (es : List Event) :
    Along happen Safe (created registers mem).core es ↔
      Along happen Benign (created registers mem).core es :=
  along_congr_of_invariant (I := ValidMode)
    (fun _ _ hvalid => ⟨benign_of_safe, safe_of_benign hvalid⟩) (fun _ _ _ h => h.next) es
    (validMode_created registers mem)

/-- The first interrupt after reset selects the unassigned entry of the saved status. -/
theorem irq_selects_unassigned :
    ¬ ∀ (host : Host) (registers : Registers) (mem : Memory) (p : ArmCore),
      armCreate registers mem = .ok p →
        ∀ es : List Event, @Along _ _ _ (@happen host) (@Safe host) p es := by
  intro h
  let host := Host.x86
  have hrun := h host (fun _ => 0) ⟨#[], false⟩ _ (armCreate_eq _ _) [.irq 6]
  exact benign_of_safe hrun.1 .interrupt rfl rfl

end ArmSimulator.Status
