import ArmSimulator.Transfers.Completion

/-! # The assertion of the block transfers

A rejected access ends the visits of a block, but the end address is computed for all of
its words. The two agree when every word is let pass or only the last one is not; a word
rejected before the last one fails the assertion, from any base and in any mode.
-/

namespace ArmSimulator.Transfers

open Machine Storage Decoding Foundation.ExceptRun

/-- The address of the first word of the block, from the value of the base. -/
def firstWord (ins base : Word) : Word :=
  let bytes := BitVec.ofNat 32 (4 * (listed ins).length)
  if pBit ins then if getBit ins 23 ≠ 0 then base + 4 else base - bytes
  else if getBit ins 23 ≠ 0 then base else base - bytes + 4

/-- Of the `n` words from `a` on one is rejected that is not the last, after accesses that
are let pass and do not fault. -/
def RejectsEarly (mem : Memory) (a : Word) (n : Nat) : Prop :=
  ∃ i < n - 1, ¬ Admitted mem .word (a + BitVec.ofNat 32 (4 * i)) ∧
    ∀ j < i, Admitted mem .word (a + BitVec.ofNat 32 (4 * j)) ∧
      ¬ Faults mem .word (a + BitVec.ofNat 32 (4 * j))

instance (mem : Memory) (a : Word) (n : Nat) : Decidable (RejectsEarly mem a n) :=
  inferInstanceAs (Decidable (∃ _ < _, _))

/-! ## How a block transfer stops -/

section Stops

variable {p : ArmCore}

theorem modePosition_throws (mode reg : Nat) : Throws (modePosition mode reg) (· = .wild) := by
  unfold modePosition
  split
  · exact throws_error rfl
  · dsimp only
    split
    · exact throws_ok _
    · exact throws_error rfl

theorem armReadRegister_throws (reg : Nat) : Throws (armReadRegister p reg) (· = .wild) := by
  have hread : Throws (readRegister p.reg reg) (· = .wild) := by
    unfold readRegister
    split
    · exact throws_ok _
    · exact (modePosition_throws _ _).bind fun _ => throws_ok _
  exact hread.bind fun _ => throws_ok _

theorem armWriteRegister_throws (reg : Nat) (value : Word) :
    Throws (armWriteRegister p reg value) (· = .wild) := by
  have hwrite : Throws (writeRegister p.reg reg value) (· = .wild) := by
    unfold writeRegister
    split
    · exact throws_ok _
    · exact (modePosition_throws _ _).bind fun _ => throws_ok _
  exact hwrite.bind fun _ => throws_ok _

theorem armWriteWord_throws (a value : Word) : Throws (armWriteWord p a value) (· = .wild) :=
  (memoryWriteWord_throws value).bind fun _ => throws_ok _

theorem ldmStep_throws (registers : Word) (s : MultipleState) (reg : Nat) :
    Throws (ldmStep registers s reg) (· = .wild) := by
  unfold ldmStep
  split
  · refine (memoryReadWord_throws s.word).bind fun r => ?_
    dsimp only
    split
    · exact (armWriteRegister_throws _ _).bind fun _ => throws_ok _
    · exact throws_ok _
  · exact throws_ok _

theorem ldmPc_throws (registers : Word) (s : MultipleState) :
    Throws (ldmPc registers s) (· = .wild) := by
  unfold ldmPc
  split
  · exact (memoryReadWord_throws s.word).bind fun r =>
      (armWriteRegister_throws _ _).bind fun _ => throws_ok _
  · exact throws_ok _

theorem stmStep_throws (registers : Word) (s : MultipleState) (reg : Nat) :
    Throws (stmStep registers s reg) (· = .wild) := by
  unfold stmStep
  split
  · exact (armReadRegister_throws _).bind fun _ =>
      (armWriteWord_throws _ _).bind fun _ => throws_ok _
  · exact throws_ok _

theorem blockVisit_throws (ins : Word) (s : MultipleState) (reg : Fin 16) :
    Throws (blockVisit ins s reg) (· = .wild) := by
  unfold blockVisit ldmVisit
  split_ifs
  · exact ldmPc_throws _ s
  · exact ldmStep_throws _ s reg
  · exact stmStep_throws _ s reg

end Stops

/-! ## When the end address is missed -/

section Assertion

variable {p : ArmCore} {mem : Memory} {a : Word}

theorem startAddress_word (p : ArmCore) (ins base : Word) :
    (addrmodeLoadStoreMultiple p ins base).1 = firstWord ins base := by
  simp only [addrmodeLoadStoreMultiple, bytes_eq, firstWord]
  generalize BitVec.ofNat 32 (4 * (listed ins).length) = bytes
  cases pBit ins <;> by_cases hu : getBit ins 23 = 0 <;>
    simp only [hu, ne_eq, not_true_eq_false, not_false_eq_true, decide_true, decide_false, if_true,
      if_false, Bool.false_eq_true] <;> bv_omega

theorem rejectsEarly_succ {n : Nat} : RejectsEarly mem a (n + 1) ↔
    if Admitted mem .word a then ¬ Faults mem .word a ∧ RejectsEarly mem (a + 4) n else n ≠ 0 := by
  have hzero : a + BitVec.ofNat 32 (4 * 0) = a := BitVec.add_zero a
  cases n with
  | zero =>
    have hnone : ¬ RejectsEarly mem a (0 + 1) := fun ⟨i, hi, _⟩ => Nat.not_lt_zero i hi
    have hnone' : ¬ RejectsEarly mem (a + 4) 0 := fun ⟨i, hi, _⟩ => Nat.not_lt_zero i hi
    split
    · exact iff_of_false hnone fun h => hnone' h.2
    · exact iff_of_false hnone (not_not.mpr rfl)
  | succ n =>
    rw [RejectsEarly, RejectsEarly, Nat.add_sub_cancel, Nat.add_sub_cancel,
      Nat.exists_lt_succ_left, hzero]
    split
    · rename_i hadmitted
      rw [or_iff_right fun h => h.1 hadmitted, ← exists_and_left]
      refine exists_congr fun i => ?_
      rw [Nat.forall_lt_succ_left, hzero, and_iff_right hadmitted]
      simp only [add_words]
      tauto
    · rename_i hrejected
      exact iff_of_true (Or.inl ⟨hrejected, fun j hj => absurd hj (Nat.not_lt_zero j)⟩)
        (Nat.succ_ne_zero n)

theorem endsAt_iff_rejectsEarly {e : Word} (n : Nat) (hn : n ≤ 16) {a : Word}
    (he : e = a + BitVec.ofNat 32 (4 * n)) :
    EndsAt (fun b => e ≠ b) mem a n ↔ RejectsEarly mem a n := by
  induction n generalizing a with
  | zero =>
    have hzero : a + BitVec.ofNat 32 0 = a := BitVec.add_zero a
    exact iff_of_false (not_not.mpr (he.trans hzero)) fun ⟨i, hi, _⟩ => Nat.not_lt_zero i hi
  | succ n ih =>
    rw [EndsAt, rejectsEarly_succ]
    split
    · rw [ih (by omega) (he.trans (add_words a n).symm)]
    · rename_i hrejected
      rw [and_iff_right (not_faults_of_rejected hrejected)]
      bv_omega

theorem block_assertion {g : MultipleState → Fin 16 → Except Stop MultipleState}
    {regs : List (Fin 16)} (hg : ∀ reg ∈ regs, IsVisit fun s => g s reg)
    (hthrows : ∀ s reg, Throws (g s reg) (· = .wild)) (hlen : regs.length ≤ 16)
    {s : MultipleState} (h : Banked s.proc) (hres : s.res = 0) :
    (regs.foldlM g s >>= fun s' =>
      if s.address + BitVec.ofNat 32 (4 * regs.length) - 4 = s'.address - 4 then
        pure (s'.res, s'.proc) else .error .assertion : Except Stop (Byte × ArmCore)) =
        .error .assertion ↔ RejectsEarly s.proc.mem s.address regs.length := by
  have hloop : regs.foldlM g s ≠ .error .assertion := fun herror =>
    absurd (throws_foldlM hthrows regs s _ herror) (by decide)
  rw [bind_eq_error, or_iff_right hloop, ← endsAt_iff_rejectsEarly _ hlen rfl,
    ← block_endsAt hg h hres]
  refine exists_congr fun s' => and_congr_right fun _ => ?_
  split
  · rename_i heq
    exact iff_of_false (by rintro ⟨⟩) (not_not.mpr ((BitVec.sub_left_inj _).mp heq))
  · rename_i hne
    exact iff_of_true rfl fun heq => hne ((BitVec.sub_left_inj _).mpr heq)

theorem executeInstrMultiple_assertion (u : Locals) (h : Banked p) (ins : Word) :
    executeInstrMultiple u p ins a (a + BitVec.ofNat 32 (4 * (listed ins).length) - 4) =
      .error .assertion ↔ RejectsEarly p.mem a (listed ins).length := by
  rw [executeInstrMultiple_listed]
  exact block_assertion (s := ⟨p, 0, a, u.word⟩) (fun _ => blockVisit_isVisit)
    (blockVisit_throws ins) (length_listed ins) h rfl

theorem armLoadStoreMultiple_assertion (u : Locals) {ins base : Word}
    (h : armReadRegister p (getBits ins 19 16).toNat = .ok base) :
    armLoadStoreMultiple u p ins = .error .assertion ↔
      RejectsEarly p.mem (firstWord ins base) (listed ins).length := by
  have hrn : (getBits ins 19 16).toNat ≤ 15 :=
    Nat.le_of_lt_succ (toNat_getBits_lt ins (h := 19) (l := 16) (by decide))
  have hbanked : Banked p := armReadRegister_mode hrn h
  rw [armLoadStoreMultiple, h, ok_bind]
  dsimp only
  rw [map_eq_error, endAddress_eq, startAddress_word]
  exact executeInstrMultiple_assertion u hbanked ins

end Assertion

/-- The assertion holds unless a word of the block is rejected before the last one. -/
theorem assertion_iff (u : Locals) (p : ArmCore) (ins : Word) :
    armLoadStoreMultiple u p ins ≠ .error .assertion ↔
      ∀ base, armReadRegister p (getBits ins 19 16).toNat = .ok base →
        ¬ RejectsEarly p.mem (firstWord ins base) (listed ins).length := by
  cases hbase : armReadRegister p (getBits ins 19 16).toNat with
  | error e =>
    refine iff_of_true (fun hstop => ?_) (by rintro _ ⟨⟩)
    rw [armLoadStoreMultiple, hbase] at hstop
    have hwild : e = .wild := armReadRegister_throws _ e hbase
    rw [hwild] at hstop
    cases hstop
  | ok base =>
    rw [Ne, armLoadStoreMultiple_assertion u hbase]
    refine ⟨fun hnot base' heq => ?_, fun hnot => hnot base rfl⟩
    rw [Except.ok.injEq] at heq
    exact heq ▸ hnot

/-- A store of two words behind a memory of one word. -/
theorem assertion_fails : ¬ ∀ (u : Locals) (p : ArmCore) (ins : Word),
    armLoadStoreMultiple u p ins ≠ .error .assertion := by
  intro h
  let q := program .usr #[0x06, 0x00, 0x80, 0xE9]
  have hbase : armReadRegister q.core (getBits 0xE9800006 19 16).toNat = .ok (q.register 0) :=
    q.armReadRegister_eq 0
  have hkept := h ⟨0, 0, 0, 0, 0, 0⟩ q.core 0xE9800006
  rw [Ne, armLoadStoreMultiple_assertion _ hbase] at hkept
  exact hkept (by decide)

end ArmSimulator.Transfers
