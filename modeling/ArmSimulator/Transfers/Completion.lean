import ArmSimulator.Decoding.Unimplemented
import ArmSimulator.Storage.Faults
import ArmSimulator.Transfers.Block

/-! # Which loads and stores return

From a mode that the bank table has a row for, all that can stop a load or store
is an access that indexes past the memory, or a block transfer whose words are
rejected before the last one: the end address then fails its assertion. The
accesses can be read off the state the instruction starts in.
-/

namespace ArmSimulator.Transfers

open Machine Storage Decoding Exceptions Foundation.ExceptRun

/-- The bank table has a row for the mode. -/
def Banked (p : ArmCore) : Prop := 16 ≤ getMode p.reg

instance (p : ArmCore) : Decidable (Banked p) := inferInstanceAs (Decidable (_ ≤ _))

/-! ## Registers -/

section Registers

variable {p p' : ArmCore}

theorem Banked.of_cpsr (h : Banked p) (hcpsr : armReadCpsr p' = armReadCpsr p) : Banked p' :=
  h.trans_eq (getMode_of_cpsr hcpsr).symm

theorem Banked.thumb (h : Banked p) (word : Word) :
    Banked (armWriteCpsr p (thumbCpsr (armReadCpsr p) word)) := by
  rw [Banked, armWriteCpsr, getMode, readCpsr_writeCpsr, getBits_thumbCpsr]
  exact h

theorem armReadRegister_returns (h : Banked p) (reg : Nat) :
    Returns (armReadRegister p reg) fun _ => True := by
  by_cases hreg : reg ≤ 15
  · obtain ⟨value, hvalue⟩ := armReadRegister_ok h hreg
    exact ⟨value, hvalue, trivial⟩
  · have hvalid : ¬ isValid reg := fun hv => hreg hv.2
    rw [armReadRegister, readRegister, if_pos hvalid]
    exact ⟨_, rfl, trivial⟩

theorem armWriteRegister_returns (h : Banked p) (reg : Nat) (value : Word) :
    Returns (armWriteRegister p reg value) fun p' => Banked p' ∧ p'.mem = p.mem := by
  have hwrite : Returns (armWriteRegister p reg value) fun p' => p'.mem = p.mem := by
    rw [armWriteRegister]
    by_cases hreg : reg ≤ 15
    · rw [writeRegister_eq h hreg]
      exact ⟨_, rfl, rfl⟩
    · have hvalid : ¬ isValid reg := fun hv => hreg hv.2
      rw [writeRegister, if_pos hvalid]
      exact ⟨_, rfl, rfl⟩
  exact (hwrite.and_ensures (armWriteRegister_cpsr p reg value)).mono
    fun p' hp' => ⟨h.of_cpsr hp'.2, hp'.1⟩

theorem armReadSpsr_returns (h : Banked p) : Returns (armReadSpsr p) fun _ => True := by
  by_cases hspsr : hasSpsr p.reg
  · exact ⟨_, readSpsr_eq h hspsr, trivial⟩
  · exact ⟨_, if_pos hspsr, trivial⟩

theorem armWriteSpsr_returns (h : Banked p) (value : Word) :
    Returns (armWriteSpsr p value) fun _ => True := by
  rw [armWriteSpsr]
  by_cases hspsr : hasSpsr p.reg
  · rw [writeSpsr_eq h hspsr]
    exact ⟨_, rfl, trivial⟩
  · rw [writeSpsr, if_pos hspsr]
    exact ⟨_, rfl, trivial⟩

end Registers

/-! ## Loads and stores -/

/-- Accesses of which each is made if the one before it was let pass run to their end. -/
def Completes (mem : Memory) : List (Width × Word) → Prop
  | [] => True
  | (n, a) :: rest => ¬ Faults mem n a ∧ (Admitted mem n a → Completes mem rest)

/-- The accesses of a load or store at its target. -/
def accesses (p : ArmCore) (ins : Word) : Target → List (Width × Word)
  | .miscellaneous a =>
    let rd := (getBits ins 15 12).toNat
    match miscellaneousCode ins with
    | 1 => if conditionPassed p ins then [(.half, a)] else []
    -- the double words
    | 2 =>
      if ¬ rd % 2 ≠ 0 ∨ rd = 14 ∨ ¬ getBits a 1 0 ≠ 0 then [] else [(.word, a), (.word, a + 4)]
    | 3 =>
      if ¬ rd % 2 ≠ 0 ∨ rd = 14 ∨ ¬ getBits a 1 0 ≠ 0 ∨ ¬ getBit a 2 ≠ 0 then []
      else [(.word, a), (.word, a + 4)]
    | 5 => [(.half, a)]
    | _ => []
  | .wordByte a =>
    if getBit ins 20 ≠ 0 ∨ conditionPassed p ins then
      [(if getBit ins 22 ≠ 0 then .byte else .word, a)]
    else []
  | _ => []

section Accesses

variable {p : ArmCore} {a : Word} {β : Type} {Q : β → Prop} {C : Prop}

theorem completes_one {mem : Memory} {n : Width} :
    Completes mem [(n, a)] ↔ ¬ Faults mem n a ∧ True := by
  rw [Completes, Completes, imp_true_iff]

theorem completes_two {mem : Memory} {n m : Width} {b : Word} :
    Completes mem [(n, a), (m, b)] ↔ ¬ Faults mem n a ∧ (Admitted mem n a → ¬ Faults mem m b) := by
  rw [Completes, completes_one, and_true]

theorem armWriteByte_returns (h : Banked p) (v : Byte) {f : Int × ArmCore → Except Stop β}
    (hf : ∀ r, Banked r.2 → Returns (f r) Q) : Returns (armWriteByte p a v >>= f) Q := by
  rw [armWriteByte, bind_assoc]
  exact (returns_write_iff (n := .byte) (C := True) v fun r _ _ =>
    iff_true_intro (hf (r.1, { p with mem := r.2 }) h)).mpr ⟨not_faults_byte, trivial⟩

theorem armWriteHalf_returns_iff (h : Banked p) (v : Half) {f : Int × ArmCore → Except Stop β}
    (hf : ∀ r, Banked r.2 → Returns (f r) Q) :
    Returns (armWriteHalf p a v >>= f) Q ↔ ¬ Faults p.mem .half a ∧ True := by
  rw [armWriteHalf, bind_assoc]
  exact returns_write_iff (n := .half) v fun r _ _ =>
    iff_true_intro (hf (r.1, { p with mem := r.2 }) h)

theorem armWriteWord_returns_iff (h : Banked p) (v : Word) {f : Int × ArmCore → Except Stop β}
    (hf : ∀ r, Answers p.mem .word a r.1 → Banked r.2 →
      r.2.mem.values.size = p.mem.values.size → (Returns (f r) Q ↔ C)) :
    Returns (armWriteWord p a v >>= f) Q ↔ ¬ Faults p.mem .word a ∧ C := by
  rw [armWriteWord, bind_assoc]
  exact returns_write_iff (n := .word) v fun r hr hsize =>
    hf (r.1, { p with mem := r.2 }) hr h hsize

theorem armReadWord_returns_iff (v : Word) {f : Int × Word → Except Stop β}
    (hf : ∀ r, Answers p.mem .word a r.1 → (Returns (f r) Q ↔ C)) :
    Returns (armReadWord p a v >>= f) Q ↔ ¬ Faults p.mem .word a ∧ C :=
  returns_read_iff (n := .word) v hf

theorem second_iff {mem : Memory} {n : Width} {r : Int} (hr : Answers mem n a r)
    {x y : Except Stop β} (hx : Returns x Q ↔ C) (hy : Returns y Q) :
    Returns (if r = 0 then x else y) Q ↔ (Admitted mem n a → C) := by
  by_cases h : Admitted mem n a
  · rw [if_pos (hr.zero h), hx]
    exact ⟨fun hC _ => hC, fun hC => hC h⟩
  · rw [if_neg fun hzero => h (hr.zero_iff.mp hzero)]
    exact iff_of_true hy fun hadmitted => absurd hadmitted h

theorem executeInstrMiscellaneous_returns_iff (h : Banked p) (u : Locals) (ins : Word) :
    Returns (executeInstrMiscellaneous u p ins a) (fun _ => True) ↔
      Completes p.mem (accesses p ins (.miscellaneous a)) := by
  have hnone {r : Byte × ArmCore} : Returns (pure r : Except Stop (Byte × ArmCore))
      (fun _ => True) ↔ Completes p.mem [] := iff_of_true (returns_pure trivial) trivial
  unfold executeInstrMiscellaneous accesses
  simp only
  change Returns
    (match miscellaneousCode ins with | 1 => _ | 2 => _ | 3 => _ | 5 => _ | _ => _) _ ↔ _
  generalize miscellaneousCode ins = code
  split
  · split
    · rw [completes_one]
      exact (armReadRegister_returns h _).bind_iff fun value _ _ =>
        armWriteHalf_returns_iff h _ fun _ _ => returns_pure trivial
    · exact hnone
  · split
    · exact hnone
    · rw [completes_two]
      refine armReadWord_returns_iff _ fun r hr => second_iff hr ?_ (returns_pure trivial)
      refine (armWriteRegister_returns h _ _).bind_iff fun p' _ hp' => ?_
      rw [← hp'.2, ← and_true (¬ Faults _ _ _)]
      refine armReadWord_returns_iff _ fun r _ => iff_true_intro ?_
      split
      · exact returns_pure trivial
      · exact (armWriteRegister_returns hp'.1 _ _).bind fun _ _ => returns_pure trivial
  · split
    · exact hnone
    · rw [completes_two]
      refine (armReadRegister_returns h _).bind_iff fun value _ _ => ?_
      refine armWriteWord_returns_iff h _ fun r hr hbanked hsize =>
        second_iff hr ?_ (returns_pure trivial)
      refine (armReadRegister_returns hbanked _).bind_iff fun value _ _ => ?_
      rw [← faults_congr hsize, ← and_true (¬ Faults _ _ _)]
      exact armWriteWord_returns_iff hbanked _ fun _ _ _ _ => iff_true_intro (returns_pure trivial)
  · rw [completes_one]
    refine returns_read_iff (n := .half) _ fun r _ => iff_true_intro ?_
    split
    · exact (armWriteRegister_returns h _ _).bind fun _ _ => returns_pure trivial
    · exact returns_pure trivial
  · exact hnone

theorem executeLdr_returns_iff (h : Banked p) (u : Locals) (rd : Nat) :
    Returns (executeLdr u p rd a) (fun _ => True) ↔ ¬ Faults p.mem .word a ∧ True := by
  unfold executeLdr
  refine armReadWord_returns_iff _ fun ⟨res, word⟩ _ => iff_true_intro ?_
  dsimp only
  split
  · exact (armWriteRegister_returns (h.thumb word) _ _).bind fun _ _ => returns_pure trivial
  · exact (armWriteRegister_returns h _ _).bind fun _ _ => returns_pure trivial

theorem executeInstrWordByte_returns_iff (h : Banked p) (u : Locals) (ins : Word) :
    Returns (executeInstrWordByte u p ins a) (fun _ => True) ↔
      Completes p.mem (accesses p ins (.wordByte a)) := by
  have hbyte : Completes p.mem [(.byte, a)] := ⟨not_faults_byte, fun _ => trivial⟩
  unfold executeInstrWordByte accesses
  simp only [decide_eq_true_eq]
  by_cases hl : getBit ins 20 ≠ 0
  · rw [if_pos hl, if_pos (Or.inl hl)]
    by_cases hb : getBit ins 22 ≠ 0
    · rw [if_pos hb, if_pos hb]
      refine iff_of_true ((returns_read_iff (n := .byte) (C := True) _ fun r _ =>
        iff_true_intro ?_).mpr ⟨not_faults_byte, trivial⟩) hbyte
      split
      · exact (armWriteRegister_returns h _ _).bind fun _ _ => returns_pure trivial
      · exact returns_pure trivial
    · rw [if_neg hb, if_neg hb, completes_one]
      exact executeLdr_returns_iff h u _
  · rw [if_neg hl]
    by_cases hpass : conditionPassed p ins
    · rw [if_pos (Or.inr hpass), if_pos hpass, if_pos hpass]
      by_cases hb : getBit ins 22 ≠ 0
      · rw [if_pos hb, if_pos hb]
        refine iff_of_true ((armReadRegister_returns h _).bind fun value _ => ?_) hbyte
        exact armWriteByte_returns h _ fun _ _ => returns_pure trivial
      · rw [if_neg hb, if_neg hb, completes_one]
        refine (armReadRegister_returns h _).bind_iff fun value _ _ => ?_
        exact armWriteWord_returns_iff h _ fun _ _ _ _ => iff_true_intro (returns_pure trivial)
    · rw [if_neg (not_or.mpr ⟨hl, hpass⟩), if_neg hpass, if_neg hpass]
      refine iff_of_true ?_ trivial
      split
      · exact returns_pure trivial
      · exact returns_pure trivial

variable [Host]

theorem armLoadStore_returns_iff (u : Locals) (h : Banked p) (ins : Word) :
    Returns (armLoadStore u p ins) (fun _ => True) ↔
      Returns (target u p ins) fun t => Completes p.mem (accesses p ins t) := by
  rw [armLoadStore_target, returns_bind_iff]
  refine returns_congr fun t _ => ?_
  cases t with
  | miscellaneous a =>
    rw [perform, returns_map_iff]
    exact executeInstrMiscellaneous_returns_iff h u ins
  | wordByte a =>
    rw [perform, returns_map_iff]
    exact executeInstrWordByte_returns_iff h u ins
  | skipped => exact iff_of_true (returns_pure trivial) trivial
  | undefined => exact iff_of_true (returns_pure trivial) trivial

end Accesses

/-! ## Block transfers -/

/-- The words of a block can be visited: none of the accesses faults, and all but the
last are let pass. -/
def Visits (mem : Memory) (a : Word) (n : Nat) : Prop :=
  ∀ i < n, ¬ Faults mem .word (a + BitVec.ofNat 32 (4 * i)) ∧
    (i + 1 < n → Admitted mem .word (a + BitVec.ofNat 32 (4 * i)))

/-- What an iteration for a listed register does. -/
structure Visited (s s' : MultipleState) : Prop where
  banked : Banked s'.proc
  size : s'.proc.mem.values.size = s.proc.mem.values.size
  address : s'.address = s.address + 4
  res : s'.res = 0 ↔ Admitted s.proc.mem .word s.address

/-- The iteration visits its word, unless an earlier one was rejected. -/
structure IsVisit (f : MultipleState → Except Stop MultipleState) : Prop where
  returns : ∀ (s : MultipleState) (Q : MultipleState → Prop) (C : Prop), Banked s.proc →
    s.res = 0 → (∀ s', Visited s s' → (Q s' ↔ C)) →
    (Returns (f s) Q ↔ ¬ Faults s.proc.mem .word s.address ∧ C)
  idle : ∀ s : MultipleState, s.res ≠ 0 → f s = .ok s

section Blocks

variable {p : ArmCore} {mem : Memory} {a : Word} {registers : Word} {reg : Fin 16}

theorem visits_succ {n : Nat} : Visits mem a (n + 1) ↔ ¬ Faults mem .word a ∧
    (n ≠ 0 → Admitted mem .word a) ∧ Visits mem (a + 4) n := by
  have hzero : a + BitVec.ofNat 32 (4 * 0) = a := BitVec.add_zero a
  have hpos : 0 + 1 < n + 1 ↔ n ≠ 0 := by omega
  rw [Visits, Nat.forall_lt_succ_left, hzero, hpos, and_assoc]
  refine and_congr_right fun _ => and_congr_right fun _ => ?_
  simp only [Visits, add_words, Nat.add_lt_add_iff_right]

theorem toUint8_iff {r : Int} (h : Answers mem .word a r) :
    toUint8 r = 0 ↔ Admitted mem .word a := by
  by_cases hadmitted : Admitted mem .word a
  · rw [h.zero hadmitted]
    exact iff_of_true rfl hadmitted
  · rw [h.rejected hadmitted]
    exact iff_of_false (by decide) hadmitted

theorem stmStep_isVisit (hreg : getBit registers reg ≠ 0) :
    IsVisit fun s => stmStep registers s reg where
  returns s Q C h hres hQ := by
    rw [stmStep, if_pos ⟨hres, hreg⟩]
    refine (armReadRegister_returns h _).bind_iff fun value _ _ => ?_
    refine armWriteWord_returns_iff h value fun r hr hbanked hsize => ?_
    exact returns_ok_iff.trans (hQ _ ⟨hbanked, hsize, rfl, toUint8_iff hr⟩)
  idle s hres := if_neg fun h => hres h.1

theorem ldmVisit_isVisit (hreg : getBit registers reg ≠ 0) :
    IsVisit fun s => ldmVisit registers s reg where
  returns s Q C h hres hQ := by
    unfold ldmVisit
    split
    · rename_i hpc
      subst hpc
      rw [ldmPc, if_pos ⟨hreg, hres⟩]
      refine armReadWord_returns_iff _ fun r hr => ?_
      refine (armWriteRegister_returns (h.thumb r.2) _ _).bind_iff fun p' _ hp' => ?_
      exact returns_ok_iff.trans (hQ _ ⟨hp'.1, by rw [hp'.2]; rfl, rfl, toUint8_iff hr⟩)
    · rw [ldmStep, if_pos ⟨hres, hreg⟩]
      refine armReadWord_returns_iff _ fun r hr => ?_
      dsimp only
      split
      · refine (armWriteRegister_returns h _ _).bind_iff fun p' _ hp' => ?_
        exact returns_ok_iff.trans (hQ _ ⟨hp'.1, by rw [hp'.2], rfl, toUint8_iff hr⟩)
      · exact returns_ok_iff.trans (hQ _ ⟨h, rfl, rfl, toUint8_iff hr⟩)
  idle s hres := by
    unfold ldmVisit
    split
    · exact if_neg fun h => hres h.2
    · exact if_neg fun h => hres h.1

theorem blockVisit_isVisit {ins : Word} (hreg : reg ∈ listed ins) :
    IsVisit fun s => blockVisit ins s reg := by
  have hbit : getBit (getBits ins 15 0) reg ≠ 0 := of_decide_eq_true (named_of_mem ins hreg)
  by_cases hl : getBit ins 20 = 0
  · rw [blockVisit_store hl]
    exact stmStep_isVisit hbit
  · rw [blockVisit_load hl]
    exact ldmVisit_isVisit hbit

/-- The words from `a` on are visited until one is rejected or all are, without a fault, and
the address then reached satisfies `T`. -/
def EndsAt (T : Word → Prop) (mem : Memory) : Word → Nat → Prop
  | a, 0 => T a
  | a, n + 1 =>
    ¬ Faults mem .word a ∧ if Admitted mem .word a then EndsAt T mem (a + 4) n else T (a + 4)

theorem endsAt_congr {T : Word → Prop} {m : Memory} (h : m.values.size = mem.values.size) (n : Nat)
    (a : Word) : EndsAt T m a n ↔ EndsAt T mem a n := by
  induction n generalizing a with
  | zero => rfl
  | succ n ih => simp only [EndsAt, faults_congr h, admitted_congr h, ih]

theorem block_endsAt {g : MultipleState → Fin 16 → Except Stop MultipleState}
    {regs : List (Fin 16)} (hg : ∀ reg ∈ regs, IsVisit fun s => g s reg) {T : Word → Prop}
    {s : MultipleState} (h : Banked s.proc) (hres : s.res = 0) :
    Returns (regs.foldlM g s) (fun s' => T s'.address) ↔
      EndsAt T s.proc.mem s.address regs.length := by
  induction regs generalizing s with
  | nil => exact returns_ok_iff
  | cons reg regs ih =>
    have hrest (reg) (hreg : reg ∈ regs) := hg reg (List.mem_cons_of_mem _ hreg)
    rw [List.foldlM_cons, returns_bind_iff, List.length_cons, EndsAt]
    refine (hg reg List.mem_cons_self).returns s _ _ h hres fun s' hs' => ?_
    split
    · rename_i hadmitted
      rw [ih hrest hs'.banked (hs'.res.mpr hadmitted), endsAt_congr hs'.size, hs'.address]
    · rename_i hrejected
      -- nothing is done any more
      have hstop : s'.res ≠ 0 := fun hzero => hrejected (hs'.res.mp hzero)
      have hidle : regs.foldlM g s' = .ok s' :=
        foldlM_idle fun reg hreg => (hrest reg hreg).idle s' hstop
      rw [hidle, returns_ok_iff, hs'.address]

theorem endsAt_iff_visits {e : Word} (n : Nat) (hn : n ≤ 16) {a : Word}
    (he : e = a + BitVec.ofNat 32 (4 * n)) : EndsAt (fun b => e = b) mem a n ↔ Visits mem a n := by
  induction n generalizing a with
  | zero =>
    have hzero : a + BitVec.ofNat 32 0 = a := BitVec.add_zero a
    exact iff_of_true (he.trans hzero) fun i hi => absurd hi (Nat.not_lt_zero i)
  | succ n ih =>
    rw [EndsAt, visits_succ]
    refine and_congr_right fun _ => ?_
    split
    · rename_i hadmitted
      rw [ih (by omega) (he.trans (add_words a n).symm), and_iff_right fun _ => hadmitted]
    · rename_i hrejected
      refine Iff.trans ?_ (and_iff_left_of_imp fun hlast i hi => ?_).symm
      · rw [imp_iff_not hrejected, not_not]
        bv_omega
      · have hzero : n = 0 := not_not.mp fun hne => hrejected (hlast hne)
        omega

theorem block_run {g : MultipleState → Fin 16 → Except Stop MultipleState} {regs : List (Fin 16)}
    (hg : ∀ reg ∈ regs, IsVisit fun s => g s reg) (hlen : regs.length ≤ 16) {s : MultipleState}
    (h : Banked s.proc) (hres : s.res = 0) :
    Returns (regs.foldlM g s)
      (fun s' => s.address + BitVec.ofNat 32 (4 * regs.length) - 4 = s'.address - 4) ↔
        Visits s.proc.mem s.address regs.length := by
  simp only [BitVec.sub_left_inj]
  exact (block_endsAt hg h hres).trans (endsAt_iff_visits _ hlen rfl)

theorem executeInstrMultiple_returns_iff (u : Locals) (h : Banked p) (ins : Word) :
    Returns (executeInstrMultiple u p ins a (a + BitVec.ofNat 32 (4 * (listed ins).length) - 4))
      (fun _ => True) ↔ Visits p.mem a (listed ins).length := by
  have hend (s : MultipleState) : Returns (if a + BitVec.ofNat 32 (4 * (listed ins).length) - 4 =
      s.address - 4 then pure (s.res, s.proc) else .error .assertion : Except Stop (Byte × ArmCore))
      (fun _ => True) ↔ a + BitVec.ofNat 32 (4 * (listed ins).length) - 4 = s.address - 4 := by
    split
    · rename_i heq
      exact iff_of_true (returns_pure trivial) heq
    · rename_i hne
      exact iff_of_false (not_returns_error _) hne
  rw [executeInstrMultiple_listed, returns_bind_iff]
  simp only [hend]
  exact block_run (s := ⟨p, 0, a, u.word⟩) (fun _ => blockVisit_isVisit) (length_listed ins) h rfl

variable [Host]

omit [Host] in
theorem armLoadStoreMultiple_returns_iff (u : Locals) (h : Banked p) (ins : Word) :
    Returns (armLoadStoreMultiple u p ins) (fun _ => True) ↔
      Returns (armReadRegister p (getBits ins 19 16).toNat) fun base =>
        Visits p.mem (addrmodeLoadStoreMultiple p ins base).1 (listed ins).length := by
  unfold armLoadStoreMultiple
  rw [returns_bind_iff]
  refine returns_congr fun base _ => ?_
  dsimp only
  rw [returns_map_iff, endAddress_eq]
  exact executeInstrMultiple_returns_iff u h ins

end Blocks

end ArmSimulator.Transfers
