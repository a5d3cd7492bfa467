import ArmSimulator.Decoding.Outcome
import ArmSimulator.Storage.Everywhere
import ArmSimulator.Transfers.Assertion

/-! # Locals that are read before they are assigned

A word that is loaded gets to its register also when the read was rejected, and so does the
program counter as the only register of a block. The addressing mode with P clear and W set
assigns no address. In these cases the outcome of an instruction is that of whatever the
locals held before, unless all contents would have the same outcome.
-/

namespace ArmSimulator.Transfers

open Machine RegisterFile Storage Conditions Decoding Exceptions Foundation.ExceptRun

/-- Locals that hold nothing but zeros. -/
def cleared : Locals := ⟨0, 0, 0, 0, 0, 0⟩

/-- The addressing mode leaves the address as it was. -/
def LeavesAddress (ins : Word) : Prop :=
  pBit ins = false ∧ wBit ins = true ∧
    ((getBits ins 27 25).toNat = 2 ∨ (getBits ins 27 25).toNat = 3 ∧ getBits ins 11 4 = 0)

instance (ins : Word) : Decidable (LeavesAddress ins) :=
  inferInstanceAs (Decidable (_ ∧ _ ∧ (_ ∨ _)))

/-- A load of a word. -/
def IsWordLoad (ins : Word) : Prop := getBit ins 20 ≠ 0 ∧ getBit ins 22 = 0

instance (ins : Word) : Decidable (IsWordLoad ins) := inferInstanceAs (Decidable (_ ∧ _))

/-- The handler would do the same at every address. -/
def AlikeEverywhere (p : ArmCore) (ins : Word) : Prop :=
  if getBit ins 20 ≠ 0 then
    if getBit ins 22 ≠ 0 then p.mem.values.size = 0 ∨ 2 ^ 32 ≤ p.mem.values.size
    else ∃ w, ∀ a, Stored p.mem a (inOrder p.mem.isBigEndian (wordBytes w))
  else
    conditionPassed p ins → ∀ value, armReadRegister p (getBits ins 15 12).toNat = .ok value →
      if getBit ins 22 ≠ 0 then StoredEverywhere p.mem .byte (storeValue .byte value)
      else StoredEverywhere p.mem .word (storeValue .word value)

/-- What is read of the locals is assigned before, or makes no difference. -/
def Assigned [Host] (p : ArmCore) (ins : Word) : Prop :=
  match dispatch ins with
  | .loadStore =>
    if LeavesAddress ins then AlikeEverywhere p ins
    else IsWordLoad ins → ∀ a, target cleared p ins = .ok (.wordByte a) → Admitted p.mem .word a
  | .loadStoreMultiple =>
    getBit ins 20 ≠ 0 → listed ins = [15] →
      ∀ base, armReadRegister p (getBits ins 19 16).toNat = .ok base →
        Admitted p.mem .word (firstWord ins base)
  | _ => True

/-! ## Words that get to a register -/

section Loaded

variable {p : ArmCore} {word word' : Word}

def loaded (p : ArmCore) (pc : Prop) [Decidable pc] (rd : Nat) (word : Word) : Registers :=
  let position := bankPosition (getMode p.reg) rd
  if pc then
    Function.update (writeCpsr p.reg (thumbCpsr (armReadCpsr p) word)) position
      (word &&& 0xFFFFFFFE)
  else Function.update p.reg position word

theorem thumb_inj {cpsr : Word} (hcpsr : thumbCpsr cpsr word = thumbCpsr cpsr word')
    (hpc : word &&& 0xFFFFFFFE = word' &&& 0xFFFFFFFE) : word = word' := by
  have hmask : ∀ i < 32, (0xFFFFFFFE : Word).getLsbD i = !decide (i = 0) := by decide
  apply BitVec.eq_of_getLsbD_eq
  intro i hi
  by_cases hzero : i = 0
  · have hbit := congrArg (fun x => x.getLsbD 5) hcpsr
    simp only [getLsbD_thumbCpsr, if_true] at hbit
    rw [hzero, hbit]
  · have hbit := congrArg (fun x => x.getLsbD i) hpc
    simp only [BitVec.getLsbD_and, hmask i hi, decide_eq_false hzero, Bool.not_false,
      Bool.and_true] at hbit
    exact hbit

theorem loaded_inj {pc : Prop} [Decidable pc] {rd : Nat} (hrd : rd ≤ 15)
    (h : loaded p pc rd word = loaded p pc rd word') : word = word' := by
  have hposition := bankPosition_ne_cpsr (getMode_lt p.reg) hrd
  unfold loaded at h
  split at h
  · have hcpsr := congrFun h Position.cpsr
    have hpc := congrFun h (bankPosition (getMode p.reg) rd)
    rw [Function.update_of_ne hposition.symm, Function.update_of_ne hposition.symm] at hcpsr
    rw [Function.update_self, Function.update_self] at hpc
    exact thumb_inj ((readCpsr_writeCpsr p.reg _).symm.trans
      (hcpsr.trans (readCpsr_writeCpsr p.reg _))) hpc
  · have hword := congrFun h (bankPosition (getMode p.reg) rd)
    rwa [Function.update_self, Function.update_self] at hword

theorem armWriteRegister_banked (h : Banked p) {rd : Nat} (hrd : rd ≤ 15) :
    armWriteRegister p rd word = .ok { p with reg := loaded p False rd word } := by
  rw [armWriteRegister, writeRegister_eq h hrd]
  rfl

theorem armWriteRegister_thumb (h : Banked p) {rd : Nat} (hrd : rd ≤ 15) :
    armWriteRegister (armWriteCpsr p (thumbCpsr (armReadCpsr p) word)) rd (word &&& 0xFFFFFFFE) =
      .ok { p with reg := loaded p True rd word } := by
  have hmode : getMode (armWriteCpsr p (thumbCpsr (armReadCpsr p) word)).reg = getMode p.reg := by
    rw [armWriteCpsr, getMode, readCpsr_writeCpsr, getBits_thumbCpsr]
    rfl
  rw [armWriteRegister, writeRegister_eq (h.thumb word) hrd, hmode]
  rfl

theorem executeLdr_banked {u : Locals} {rd : Nat} {a : Word} {res : Int} (h : Banked p)
    (hrd : rd ≤ 15) (hread : armReadWord p a u.word = .ok (res, word)) :
    executeLdr u p rd a = .ok (0, { p with reg := loaded p (res = 0 ∧ rd = 15) rd word }) := by
  rw [executeLdr, hread, ok_bind]
  dsimp only
  split
  · rename_i hpc
    rw [armWriteRegister_thumb h hrd, loaded, loaded, if_pos hpc, if_pos trivial]
    rfl
  · rename_i hpc
    rw [armWriteRegister_banked h hrd, loaded, loaded, if_neg hpc, if_neg not_false]
    rfl

end Loaded

/-! ## Loads and stores of words and bytes -/

theorem handlerResult_injective : Function.Injective handlerResult := by
  rintro r r' h
  rw [handlerResult, handlerResult, Prod.mk.injEq, Int.ofNat_inj] at h
  exact Prod.ext (BitVec.eq_of_toNat_eq h.1) h.2

section WordByte

variable {p : ArmCore} {ins a : Word} {rd : Nat}

theorem executeLdr_ignores_iff (h : Banked p) (hrd : rd ≤ 15) :
    (Ignores fun u : Locals => executeLdr u p rd a) ↔ Admitted p.mem .word a := by
  constructor
  · intro hignores
    by_contra hrejected
    have hread (v : Word) : armReadWord p a v = .ok (-1, v) := memoryRead_rejected hrejected v
    have heq := hignores cleared { cleared with word := 1 }
    dsimp only at heq
    rw [executeLdr_banked h hrd (hread _), executeLdr_banked h hrd (hread _), Except.ok.injEq,
      Prod.mk.injEq, ArmCore.mk.injEq] at heq
    exact absurd (loaded_inj hrd heq.2.2.1) (by decide)
  · intro hadmitted u u'
    have hread : armReadWord p a u.word = armReadWord p a u'.word :=
      memoryRead_admitted hadmitted u.word u'.word
    dsimp only
    rw [executeLdr, hread]
    rfl

theorem executeLdr_anywhere_iff (h : Banked p) (hrd : rd ≤ 15) :
    (Ignores fun u : Locals => executeLdr u p rd u.address) ↔
      ∃ w, ∀ a, Stored p.mem a (inOrder p.mem.isBigEndian (wordBytes w)) := by
  constructor
  · intro hignores
    have hadmitted (a : Word) : Admitted p.mem .word a :=
      (executeLdr_ignores_iff h hrd).mp fun u u' =>
        hignores { u with address := a } { u' with address := a }
    have hsize : 2 ^ 32 - 1 < p.mem.values.size := hadmitted (-4)
    have hread (a : Word) : ∃ w, armReadWord p a 0 = .ok (0, w) := by
      have hnofault : ¬ Faults p.mem .word a := fun hfaults => by
        have := hfaults.2
        omega
      obtain ⟨⟨res, w⟩, hr, hanswers⟩ := (memoryRead_returns_iff (n := .word) 0).mpr hnofault
      exact ⟨w, by rw [← hanswers.zero (hadmitted a)]; exact hr⟩
    obtain ⟨w, hw⟩ := hread 0
    refine ⟨w, fun a => ?_⟩
    obtain ⟨w', hw'⟩ := hread a
    have heq : executeLdr cleared p rd 0 = executeLdr { cleared with address := a } p rd a :=
      hignores cleared { cleared with address := a }
    rw [executeLdr_banked (u := cleared) h hrd hw,
      executeLdr_banked (u := { cleared with address := a }) h hrd hw', Except.ok.injEq,
      Prod.mk.injEq, ArmCore.mk.injEq] at heq
    rw [loaded_inj hrd heq.2.2.1]
    exact (memoryReadWord_eq_iff 0 w').mp hw'
  · rintro ⟨w, hw⟩ u u'
    have hread (u : Locals) : armReadWord p u.address u.word = .ok (0, w) :=
      (memoryReadWord_eq_iff u.word w).mpr (hw u.address)
    dsimp only
    rw [executeLdr_banked h hrd (hread u), executeLdr_banked h hrd (hread u')]

theorem executeInstrWordByte_ldrb (u : Locals) (hl : getBit ins 20 ≠ 0) (hb : getBit ins 22 ≠ 0) :
    executeInstrWordByte u p ins a = .ok (if Admitted p.mem .byte a then 0 else 255, p) := by
  unfold executeInstrWordByte
  simp only [hl, hb, ne_eq, not_false_eq_true, decide_true, if_true]
  split
  · rename_i hadmitted
    have hbyte := Array.getElem?_eq_getElem hadmitted
    have hread : armReadByte p a u.byte = .ok (0, p.mem.values[a.toNat]) :=
      memoryReadByte_eq hbyte u.byte
    rw [hread]
    rfl
  · rename_i hrejected
    have hread : armReadByte p a u.byte = .ok (-1, u.byte) := memoryRead_rejected hrejected u.byte
    rw [hread]
    rfl

theorem executeInstrWordByte_word (u : Locals) (hword : IsWordLoad ins) :
    executeInstrWordByte u p ins a = executeLdr u p (getBits ins 15 12).toNat a := by
  unfold executeInstrWordByte
  simp only [hword.1, hword.2, ne_eq, not_true_eq_false, not_false_eq_true, decide_true,
    decide_false, Bool.false_eq_true, if_true, if_false]

theorem perform_wordByte_ignores_iff (h : Banked p) :
    (Ignores fun u => perform u p ins (.wordByte a)) ↔
      (IsWordLoad ins → Admitted p.mem .word a) := by
  have hrd : (getBits ins 15 12).toNat ≤ 15 :=
    Nat.le_of_lt_succ (toNat_getBits_lt ins (h := 15) (l := 12) (by decide))
  by_cases hl : getBit ins 20 ≠ 0
  · by_cases hb : getBit ins 22 ≠ 0
    · refine iff_of_true (fun u u' => ?_) fun hword => absurd hword.2 hb
      simp only [perform, executeInstrWordByte_ldrb _ hl hb]
    · have hword : IsWordLoad ins := ⟨hl, not_not.mp hb⟩
      simp only [perform, ignores_map_iff handlerResult_injective,
        executeInstrWordByte_word _ hword]
      rw [executeLdr_ignores_iff h hrd]
      exact ⟨fun hadmitted _ => hadmitted, fun hadmitted => hadmitted hword⟩
  · refine iff_of_true (fun u u' => ?_) fun hword => absurd hword.1 hl
    have hwidth : storeWidth ins (.wordByte a) =
        some (if getBit ins 22 ≠ 0 then .byte else .word, a) := if_neg hl
    simp only [perform_store hwidth]

theorem storeAt_ignores_iff (p : ArmCore) (n : Width) (value : Word) (hn : n = .byte ∨ n = .word) :
    (Ignores fun u : Locals => storeAt p n u.address value) ↔
      StoredEverywhere p.mem n (storeValue n value) := by
  constructor
  · intro hignores
    have hnofault : ¬ Faults p.mem n 0 := by
      rintro ⟨⟨hwraps, -, -⟩, -⟩
      rcases hn with rfl | rfl
      · exact absurd hwraps (by decide)
      · exact absurd hwraps (by decide)
    obtain ⟨⟨res, m⟩, hzero, -⟩ := (memoryWrite_returns_iff (storeValue n value)
      (Q := fun _ => True) fun _ _ => trivial).mpr hnofault
    refine (memoryWrite_constant_iff _).mp ⟨m, fun a => ?_⟩
    have heq : storeAt p n a value = storeAt p n 0 value :=
      hignores { cleared with address := a } cleared
    rw [storeAt, storeAt, hzero] at heq
    obtain ⟨⟨r, m'⟩, hwrite, hsame⟩ := bind_eq_ok.mp heq
    rw [pure_eq_ok, Prod.mk.injEq, ArmCore.mk.injEq] at hsame
    rw [hsame.2.2.2] at hwrite
    exact ⟨r, hwrite⟩
  · intro hstored u u'
    simp only [storeAt, memoryWrite_everywhere hstored, ok_bind]
    rcases hn with rfl | rfl
    · rfl
    · have hsame : Admitted p.mem .word u.address ↔ Admitted p.mem .word u'.address :=
        ⟨fun ha => admitted_everywhere hstored ha _, fun ha => admitted_everywhere hstored ha _⟩
      simp only [hsame]

theorem admitted_byte_ignores_iff (p : ArmCore) :
    (Ignores fun u : Locals => (.ok (if Admitted p.mem .byte u.address then 0 else 255, p) :
      Except Stop (Byte × ArmCore))) ↔ p.mem.values.size = 0 ∨ 2 ^ 32 ≤ p.mem.values.size := by
  have hlast (a : Word) : Admitted p.mem .byte a ↔ a.toNat < p.mem.values.size := Iff.rfl
  constructor
  · intro hignores
    have heq := hignores cleared { cleared with address := -1 }
    simp only [Except.ok.injEq, Prod.mk.injEq, and_true, hlast] at heq
    by_contra hnone
    have hfirst : cleared.address.toNat < p.mem.values.size := by
      change 0 < p.mem.values.size
      omega
    have hbehind : ¬ (-1 : Word).toNat < p.mem.values.size := by
      change ¬ 2 ^ 32 - 1 < p.mem.values.size
      omega
    rw [if_pos hfirst, if_neg hbehind] at heq
    exact absurd heq (by decide)
  · intro hsize u u'
    have hsame : Admitted p.mem .byte u.address ↔ Admitted p.mem .byte u'.address := by
      have hu := u.address.isLt
      have hu' := u'.address.isLt
      rw [hlast, hlast]
      omega
    simp only [hsame]

theorem perform_anywhere_ignores_iff (h : Banked p) :
    (Ignores fun u : Locals => perform u p ins (.wordByte u.address)) ↔ AlikeEverywhere p ins := by
  have hrd : (getBits ins 15 12).toNat ≤ 15 :=
    Nat.le_of_lt_succ (toNat_getBits_lt ins (h := 15) (l := 12) (by decide))
  unfold AlikeEverywhere
  split
  · rename_i hl
    split
    · rename_i hb
      simp only [perform, executeInstrWordByte_ldrb _ hl hb,
        ignores_map_iff handlerResult_injective]
      exact admitted_byte_ignores_iff p
    · rename_i hb
      have hword : IsWordLoad ins := ⟨hl, not_not.mp hb⟩
      simp only [perform, ignores_map_iff handlerResult_injective,
        executeInstrWordByte_word _ hword]
      exact executeLdr_anywhere_iff h hrd
  · rename_i hl
    have hwidth (a : Word) : storeWidth ins (.wordByte a) =
        some (if getBit ins 22 ≠ 0 then .byte else .word, a) := if_neg hl
    obtain ⟨value, hvalue⟩ := armReadRegister_ok h hrd
    simp only [fun u a => perform_store (u := u) (p := p) (hwidth a), hvalue, ok_bind]
    by_cases hpass : conditionPassed p ins
    · have hread : (∀ v, (.ok value : Except Stop Word) = .ok v →
          if getBit ins 22 ≠ 0 then StoredEverywhere p.mem .byte (storeValue .byte v)
          else StoredEverywhere p.mem .word (storeValue .word v)) ↔
          if getBit ins 22 ≠ 0 then StoredEverywhere p.mem .byte (storeValue .byte value)
          else StoredEverywhere p.mem .word (storeValue .word value) := by
        simp only [Except.ok.injEq, forall_eq']
      simp only [if_pos hpass]
      rw [hread, forall_prop_of_true hpass]
      split
      · exact storeAt_ignores_iff p .byte value (Or.inl rfl)
      · exact storeAt_ignores_iff p .word value (Or.inr rfl)
    · simp only [if_neg hpass]
      exact iff_of_true (ignores_const _) fun hpassed => absurd hpassed hpass

end WordByte

/-! ## Half and double words -/

theorem executeInstrMiscellaneous_ignores (p : ArmCore) (ins a : Word) :
    Ignores fun u => executeInstrMiscellaneous u p ins a := by
  intro u u'
  dsimp only
  unfold executeInstrMiscellaneous
  dsimp only
  split
  · rfl
  · split
    · rfl
    · by_cases hadmitted : Admitted p.mem .word a
      · have hread : armReadWord p a u.word = armReadWord p a u'.word :=
          memoryRead_admitted hadmitted u.word u'.word
        rw [hread]
      · have hread (v : Word) : armReadWord p a v = .ok (-1, v) := memoryRead_rejected hadmitted v
        rw [hread, hread]
        rfl
  · rfl
  · by_cases hadmitted : Admitted p.mem .half a
    · have hread : armReadHalf p a u.half = armReadHalf p a u'.half :=
        memoryRead_admitted hadmitted u.half u'.half
      rw [hread]
    · have hread (v : Half) : armReadHalf p a v = .ok (-1, v) := memoryRead_rejected hadmitted v
      rw [hread, hread]
      rfl
  · rfl

/-! ## Block transfers -/

section Multiple

variable {p : ArmCore} {ins a : Word}

theorem stmStep_word (registers w : Word) (s : MultipleState) (reg : Nat) :
    stmStep registers { s with word := w } reg =
      (fun s => { s with word := w }) <$> stmStep registers s reg := by
  unfold stmStep
  dsimp only
  split
  · rw [map_bind]
    refine congrArg _ (funext fun value => ?_)
    rw [map_bind]
    rfl
  · rfl

theorem stm_ignores (p : ArmCore) (ins a e : Word) (hl : getBit ins 20 = 0) :
    Ignores fun u => executeInstrMultiple u p ins a e := by
  have hvisit (w : Word) (s : MultipleState) (reg : Fin 16) :
      blockVisit ins { s with word := w } reg =
        (fun s : MultipleState => { s with word := w }) <$> blockVisit ins s reg := by
    rw [blockVisit_store hl]
    exact stmStep_word _ w s reg
  have hstart (w : Word) : (listed ins).foldlM (blockVisit ins) ⟨p, 0, a, w⟩ =
      (fun s : MultipleState => { s with word := w }) <$>
        (listed ins).foldlM (blockVisit ins) ⟨p, 0, a, 0⟩ :=
    foldlM_map_comm (hvisit w) _ ⟨p, 0, a, 0⟩
  intro u u'
  simp only [executeInstrMultiple_listed]
  rw [hstart u.word, hstart u'.word, bind_map_left, bind_map_left]

theorem listed_tail {regs : List (Fin 16)} (h : listed ins = 15 :: regs) : regs = [] := by
  have hsorted : (listed ins).Pairwise (· < ·) := (List.pairwise_lt_finRange 16).filter _
  rw [h, List.pairwise_cons] at hsorted
  refine List.eq_nil_iff_forall_not_mem.mpr fun reg hreg => ?_
  have := hsorted.1 reg hreg
  omega

theorem ldmVisit_admitted (h : Admitted p.mem .word a) {registers : Word} {reg : Fin 16}
    (hbit : getBit registers reg ≠ 0) (w w' : Word) :
    ldmVisit registers ⟨p, 0, a, w⟩ reg = ldmVisit registers ⟨p, 0, a, w'⟩ reg := by
  have hread : armReadWord p a w = armReadWord p a w' := memoryRead_admitted h w w'
  unfold ldmVisit
  split
  · rename_i hpc
    subst hpc
    rw [ldmPc, ldmPc, if_pos ⟨hbit, rfl⟩, if_pos ⟨hbit, rfl⟩]
    dsimp only
    rw [hread]
  · rw [ldmStep, ldmStep, if_pos ⟨rfl, hbit⟩, if_pos ⟨rfl, hbit⟩]
    dsimp only
    rw [hread]

theorem ldmVisit_rejected (h : ¬ Admitted p.mem .word a) {registers : Word} {reg : Fin 16}
    (hbit : getBit registers reg ≠ 0) (hreg : reg ≠ 15) (w : Word) :
    ldmVisit registers ⟨p, 0, a, w⟩ reg = .ok ⟨p, 255, a + 4, w⟩ := by
  have hread : armReadWord p a w = .ok (-1, w) := memoryRead_rejected h w
  rw [ldmVisit, if_neg hreg, ldmStep, if_pos ⟨rfl, hbit⟩, hread]
  rfl

theorem ldmVisit_pc_rejected (hbanked : Banked p) (h : ¬ Admitted p.mem .word a) {registers : Word}
    (hbit : getBit registers 15 ≠ 0) (w : Word) : ldmVisit registers ⟨p, 0, a, w⟩ 15 =
      .ok ⟨{ p with reg := loaded p True 15 w }, 255, a + 4, w⟩ := by
  have hread : armReadWord p a w = .ok (-1, w) := memoryRead_rejected h w
  rw [ldmVisit, if_pos rfl, ldmPc, if_pos ⟨hbit, rfl⟩, hread, ok_bind]
  dsimp only
  rw [armWriteRegister_thumb hbanked (by decide)]
  rfl

/-- A block load is that of its first word alone as far as the local goes. -/
theorem ldm_ignores_iff (h : Banked p) (hl : getBit ins 20 ≠ 0) :
    (Ignores fun u => executeInstrMultiple u p ins a
      (a + BitVec.ofNat 32 (4 * (listed ins).length) - 4)) ↔
        (listed ins = [15] → Admitted p.mem .word a) := by
  have hbit {reg : Fin 16} (hreg : reg ∈ listed ins) : getBit (getBits ins 15 0) reg ≠ 0 :=
    of_decide_eq_true (named_of_mem ins hreg)
  simp only [executeInstrMultiple_listed, blockVisit_load hl]
  cases hlist : listed ins with
  | nil => exact iff_of_true (fun _ _ => rfl) (by rintro ⟨⟩)
  | cons reg regs =>
    have hreg : reg ∈ listed ins := hlist ▸ List.mem_cons_self
    by_cases hadmitted : Admitted p.mem .word a
    · refine iff_of_true (fun u u' => ?_) fun _ => hadmitted
      have hfirst := ldmVisit_admitted hadmitted (hbit hreg) u.word u'.word
      simp only [List.foldlM_cons, hfirst]
    · by_cases hpc : reg = 15
      · subst hpc
        obtain rfl := listed_tail hlist
        refine iff_of_false (fun hignores => ?_) fun hall => hadmitted (hall rfl)
        have heq := hignores cleared { cleared with word := 2 }
        have hend : a + BitVec.ofNat 32 (4 * [(15 : Fin 16)].length) - 4 = a + 4 - 4 := rfl
        simp only [List.foldlM_cons, List.foldlM_nil, bind_pure,
          ldmVisit_pc_rejected h hadmitted (hbit hreg), ok_bind, if_pos hend] at heq
        have heq := Except.ok.inj heq
        rw [Prod.mk.injEq, ArmCore.mk.injEq] at heq
        exact absurd (loaded_inj (by decide) heq.2.2.1) (by decide)
      · refine iff_of_true (fun u u' => ?_) fun hall => absurd (List.cons.inj hall).1 hpc
        have hstop : (255 : Byte) ≠ 0 := by decide
        have hidle (w : Word) : regs.foldlM (ldmVisit (getBits ins 15 0)) ⟨p, 255, a + 4, w⟩ =
            .ok ⟨p, 255, a + 4, w⟩ :=
          foldlM_idle fun r hr =>
            (ldmVisit_isVisit (hbit (hlist ▸ List.mem_cons_of_mem _ hr))).idle _ hstop
        simp only [List.foldlM_cons, ldmVisit_rejected hadmitted (hbit hreg) hpc, ok_bind, hidle]

end Multiple

/-! ## Steps -/

section Step

variable [Host] {p : ArmCore} {ins : Word}

omit [Host] in
theorem addrmodeLoadStore_ignores (p : ArmCore) (ins rn add : Word)
    (h : ¬ (pBit ins = false ∧ wBit ins = true)) :
    Ignores fun u : Locals => addrmodeLoadStore p ins u.address rn add := by
  intro u u'
  simp only [addrmodeLoadStore]
  cases hp : pBit ins with
  | true => rfl
  | false =>
    cases hw : wBit ins with
    | false => rfl
    | true => exact absurd ⟨hp, hw⟩ h

theorem target_ignores (h : ¬ LeavesAddress ins) : Ignores fun u => target u p ins := by
  unfold target
  refine (ignores_const _).bind fun rn => (ignores_const _).bind fun rm u u' => ?_
  dsimp only
  split
  · rfl
  · rename_i hclass
    have hmode : ¬ (pBit ins = false ∧ wBit ins = true) := fun hpw =>
      h ⟨hpw.1, hpw.2, Or.inl hclass⟩
    have haddress (add : Word) := addrmodeLoadStore_ignores p ins rn add hmode u u'
    dsimp only at haddress
    rw [haddress]
  · rename_i hclass
    split
    · rename_i hform
      have hmode : ¬ (pBit ins = false ∧ wBit ins = true) := by
        rintro ⟨hp, hw⟩
        have hbits : getBits ins 11 4 = 0 := by simpa [hp, hw] using hform
        exact h ⟨hp, hw, Or.inr ⟨hclass, hbits⟩⟩
      have haddress (add : Word) := addrmodeLoadStore_ignores p ins rn add hmode u u'
      dsimp only at haddress
      rw [haddress]
    · rfl
  · rfl

theorem target_leavesAddress (hbanked : Banked p) (h : LeavesAddress ins) (u : Locals) :
    target u p ins = .ok (.wordByte u.address) := by
  obtain ⟨hp, hw, hclass⟩ := h
  obtain ⟨rn, rm, hrn, hrm⟩ := armLoadStore_reads ins hbanked
  have haddress (add : Word) : (addrmodeLoadStore p ins u.address rn add).1 = u.address := by
    simp only [addrmodeLoadStore, hp, hw, Bool.false_eq_true, if_false]
  rw [target, hrn, ok_bind, hrm, ok_bind]
  rcases hclass with hclass | ⟨hclass, hbits⟩
  · simp only [hclass, haddress]
    rfl
  · simp only [hclass, hbits, ne_eq, not_true_eq_false, not_false_eq_true, decide_true,
      Bool.true_or, if_true, haddress]
    rfl

omit [Host] in
theorem bind_raiseResult {x : Except Stop (Int × ArmCore)}
    (h : Ensures x fun r => r.1 = 0 ∨ r.1 = 255) : (x >>= raiseResult) = x := by
  cases x with
  | error e => rfl
  | ok r => exact raiseResult_quiet (h r rfl)

omit [Host] in
theorem perform_raise (u : Locals) (p : ArmCore) (ins a : Word) :
    (perform u p ins (.wordByte a) >>= raiseResult) = perform u p ins (.wordByte a) :=
  bind_raiseResult ((executeInstrWordByte_quiet u p ins a).mono
    fun _ hr => handlerResult_quiet hr).map

theorem armLoadStore_ignores_iff (h : Banked p) :
    (Ignores fun u => armLoadStore u p ins >>= raiseResult) ↔
      if LeavesAddress ins then AlikeEverywhere p ins
      else IsWordLoad ins → ∀ a, target cleared p ins = .ok (.wordByte a) →
        Admitted p.mem .word a := by
  simp only [armLoadStore_target]
  split
  · rename_i hleaves
    simp only [target_leavesAddress h hleaves, ok_bind, perform_raise]
    exact perform_anywhere_ignores_iff h
  · rename_i hassigned
    have htarget (u : Locals) : target u p ins = target cleared p ins :=
      target_ignores hassigned u cleared
    simp only [htarget]
    cases target cleared p ins with
    | error e => exact iff_of_true (fun _ _ => rfl) (by rintro _ _ ⟨⟩)
    | ok t =>
      simp only [ok_bind, Except.ok.injEq]
      cases t with
      | miscellaneous a =>
        refine iff_of_true (fun u u' => ?_) (by rintro _ _ ⟨⟩)
        simp only [perform, executeInstrMiscellaneous_ignores p ins a u u']
      | wordByte a =>
        simp only [perform_raise, Target.wordByte.injEq, forall_eq']
        exact perform_wordByte_ignores_iff h
      | skipped => exact iff_of_true (fun _ _ => rfl) (by rintro _ _ ⟨⟩)
      | undefined => exact iff_of_true (fun _ _ => rfl) (by rintro _ _ ⟨⟩)

omit [Host] in
theorem armLoadStoreMultiple_ignores_iff (h : Banked p) :
    (Ignores fun u => armLoadStoreMultiple u p ins >>= raiseResult) ↔
      (getBit ins 20 ≠ 0 → listed ins = [15] →
        ∀ base, armReadRegister p (getBits ins 19 16).toNat = .ok base →
          Admitted p.mem .word (firstWord ins base)) := by
  obtain ⟨base, -, hbase, -⟩ := armLoadStore_reads ins h
  have hraise (u : Locals) (a e : Word) :
      ((handlerResult <$> executeInstrMultiple u p ins a e) >>= raiseResult) =
        handlerResult <$> executeInstrMultiple u p ins a e :=
    bind_raiseResult ((executeInstrMultiple_quiet u p ins a e).mono
      fun _ hr => handlerResult_quiet hr).map
  simp only [armLoadStoreMultiple, hbase, ok_bind, hraise, endAddress_eq, startAddress_word,
    ignores_map_iff handlerResult_injective, Except.ok.injEq, forall_eq']
  by_cases hl : getBit ins 20 = 0
  · exact iff_of_true (stm_ignores p ins _ _ hl) fun hload => absurd hl hload
  · rw [ldm_ignores_iff h hl, forall_prop_of_true hl]

theorem run_ignores_iff (h : Banked p) :
    (Ignores fun u => (dispatch ins).run u p ins >>= raiseResult) ↔ Assigned p ins := by
  unfold Assigned
  cases dispatch ins with
  | loadStore => exact armLoadStore_ignores_iff h
  | loadStoreMultiple => exact armLoadStoreMultiple_ignores_iff h
  | _ => exact iff_of_true (fun _ _ => rfl) trivial

omit [Host] in
theorem armFetch_out (p : ArmCore) : (∀ v, armFetch p v = armFetch p 0) ∨
    ∃ x : Except Stop ArmCore, ∀ v, armFetch p v = x >>= fun p' => .ok (-1, v, p') := by
  unfold armFetch
  dsimp only
  cases armReadRegister { p with cycleCount := p.cycleCount + 1 } 15 with
  | error e => exact Or.inl fun v => rfl
  | ok pc =>
    by_cases hadmitted : Admitted p.mem .word (pc - 4)
    · have hread (v : Word) : memoryReadWord p.mem (pc - 4) v = memoryReadWord p.mem (pc - 4) 0 :=
        memoryRead_admitted hadmitted v 0
      exact Or.inl fun v => by rw [ok_bind, ok_bind, hread v]
    · have hread (v : Word) : memoryReadWord p.mem (pc - 4) v = .ok (-1, v) :=
        memoryRead_rejected hadmitted v
      exact Or.inr ⟨_, fun v => by rw [ok_bind, hread v]; rfl⟩

theorem stepFetched_ignores_iff (h : Banked p) :
    (Ignores fun u => stepFetched u p ins) ↔ (Passes (armReadCpsr p) ins → Assigned p ins) := by
  by_cases hpass : Passes (armReadCpsr p) ins
  · simp only [stepFetched, executeFetched_passes hpass]
    exact (run_ignores_iff h).trans ⟨fun ha _ => ha, fun ha => ha hpass⟩
  · refine iff_of_true (fun u u' => ?_) fun hpassed => absurd hpassed hpass
    by_cases hnever : condField ins = 0b1111
    · simp only [stepFetched, executeFetched_never hnever]
    · simp only [stepFetched, executeFetched_fails hnever hpass]

/-- A step is the same whatever the locals held exactly when the fetched instruction, if it
is executed, assigns what it reads of them. -/
theorem armStep_ignores_iff (p : ArmCore) : (∀ u u', armStep u p = armStep u' p) ↔
    ∀ ins p', armFetch p 0 = .ok (0, ins, p') → Passes (armReadCpsr p') ins →
      Assigned p' ins := by
  rcases armFetch_out p with hout | ⟨x, hx⟩
  · cases hfetch : armFetch p 0 with
    | error e =>
      refine iff_of_true (fun u u' => ?_) (by rintro _ _ ⟨⟩)
      rw [armStep_eq, armStep_eq, hout u.inst, hout u'.inst]
      simp only [hfetch]
      rfl
    | ok r =>
      obtain ⟨res, ins, p'⟩ := r
      by_cases hres : res = 0
      · subst hres
        have hstep (u : Locals) : armStep u p = stepFetched u p' ins := by
          rw [armStep_eq, hout u.inst, hfetch]
          rfl
        simp only [hstep]
        refine (stepFetched_ignores_iff (armFetch_mode hfetch).2).trans
          ⟨fun h ins' p'' heq => ?_, fun h => h ins p' rfl⟩
        simp only [Except.ok.injEq, Prod.mk.injEq, true_and] at heq
        obtain ⟨rfl, rfl⟩ := heq
        exact h
      · refine iff_of_true (fun u u' => ?_) fun ins' p'' heq => ?_
        · rw [armStep_eq, armStep_eq, hout u.inst, hout u'.inst]
          simp only [hfetch, ok_bind, ne_eq, hres, not_false_eq_true, if_true]
        · simp only [Except.ok.injEq, Prod.mk.injEq] at heq
          exact absurd heq.1 hres
  · refine iff_of_true (fun u u' => ?_) fun ins p' hfetch => ?_
    · rw [armStep_eq, armStep_eq, hx, hx, bind_assoc, bind_assoc]
      rfl
    · rw [hx] at hfetch
      obtain ⟨p'', -, heq⟩ := bind_eq_ok.mp hfetch
      simp at heq

end Step

/-- `ldr r0, [r1, #4]` in a memory of one word. -/
theorem locals_loaded : ¬ ∀ (_ : Host) (p : ArmCore) (u u' : Locals),
    armStep u p = armStep u' p := by
  intro h
  let host := Host.x86
  let q := program .usr #[0x04, 0x00, 0x91, 0xE5]
  have hfetch (value : Word) : armFetch q.core value = .ok (0, 0xE5910004, (fetched q).core) :=
    program_fetch .usr rfl
  have hstep (u : Locals) : armStep u q.core = stepFetched u (fetched q).core 0xE5910004 :=
    armStep_of_fetch (hfetch u.inst)
  have hignores := h host q.core
  simp only [hstep] at hignores
  have hassigned := (stepFetched_ignores_iff (armFetch_mode (hfetch 0)).2).mp hignores
    (Or.inl (by decide)) (by decide)
  have htarget : target cleared (fetched q).core 0xE5910004 = .ok (.wordByte 4) := by
    rw [target_constant (by decide) (by decide)]
    decide
  exact absurd (hassigned 4 htarget) (by decide)

end ArmSimulator.Transfers
