import ArmSimulator.Transfers.BlockLoops

/-! # Block transfers

`ldm` and `stm` in the modes IA, IB, DA and DB. The end address that the
addressing mode computes is that of the last word in every mode, so the
assertion holds, and a load finds what a store of the same block has left.
-/

namespace ArmSimulator.Transfers

open Machine RegisterFile Storage Decoding Exceptions Foundation.ExceptRun

/-- An unconditional `ldm` or `stm`. -/
structure IsBlock (ins : Word) : Prop where
  condition : condField ins = 0b1110
  cls : (getBits ins 27 25).toNat = 4

/-- The first address of the block: its words start at the base or after it, or end there
or before it. -/
def lowest (q : Processor) (ins : Word) : Int :=
  let base : Int := (operand q (rn ins)).toNat
  let bytes : Int := 4 * (listed ins).length
  if pBit ins then if getBit ins 23 ≠ 0 then base + 4 else base - bytes
  else if getBit ins 23 ≠ 0 then base else base - bytes + 4

/-- All words of the block lie in memory, without a wrap around the addresses. -/
def BlockInMemory (q : Processor) (ins : Word) : Prop :=
  listed ins ≠ [] → 0 ≤ lowest q ins ∧
    lowest q ins + 4 * (listed ins).length ≤ q.mem.values.size ∧
    lowest q ins + 4 * (listed ins).length ≤ 2 ^ 32

/-- The address of the word of the register at an index of the list. -/
def wordAddress (q : Processor) (ins : Word) (i : Nat) : Nat := (lowest q ins).toNat + 4 * i

structure StoresBlock (q : Processor) (ins : Word) (q' : Processor) : Prop where
  words : ∀ i reg, (listed ins)[i]? = some reg →
    wordAt q'.mem (wordAddress q ins i) = operand q reg
  outside : ∀ j : Nat, j < lowest q ins ∨ lowest q ins + 4 * (listed ins).length ≤ j →
    q'.mem.values[j]? = q.mem.values[j]?
  size : q'.mem.values.size = q.mem.values.size
  order : q'.mem.isBigEndian = q.mem.isBigEndian
  registers : ∀ l, l ≠ 15 → q'.file.cells l = q.file.cells l
  next : pcAddress q' = pcAddress q + 4

structure LoadsBlock (q : Processor) (ins : Word) (q' : Processor) : Prop where
  registers : ∀ i reg, (listed ins)[i]? = some reg → reg ≠ 15 →
    q'.register reg = wordAt q.mem (wordAddress q ins i)
  pc : ∀ i, (listed ins)[i]? = some 15 →
    q'.file.cells 15 = wordAt q.mem (wordAddress q ins i) &&& 0xFFFFFFFE ∧
    ∀ j, (readCpsr q'.file.cells).getLsbD j =
      if j = 5 then (wordAt q.mem (wordAddress q ins i)).getLsbD 0
      else (readCpsr q.file.cells).getLsbD j
  others : ∀ reg, reg ∉ listed ins → reg ≠ 15 → q'.register reg = q.register reg
  next : 15 ∉ listed ins → pcAddress q' = pcAddress q + 4 ∧
    readCpsr q'.file.cells = readCpsr q.file.cells
  mem : q'.mem = q.mem

/-- Both transfers have the base value, the list and the addressing mode in common. -/
structure SameBlock (q : Processor) (ins : Word) (q₁ : Processor) (ins₁ : Word) : Prop where
  base : operand q₁ (rn ins₁) = operand q (rn ins)
  list : getBits ins₁ 15 0 = getBits ins 15 0
  before : getBit ins₁ 24 = getBit ins 24
  up : getBit ins₁ 23 = getBit ins 23

/-! ## The addresses of a block -/

section Addresses

variable {q : Processor} {ins : Word}

theorem bytes_eq (ins : Word) : (nbSetBits ((getBits ins 15 0).setWidth 16) * 4).setWidth 32 =
    BitVec.ofNat 32 (4 * (listed ins).length) := by
  have hlen := length_listed ins
  have hcount := nbSetBits_eq ins
  have hfour : (4 : Byte).toNat = 4 := rfl
  apply BitVec.eq_of_toNat_eq
  rw [BitVec.toNat_setWidth, BitVec.toNat_mul, hcount, hfour, BitVec.toNat_ofNat]
  omega

theorem endAddress_eq (p : ArmCore) (ins base : Word) :
    (addrmodeLoadStoreMultiple p ins base).2.1 =
      (addrmodeLoadStoreMultiple p ins base).1 + BitVec.ofNat 32 (4 * (listed ins).length) - 4 := by
  simp only [addrmodeLoadStoreMultiple, bytes_eq]
  generalize BitVec.ofNat 32 (4 * (listed ins).length) = bytes
  cases pBit ins <;> by_cases hu : getBit ins 23 = 0 <;>
    simp only [hu, ne_eq, not_true_eq_false, not_false_eq_true, decide_true, decide_false, if_true,
      if_false, Bool.false_eq_true] <;> bv_omega

theorem startAddress_eq (p : ArmCore) (hlist : listed ins ≠ []) (hblock : BlockInMemory q ins) :
    (addrmodeLoadStoreMultiple p ins (operand q (rn ins))).1.toNat = (lowest q ins).toNat := by
  have hlen := length_listed ins
  have hpos := List.length_pos_iff.mpr hlist
  obtain ⟨hlow, -, hhigh⟩ := hblock hlist
  simp only [addrmodeLoadStoreMultiple, bytes_eq]
  unfold lowest at hlow hhigh ⊢
  generalize (listed ins).length = k at *
  generalize operand q (rn ins) = base at *
  have hbase := base.isLt
  cases hp : pBit ins <;> by_cases hu : getBit ins 23 = 0 <;>
    simp only [hp, hu, ne_eq, not_true_eq_false, not_false_eq_true, decide_true, decide_false,
      if_true, if_false, Bool.false_eq_true] at hlow hhigh ⊢ <;> bv_omega

end Addresses

section Run

variable {q : Processor} {ins : Word} {u : Locals}

theorem executeInstrMultiple_stm {start : Word} (hl : getBit ins 20 = 0)
    (h : listed ins ≠ [] → start.toNat + 4 * (listed ins).length ≤ q.mem.values.size)
    (h32 : listed ins ≠ [] → start.toNat + 4 * (listed ins).length ≤ 2 ^ 32) :
    executeInstrMultiple u q.core ins start
      (start + BitVec.ofNat 32 (4 * (listed ins).length) - 4) =
        .ok (0, (store q start.toNat ((listed ins).map q.register)).core) := by
  have hrun := stm_run ins (listed ins) (fun _ => named_of_mem ins) q start u.word h h32
  rw [executeInstrMultiple_listed, blockVisit_store hl, hrun, ok_bind]
  exact if_pos rfl

theorem executeInstrMultiple_ldm {start : Word} (hl : getBit ins 20 ≠ 0)
    (h : listed ins ≠ [] → start.toNat + 4 * (listed ins).length ≤ q.mem.values.size)
    (h32 : listed ins ≠ [] → start.toNat + 4 * (listed ins).length ≤ 2 ^ 32) :
    executeInstrMultiple u q.core ins start
      (start + BitVec.ofNat 32 (4 * (listed ins).length) - 4) =
        .ok (0, (loadWords q start.toNat (listed ins)).core) := by
  obtain ⟨w, hrun⟩ := ldm_run ins (listed ins) (fun _ => named_of_mem ins) q start u.word h h32
  rw [executeInstrMultiple_listed, blockVisit_load hl, hrun, ok_bind]
  exact if_pos rfl

variable [Host]

theorem armStep_block (h : IsBlock ins)
    (hread : memoryReadWord q.mem (pcAddress q) u.inst = .ok (0, ins)) :
    armStep u q.core =
      (handlerResult <$> executeInstrMultiple u (fetched q).core ins
        (addrmodeLoadStoreMultiple (fetched q).core ins (operand q (rn ins))).1
        (addrmodeLoadStoreMultiple (fetched q).core ins (operand q (rn ins))).2.1) >>=
          raiseResult := by
  have hdispatch : dispatch ins = .loadStoreMultiple := by
    unfold dispatch
    rw [h.cls]
    rfl
  have hrn : armReadRegister (fetched q).core (getBits ins 19 16).toNat =
      .ok (operand q (rn ins)) := by
    rw [← register_fetched]
    exact (fetched q).armReadRegister_eq (rn ins)
  rw [armStep_run hread (Or.inl h.condition), hdispatch, Handler.run, armLoadStoreMultiple, hrn]
  rfl

theorem exists_start (h : IsBlock ins)
    (hread : memoryReadWord q.mem (pcAddress q) u.inst = .ok (0, ins))
    (hblock : BlockInMemory q ins) : ∃ start : Word,
    (listed ins ≠ [] → start.toNat = (lowest q ins).toNat) ∧
    (listed ins ≠ [] → start.toNat + 4 * (listed ins).length ≤ q.mem.values.size) ∧
    (listed ins ≠ [] → start.toNat + 4 * (listed ins).length ≤ 2 ^ 32) ∧
    armStep u q.core = (handlerResult <$> executeInstrMultiple u (fetched q).core ins start
      (start + BitVec.ofNat 32 (4 * (listed ins).length) - 4)) >>= raiseResult := by
  have hstart (hlist : listed ins ≠ []) := startAddress_eq (fetched q).core hlist hblock
  refine ⟨_, hstart, fun hlist => ?_, fun hlist => ?_, ?_⟩
  · obtain ⟨hlow, hhigh, -⟩ := hblock hlist
    rw [hstart hlist]
    omega
  · obtain ⟨hlow, -, hhigh⟩ := hblock hlist
    rw [hstart hlist]
    omega
  · rw [armStep_block h hread, endAddress_eq]

theorem armStep_stm (h : IsBlock ins)
    (hread : memoryReadWord q.mem (pcAddress q) u.inst = .ok (0, ins))
    (hl : getBit ins 20 = 0) (hblock : BlockInMemory q ins) : armStep u q.core =
      .ok (0, (store (fetched q) (lowest q ins).toNat ((listed ins).map (operand q))).core) := by
  obtain ⟨start, hstart, hfits, h32, hstep⟩ := exists_start h hread hblock
  have hregs : (fetched q).register = operand q := funext (register_fetched q)
  have hrun : executeInstrMultiple u (fetched q).core ins start _ = _ :=
    executeInstrMultiple_stm hl hfits h32
  have hsame : store (fetched q) start.toNat ((listed ins).map (operand q)) =
      store (fetched q) (lowest q ins).toNat ((listed ins).map (operand q)) := by
    by_cases hlist : listed ins = []
    · rw [hlist, List.map_nil, store, store, storeWords_nil, storeWords_nil]
    · rw [hstart hlist]
  rw [hstep, hrun, hregs, hsame]
  rfl

theorem armStep_ldm (h : IsBlock ins)
    (hread : memoryReadWord q.mem (pcAddress q) u.inst = .ok (0, ins))
    (hl : getBit ins 20 ≠ 0) (hblock : BlockInMemory q ins) : armStep u q.core =
      .ok (0, (loadWords (fetched q) (lowest q ins).toNat (listed ins)).core) := by
  obtain ⟨start, hstart, hfits, h32, hstep⟩ := exists_start h hread hblock
  have hrun : executeInstrMultiple u (fetched q).core ins start _ = _ :=
    executeInstrMultiple_ldm hl hfits h32
  have hsame : loadWords (fetched q) start.toNat (listed ins) =
      loadWords (fetched q) (lowest q ins).toNat (listed ins) := by
    by_cases hlist : listed ins = []
    · rw [hlist, loadWords, loadWords]
    · rw [hstart hlist]
  rw [hstep, hrun, hsame]
  rfl

end Run

/-! ## What the transfers change -/

section Changes

variable {q : Processor} {ins : Word}

theorem storesBlock_store (hblock : BlockInMemory q ins) : StoresBlock q ins
    (store (fetched q) (lowest q ins).toNat ((listed ins).map (operand q))) where
  words i reg hreg := by
    have hi := (List.getElem?_eq_some_iff.mp hreg).1
    have hfits : (lowest q ins).toNat + 4 * ((listed ins).map (operand q)).length ≤
        q.mem.values.size := by
      obtain ⟨hlow, hhigh, -⟩ := hblock (List.ne_nil_of_length_pos (Nat.zero_lt_of_lt hi))
      rw [List.length_map]
      omega
    have hword := wordAt_storeWords _ hfits (i := i) (by rwa [List.length_map])
    rw [List.getElem_map, (List.getElem?_eq_some_iff.mp hreg).2] at hword
    exact hword
  outside j hj := by
    refine getElem?_storeWords _ ?_
    rw [List.length_map]
    by_cases hlist : listed ins = []
    · rw [hlist, List.length_nil]
      omega
    · have := hblock hlist
      omega
  size := size_storeWords _
  order := rfl
  registers l hl := (fetched_cells q l).trans (if_neg hl)
  next := pcAddress_next ((fetched_cells q 15).trans (if_pos rfl))

theorem loadWords_register_other {reg : Fin 16} (hreg : reg ≠ 15) (a : Nat) {regs : List (Fin 16)}
    (hnot : reg ∉ regs) : (loadWords q a regs).register reg = q.register reg := by
  induction regs generalizing q a with
  | nil => rfl
  | cons r regs ih =>
    rw [List.mem_cons, not_or] at hnot
    rw [loadWords, ih _ hnot.2, register_load_other _ hnot.1 hreg]

theorem loadWords_register {reg : Fin 16} (hreg : reg ≠ 15) (a : Nat) {regs : List (Fin 16)}
    (hnodup : regs.Nodup) {i : Nat} (hi : regs[i]? = some reg) :
    (loadWords q a regs).register reg = wordAt q.mem (a + 4 * i) := by
  induction regs generalizing q a i with
  | nil => simp at hi
  | cons r regs ih =>
    obtain ⟨hnot, hnodup⟩ := List.nodup_cons.mp hnodup
    rw [loadWords]
    cases i with
    | zero =>
      rw [List.getElem?_cons_zero, Option.some.injEq] at hi
      subst hi
      rw [loadWords_register_other hreg _ hnot, register_load _ hreg, Nat.mul_zero, Nat.add_zero]
    | succ i =>
      rw [List.getElem?_cons_succ] at hi
      rw [ih _ hnodup hi, load_mem, show a + 4 + 4 * i = a + 4 * (i + 1) by omega]

theorem loadWords_pc_other (a : Nat) {regs : List (Fin 16)} (hnot : 15 ∉ regs) :
    (loadWords q a regs).file.cells 15 = q.file.cells 15 ∧
      readCpsr (loadWords q a regs).file.cells = readCpsr q.file.cells := by
  induction regs generalizing q a with
  | nil => exact ⟨rfl, rfl⟩
  | cons reg regs ih =>
    rw [List.mem_cons, not_or] at hnot
    have hreg : reg ≠ 15 := fun h => hnot.1 h.symm
    rw [loadWords, (ih _ hnot.2).1, (ih _ hnot.2).2, readCpsr, load_cells _ hreg, load_cells _ hreg,
      if_neg (position_ne_pc _ _ hreg).symm, if_neg (position_ne_cpsr _ _).symm]
    exact ⟨rfl, rfl⟩

theorem loadWords_pc (a : Nat) {regs : List (Fin 16)} (hnodup : regs.Nodup) {i : Nat}
    (hi : regs[i]? = some 15) :
    (loadWords q a regs).file.cells 15 = wordAt q.mem (a + 4 * i) &&& 0xFFFFFFFE ∧
      readCpsr (loadWords q a regs).file.cells =
        thumbCpsr (readCpsr q.file.cells) (wordAt q.mem (a + 4 * i)) := by
  induction regs generalizing q a i with
  | nil => simp at hi
  | cons reg regs ih =>
    obtain ⟨hnot, hnodup⟩ := List.nodup_cons.mp hnodup
    rw [loadWords]
    cases i with
    | zero =>
      rw [List.getElem?_cons_zero, Option.some.injEq] at hi
      subst hi
      rw [(loadWords_pc_other _ hnot).1, (loadWords_pc_other _ hnot).2, readCpsr, load_pc_cells,
        load_pc_cells, if_pos rfl, if_neg (by decide), if_pos rfl, Nat.mul_zero, Nat.add_zero]
      exact ⟨rfl, rfl⟩
    | succ i =>
      rw [List.getElem?_cons_succ] at hi
      have hreg : reg ≠ 15 := by
        rintro rfl
        exact hnot (List.mem_of_getElem? hi)
      have hcpsr : readCpsr (load q reg (wordAt q.mem a)).file.cells = readCpsr q.file.cells := by
        rw [readCpsr, load_cells _ hreg, if_neg (position_ne_cpsr _ _).symm]
        rfl
      rw [(ih _ hnodup hi).1, (ih _ hnodup hi).2, load_mem, hcpsr,
        show a + 4 + 4 * i = a + 4 * (i + 1) by omega]
      exact ⟨rfl, rfl⟩

theorem nodup_listed (ins : Word) : (listed ins).Nodup :=
  (List.nodup_finRange 16).filter _

theorem loadsBlock_loadWords : LoadsBlock q ins
    (loadWords (fetched q) (lowest q ins).toNat (listed ins)) where
  registers i reg hi hreg := loadWords_register hreg _ (nodup_listed ins) hi
  pc i hi := by
    obtain ⟨hpc, hcpsr⟩ := loadWords_pc (q := fetched q) (lowest q ins).toNat (nodup_listed ins) hi
    refine ⟨hpc, fun j => ?_⟩
    rw [hcpsr, getLsbD_thumbCpsr, fetched_cpsr]
    rfl
  others reg hnot hreg := by
    rw [loadWords_register_other hreg _ hnot, register_fetched, operand, if_neg hreg]
  next hnot := by
    obtain ⟨hpc, hcpsr⟩ := loadWords_pc_other (q := fetched q) (lowest q ins).toNat hnot
    exact ⟨pcAddress_next (hpc.trans ((fetched_cells q 15).trans (if_pos rfl))),
      hcpsr.trans (fetched_cpsr q)⟩
  mem := loadWords_mem _ _ _

theorem SameBlock.lowest_eq {q₁ : Processor} {ins₁ : Word} (h : SameBlock q ins q₁ ins₁) :
    lowest q₁ ins₁ = lowest q ins ∧ listed ins₁ = listed ins := by
  have hlisted : listed ins₁ = listed ins := by
    unfold listed named
    rw [h.list]
  refine ⟨?_, hlisted⟩
  unfold lowest pBit
  rw [hlisted, h.base, h.up, h.before]

end Changes

section Step

variable [Host] {q : Processor} {ins : Word} {u : Locals}

/-- What the step does; a later load of the block finds the stored registers. -/
structure TransfersBlock (q : Processor) (ins : Word) (q' : Processor) : Prop where
  store : getBit ins 20 = 0 → StoresBlock q ins q'
  load : getBit ins 20 ≠ 0 → LoadsBlock q ins q'
  copies : getBit ins 20 = 0 → 15 ∉ listed ins →
    ∀ (u : Locals) (q₁ : Processor) (ins₁ : Word),
      memoryReadWord q₁.mem (pcAddress q₁) u.inst = .ok (0, ins₁) → IsBlock ins₁ →
      getBit ins₁ 20 ≠ 0 → SameBlock q ins q₁ ins₁ → q₁.mem = q'.mem →
      ∃ q₂ : Processor, armStep u q₁.core = .ok (0, q₂.core) ∧
        ∀ reg ∈ listed ins, q₂.register reg = q.register reg

theorem copies_block (hblock : BlockInMemory q ins) (hpc : 15 ∉ listed ins) {q₁ : Processor}
    {ins₁ : Word}
    (hread : memoryReadWord q₁.mem (pcAddress q₁) u.inst = .ok (0, ins₁)) (h : IsBlock ins₁)
    (hl : getBit ins₁ 20 ≠ 0) (hsame : SameBlock q ins q₁ ins₁)
    (hmem : q₁.mem = (store (fetched q) (lowest q ins).toNat ((listed ins).map (operand q))).mem) :
    ∃ q₂ : Processor, armStep u q₁.core = .ok (0, q₂.core) ∧
      ∀ reg ∈ listed ins, q₂.register reg = q.register reg := by
  obtain ⟨hlowest, hlisted⟩ := hsame.lowest_eq
  have hsame : q₁.mem.values.size = q.mem.values.size := by
    rw [hmem]
    exact (storesBlock_store hblock).size
  have hblock₁ : BlockInMemory q₁ ins₁ := by
    rw [BlockInMemory, hlowest, hlisted, hsame]
    exact hblock
  refine ⟨_, armStep_ldm h hread hl hblock₁, fun reg hreg => ?_⟩
  obtain ⟨i, hi⟩ := List.getElem?_of_mem hreg
  have hne : reg ≠ 15 := fun h => hpc (h ▸ hreg)
  have hloads : LoadsBlock q₁ ins₁ _ := loadsBlock_loadWords
  have hloaded := hloads.registers i reg (hlisted ▸ hi) hne
  have hstored := (storesBlock_store hblock).words i reg hi
  rw [operand, if_neg hne] at hstored
  rw [hloaded, wordAddress, hlowest, hmem]
  exact hstored

/-- A block transfer whose words lie in memory is right for every base, list and mode. -/
theorem transfersBlock (h : IsBlock ins)
    (hread : memoryReadWord q.mem (pcAddress q) u.inst = .ok (0, ins))
    (hblock : BlockInMemory q ins) :
    ∃ q' : Processor, armStep u q.core = .ok (0, q'.core) ∧ TransfersBlock q ins q' := by
  by_cases hl : getBit ins 20 = 0
  · refine ⟨_, armStep_stm h hread hl hblock, fun _ => storesBlock_store hblock,
      fun hne => absurd hl hne, fun _ hpc u q₁ ins₁ hread₁ h₁ hl₁ hsame hmem => ?_⟩
    exact copies_block hblock hpc hread₁ h₁ hl₁ hsame hmem
  · exact ⟨_, armStep_ldm h hread hl hblock, fun hzero => absurd hzero hl,
      fun _ => loadsBlock_loadWords, fun hzero => absurd hzero hl⟩

end Step

/-- `stmia r0, {r1, r2}` at address 0. -/
def stmProgram : Processor := program .usr #[0x06, 0x00, 0x80, 0xE8, 0, 0, 0, 0]

theorem transfersBlock_stm : ∃ q' : Processor,
    @armStep Host.x86 ⟨0, 0, 0, 0, 0, 0⟩ stmProgram.core = .ok (0, q'.core) ∧
      @TransfersBlock Host.x86 stmProgram 0xE8800006 q' :=
  @transfersBlock Host.x86 stmProgram 0xE8800006 ⟨0, 0, 0, 0, 0, 0⟩ ⟨by decide, by decide⟩
    (memoryReadWord_program .usr rfl) fun _ => by decide

end ArmSimulator.Transfers
