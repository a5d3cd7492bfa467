import ArmSimulator.RegisterFile.Writing
import ArmSimulator.Transfers.Access

/-! # Words at a plain offset

`ldr` and `str` of a word at a base register plus or minus a constant or another
register. The address and the word are right in all of them. A loaded register
that other modes have in the same cell is loaded for these modes too.
-/

namespace ArmSimulator.Transfers

open Machine RegisterFile Storage Decoding Exceptions Foundation.ExceptRun

/-- An unconditional `ldr` or `str` without a shift or a change of its base. -/
structure IsPlainWord (ins : Word) : Prop where
  condition : condField ins = 0b1110
  offset : (getBits ins 27 25).toNat = 2 ∨
    (getBits ins 27 25).toNat = 3 ∧ getBits ins 11 4 = 0
  word : getBit ins 22 = 0
  preIndexed : getBit ins 24 ≠ 0
  noWriteback : getBit ins 21 = 0

/-- A register as an operand of the instruction the processor executes next. -/
def operand (q : Processor) (reg : Fin 16) : Word :=
  if reg = 15 then pcAddress q + 8 else q.register reg

/-- The base plus or minus an offset. -/
def offsetAddress (q : Processor) (ins offset : Word) : Word :=
  if getBit ins 23 ≠ 0 then operand q (rn ins) + offset else operand q (rn ins) - offset

def plainAddress (q : Processor) (ins : Word) : Word :=
  offsetAddress q ins
    (if (getBits ins 27 25).toNat = 2 then getBits ins 11 0 else operand q (rm ins))

structure StoresWord (q q' : Processor) (a value : Word) : Prop where
  word : wordAt q'.mem a.toNat = value
  outside : ∀ i, i < a.toNat ∨ a.toNat + 4 ≤ i → q'.mem.values[i]? = q.mem.values[i]?
  size : q'.mem.values.size = q.mem.values.size
  order : q'.mem.isBigEndian = q.mem.isBigEndian
  registers : ∀ l, l ≠ 15 → q'.file.cells l = q.file.cells l
  next : pcAddress q' = pcAddress q + 4

structure LoadsWord (q q' : Processor) (reg : Fin 16) (value : Word) : Prop where
  register : q'.register reg = value
  others : SameBut (· = cell q.file.mode reg) q.file q'.file
  status : readCpsr q'.file.cells = readCpsr q.file.cells
  mem : q'.mem = q.mem
  next : pcAddress q' = pcAddress q + 4

structure LoadsPc (q q' : Processor) (value : Word) : Prop where
  pc : q'.file.cells 15 = value &&& 0xFFFFFFFE
  status : ∀ j, (readCpsr q'.file.cells).getLsbD j =
    if j = 5 then value.getLsbD 0 else (readCpsr q.file.cells).getLsbD j
  others : SameBut (fun _ => False) q.file q'.file
  mem : q'.mem = q.mem

section Step

variable [Host]

/-- What the step does; what was stored is what a later load from the address finds. -/
structure TransfersWord (q : Processor) (ins : Word) (q' : Processor) : Prop where
  store : getBit ins 20 = 0 → StoresWord q q' (plainAddress q ins) (operand q (rd ins))
  load : getBit ins 20 ≠ 0 → rd ins ≠ 15 →
    LoadsWord q q' (rd ins) (wordAt q.mem (plainAddress q ins).toNat)
  loadPc : getBit ins 20 ≠ 0 → rd ins = 15 →
    LoadsPc q q' (wordAt q.mem (plainAddress q ins).toNat)
  copies : getBit ins 20 = 0 → ∀ (u : Locals) (q₁ : Processor) (ins₁ : Word),
    memoryReadWord q₁.mem (pcAddress q₁) u.inst = .ok (0, ins₁) → IsPlainWord ins₁ →
    getBit ins₁ 20 ≠ 0 → rd ins₁ ≠ 15 → q₁.mem = q'.mem →
    plainAddress q₁ ins₁ = plainAddress q ins →
    ∃ q₂ : Processor, armStep u q₁.core = .ok (0, q₂.core) ∧
      q₂.register (rd ins₁) = operand q (rd ins)

/-! ## The address -/

omit [Host] in
theorem op_eq (ins l r : Word) : op ins l r = if getBit ins 23 ≠ 0 then l + r else l - r := by
  have hone : (1 : Word) = 1#32 := rfl
  rw [op, hone]
  split
  · rw [BitVec.mul_one]
  · rw [BitVec.mul_neg, BitVec.mul_one, BitVec.sub_eq_add_neg]

omit [Host] in
theorem register_fetched (q : Processor) (reg : Fin 16) :
    (fetched q).register reg = operand q reg := by
  rw [Processor.register, fetched_cells, fetched_mode, operand]
  by_cases hreg : reg = 15
  · rw [if_pos hreg, if_pos hreg, hreg, position_pc, if_pos rfl, readPc_readPc, pcAddress]
    bv_omega
  · rw [if_neg hreg, if_neg hreg, if_neg (position_ne_pc _ _ hreg), Processor.register,
      if_neg hreg]

variable {q : Processor} {ins : Word} {u : Locals}

theorem target_constant (hclass : (getBits ins 27 25).toNat = 2) (hpre : pBit ins = true) :
    target u (fetched q).core ins = .ok (.wordByte (offsetAddress q ins (getBits ins 11 0))) := by
  have hrn : armReadRegister (fetched q).core (getBits ins 19 16).toNat =
      .ok (operand q (rn ins)) := by
    rw [← register_fetched]
    exact (fetched q).armReadRegister_eq (rn ins)
  have hrm := (fetched q).armReadRegister_eq (rm ins)
  change armReadRegister (fetched q).core (getBits ins 3 0).toNat = _ at hrm
  rw [target, hrn, hrm]
  simp only [ok_bind, hclass, Conditions.addrmodeLoadStore_address, hpre, if_true, op_eq]
  rfl

theorem target_register (hclass : (getBits ins 27 25).toNat = 3) (hpre : pBit ins = true)
    (hbit : getBits ins 11 4 = 0 ∨ getBit ins 4 = 0) : target u (fetched q).core ins =
      .ok (.wordByte (offsetAddress q ins (if getBits ins 11 4 = 0 then operand q (rm ins)
        else setIndex (fetched q).core ins ((operand q (rm ins)).setWidth 8)))) := by
  have hrn : armReadRegister (fetched q).core (getBits ins 19 16).toNat =
      .ok (operand q (rn ins)) := by
    rw [← register_fetched]
    exact (fetched q).armReadRegister_eq (rn ins)
  have hrm : armReadRegister (fetched q).core (getBits ins 3 0).toNat =
      .ok (operand q (rm ins)) := by
    rw [← register_fetched]
    exact (fetched q).armReadRegister_eq (rm ins)
  rw [target, hrn, hrm]
  by_cases hzero : getBits ins 11 4 = 0
  · simp only [ok_bind, hclass, hzero, ne_eq, not_true_eq_false, not_false_eq_true, decide_true,
      Bool.true_or, if_true, Conditions.addrmodeLoadStore_address, hpre, op_eq]
    rfl
  · have h4 := hbit.resolve_left hzero
    simp only [ok_bind, hclass, hzero, h4, ne_eq, not_true_eq_false, not_false_eq_true,
      decide_false, Bool.false_or, Bool.not_false, Bool.true_and, Bool.true_or, if_true,
      Bool.false_eq_true, if_false, Conditions.addrmodeLoadStore_address, hpre, op_eq]
    rfl

theorem target_plain (h : IsPlainWord ins) :
    target u (fetched q).core ins = .ok (.wordByte (plainAddress q ins)) := by
  have hpre : pBit ins = true := decide_eq_true h.preIndexed
  rw [plainAddress]
  rcases h.offset with hclass | ⟨hclass, hzero⟩
  · rw [if_pos hclass, target_constant hclass hpre]
  · rw [if_neg (by rw [hclass]; decide), target_register hclass hpre (Or.inl hzero), if_pos hzero]

omit [Host] in
theorem dispatch_plain (h : IsPlainWord ins) : dispatch ins = .loadStore := by
  unfold dispatch
  rcases h.offset with hclass | ⟨hclass, -⟩
  · rw [hclass]
    rfl
  · rw [hclass]
    rfl

theorem armStep_plain (h : IsPlainWord ins)
    (hread : memoryReadWord q.mem (pcAddress q) u.inst = .ok (0, ins)) :
    armStep u q.core = (handlerResult <$> executeInstrWordByte u (fetched q).core ins
      (plainAddress q ins)) >>= raiseResult := by
  rw [armStep_run hread (Or.inl h.condition), dispatch_plain h, Handler.run, armLoadStore_target,
    target_plain h]
  rfl

theorem armStep_str (h : IsPlainWord ins)
    (hread : memoryReadWord q.mem (pcAddress q) u.inst = .ok (0, ins))
    (hl : getBit ins 20 = 0) (ha : (plainAddress q ins).toNat + 4 ≤ q.mem.values.size)
    (h32 : (plainAddress q ins).toNat + 4 ≤ 2 ^ 32) : armStep u q.core =
      .ok (0, (store (fetched q) (plainAddress q ins).toNat [operand q (rd ins)]).core) := by
  rw [armStep_plain h hread, executeInstrWordByte_str (q := fetched q) h.condition hl h.word ha h32,
    register_fetched]
  rfl

theorem armStep_ldr (h : IsPlainWord ins)
    (hread : memoryReadWord q.mem (pcAddress q) u.inst = .ok (0, ins))
    (hl : getBit ins 20 ≠ 0) (ha : (plainAddress q ins).toNat + 4 ≤ q.mem.values.size)
    (h32 : (plainAddress q ins).toNat + 4 ≤ 2 ^ 32) : armStep u q.core =
      .ok (0, (load (fetched q) (rd ins) (wordAt q.mem (plainAddress q ins).toNat)).core) := by
  rw [armStep_plain h hread, executeInstrWordByte_ldr (q := fetched q) hl h.word ha h32]
  rfl

/-! ## What the transfers change -/

omit [Host] in
theorem storesWord_store {a : Word} (h : a.toNat + 4 ≤ q.mem.values.size) (value : Word) :
    StoresWord q (store (fetched q) a.toNat [value]) a value where
  word := wordAt_storeWords [value] h (i := 0) Nat.zero_lt_one
  outside _ hi := getElem?_storeWords [value] hi
  size := size_storeWords [value]
  order := rfl
  registers l hl := (fetched_cells q l).trans (if_neg hl)
  next := pcAddress_next ((fetched_cells q 15).trans (if_pos rfl))

omit [Host] in
theorem load_fetched_cells {reg : Fin 16} (hreg : reg ≠ 15) (value : Word) {l : Position}
    (hl : l ≠ 15) : (load (fetched q) reg value).file.cells l =
      if l = position q.file.mode reg then value else q.file.cells l := by
  rw [load_cells _ hreg, fetched_mode, fetched_cells, if_neg hl]

omit [Host] in
theorem others_iff {reg : Fin 16} (hreg : reg ≠ 15) {value : Word} {q' : Processor}
    (hcells : q'.file.cells = (load (fetched q) reg value).file.cells) :
    SameBut (· = cell q.file.mode reg) q.file q'.file ↔ Unshared q.file reg value :=
  sameBut_iff value hreg fun l hl _ => by rw [hcells, load_fetched_cells hreg value hl]

omit [Host] in
theorem loadsWord_load {reg : Fin 16} (hreg : reg ≠ 15) {value : Word}
    (h : Unshared q.file reg value) : LoadsWord q (load (fetched q) reg value) reg value where
  register := register_load _ hreg value
  others := (others_iff hreg rfl).mpr h
  status := (load_fetched_cells hreg value (by decide)).trans
    (if_neg (position_ne_cpsr q.file.mode reg).symm)
  mem := load_mem _ _ _
  next := pcAddress_next (by
    rw [load_cells _ hreg, if_neg (position_ne_pc _ _ hreg).symm, fetched_cells, if_pos rfl])

omit [Host] in
theorem loadsPc_load (value : Word) : LoadsPc q (load (fetched q) 15 value) value where
  pc := (load_pc_cells _ value 15).trans (if_pos rfl)
  status j := by
    rw [readCpsr, load_pc_cells, if_neg (by decide), if_pos rfl, getLsbD_thumbCpsr, fetched_cpsr]
  others := sameBut_of_eq fun l hpc hcpsr => by
    rw [load_pc_cells, if_neg hpc, if_neg hcpsr, fetched_cells, if_neg hpc]
  mem := load_mem _ _ _

theorem copies_store {a value : Word} (ha : a.toNat + 4 ≤ q.mem.values.size)
    (h32 : a.toNat + 4 ≤ 2 ^ 32) {q₁ : Processor} {ins₁ : Word}
    (hread : memoryReadWord q₁.mem (pcAddress q₁) u.inst = .ok (0, ins₁)) (h : IsPlainWord ins₁)
    (hl : getBit ins₁ 20 ≠ 0) (hrd : rd ins₁ ≠ 15)
    (hmem : q₁.mem = (store (fetched q) a.toNat [value]).mem)
    (haddress : plainAddress q₁ ins₁ = a) :
    ∃ q₂ : Processor, armStep u q₁.core = .ok (0, q₂.core) ∧ q₂.register (rd ins₁) = value := by
  have hsize : q₁.mem.values.size = q.mem.values.size := by
    rw [hmem]
    exact size_storeWords [value]
  refine ⟨_, armStep_ldr h hread hl (by rw [haddress, hsize]; exact ha)
    (by rw [haddress]; exact h32), ?_⟩
  rw [register_load _ hrd, haddress, hmem]
  exact (storesWord_store ha value).word

/-- A word transferred at a plain offset is right, and a load is the only change where its
register has its cell alone or already holds the word. -/
theorem transfersWord_iff (h : IsPlainWord ins)
    (hread : memoryReadWord q.mem (pcAddress q) u.inst = .ok (0, ins))
    (ha : (plainAddress q ins).toNat + 4 ≤ q.mem.values.size)
    (hsize : q.mem.values.size ≤ 2 ^ 32) :
    (∃ q' : Processor, armStep u q.core = .ok (0, q'.core) ∧ TransfersWord q ins q') ↔
      (getBit ins 20 ≠ 0 → rd ins ≠ 15 →
        Unshared q.file (rd ins) (wordAt q.mem (plainAddress q ins).toNat)) := by
  have h32 : (plainAddress q ins).toNat + 4 ≤ 2 ^ 32 := Nat.le_trans ha hsize
  by_cases hl : getBit ins 20 = 0
  · refine iff_of_true ⟨_, armStep_str h hread hl ha h32, ?_⟩ fun hne => absurd hl hne
    exact ⟨fun _ => storesWord_store ha _, fun hne => absurd hl hne, fun hne => absurd hl hne,
      fun _ u q₁ ins₁ hread₁ h₁ hl₁ hrd₁ hmem => copies_store ha h32 hread₁ h₁ hl₁ hrd₁ hmem⟩
  · rw [armStep_ldr h hread hl ha h32]
    constructor
    · rintro ⟨q', hstep, hq'⟩ _ hrd
      have hcells := congrArg (fun r => r.2.reg) (Except.ok.inj hstep)
      exact (others_iff hrd hcells.symm).mp (hq'.load hl hrd).others
    · intro hunshared
      refine ⟨_, rfl, fun hzero => absurd hzero hl, fun _ hrd => loadsWord_load hrd
        (hunshared hl hrd), fun _ hrd => ?_, fun hzero => absurd hzero hl⟩
      rw [hrd]
      exact loadsPc_load _

end Step

/-- `ldr r1, [pc, #-8]` at address 0, which loads itself. -/
def ldrProgram : Processor := program .usr #[0x08, 0x10, 0x1F, 0xE5]

/-- `ldr r0, [pc, #-8]` at address 0. -/
def ldrZeroProgram : Processor := program .usr #[0x08, 0x00, 0x1F, 0xE5]

theorem transfersWord_ldr : ∃ q' : Processor,
    @armStep Host.x86 ⟨0, 0, 0, 0, 0, 0⟩ ldrProgram.core = .ok (0, q'.core) ∧
      @TransfersWord Host.x86 ldrProgram 0xE51F1008 q' :=
  (@transfersWord_iff Host.x86 ldrProgram 0xE51F1008 ⟨0, 0, 0, 0, 0, 0⟩
    ⟨by decide, by decide, by decide, by decide, by decide⟩ (memoryReadWord_program .usr rfl)
    (by decide) (by decide)).mpr fun _ _ => ⟨fun h => absurd h (by decide),
      fun h => absurd h (by decide)⟩

/-- `ldr r0` overwrites the saved statuses. -/
theorem ldr_changes_saved : ¬ ∀ (_ : Host) (q : Processor) (ins : Word) (u : Locals),
    IsPlainWord ins → memoryReadWord q.mem (pcAddress q) u.inst = .ok (0, ins) →
    (plainAddress q ins).toNat + 4 ≤ q.mem.values.size → q.mem.values.size ≤ 2 ^ 32 →
    ∃ q' : Processor, armStep u q.core = .ok (0, q'.core) ∧ TransfersWord q ins q' := by
  intro h
  let host := Host.x86
  have hplain : IsPlainWord 0xE51F0008 := ⟨by decide, by decide, by decide, by decide, by decide⟩
  have hread : memoryReadWord ldrZeroProgram.mem (pcAddress ldrZeroProgram) 0 =
      .ok (0, 0xE51F0008) := memoryReadWord_program .usr rfl
  have ha : (plainAddress ldrZeroProgram 0xE51F0008).toNat + 4 ≤ ldrZeroProgram.mem.values.size :=
    by decide
  obtain ⟨q', hstep, hq'⟩ := h host ldrZeroProgram 0xE51F0008 ⟨0, 0, 0, 0, 0, 0⟩ hplain hread ha
    (by decide)
  rw [armStep_ldr hplain hread (by decide) ha (by decide)] at hstep
  have hcells := congrArg (fun r => r.2.reg) (Except.ok.inj hstep)
  have hothers := (others_iff (by decide) hcells.symm).mp (hq'.load (by decide) (by decide)).others
  exact absurd (hothers.1 (by decide)) (by decide)

end ArmSimulator.Transfers
