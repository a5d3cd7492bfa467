import ArmSimulator.Architecture.Computing
import ArmSimulator.Debugger.Continue

/-! # The simulator refines the programmer's model

Where the model defines a step, the simulator's step returns 0 and does the same to what a
program sees.
-/

namespace ArmSimulator.Architecture

open Machine RegisterFile Storage Transfers Decoding Branching Exceptions Debugger
  Foundation.ExceptRun

variable {w : Word} {q : Processor}

/-! ## Branches -/

/-- The link register is set before the program counter. -/
theorem view_branched :
    view (branched q w) = (view q).branch (w.getLsbD 24) (Branching.offset w) := by
  have hlinks : Links w ↔ w.getLsbD 24 = true := getBit_ne_zero w 24
  have hpc := pcAddress_branched q w
  unfold branched at hpc ⊢
  rw [view_jump, hpc, State.branch]
  unfold linked
  by_cases hl : Links w
  · rw [if_pos hl, if_pos (hlinks.mp hl), view_write _ (by decide), view_fetched]
    rfl
  · rw [if_neg hl, if_neg (mt hlinks.mpr hl), view_fetched]
    rfl

theorem stays_branched : Stays q (branched q w) := by
  refine ⟨branched_mode q w, fun l _ hr => ?_⟩
  rw [branched_cells, if_neg (position_pc q.file.mode ▸ hr 15), if_neg fun h => hr 14 h.2]

/-! ## Addresses -/

theorem plainAddress_view {x : Operand} (hx : decodeOffset w = some x) :
    plainAddress q w = (view q).address (rn w) (w.getLsbD 23) x := by
  have hfield : (getBits w 27 25).toNat = field w 27 25 := getBits_field w (by omega)
  have hup : getBit w 23 ≠ 0 ↔ w.getLsbD 23 = true := getBit_ne_zero w 23
  have hoffset : (if (getBits w 27 25).toNat = 2 then getBits w 11 0 else operand q (rm w)) =
      (view q).operand x := by
    rw [hfield]
    unfold decodeOffset at hx
    by_cases htwo : field w 27 25 = 2
    · rw [if_pos htwo] at hx ⊢
      cases hx
      rw [← getBits_field w (by omega), State.operand, BitVec.ofNat_toNat, BitVec.setWidth_eq]
    · rw [if_neg htwo] at hx ⊢
      obtain ⟨-, hx⟩ := Option.ite_none_right_eq_some.mp hx
      cases hx
      rw [State.operand, view_read, registerField_rm]
      exact (BitVec.shiftLeft_zero _).symm
  rw [plainAddress, hoffset, offsetAddress, State.address, view_read]
  simp only [hup]

theorem lowest_view : Transfers.lowest q w =
    (view q).lowest (rn w) (w.getLsbD 24) (w.getLsbD 23) (listed w).length := by
  have hup : getBit w 23 ≠ 0 ↔ w.getLsbD 23 = true := getBit_ne_zero w 23
  have hbefore : pBit w = w.getLsbD 24 := by
    rw [pBit]
    simp only [getBit_ne_zero, Bool.decide_eq_true]
  unfold Transfers.lowest State.lowest
  rw [hbefore, view_read]
  simp only [hup]

theorem inMemory_address {mem : Memory} {a : Word} (h : InMemory mem a.toNat 1) :
    a.toNat + 4 ≤ mem.values.size ∧ a.toNat + 4 ≤ 2 ^ 32 := by
  obtain ⟨-, hsize, hwidth⟩ := h
  omega

theorem blockInMemory_lowest (h : InMemory q.mem (Transfers.lowest q w) (listed w).length) :
    BlockInMemory q w := by
  intro _
  obtain ⟨hlow, hsize, hwidth⟩ := h
  exact ⟨hlow, by exact_mod_cast hsize, by exact_mod_cast hwidth⟩

/-! ## Steps -/

section Step

variable [Host] {u : Locals} {s : State}

theorem leads_load {x : Operand} (hread : memoryReadWord q.mem (pcAddress q) u.inst = .ok (0, w))
    (hplain : IsPlainWord w) (hx : decodeOffset w = some x) (hl : w.getLsbD 20 = true)
    (hrd : rd w ≠ 15)
    (h : (view q).load ((view q).address (rn w) (w.getLsbD 23) x).toNat [rd w] = some s) :
    Leads u q s := by
  obtain ⟨hmem, h⟩ := Option.ite_none_right_eq_some.mp h
  rw [← plainAddress_view hx] at hmem h
  obtain ⟨hsize, hwidth⟩ := inMemory_address hmem
  have hpc : 15 ∉ [rd w] := fun hin => hrd (List.mem_singleton.mp hin).symm
  refine ⟨loadWords (fetched q) (plainAddress q w).toNat [rd w],
    armStep_ldr hplain hread ((getBit_ne_zero w 20).mpr hl) hsize hwidth,
    (stays_fetched q).trans (stays_loadWords _ _ hpc), ?_⟩
  rw [view_loadWords _ _ hpc, view_fetched]
  exact Option.some.inj h

theorem leads_store {x : Operand} (hread : memoryReadWord q.mem (pcAddress q) u.inst = .ok (0, w))
    (hplain : IsPlainWord w) (hx : decodeOffset w = some x) (hl : w.getLsbD 20 = false)
    (h : (view q).store ((view q).address (rn w) (w.getLsbD 23) x).toNat [(view q).read (rd w)] =
      some s) : Leads u q s := by
  obtain ⟨hmem, h⟩ := Option.ite_none_right_eq_some.mp h
  rw [← plainAddress_view hx] at hmem h
  obtain ⟨hsize, hwidth⟩ := inMemory_address hmem
  rw [view_read] at h
  refine ⟨_, armStep_str hplain hread ((getBit_eq_zero w 20).mpr hl) hsize hwidth,
    ⟨rfl, (stays_fetched q).banks⟩, ?_⟩
  rw [view_store, view_fetched]
  exact Option.some.inj h

theorem leads_loadBlock (hread : memoryReadWord q.mem (pcAddress q) u.inst = .ok (0, w))
    (hblock : IsBlock w) (hl : w.getLsbD 20 = true) (hpc : 15 ∉ listed w)
    (h : (view q).load ((view q).lowest (rn w) (w.getLsbD 24) (w.getLsbD 23) (listed w).length)
      (listed w) = some s) : Leads u q s := by
  obtain ⟨hmem, h⟩ := Option.ite_none_right_eq_some.mp h
  rw [← lowest_view] at hmem h
  refine ⟨_, armStep_ldm hblock hread ((getBit_ne_zero w 20).mpr hl) (blockInMemory_lowest hmem),
    (stays_fetched q).trans (stays_loadWords _ _ hpc), ?_⟩
  rw [view_loadWords _ _ hpc, view_fetched]
  exact Option.some.inj h

theorem leads_storeBlock (hread : memoryReadWord q.mem (pcAddress q) u.inst = .ok (0, w))
    (hblock : IsBlock w) (hl : w.getLsbD 20 = false)
    (h : (view q).store ((view q).lowest (rn w) (w.getLsbD 24) (w.getLsbD 23) (listed w).length)
      ((listed w).map (view q).read) = some s) : Leads u q s := by
  obtain ⟨hmem, h⟩ := Option.ite_none_right_eq_some.mp h
  have hread' : (view q).read = operand q := funext (view_read q)
  rw [← lowest_view, List.length_map] at hmem
  rw [← lowest_view, hread'] at h
  refine ⟨_, armStep_stm hblock hread ((getBit_eq_zero w 20).mpr hl) (blockInMemory_lowest hmem),
    ⟨rfl, (stays_fetched q).banks⟩, ?_⟩
  rw [view_store, view_fetched]
  exact Option.some.inj h

theorem leads_next {c : Condition} (hread : memoryReadWord q.mem (pcAddress q) u.inst = .ok (0, w))
    (hc : decodeCondition w = some c) (hpass : ¬ Passes (readCpsr q.file.cells) w) :
    Leads u q (view q).next := by
  have hfetch : armFetch q.core u.inst = .ok (0, w, (fetched q).core) := by
    rw [armFetch_eq, hread]
    rfl
  have hcpsr : armReadCpsr (fetched q).core = readCpsr q.file.cells := fetched_cpsr q
  refine ⟨fetched q, ?_, stays_fetched q, view_fetched q⟩
  rw [armStep_of_fetch hfetch, Conditions.stepFetched, executeFetched_fails (condField_ne hc)
    (hcpsr ▸ hpass)]
  rfl

theorem leads_execute {i : Instruction}
    (hread : memoryReadWord q.mem (pcAddress q) u.inst = .ok (0, w))
    (hpass : Passes (readCpsr q.file.cells) w) (hi : Encodes w i)
    (h : (view q).execute i = some s) : Leads u q s := by
  cases hi with
  | compute hclass hoperation hx hflags =>
    exact leads_compute hread hpass hclass hoperation hx hflags h
  | branch hbranch =>
    refine ⟨_, armStep_branch hread hbranch hpass, stays_branched, ?_⟩
    rw [view_branched]
    exact Option.some.inj h
  | load hplain hx hl hrd => exact leads_load hread hplain hx hl hrd h
  | store hplain hx hl => exact leads_store hread hplain hx hl h
  | loadBlock hblock hl hpc => exact leads_loadBlock hread hblock hl hpc h
  | storeBlock hblock hl => exact leads_storeBlock hread hblock hl h

omit [Host] in
/-- The word that the model fetches is the one that the simulator reads. -/
theorem read_of_fetch (h : (view q).fetch = some w) (old : Word) :
    memoryReadWord q.mem (pcAddress q) old = .ok (0, w) := by
  obtain ⟨hmem, hw⟩ := Option.ite_none_right_eq_some.mp h
  obtain ⟨hsize, hwidth⟩ := inMemory_address hmem
  rw [← Option.some.inj hw]
  exact memoryReadWord_toNat hsize hwidth old

theorem step_leads (h : (view q).step = some s) : Leads u q s := by
  obtain ⟨w, hfetch, h⟩ := Option.bind_eq_some_iff.mp h
  obtain ⟨⟨c, i⟩, hdecode, h⟩ := Option.bind_eq_some_iff.mp h
  have h : (if c.holds (view q).n (view q).z = true then (view q).execute i else
      some (view q).next) = some s := h
  have hread := read_of_fetch hfetch u.inst
  obtain ⟨hc, hi⟩ := decode_encodes hdecode
  have hpasses := passes_iff hc (readCpsr q.file.cells)
  by_cases hholds : c.holds (view q).n (view q).z = true
  · rw [if_pos hholds] at h
    exact leads_execute hread (hpasses.mpr hholds) hi h
  · rw [if_neg hholds] at h
    cases h
    exact leads_next hread hc (mt hpasses.mp hholds)

end Step

/-! ## Breakpoints -/

/-- The breakpoints of the debugger are no instructions. -/
theorem decode_breakpoint (h : IsBreakpoint w) : decode w = none := by
  have hbit (i : ℕ) (hmask : (0xFFF000F0 : Word).getLsbD i = true) :
      w.getLsbD i = (0xE7F000F0 : Word).getLsbD i := by
    rw [← h, BitVec.getLsbD_and, hmask, Bool.and_true]
  have h4 : w.getLsbD 4 = true := hbit 4 (by decide)
  have h25 : w.getLsbD 25 = true := hbit 25 (by decide)
  have h26 : w.getLsbD 26 = true := hbit 26 (by decide)
  have h27 : w.getLsbD 27 = false := hbit 27 (by decide)
  rw [BitVec.getLsbD, Nat.testBit_eq_decide_div_mod_eq, decide_eq_true_iff] at h4 h25 h26
  rw [BitVec.getLsbD, Nat.testBit_eq_decide_div_mod_eq, decide_eq_false_iff_not] at h27
  have hclass : field w 27 25 = 3 := by
    unfold field
    omega
  have hoffset : field w 11 4 ≠ 0 := by
    unfold field
    omega
  by_contra hdecode
  obtain ⟨⟨c, i⟩, hdecode⟩ := Option.ne_none_iff_exists'.mp hdecode
  obtain ⟨_, _, hdecode⟩ := Option.bind_eq_some_iff.mp hdecode
  obtain ⟨_, htransfer, _⟩ := Option.bind_eq_some_iff.mp hdecode
  unfold decodeClass at htransfer
  rw [hclass] at htransfer
  obtain ⟨-, htransfer⟩ := Option.ite_none_right_eq_some.mp htransfer
  obtain ⟨_, hx, -⟩ := Option.bind_eq_some_iff.mp htransfer
  rw [decodeOffset, if_neg (by omega), if_neg hoffset] at hx
  cases hx

theorem exists_fetch {s : State} (h : (view q).step = some s) :
    ∃ w, (view q).fetch = some w ∧ ¬ IsBreakpoint w := by
  obtain ⟨w, hfetch, h⟩ := Option.bind_eq_some_iff.mp h
  obtain ⟨i, hdecode, -⟩ := Option.bind_eq_some_iff.mp h
  refine ⟨w, hfetch, fun hbreak => ?_⟩
  rw [decode_breakpoint hbreak] at hdecode
  cases hdecode

theorem fetches_view (h : (view q).fetch = some w) : Fetches q.core w :=
  ⟨pcAddress q, fetchAddress_core q, read_of_fetch h⟩

theorem not_atBreakpoint {s : State} (h : (view q).step = some s) : ¬ AtBreakpoint q.core := by
  obtain ⟨w, hfetch, hbreak⟩ := exists_fetch h
  rintro ⟨w', hw', hbreak'⟩
  rw [hw'.unique (fetches_view hfetch)] at hbreak'
  exact hbreak hbreak'

/-! ## Runs -/

section Run

variable [Host] {s : State}

/-- None of the first `n` steps raises an exception: each returns 0. -/
def NoExceptions (n : ℕ) (steps : ℕ → Locals) (p : ArmCore) : Prop :=
  ∀ j < n, ∃ q, armSteps j steps p = .ok q ∧ ∃ q', armStep (steps j) q = .ok (0, q')

theorem noExceptions_succ {n : ℕ} {steps : ℕ → Locals} {p p₁ : ArmCore}
    (hstep : armStep (steps 0) p = .ok (0, p₁))
    (h : NoExceptions n (fun i => steps (i + 1)) p₁) : NoExceptions (n + 1) steps p := by
  intro j hj
  cases j with
  | zero => exact ⟨p, rfl, p₁, hstep⟩
  | succ j =>
    obtain ⟨q, hq, hzero⟩ := h j (Nat.lt_of_succ_lt_succ hj)
    refine ⟨q, ?_, hzero⟩
    rw [armSteps, hstep]
    exact hq

theorem run_noExceptions {n : ℕ} (steps : ℕ → Locals) (h : (view q).run n = some s) :
    NoExceptions n steps q.core := by
  induction n generalizing q steps with
  | zero => exact fun j hj => absurd hj (Nat.not_lt_zero j)
  | succ n ih =>
    obtain ⟨s₁, hstep, hrest⟩ := Option.bind_eq_some_iff.mp h
    obtain ⟨q₁, hrun, -, rfl⟩ := step_leads (u := steps 0) hstep
    exact noExceptions_succ hrun (ih (fun i => steps (i + 1)) hrest)

theorem run_leads {n : ℕ} (steps : ℕ → Locals) (h : (view q).run n = some s) :
    ∃ q' : Processor, StepsTo n steps q.core q'.core ∧ Stays q q' ∧ view q' = s := by
  induction n generalizing q steps with
  | zero => exact ⟨q, stepsTo_zero _ _, stays_refl q, Option.some.inj h⟩
  | succ n ih =>
    obtain ⟨s₁, hstep, hrest⟩ := Option.bind_eq_some_iff.mp h
    obtain ⟨q₁, hrun, hstays, rfl⟩ := step_leads (u := steps 0) hstep
    obtain ⟨q', hsteps, hstays', hview⟩ := ih (fun i => steps (i + 1)) hrest
    exact ⟨q', stepsTo_succ (not_atBreakpoint hstep) hrun hsteps, hstays.trans hstays', hview⟩

end Run

/-- `mov r1, #2`, then `add r2, r2, r1`, `subs r1, r1, #1` and `bne` back to the addition,
`str r2, [r1, #24]` and a breakpoint. -/
def sumImage : List Byte :=
  [0x02, 0x10, 0xA0, 0xE3, 0x01, 0x20, 0x82, 0xE0, 0x01, 0x10, 0x51, 0xE2,
    0xFC, 0xFF, 0xFF, 0x1A, 0x18, 0x20, 0x81, 0xE5, 0xF0, 0x00, 0xF0, 0xE7]

def sumProgram : Processor := program .usr (sumImage ++ [0, 0, 0, 0]).toArray

theorem sumProgram_run : ∃ s, (view sumProgram).run 8 = some s ∧ s.registers 2 = 3 :=
  ⟨((view sumProgram).run 8).get (by decide +kernel), (Option.some_get _).symm,
    by decide +kernel⟩

end ArmSimulator.Architecture
