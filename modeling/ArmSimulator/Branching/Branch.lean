import ArmSimulator.DataProcessing.Operands
import ArmSimulator.RegisterFile.Writing

/-! # Branches

The target of `arm_branch` goes through the fetch, two reads of the program
counter and a sign extension made of shifts and complements, and comes out where
it should. The link register of IRQ, SVC, ABT and UND is one cell, so a branch
with link in one of these modes also changes what the other three return to.
-/

namespace ArmSimulator.Branching

open Machine RegisterFile Transfers Decoding Exceptions DataProcessing Foundation.ExceptRun

/-- The 24-bit field read in two's complement. -/
def offset (ins : Word) : Int := (ins.setWidth 24).toInt

/-- The L bit. -/
def Links (ins : Word) : Prop := getBit ins 24 ≠ 0

instance (ins : Word) : Decidable (Links ins) := inferInstanceAs (Decidable (_ ≠ _))

/-- `mov pc, lr` -/
def movPcLr : Word := 0xE1A0F00E

variable [Host]

/-- What a branch from a processor leaves. -/
structure Branches (q : Processor) (ins : Word) (q' : Processor) : Prop where
  next : pcAddress q' = pcAddress q + 8 + BitVec.ofInt 32 (4 * offset ins)
  link : Links ins → q'.register 14 = pcAddress q + 4
  registers : SameBut (fun c => Links ins ∧ c = cell q.file.mode 14) q.file q'.file
  status : readCpsr q'.file.cells = readCpsr q.file.cells
  mem : q'.mem = q.mem
  resumes : Links ins → ∀ (u : Locals) (q₁ : Processor), q₁.register 14 = q'.register 14 →
    memoryReadWord q₁.mem (pcAddress q₁) u.inst = .ok (0, movPcLr) →
    ∃ q₂ : Processor, armStep u q₁.core = .ok (0, q₂.core) ∧ pcAddress q₂ = pcAddress q + 4

/-! ## The target -/

omit [Host] in
/-- The shifts and complements of the source extend the sign of the field. -/
theorem adress_eq (ins : Word) :
    (if getBit ins 23 ≠ 0 then -((~~~(getBits ins 23 0 <<< 8)).sshiftRight 8 + 1)
      else getBits ins 23 0) = BitVec.ofInt 32 (offset ins) := by
  have hfield : (getBits ins 23 0).toNat = ins.toNat % 2 ^ 24 := by
    rw [toNat_getBits ins (by omega), Nat.pow_zero, Nat.div_one]
  have hbit : getBit ins 23 ≠ 0 ↔ 2 ^ 23 ≤ ins.toNat % 2 ^ 24 := by
    rw [getBit_ne_zero, BitVec.getLsbD, Nat.testBit_eq_decide_div_mod_eq, decide_eq_true_iff]
    omega
  have hoffset : (2 ^ 23 ≤ ins.toNat % 2 ^ 24 → offset ins = (ins.toNat % 2 ^ 24 : Nat) - 2 ^ 24) ∧
      (ins.toNat % 2 ^ 24 < 2 ^ 23 → offset ins = (ins.toNat % 2 ^ 24 : Nat)) := by
    rw [offset, BitVec.toInt_eq_toNat_cond, BitVec.toNat_setWidth]
    split <;> omega
  apply BitVec.eq_of_toNat_eq
  rw [BitVec.toNat_ofInt]
  by_cases hneg : getBit ins 23 ≠ 0
  · have hle := hbit.mp hneg
    have hflip : (~~~(getBits ins 23 0 <<< 8)).toNat = 2 ^ 32 - 1 - ins.toNat % 2 ^ 24 * 256 := by
      rw [BitVec.toNat_not, BitVec.toNat_shiftLeft, hfield, Nat.shiftLeft_eq, Nat.mod_eq_of_lt]
      omega
    have hmsb : (~~~(getBits ins 23 0 <<< 8)).msb = false := by
      rw [BitVec.msb_eq_decide, hflip, decide_eq_false_iff_not]
      omega
    have hone : (1 : Word).toNat = 1 := rfl
    rw [if_pos hneg, hoffset.1 hle, BitVec.sshiftRight_eq_of_msb_false hmsb, BitVec.toNat_neg,
      BitVec.toNat_add, BitVec.toNat_ushiftRight, hflip, Nat.shiftRight_eq_div_pow, hone]
    omega
  · have hlt := mt hbit.mpr hneg
    rw [if_neg hneg, hoffset.2 (by omega), hfield]
    omega

omit [Host] in
theorem adress_shift (ins : Word) :
    BitVec.ofInt 32 (offset ins) <<< 2 = BitVec.ofInt 32 (4 * offset ins) := by
  apply BitVec.eq_of_toNat_eq
  rw [BitVec.toNat_shiftLeft, BitVec.toNat_ofInt, BitVec.toNat_ofInt, Nat.shiftLeft_eq]
  omega

def linked (q : Processor) (ins : Word) : Processor :=
  if Links ins then (fetched q).write 14 (pcAddress q + 4) else fetched q

def branched (q : Processor) (ins : Word) : Processor :=
  (linked q ins).write 15 (pcAddress q + 8 + BitVec.ofInt 32 (4 * offset ins))

variable (q : Processor) (ins : Word)

omit [Host] in
theorem branched_mode : (branched q ins).file.mode = q.file.mode := by
  rw [branched, linked]
  split <;> rfl

omit [Host] in
theorem branched_mem : (branched q ins).mem = q.mem := by
  rw [branched, linked]
  split <;> rfl

omit [Host] in
theorem linked_cells {l : Position} : (linked q ins).file.cells l =
    if Links ins ∧ l = position q.file.mode 14 then pcAddress q + 4
    else if l = 15 then readPc (q.file.cells 15) else q.file.cells l := by
  by_cases hl : Links ins
  · rw [linked, if_pos hl, Processor.write_cells, fetched_cells, fetched_mode]
    simp only [hl, true_and]
  · rw [linked, if_neg hl, fetched_cells]
    simp only [hl, false_and, if_false]

omit [Host] in
theorem armBranch_eq : armBranch (fetched q).core ins = .ok (0, (branched q ins).core) := by
  have hread (q' : Processor) (h : q'.file.cells 15 = readPc (q.file.cells 15)) :
      armReadRegister q'.core 15 = .ok (pcAddress q + 8) := by
    rw [q'.armReadRegister_pc, h, readPc_readPc, pcAddress]
    exact congrArg _ (by bv_omega)
  have hpc : (linked q ins).file.cells 15 = readPc (q.file.cells 15) := by
    rw [linked_cells, if_neg fun h => position_ne_pc _ _ (by decide) h.2.symm, if_pos rfl]
  have htarget : (do
      let pc ← armReadRegister (linked q ins).core 15
      let p ← armWriteRegister (linked q ins).core 15 (pc + BitVec.ofInt 32 (4 * offset ins))
      return ((0 : Int), p)) = .ok (0, (branched q ins).core) := by
    rw [hread _ hpc, ok_bind, Processor.armWriteRegister_pc]
    rfl
  have hfour : pcAddress q + 8 - 4 = pcAddress q + 4 := by bv_omega
  unfold armBranch
  simp only [adress_eq, adress_shift]
  by_cases hl : getBit ins 24 ≠ 0
  · have hlinked : (fetched q).write 14 (pcAddress q + 4) = linked q ins :=
      (if_pos (c := Links ins) hl).symm
    rw [if_pos hl, hread _ (by rw [fetched_cells, if_pos rfl]), ok_bind, hfour,
      Processor.armWriteRegister_lr, ok_bind, hlinked]
    exact htarget
  · have hlinked : fetched q = linked q ins := (if_neg (c := Links ins) hl).symm
    rw [if_neg hl, pure_bind, hlinked]
    exact htarget

omit [Host] in
theorem branched_cells (l : Position) : (branched q ins).file.cells l =
    if l = 15 then pcAddress q + 8 + BitVec.ofInt 32 (4 * offset ins)
    else if Links ins ∧ l = position q.file.mode 14 then pcAddress q + 4 else q.file.cells l := by
  rw [branched, Processor.write_cells, position_pc, linked_cells]
  by_cases hl : l = 15
  · rw [if_pos hl, if_pos hl]
  · rw [if_neg hl, if_neg hl, if_neg hl]

omit [Host] in
theorem pcAddress_branched :
    pcAddress (branched q ins) = pcAddress q + 8 + BitVec.ofInt 32 (4 * offset ins) := by
  have hdvd : 4 ∣ (8 + BitVec.ofInt 32 (4 * offset ins)).toNat := by
    have height : (8 : Word).toNat = 8 := rfl
    rw [BitVec.toNat_add, BitVec.toNat_ofInt, height]
    omega
  have hclear : (readPc (q.file.cells 15) + (8 + BitVec.ofInt 32 (4 * offset ins))).getLsbD 1 =
      false := by
    rw [getLsbD_add_multiple _ hdvd, getLsbD_readPc]
  have hsum : pcAddress q + 8 + BitVec.ofInt 32 (4 * offset ins) + 4 =
      readPc (q.file.cells 15) + (8 + BitVec.ofInt 32 (4 * offset ins)) := by
    rw [pcAddress]
    bv_omega
  rw [pcAddress, branched_cells, if_pos rfl, readPc, hsum, and_clearBit _ hclear, ← hsum,
    BitVec.add_sub_cancel]

omit [Host] in
variable {ins} in
theorem register_lr_branched (h : Links ins) : (branched q ins).register 14 = pcAddress q + 4 := by
  rw [Processor.register, if_neg (by decide), branched_mode, branched_cells,
    if_neg (position_ne_pc _ _ (by decide)), if_pos ⟨h, rfl⟩]

/-! ## The return -/

/-- `mov pc, lr` continues at the link register. -/
theorem armStep_movPcLr (u : Locals) {q : Processor}
    (hread : memoryReadWord q.mem (pcAddress q) u.inst = .ok (0, movPcLr)) :
    armStep u q.core = .ok (0, ((fetched q).write 15 (q.register 14)).core) := by
  have hdispatch : dispatch movPcLr = .dataProcessingShift := by decide
  have hmode : 16 ≤ getMode (fetched q).core.reg := (fetched q).file.mode_ge
  have hlr : registerValue (fetched q).core 14 = q.register 14 := by
    rw [registerValue_core, Processor.register, fetched_cells,
      if_neg (position_ne_pc _ _ (by decide))]
    rfl
  have hinputs : shiftInputs (fetched q).core movPcLr =
      .ok (registerValue (fetched q).core 0, q.register 14) := by
    rw [shiftInputs_eq hmode, ← hlr]
    rfl
  have hoperands : shiftOperands (fetched q).core movPcLr =
      .ok (registerValue (fetched q).core 0, q.register 14) := by
    rw [shiftOperands, hinputs]
    rfl
  have hop : (getBits movPcLr 24 21).toNat = 0b1101 := by decide
  have hrd : rd movPcLr = 15 := by decide
  have hs : decide (getBit movPcLr 20 ≠ 0) = false := by decide
  have halu : aluOf 0b1101 (armReadCpsr (fetched q).core) (registerValue (fetched q).core 0)
      (q.register 14) = some ⟨q.register 14, _, _, false⟩ := rfl
  rw [armStep_run hread (Or.inl (by decide)), hdispatch, Handler.run,
    armDataProcessingShift_operands, hoperands, ok_bind, execute, hop, hrd, hs,
    executeInst_eq halu, if_neg (by decide), Processor.armWriteRegister_eq]
  rfl

omit [Host] in
theorem pcAddress_return {q₁ : Processor} (h : q₁.register 14 = pcAddress q + 4) :
    pcAddress ((fetched q₁).write 15 (q₁.register 14)) = pcAddress q + 4 := by
  have hcell : ((fetched q₁).write 15 (q₁.register 14)).file.cells 15 =
      readPc (q.file.cells 15) := by
    rw [Processor.write_cells, position_pc, if_pos rfl, h, pcAddress, BitVec.sub_add_cancel]
  exact pcAddress_next hcell

variable {q ins} {q' : Processor}

omit [Host] in
/-- The registers other than the link register, which is written only by a link. -/
theorem registers_iff (hcells : q'.file.cells = (branched q ins).file.cells) :
    SameBut (fun c => Links ins ∧ c = cell q.file.mode 14) q.file q'.file ↔
      (Links ins → Shared q.file.mode 14 →
        q.file.cells (position q.file.mode 14) = pcAddress q + 4) := by
  by_cases hl : Links ins
  · have hone : (fun c => Links ins ∧ c = cell q.file.mode 14) = (· = cell q.file.mode 14) :=
      funext fun c => propext (and_iff_right hl)
    rw [hone, sameBut_iff (pcAddress q + 4) (by decide), Unshared, forall_prop_of_true hl,
      and_iff_right fun h => absurd h (by decide)]
    intro l hpc _
    rw [hcells, branched_cells, if_neg hpc]
    simp only [hl, true_and]
  · refine iff_of_true (sameBut_of_eq fun l hpc _ => ?_) fun h => absurd h hl
    rw [hcells, branched_cells, if_neg hpc, if_neg fun h => hl h.1]

theorem branches_branched (hlink : Links ins → Shared q.file.mode 14 →
    q.file.cells (position q.file.mode 14) = pcAddress q + 4) :
    Branches q ins (branched q ins) where
  next := pcAddress_branched q ins
  link h := register_lr_branched q h
  registers := (registers_iff rfl).mpr hlink
  status := by
    have hcpsr : ¬ (Links ins ∧ Position.cpsr = position q.file.mode 14) := fun h =>
      position_ne_cpsr _ _ h.2.symm
    rw [readCpsr, branched_cells, if_neg (by decide), if_neg hcpsr]
    rfl
  mem := branched_mem q ins
  resumes hlinks u q₁ hlr hread :=
    ⟨_, armStep_movPcLr u hread, pcAddress_return q (hlr.trans (register_lr_branched q hlinks))⟩

theorem armStep_branch {u : Locals}
    (hread : memoryReadWord q.mem (pcAddress q) u.inst = .ok (0, ins))
    (hbranch : dispatch ins = .branch) (hpass : Passes (readCpsr q.file.cells) ins) :
    armStep u q.core = .ok (0, (branched q ins).core) := by
  rw [armStep_run hread hpass, hbranch, Handler.run, armBranch_eq]
  rfl

/-- A branch is right in every mode, and a branch with link where the link register is a cell
of its own or already holds the return address. -/
theorem branch_iff {u : Locals}
    (hread : memoryReadWord q.mem (pcAddress q) u.inst = .ok (0, ins))
    (hbranch : dispatch ins = .branch) (hpass : Passes (readCpsr q.file.cells) ins) :
    (∃ q' : Processor, armStep u q.core = .ok (0, q'.core) ∧ Branches q ins q') ↔
      (Links ins → Shared q.file.mode 14 →
        q.file.cells (position q.file.mode 14) = pcAddress q + 4) := by
  rw [armStep_branch hread hbranch hpass]
  constructor
  · rintro ⟨q', hstep, hq'⟩
    have hcells := congrArg (fun r => r.2.reg) (Except.ok.inj hstep)
    exact (registers_iff hcells.symm).mp hq'.registers
  · intro hlink
    exact ⟨_, rfl, branches_branched hlink⟩

/-- `b .` at address 0. -/
def loopProgram : Processor := program .usr #[0xFE, 0xFF, 0xFF, 0xEA]

/-- `bl .` at address 0. -/
def linkProgram : Processor := program .irq #[0xFE, 0xFF, 0xFF, 0xEB]

omit [Host] in
theorem branch_loop : ∃ q' : Processor,
    @armStep Host.x86 ⟨0, 0, 0, 0, 0, 0⟩ loopProgram.core = .ok (0, q'.core) ∧
      @Branches Host.x86 loopProgram 0xEAFFFFFE q' :=
  (@branch_iff Host.x86 loopProgram 0xEAFFFFFE ⟨0, 0, 0, 0, 0, 0⟩
    (memoryReadWord_program .usr rfl) (by decide) (Or.inl (by decide))).mpr
      fun h => absurd h (by decide)

omit [Host] in
/-- `bl` in IRQ mode changes the link register of SVC mode. -/
theorem branch_changes_svc : ¬ ∀ (_ : Host) (u : Locals) (q : Processor) (ins : Word),
    memoryReadWord q.mem (pcAddress q) u.inst = .ok (0, ins) → dispatch ins = .branch →
    Passes (readCpsr q.file.cells) ins →
    ∃ q' : Processor, armStep u q.core = .ok (0, q'.core) ∧ Branches q ins q' := by
  intro h
  let host := Host.x86
  have hread : memoryReadWord linkProgram.mem (pcAddress linkProgram) 0 = .ok (0, 0xEBFFFFFE) :=
    memoryReadWord_program .irq rfl
  obtain ⟨q', hstep, hq'⟩ := h host ⟨0, 0, 0, 0, 0, 0⟩ linkProgram 0xEBFFFFFE hread
    (by decide) (Or.inl (by decide))
  rw [armStep_branch hread (by decide) (Or.inl (by decide))] at hstep
  have hcells := congrArg (fun r => r.2.reg) (Except.ok.inj hstep)
  have hlr := (registers_iff hcells.symm).mp hq'.registers (by decide)
    (show Shared .irq 14 by decide)
  rw [linkProgram, pcAddress_program] at hlr
  exact absurd hlr (by decide)

end ArmSimulator.Branching
