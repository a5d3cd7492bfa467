import ArmSimulator.Foundation.ExceptRun
import ArmSimulator.Machine.Exception
import ArmSimulator.RegisterFile.Processor

/-! # Exception entry in a valid mode

From a valid mode every exception leads to its own mode and vector. The entry
writes five positions: the status, the program counter, the stack pointer and
the link register of the entered mode, and the word all saved statuses share.
-/

namespace ArmSimulator.Exceptions

open Machine RegisterFile Foundation.ExceptRun

/-- The exceptions of `arm_exception`. -/
inductive Kind where
  | reset | undefinedInstruction | softwareInterrupt | prefetchAbort | dataAbort
  | interrupt | fastInterrupt
  deriving DecidableEq, Repr

namespace Kind

def number : Kind → Byte
  | reset => 1
  | undefinedInstruction => 2
  | softwareInterrupt => 3
  | prefetchAbort => 4
  | dataAbort => 5
  | interrupt => 6
  | fastInterrupt => 7

def mode : Kind → Mode
  | reset | softwareInterrupt => .svc
  | undefinedInstruction => .und
  | prefetchAbort | dataAbort => .abt
  | interrupt => .irq
  | fastInterrupt => .fiq

def vector : Kind → Word
  | reset => 0
  | undefinedInstruction => 0x4
  | softwareInterrupt => 0x8
  | prefetchAbort => 0xC
  | dataAbort => 0x10
  | interrupt => 0x18
  | fastInterrupt => 0x1C

def needSpsr : Kind → Bool
  | reset => false
  | _ => true

/-- The number of status fields set, 3 when fast interrupts are masked too. -/
def count : Kind → Nat
  | reset | fastInterrupt => 3
  | _ => 2

def state : Kind → ReturnState
  | prefetchAbort | dataAbort => .current
  | _ => .next

/-- The link register for a stored program counter. -/
def link (k : Kind) (pc : Word) : Word :=
  match k.state with
  | .current => readPc pc - 4
  | .next => readPc pc

theorem isException_mode (k : Kind) : isException k.mode := by cases k <;> rfl

end Kind

theorem armException_number (p : ArmCore) (k : Kind) : armException p k.number =
    execute_ p k.needSpsr (BitVec.ofNat 32 k.mode.bits) k.count k.state k.vector := by
  cases k <;> rfl

theorem toNat_of_ne_number {b : Byte} (h : ∀ k : Kind, b ≠ k.number) :
    b.toNat = 0 ∨ 7 < b.toNat := by
  have hne (k : Kind) : b.toNat ≠ k.number.toNat := fun hk => h k (BitVec.eq_of_toNat_eq hk)
  have h₁ : b.toNat ≠ 1 := hne .reset
  have h₂ : b.toNat ≠ 2 := hne .undefinedInstruction
  have h₃ : b.toNat ≠ 3 := hne .softwareInterrupt
  have h₄ : b.toNat ≠ 4 := hne .prefetchAbort
  have h₅ : b.toNat ≠ 5 := hne .dataAbort
  have h₆ : b.toNat ≠ 6 := hne .interrupt
  have h₇ : b.toNat ≠ 7 := hne .fastInterrupt
  omega

/-- A byte that is no exception number changes nothing. -/
theorem armException_ignored (p : ArmCore) {b : Byte} (h : ∀ k : Kind, b ≠ k.number) :
    armException p b = .ok p := by
  have hnumber := toNat_of_ne_number h
  unfold armException
  split
  case h_8 => rfl
  all_goals omega

/-- The entry status bit by bit. -/
theorem getLsbD_entryCpsr (cpsr bits : Word) (count : Nat) (hbits : bits.toNat < 32) {i : Nat}
    (hi : i < 32) : (entryCpsr cpsr bits count).getLsbD i =
      if i < 5 then bits.getLsbD i else if i = 5 ∨ i = 9 then false
      else if i = 7 ∨ i = 6 ∧ count = 3 then true else cpsr.getLsbD i := by
  have hhigh : 5 ≤ i → bits.getLsbD i = false := fun h =>
    Nat.testBit_lt_two_pow (Nat.lt_of_lt_of_le hbits (Nat.pow_le_pow_right (n := 2) (i := 5)
      (by omega) h))
  have hmode : (setBits cpsr 4 0 bits).getLsbD i =
      if i < 5 then bits.getLsbD i else cpsr.getLsbD i := by
    rw [getLsbD_setBits, Nat.sub_zero]
    by_cases h : i < 5
    · simp [h, hi, show ¬ 4 < i by omega]
    · rw [hhigh (by omega)]
      simp [h, hi, show 4 < i by omega]
  have hfast (x : Word) : (if count = 3 then setBit x 6 else x).getLsbD i =
      (decide (i = 6 ∧ count = 3) || x.getLsbD i) := by
    split
    · rw [getLsbD_setBit _ (by omega)]
      simp [*]
    · simp [*]
  unfold entryCpsr
  rw [getLsbD_clrBit _ (by omega), getLsbD_setBit _ (by omega), hfast, getLsbD_clrBit _ (by omega),
    hmode]
  grind

theorem getBits_entryCpsr (cpsr : Word) {bits : Word} (count : Nat) (hbits : bits.toNat < 32) :
    getBits (entryCpsr cpsr bits count) 4 0 = bits := by
  apply BitVec.eq_of_getLsbD_eq
  intro i hi
  rw [getLsbD_getBits, Nat.zero_add, getLsbD_entryCpsr _ _ _ hbits hi]
  by_cases h : i < 5
  · rw [if_pos h, decide_eq_true (by omega), Bool.true_and]
  · have hhigh : bits.getLsbD i = false := Nat.testBit_lt_two_pow (Nat.lt_of_lt_of_le hbits
      (Nat.pow_le_pow_right (n := 2) (i := 5) (by omega) (by omega)))
    rw [hhigh, decide_eq_false (by omega), Bool.false_and]

theorem toNat_modeBits (m : Mode) : (BitVec.ofNat 32 m.bits).toNat = m.bits := by
  cases m <;> rfl

def entryStatus (cpsr : Word) (k : Kind) : Status where
  value := entryCpsr cpsr (BitVec.ofNat 32 k.mode.bits) k.count
  mode := k.mode
  mode_eq := by
    have hbits := toNat_modeBits k.mode
    have hlt := k.mode.bits_range.2
    rw [getBits_entryCpsr _ _ (by omega), hbits]

/-- The writes of an entry that starts in any mode, `sp` and `addr` having been read. -/
def enterWith (p : ArmCore) (k : Kind) (sp addr : Word) : Processor :=
  let cpsr := readCpsr p.reg
  let q₁ := Processor.ofStatus p (entryStatus cpsr k)
  let q₂ := (q₁.write 13 sp).write 14 addr
  let q₃ := if k.needSpsr then q₂.writeSaved cpsr else q₂
  q₃.write 15 k.vector

theorem armException_enterWith {p : ArmCore} {sp pc : Word} (k : Kind)
    (hsp : armReadRegister p 13 = .ok sp) (hpc : armReadRegister p 15 = .ok pc) :
    armException p k.number =
      .ok (enterWith p k sp (match k.state with | .current => pc - 4 | .next => pc)).core := by
  have hvector : k.vector &&& 0xFFFF = k.vector := by cases k <;> decide
  rw [armException_number, execute_, hsp, ok_bind, hpc, ok_bind]
  change (armWriteRegister (Processor.ofStatus p (entryStatus (readCpsr p.reg) k)).core 13 sp >>=
      fun p' => armWriteRegister p' 14 (match k.state with | .current => pc - 4 | .next => pc) >>=
      fun p' => if k.needSpsr then armWriteSpsr p' (readCpsr p.reg) >>= fun p' =>
        branchExceptionVector p' k.vector
      else pure p' >>= fun p' => branchExceptionVector p' k.vector) = _
  rw [Processor.armWriteRegister_sp, ok_bind, Processor.armWriteRegister_lr, ok_bind, enterWith]
  simp only [branchExceptionVector, hvector, Processor.armWriteSpsr_eq, pure_bind, ok_bind,
    Processor.armWriteRegister_pc]
  split <;> rfl

theorem armException_ok {p : ArmCore} (hmode : 16 ≤ getMode p.reg) (k : Kind) :
    ∃ p', armException p k.number = .ok p' := by
  obtain ⟨sp, hsp⟩ := @armReadRegister_ok p 13 hmode (by omega)
  obtain ⟨pc, hpc⟩ := @armReadRegister_ok p 15 hmode (by omega)
  exact ⟨_, armException_enterWith k hsp hpc⟩

/-- The state after an entry from a valid mode. -/
def enter (q : Processor) (k : Kind) : Processor :=
  enterWith q.core k (q.register 13) (k.link (q.file.cells 15))

theorem armException_enter (q : Processor) (k : Kind) :
    armException q.core k.number = .ok (enter q k).core :=
  armException_enterWith k q.armReadRegister_sp q.armReadRegister_pc

theorem enterWith_mode (p : ArmCore) (k : Kind) (sp addr : Word) :
    (enterWith p k sp addr).file.mode = k.mode := by
  simp only [enterWith]
  split
  · exact Processor.writeSaved_mode _ _
  · rfl

theorem armException_mode (p : ArmCore) (k : Kind) :
    Ensures (armException p k.number) fun p' => getMode p'.reg = k.mode.bits := by
  intro p' h
  have hreads := h
  rw [armException_number, execute_] at hreads
  obtain ⟨sp, hsp, hrest⟩ := bind_eq_ok.mp hreads
  obtain ⟨pc, hpc, -⟩ := bind_eq_ok.mp hrest
  rw [armException_enterWith k hsp hpc, Except.ok.injEq] at h
  subst h
  exact (enterWith_mode p k _ _) ▸ (enterWith p k _ _).file.mode_eq

theorem enter_mode (q : Processor) (k : Kind) : (enter q k).file.mode = k.mode :=
  enterWith_mode _ _ _ _

theorem enter_cells (q : Processor) (k : Kind) (l : Position) : (enter q k).file.cells l =
    if l = 15 then k.vector
    else if l = 0 ∧ k.needSpsr then readCpsr q.file.cells
    else if l = position k.mode 14 then k.link (q.file.cells 15)
    else if l = position k.mode 13 then q.register 13
    else if l = Position.cpsr then (entryStatus (readCpsr q.file.cells) k).value
    else q.file.cells l := by
  rw [enter, enterWith, Processor.write_cells, position_pc]
  by_cases hs : k.needSpsr
  · simp only [hs, if_true, and_true]
    rw [Processor.writeSaved_cells _ k.isException_mode, Processor.write_cells,
      Processor.write_cells, Processor.ofStatus_cells]
    rfl
  · simp only [hs, Bool.false_eq_true, if_false, and_false]
    rw [Processor.write_cells, Processor.write_cells, Processor.ofStatus_cells]
    rfl

theorem enter_mem (q : Processor) (k : Kind) : (enter q k).mem = q.mem := by
  simp only [enter, enterWith]
  split <;> rfl

section Cells

variable (q : Processor) (k : Kind)

theorem enter_pc : (enter q k).file.cells 15 = k.vector := by rw [enter_cells, if_pos rfl]

theorem enter_saved (hk : k.needSpsr) : (enter q k).file.cells 0 = readCpsr q.file.cells := by
  rw [enter_cells, if_neg (by decide), if_pos ⟨rfl, hk⟩]

theorem enter_lr : (enter q k).file.cells (position k.mode 14) = k.link (q.file.cells 15) := by
  have hpc : position k.mode 14 ≠ 15 := by cases k <;> decide
  have hzero : position k.mode 14 ≠ 0 := by cases k <;> decide
  rw [enter_cells, if_neg hpc, if_neg (fun h => hzero h.1), if_pos rfl]

theorem enter_sp : (enter q k).file.cells (position k.mode 13) = q.register 13 := by
  have hpc : position k.mode 13 ≠ 15 := by cases k <;> decide
  have hzero : position k.mode 13 ≠ 0 := by cases k <;> decide
  have hlr : position k.mode 13 ≠ position k.mode 14 := by cases k <;> decide
  rw [enter_cells, if_neg hpc, if_neg (fun h => hzero h.1), if_neg hlr, if_pos rfl]

theorem enter_cpsr : readCpsr (enter q k).file.cells =
    (entryStatus (readCpsr q.file.cells) k).value := by
  have hlr : Position.cpsr ≠ position k.mode 14 := (position_ne_cpsr _ _).symm
  have hsp : Position.cpsr ≠ position k.mode 13 := (position_ne_cpsr _ _).symm
  rw [readCpsr, enter_cells, if_neg (by decide), if_neg (fun h => absurd h.1 (by decide)),
    if_neg hlr, if_neg hsp, if_pos rfl]

end Cells

end ArmSimulator.Exceptions
