import ArmSimulator.Decoding.Dispatch
import ArmSimulator.RegisterFile.Banks
import ArmSimulator.Storage.Words

/-! # Accesses to words

In a valid mode the word accesses of the handlers are a store of consecutive
words and a register write. A word loaded into the program counter also sets
bit 5 of the status.
-/

namespace ArmSimulator.Transfers

open Machine RegisterFile Storage Decoding Foundation.ExceptRun

theorem conditionPassed_al {p : ArmCore} {ins : Word} (h : condField ins = 0b1110) :
    conditionPassed p ins = true := by
  have hfield : (getBits ins 31 28).toNat = 0b1110 := h
  simp only [conditionPassed, hfield]

theorem getLsbD_thumbCpsr (cpsr word : Word) (j : Nat) : (thumbCpsr cpsr word).getLsbD j =
    if j = 5 then word.getLsbD 0 else cpsr.getLsbD j := by
  have hset := getLsbD_setBit cpsr (show 5 < 32 by omega) j
  have hclr := getLsbD_clrBit cpsr (show 5 < 32 by omega) j
  simp only [thumbCpsr, getBit_eq_one]
  cases word.getLsbD 0 <;> by_cases hj : j = 5 <;> simp only [hj, decide_true, decide_false,
    Bool.true_or, Bool.false_or, Bool.not_true, Bool.not_false, Bool.true_and, Bool.false_and,
    Bool.false_eq_true, if_true, if_false] at hset hclr ⊢ <;> first | exact hset | exact hclr

theorem getBits_thumbCpsr (cpsr word : Word) :
    getBits (thumbCpsr cpsr word) 4 0 = getBits cpsr 4 0 := by
  apply BitVec.eq_of_getLsbD_eq
  intro i _
  rw [getLsbD_getBits, getLsbD_getBits, getLsbD_thumbCpsr]
  by_cases hi : i ≤ 4
  · rw [if_neg (by omega)]
  · rw [decide_eq_false (by omega), Bool.false_and, Bool.false_and]

/-- The status once a word is loaded into the program counter. -/
def thumbStatus (f : File) (word : Word) : Status where
  value := thumbCpsr (readCpsr f.cells) word
  mode := f.mode
  mode_eq := by
    rw [getBits_thumbCpsr, ← f.mode_eq, getMode]

def load (q : Processor) (reg : Fin 16) (word : Word) : Processor :=
  if reg = 15 then
    (q.withFile (q.file.writeStatus (thumbStatus q.file word))).write 15 (word &&& 0xFFFFFFFE)
  else q.write reg word

def store (q : Processor) (a : Nat) (ws : List Word) : Processor :=
  { q with mem := storeWords q.mem a ws }

section Processor

variable (q : Processor)

theorem load_mode (reg : Fin 16) (word : Word) : (load q reg word).file.mode = q.file.mode := by
  rw [load]
  split <;> rfl

theorem load_mem (reg : Fin 16) (word : Word) : (load q reg word).mem = q.mem := by
  rw [load]
  split <;> rfl

theorem load_cells {reg : Fin 16} (hreg : reg ≠ 15) (word : Word) (l : Position) :
    (load q reg word).file.cells l =
      if l = position q.file.mode reg then word else q.file.cells l := by
  rw [load, if_neg hreg, Processor.write_cells]

theorem load_pc_cells (word : Word) (l : Position) : (load q 15 word).file.cells l =
    if l = 15 then word &&& 0xFFFFFFFE
    else if l = Position.cpsr then thumbCpsr (readCpsr q.file.cells) word else q.file.cells l := by
  rw [load, if_pos rfl, Processor.write_cells, position_pc]
  refine if_congr Iff.rfl rfl ?_
  exact Function.update_apply _ _ _ _

theorem register_load {reg : Fin 16} (hreg : reg ≠ 15) (word : Word) :
    (load q reg word).register reg = word := by
  rw [Processor.register, if_neg hreg, load_mode, load_cells _ hreg, if_pos rfl]

theorem register_load_other {reg reg' : Fin 16} (hne : reg' ≠ reg) (hreg' : reg' ≠ 15)
    (word : Word) : (load q reg word).register reg' = q.register reg' := by
  rw [Processor.register, Processor.register, if_neg hreg', if_neg hreg', load_mode]
  by_cases hreg : reg = 15
  · subst hreg
    rw [load_pc_cells, if_neg (position_ne_pc _ _ hreg'), if_neg (position_ne_cpsr _ _)]
  · rw [load_cells _ hreg, if_neg fun h => hne (reg_eq_of_position h)]

variable {q} {u : Locals}

theorem executeLdr_eq {a : Word} (h : a.toNat + 4 ≤ q.mem.values.size)
    (h32 : a.toNat + 4 ≤ 2 ^ 32) (reg : Fin 16) : executeLdr u q.core reg a =
      .ok (0, (load q reg (wordAt q.mem a.toNat)).core) := by
  have hread : armReadWord q.core a u.word = .ok (0, wordAt q.mem a.toNat) :=
    memoryReadWord_toNat h h32 u.word
  have hval : reg.val = 15 ↔ reg = 15 := ⟨fun h => Fin.ext h, congrArg Fin.val⟩
  rw [executeLdr, hread, load]
  change (if (0 : Int) = 0 ∧ reg.val = 15 then _ else _) = _
  by_cases hreg : reg = 15
  · rw [if_pos ⟨rfl, hval.mpr hreg⟩, if_pos hreg]
    change (armWriteRegister (q.withFile (q.file.writeStatus
      (thumbStatus q.file (wordAt q.mem a.toNat)))).core reg _ >>= _) = _
    rw [Processor.armWriteRegister_eq, hreg]
    rfl
  · rw [if_neg fun h => hreg (hval.mp h.2), if_neg hreg, Processor.armWriteRegister_eq]
    rfl

theorem executeInstrWordByte_ldr {ins a : Word} (hl : getBit ins 20 ≠ 0) (hb : getBit ins 22 = 0)
    (h : a.toNat + 4 ≤ q.mem.values.size) (h32 : a.toNat + 4 ≤ 2 ^ 32) :
    executeInstrWordByte u q.core ins a =
      .ok (0, (load q (rd ins) (wordAt q.mem a.toNat)).core) := by
  rw [executeInstrWordByte]
  simp only [hl, hb, ne_eq, not_true_eq_false, not_false_eq_true, decide_true, decide_false,
    Bool.false_eq_true, if_true, if_false]
  exact executeLdr_eq h h32 (rd ins)

theorem executeInstrWordByte_str {ins a : Word} (hal : condField ins = 0b1110)
    (hl : getBit ins 20 = 0) (hb : getBit ins 22 = 0) (h : a.toNat + 4 ≤ q.mem.values.size)
    (h32 : a.toNat + 4 ≤ 2 ^ 32) : executeInstrWordByte u q.core ins a =
      .ok (0, (store q a.toNat [q.register (rd ins)]).core) := by
  have hread : armReadRegister q.core (getBits ins 15 12).toNat = .ok (q.register (rd ins)) :=
    q.armReadRegister_eq (rd ins)
  rw [executeInstrWordByte]
  simp only [hl, hb, ne_eq, not_true_eq_false, decide_false, Bool.false_eq_true, if_false,
    conditionPassed_al hal, if_true, hread, ok_bind]
  change (armWriteWord q.core a (q.register (rd ins)) >>= _) = _
  have hwrite := memoryWriteWord_toNat h h32 (q.register (rd ins))
  rw [armWriteWord]
  change ((memoryWriteWord q.mem a (q.register (rd ins)) >>= _) >>= _) = _
  rw [hwrite]
  rfl

end Processor

end ArmSimulator.Transfers
