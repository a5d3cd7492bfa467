import ArmSimulator.Architecture.Instructions
import ArmSimulator.Branching.Branch
import ArmSimulator.Transfers.Block
import ArmSimulator.Transfers.ExtraAddress
import ArmSimulator.Transfers.PlainOffset

/-! # The program's view of a processor

What the programmer's model sees of a processor in a valid mode: the registers of this mode,
two of the flags and the memory. The changes that steps make to the processor are those of
the model.
-/

namespace ArmSimulator.Architecture

open Machine RegisterFile Storage Transfers Decoding DataProcessing Branching Exceptions

def view (q : Processor) : State where
  registers r := q.register r.castSucc
  pc := pcAddress q
  n := (readCpsr q.file.cells).getLsbD 31
  z := (readCpsr q.file.cells).getLsbD 30
  mem := q.mem

/-- The mode and the registers that only other modes see are as before. -/
structure Stays (q q' : Processor) : Prop where
  mode : q'.file.mode = q.file.mode
  banks : ∀ l, l ≠ Position.cpsr → (∀ r, l ≠ position q.file.mode r) →
    q'.file.cells l = q.file.cells l

theorem Stays.trans {q q' q'' : Processor} (h : Stays q q') (h' : Stays q' q'') : Stays q q'' where
  mode := h'.mode.trans h.mode
  banks l hl hr := (h'.banks l hl fun r => h.mode.symm ▸ hr r).trans (h.banks l hl hr)

/-- The step returns 0, stays in the mode and leaves this for the program. -/
def Leads [Host] (u : Locals) (q : Processor) (s : State) : Prop :=
  ∃ q' : Processor, armStep u q.core = .ok (0, q'.core) ∧ Stays q q' ∧ view q' = s

theorem castSucc_ne (r : Fin 15) : r.castSucc ≠ 15 := fun h =>
  Nat.ne_of_lt r.isLt (congrArg Fin.val h)

theorem lt_of_ne {r : Fin 16} (h : r ≠ 15) : r.val < 15 :=
  Nat.lt_of_le_of_ne (Nat.le_of_lt_succ r.isLt) fun hval => h (Fin.ext hval)

section View

variable (q : Processor)

theorem view_read (r : Fin 16) : (view q).read r = operand q r := by
  by_cases hr : r = 15
  · subst hr
    rfl
  · rw [State.read, dif_pos (lt_of_ne hr), operand, if_neg hr]
    rfl

theorem view_fetched : view (fetched q) = (view q).next := by
  have hpc : pcAddress (fetched q) = pcAddress q + 4 :=
    pcAddress_next ((fetched_cells q 15).trans (if_pos rfl))
  have hregisters : (fun r : Fin 15 => (fetched q).register r.castSucc) =
      fun r => q.register r.castSucc := by
    funext r
    rw [register_fetched, operand, if_neg (castSucc_ne r)]
  rw [view, hregisters, hpc, fetched_cpsr]
  rfl

/-- A register is written and the program counter stays. -/
theorem view_write {r : Fin 16} (hr : r ≠ 15) (v : Word) :
    view (q.write r v) = (view q).set r v := by
  have hpc : pcAddress (q.write r v) = pcAddress q := by
    rw [pcAddress, Processor.write_cells, if_neg (position_ne_pc _ _ hr).symm]
    rfl
  have hcpsr : readCpsr (q.write r v).file.cells = readCpsr q.file.cells := by
    rw [readCpsr, Processor.write_cells, if_neg (position_ne_cpsr _ _).symm]
    rfl
  have hregisters : (fun i : Fin 15 => (q.write r v).register i.castSucc) =
      Function.update (fun i : Fin 15 => q.register i.castSucc) ⟨r, lt_of_ne hr⟩ v := by
    funext i
    by_cases hi : i = ⟨r, lt_of_ne hr⟩
    · subst hi
      have hsame : (⟨r, lt_of_ne hr⟩ : Fin 15).castSucc = r := rfl
      rw [Function.update_self, hsame, Processor.register_write, if_neg hr]
    · have hne : i.castSucc ≠ r := by
        rintro rfl
        exact hi rfl
      rw [Function.update_of_ne hi, register_write_other q hne]
  rw [view, hregisters, hpc, hcpsr, State.set, dif_pos (lt_of_ne hr)]
  rfl

theorem view_jump (v : Word) :
    view (q.write 15 v) = { view q with pc := pcAddress (q.write 15 v) } := by
  have hcpsr : readCpsr (q.write 15 v).file.cells = readCpsr q.file.cells := by
    rw [readCpsr, Processor.write_cells, if_neg (position_ne_cpsr _ _).symm]
    rfl
  have hregisters : (fun i : Fin 15 => (q.write 15 v).register i.castSucc) =
      fun i => q.register i.castSucc := by
    funext i
    rw [register_write_other q (castSucc_ne i)]
  rw [view, hregisters, hcpsr]
  rfl

theorem view_write_pc {v : Word} (hv : 4 ∣ v.toNat) : view (q.write 15 v) = (view q).set 15 v := by
  have hclear : (v + 4).getLsbD 1 = false := by
    rw [BitVec.getLsbD, Nat.testBit_eq_decide_div_mod_eq, decide_eq_false_iff_not,
      BitVec.toNat_add]
    have hfour : (4 : Word).toNat = 4 := rfl
    omega
  have hpc : pcAddress (q.write 15 v) = v := by
    rw [pcAddress, Processor.write_cells, position_pc, if_pos rfl, readPc,
      and_clearBit _ hclear, BitVec.add_sub_cancel]
  rw [view_jump, hpc]
  rfl

theorem view_flags {f : File} (hmode : f.mode = q.file.mode) (r : AluResult) :
    view (q.withFile (q.file.writeStatus (flagsStatus f r))) = (view q).setFlags r.res := by
  have hcells {l : Position} (hl : l ≠ Position.cpsr) :
      (q.file.writeStatus (flagsStatus f r)).cells l = q.file.cells l :=
    Function.update_of_ne hl _ _
  have hcpsr : readCpsr (q.file.writeStatus (flagsStatus f r)).cells =
      flagsCpsr (readCpsr f.cells) r := readCpsr_writeCpsr _ _
  have hregisters : (fun i : Fin 15 =>
      (q.withFile (q.file.writeStatus (flagsStatus f r))).register i.castSucc) =
        fun i => q.register i.castSucc := by
    funext i
    rw [Processor.register, Processor.register, if_neg (castSucc_ne i), if_neg (castSucc_ne i)]
    change (q.file.writeStatus (flagsStatus f r)).cells (position f.mode i.castSucc) = _
    rw [hcells (position_ne_cpsr _ _), hmode]
  have hpc : pcAddress (q.withFile (q.file.writeStatus (flagsStatus f r))) = pcAddress q := by
    change readPc ((q.file.writeStatus (flagsStatus f r)).cells 15) - 4 = _
    rw [hcells (by decide)]
    rfl
  rw [view, hregisters, hpc]
  change State.mk _ _ ((readCpsr (q.file.writeStatus (flagsStatus f r)).cells).getLsbD 31)
    ((readCpsr (q.file.writeStatus (flagsStatus f r)).cells).getLsbD 30) q.mem = _
  rw [hcpsr, getLsbD_flagsCpsr, getLsbD_flagsCpsr, State.setFlags, BitVec.msb_eq_getLsbD_last]
  rfl

theorem view_store (a : ℕ) (ws : List Word) :
    view (Transfers.store q a ws) = { view q with mem := storeWords q.mem a ws } := rfl

theorem view_loadWords (a : ℕ) {regs : List (Fin 16)} (hregs : 15 ∉ regs) :
    view (loadWords q a regs) = (view q).setAll a regs := by
  induction regs generalizing q a with
  | nil => rfl
  | cons r regs ih =>
    rw [List.mem_cons, not_or] at hregs
    have hr : r ≠ 15 := Ne.symm hregs.1
    rw [loadWords, State.setAll, ih _ _ hregs.2, load, if_neg hr, view_write q hr]
    rfl

/-! ## The other modes -/

theorem stays_refl : Stays q q := ⟨rfl, fun _ _ _ => rfl⟩

theorem stays_fetched : Stays q (fetched q) where
  mode := rfl
  banks l _ hr := by rw [fetched_cells, if_neg (position_pc q.file.mode ▸ hr 15)]

theorem stays_write (r : Fin 16) (v : Word) : Stays q (q.write r v) where
  mode := rfl
  banks l _ hr := by rw [Processor.write_cells, if_neg (hr r)]

theorem stays_loadWords (a : ℕ) {regs : List (Fin 16)} (hregs : 15 ∉ regs) :
    Stays q (loadWords q a regs) := by
  induction regs generalizing q a with
  | nil => exact stays_refl q
  | cons r regs ih =>
    rw [List.mem_cons, not_or] at hregs
    rw [loadWords, load, if_neg (Ne.symm hregs.1)]
    exact (stays_write q r _).trans (ih _ _ hregs.2)

end View

end ArmSimulator.Architecture
