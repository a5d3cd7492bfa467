import ArmSimulator.Debugger.Request
import ArmSimulator.Exceptions.Step
import ArmSimulator.RegisterFile.Banks

/-! # All registers through the debugger

The reply to `g` shows the registers of the current mode. A `G` request writes
the registers of that mode first and the status last, so a request that changes
the mode leaves some values in the bank of the old one.
-/

namespace ArmSimulator.Debugger

open Machine Machine.Gdb RegisterFile Exceptions Foundation.ExceptRun Foundation.Numeral

/-- The handler replies with this payload and leaves the machine as it is. -/
def RepliesWith (gdb : GdbProtocolData) (x : Except Stop GdbProtocolData) (payload : List Byte) :
    Prop :=
  ∃ gdb', x = .ok gdb' ∧ gdb'.arm = gdb.arm ∧ gdb'.written = gdb.written ++ [frame payload]

theorem frame_injective {s t : List Byte} (h : frame s = frame t) : s = t := by
  have hlen := congrArg List.length h
  rw [length_frame, length_frame] at hlen
  have htake := congrArg (fun l => (l.drop 1).take s.length) h
  have hs : ((frame s).drop 1).take s.length = s := List.take_left
  have ht : ((frame t).drop 1).take s.length = t := by
    rw [show s.length = t.length by omega]
    exact List.take_left
  rwa [hs, ht] at htake

theorem RepliesWith.unique {gdb : GdbProtocolData} {x : Except Stop GdbProtocolData}
    {s t : List Byte} (hs : RepliesWith gdb x s) (ht : RepliesWith gdb x t) : s = t := by
  obtain ⟨gdb₁, rfl, -, h₁⟩ := hs
  obtain ⟨gdb₂, h, -, h₂⟩ := ht
  rw [Except.ok.injEq] at h
  rw [← h, h₁] at h₂
  exact frame_injective (List.cons.inj (List.append_cancel_left h₂)).1

/-! ## Fields -/

/-- The characters of the field with a number. -/
def field (n : ℕ) (s : List Byte) : List Byte := (s.drop (8 * n)).take 8

theorem field_flatten : ∀ {fs : List (List Byte)} (_ : ∀ f ∈ fs, f.length = 8) {n : ℕ}
    (hn : n < fs.length), field n fs.flatten = fs[n]
  | f :: fs, h, 0, _ => by
    have hf := h f List.mem_cons_self
    rw [field, List.flatten_cons, Nat.mul_zero, List.drop_zero, ← hf, List.take_left]
    rfl
  | f :: fs, h, n + 1, hn => by
    have hf := h f List.mem_cons_self
    have ih := field_flatten (fun g hg => h g (List.mem_cons_of_mem f hg))
      (Nat.lt_of_succ_lt_succ hn)
    rw [field, List.flatten_cons, Nat.mul_succ, Nat.add_comm, ← List.drop_drop,
      List.drop_left' hf]
    exact ih

/-- What the debugger is shown of a register. -/
def display (q : Processor) (reg : Fin 16) : Word := q.register reg - if reg = 15 then 4 else 0

/-- The registers in the order of their fields. -/
def registerValue (q : Processor) (i : ℕ) : Word := q.register (Fin.ofNat 16 i)

theorem armReadRegister_value (q : Processor) {i : ℕ} (hi : i < 16) :
    armReadRegister q.core i = .ok (registerValue q i) := by
  have h := q.armReadRegister_eq (Fin.ofNat 16 i)
  rwa [Fin.val_ofNat, Nat.mod_eq_of_lt hi] at h

theorem shown_registerValue (q : Processor) (reg : Fin 16) :
    shown (registerValue q) reg = display q reg := by
  have hreg : Fin.ofNat 16 reg.val = reg := Fin.ext (Nat.mod_eq_of_lt reg.isLt)
  rw [shown, registerValue, hreg, display]
  simp only [Fin.ext_iff]
  rfl

section Registers

variable [ByteOrder]

/-- The text gives these registers and this status, in the fields of the protocol. -/
structure Body (s : List Byte) (v : Fin 16 → Word) (cpsr : Word) : Prop where
  register : ∀ reg : Fin 16, GivesWord (field reg s) (v reg)
  status : GivesWord (field 41 s) cpsr

theorem length_fields_mem (value : ℕ → Word) (cpsr : Word) :
    ∀ f ∈ fields value cpsr, f.length = 8 := by
  intro f hf
  simp only [fields, List.mem_append, List.mem_map, List.mem_replicate, List.mem_singleton] at hf
  rcases hf with ⟨reg, -, rfl⟩ | ⟨-, rfl⟩ | rfl
  · exact length_wordText _
  · exact length_placeholder
  · exact length_wordText _

theorem field_register (value : ℕ → Word) (cpsr : Word) {n : ℕ} (hn : n < 16) :
    field n (fields value cpsr).flatten = wordText (shown value n) := by
  rw [field_flatten (length_fields_mem value cpsr) (by simp [fields]; omega)]
  simp only [fields]
  rw [List.getElem_append_left (by simpa using hn), List.getElem_map, List.getElem_range]

theorem field_status (value : ℕ → Word) (cpsr : Word) :
    field 41 (fields value cpsr).flatten = wordText cpsr := by
  rw [field_flatten (length_fields_mem value cpsr) (by simp [fields])]
  rfl

variable {gdb : GdbProtocolData} {q : Processor}

theorem readGeneralRegisters_replies (harm : gdb.arm = q.core) : ∃ payload,
    RepliesWith gdb (readGeneralRegisters gdb) payload ∧
    (∀ reg : Fin 16, field reg payload = wordText (display q reg)) ∧
    field 41 payload = wordText (readCpsr q.file.cells) := by
  have hvalue : ∀ i < 16, armReadRegister gdb.arm i = .ok (registerValue q i) :=
    fun i hi => harm ▸ armReadRegister_value q hi
  obtain ⟨gdb', hread, hanswered⟩ := readGeneralRegisters_answered hvalue
  refine ⟨_, ⟨gdb', hread, hanswered.arm, hanswered.written⟩, fun reg => ?_, ?_⟩
  · rw [field_register _ _ reg.isLt, shown_registerValue]
  · rw [field_status, harm]
    rfl

/-! ## Writing all registers -/

section Writes

omit [ByteOrder]

variable (v : Fin 16 → Word)

/-- Writes of these registers, in this order. -/
def writes (q : Processor) (regs : List (Fin 16)) : Processor :=
  regs.foldl (fun q reg => q.write reg (v reg)) q

theorem writes_core (regs : List (Fin 16)) : ∀ q : Processor,
    regs.foldlM (fun p reg => armWriteRegister p reg.val (v reg)) q.core =
      .ok (writes v q regs).core := by
  induction regs with
  | nil => exact fun _ => rfl
  | cons reg regs ih =>
    intro q
    rw [List.foldlM_cons, q.armWriteRegister_eq, ok_bind, ih]
    rfl

theorem writes_cells_other {l : Position} (regs : List (Fin 16)) : ∀ q : Processor,
    (∀ reg ∈ regs, position q.file.mode reg ≠ l) →
      (writes v q regs).file.cells l = q.file.cells l := by
  induction regs with
  | nil => exact fun _ _ => rfl
  | cons reg regs ih =>
    intro q h
    have htail := ih (q.write reg (v reg)) fun r hr => h r (List.mem_cons_of_mem reg hr)
    rw [Processor.write_cells, if_neg (h reg List.mem_cons_self).symm] at htail
    exact htail

theorem writes_cells {reg : Fin 16} (regs : List (Fin 16)) : ∀ q : Processor, reg ∈ regs →
    (writes v q regs).file.cells (position q.file.mode reg) = v reg := by
  induction regs with
  | nil => simp
  | cons r regs ih =>
    intro q hreg
    by_cases hin : reg ∈ regs
    · exact ih (q.write r (v r)) hin
    · obtain rfl : reg = r := (List.mem_cons.mp hreg).resolve_right hin
      have htail := writes_cells_other v regs (q.write reg (v reg))
        (l := position q.file.mode reg) fun r hr hpos =>
          hin (reg_eq_of_position hpos ▸ hr)
      rw [Processor.write_cells, if_pos rfl] at htail
      exact htail

/-- The processor after the writes of all registers and then of the status. -/
def rewritten (q : Processor) (status : Status) : Processor :=
  let q := writes v q (List.finRange 16)
  q.withFile (q.file.writeStatus status)

theorem rewritten_cells (q : Processor) (status : Status) (reg : Fin 16) :
    (rewritten v q status).file.cells (position status.mode reg) =
      if position q.file.mode reg = position status.mode reg then v reg
      else q.file.cells (position status.mode reg) := by
  have hstatus : (rewritten v q status).file.cells (position status.mode reg) =
      (writes v q (List.finRange 16)).file.cells (position status.mode reg) :=
    Function.update_of_ne (position_ne_cpsr _ _) _ _
  rw [hstatus]
  split_ifs with h
  · rw [← h]
    exact writes_cells v _ q (List.mem_finRange reg)
  · refine writes_cells_other v _ q fun r _ hr => h ?_
    rwa [reg_eq_of_position hr] at hr

theorem readPc_sub_four {x : Word} (hx : 4 ∣ x.toNat) : readPc x - 4 = x := by
  have hbit : x.getLsbD 1 = false := by
    rw [← BitVec.testBit_toNat, Nat.testBit_eq_decide_div_mod_eq, decide_eq_false]
    omega
  rw [readPc, and_clearBit _ ((getLsbD_add_four x).trans hbit), BitVec.add_sub_cancel]

/-- What is shown after a request that writes everything. -/
theorem display_rewritten (q : Processor) (status : Status) (hpc : 4 ∣ (v 15).toNat)
    (reg : Fin 16) : display (rewritten v q status) reg =
      if position q.file.mode reg = position status.mode reg then v reg
      else q.file.cells (position status.mode reg) := by
  have hmode : (rewritten v q status).file.mode = status.mode := rfl
  rw [display, Processor.register, hmode, rewritten_cells]
  by_cases hreg : reg = 15
  · subst hreg
    simp only [position_pc, if_true]
    exact readPc_sub_four hpc
  · simp [hreg]

end Writes

theorem readUint32_field {data : List Byte} {n : ℕ} {w : Word} (h : GivesWord (field n data) w)
    (value : Word) : readUint32 (data.drop (8 * n)) value = .ok w := by
  rw [← List.take_append_drop 8 (data.drop (8 * n))]
  exact readUint32_eq h _ value

theorem Body.length {data : List Byte} {v : Fin 16 → Word} {cpsr : Word} (h : Body data v cpsr) :
    336 ≤ data.length := by
  have hlen := h.status.length
  rw [field, List.length_take, List.length_drop] at hlen
  omega

theorem writeGeneralRegisters_answered (gdb : GdbProtocolData) (harm : gdb.arm = q.core)
    {data : List Byte} {v : Fin 16 → Word} {status : Status} (h : Body data v status.value)
    (u : HandlerLocals) : ∃ gdb', writeGeneralRegisters gdb data u = .ok gdb' ∧
      Answered { gdb with arm := (rewritten v q status).core } (ascii "OK") gdb' := by
  have hregs : (List.range 16).foldlM (fun arm i => do
      let value ← readUint32 (data.drop (8 * i)) (u.value i)
      armWriteRegister arm i value) gdb.arm = .ok (writes v q (List.finRange 16)).core := by
    have hrange : List.range 16 = (List.finRange 16).map Fin.val := by decide
    rw [harm, ← writes_core, hrange, List.foldlM_map]
    congr 1
    funext arm reg
    rw [readUint32_field (h.register reg), ok_bind]
  have hskip : (List.range (8 * 3 + 1)).forM (fun i => discard
      (readUint32 (data.drop (8 * (16 + i))) (u.value (16 + i)))) = .ok ⟨⟩ := by
    have hlen := h.length
    refine discard_readUint32 (fun i hi j hj => ?_) fun i => u.value (16 + i)
    rw [List.drop_drop, ne_eq, List.drop_eq_nil_iff]
    omega
  obtain ⟨gdb', hsend, hanswered⟩ := gdbSendData_answered
    { gdb with arm := (rewritten v q status).core } (s := ascii "OK") (by decide) (by decide)
  refine ⟨gdb', ?_, hanswered⟩
  rw [writeGeneralRegisters, hregs, ok_bind, hskip, ok_bind, readUint32_field h.status, ok_bind,
    ← hsend]
  rfl

/-- A `g` request after the `G` request returns what was written. -/
def ReadBack (gdb : GdbProtocolData) (data : List Byte) (u : HandlerLocals) (v : Fin 16 → Word)
    (cpsr : Word) : Prop :=
  ∃ gdb' payload, writeGeneralRegisters gdb data u = .ok gdb' ∧
    RepliesWith gdb' (readGeneralRegisters gdb') payload ∧ Body payload v cpsr

theorem readBack_iff_display (harm : gdb.arm = q.core) {data : List Byte} {v : Fin 16 → Word}
    {status : Status} (hbody : Body data v status.value) (u : HandlerLocals) :
    ReadBack gdb data u v status.value ↔ ∀ reg, display (rewritten v q status) reg = v reg := by
  obtain ⟨gdb', hwrite, hanswered⟩ := writeGeneralRegisters_answered gdb harm hbody u
  obtain ⟨payload, hreply, hregister, hstatus⟩ :=
    readGeneralRegisters_replies (q := rewritten v q status) hanswered.arm
  constructor
  · rintro ⟨gdb₁, payload₁, hwrite₁, hreply₁, hbody₁⟩
    rw [hwrite, Except.ok.injEq] at hwrite₁
    subst hwrite₁
    obtain rfl := hreply.unique hreply₁
    intro reg
    have hgives := hbody₁.register reg
    rw [hregister] at hgives
    exact (givesWord_wordText _).unique hgives
  · intro h
    have hcpsr : readCpsr (rewritten v q status).file.cells = status.value :=
      readCpsr_writeCpsr _ _
    refine ⟨gdb', payload, hwrite, hreply, fun reg => ?_, ?_⟩
    · rw [hregister, h]
      exact givesWord_wordText _
    · rw [hstatus, hcpsr]
      exact givesWord_wordText _

/-- Registers written to the bank of another mode are not read back, unless the
bank of the new mode already holds their values. -/
theorem readBack_iff (harm : gdb.arm = q.core) {data : List Byte} {v : Fin 16 → Word}
    {status : Status} (hbody : Body data v status.value) (hpc : 4 ∣ (v 15).toNat)
    (u : HandlerLocals) : ReadBack gdb data u v status.value ↔
      ∀ reg, position q.file.mode reg = position status.mode reg ∨
        q.file.cells (position status.mode reg) = v reg := by
  rw [readBack_iff_display harm hbody]
  refine forall_congr' fun reg => ?_
  rw [display_rewritten v q status hpc]
  split_ifs with hpos
  · simp only [hpos, true_or]
  · simp only [hpos, false_or]

theorem body_fields (value : ℕ → Word) (cpsr : Word) :
    Body (fields value cpsr).flatten (fun reg => shown value reg) cpsr where
  register reg := by
    rw [field_register value cpsr reg.isLt]
    exact givesWord_wordText _
  status := by
    rw [field_status]
    exact givesWord_wordText _

end Registers

/-- A processor with all registers zero and no memory. -/
def board (m : Mode) : Processor := ⟨0, File.blank (modeStatus m), ⟨#[], false⟩⟩

/-- A `G` request that keeps User mode. -/
theorem readBack_user : @ReadBack .x86 (session (board .usr).core)
    (@fields .x86 (fun _ => 4) (modeStatus .usr).value).flatten noLocals
      (fun reg => shown (fun _ => 4) reg) (modeStatus .usr).value ↔
    ∀ reg, position Mode.usr reg = position Mode.usr reg ∨
      (board .usr).file.cells (position Mode.usr reg) = shown (fun _ => 4) reg :=
  letI := ByteOrder.x86
  readBack_iff (q := board .usr) rfl (body_fields (fun _ => 4) _) (by decide) noLocals

/-- From User mode to SVC the stack pointer is lost. -/
theorem readBack_svc : ¬ ∀ (_ : ByteOrder) (gdb : GdbProtocolData) (q : Processor)
    (data : List Byte) (v : Fin 16 → Word) (status : Status) (u : HandlerLocals),
    gdb.arm = q.core → Body data v status.value → 4 ∣ (v 15).toNat →
      ReadBack gdb data u v status.value := by
  intro h
  let order := ByteOrder.x86
  have hbody := body_fields (fun _ => 4) (modeStatus .svc).value
  have hback := h order (session (board .usr).core) (board .usr) _ _ (modeStatus .svc) noLocals
    rfl hbody (by decide)
  rw [readBack_iff_display (q := board .usr) rfl hbody] at hback
  have hsp := hback 13
  rw [display_rewritten _ _ _ (by decide), if_neg (by decide)] at hsp
  exact absurd hsp (by decide)

end ArmSimulator.Debugger
