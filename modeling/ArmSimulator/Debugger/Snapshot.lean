import ArmSimulator.Debugger.RegisterBlock
import ArmSimulator.Debugger.Framing

/-! # Sending a snapshot of the registers back

The reply to `g` holds the registers as the debugger is shown them, and a `G`
request with the same body writes them to where they were read from. The program
counter is shown as it is stored where it is a multiple of four; the placeholders
are read as numbers they are not, and what is read is dropped.
-/

namespace ArmSimulator.Debugger

open Machine Machine.Gdb RegisterFile Foundation.ExceptRun Foundation.Numeral

/-! ## Writing what is shown -/

theorem writes_file (v : Fin 16 → Word) (regs : List (Fin 16)) : ∀ q : Processor,
    writes v q regs = q.withFile (writes v q regs).file := by
  induction regs with
  | nil => exact fun _ => rfl
  | cons reg regs ih => exact fun q => ih (q.write reg (v reg))

theorem rewritten_core (v : Fin 16 → Word) (q : Processor) (status : Status) :
    (rewritten v q status).core = ⟨q.cycleCount, (rewritten v q status).file.cells, q.mem⟩ := by
  unfold rewritten
  generalize List.finRange 16 = regs
  rw [writes_file]
  rfl

theorem display_eq_cells {q : Processor} (hpc : 4 ∣ (q.file.cells 15).toNat) (reg : Fin 16) :
    display q reg = q.file.cells (position q.file.mode reg) := by
  rw [display, Processor.register]
  by_cases hreg : reg = 15
  · subst hreg
    simp only [position_pc, if_true]
    exact readPc_sub_four hpc
  · simp [hreg]

def ownStatus (q : Processor) : Status := ⟨readCpsr q.file.cells, q.file.mode, q.file.mode_eq⟩

theorem rewritten_display {q : Processor} (hpc : 4 ∣ (q.file.cells 15).toNat) :
    (rewritten (display q) q (ownStatus q)).core = q.core := by
  have hcells : (rewritten (display q) q (ownStatus q)).file.cells = q.file.cells := by
    funext l
    change Function.update (writes (display q) q (List.finRange 16)).file.cells Position.cpsr
      (readCpsr q.file.cells) l = _
    rw [Function.update_apply]
    split_ifs with hcpsr
    · rw [hcpsr]
      rfl
    · by_cases hreg : ∃ reg, position q.file.mode reg = l
      · obtain ⟨reg, rfl⟩ := hreg
        rw [writes_cells _ _ q (List.mem_finRange reg), display_eq_cells hpc]
      · exact writes_cells_other _ _ q fun reg _ hpos => hreg ⟨reg, hpos⟩
  rw [rewritten_core, hcells, Processor.core]

/-! ## The two requests -/

theorem field_append {n : ℕ} {s : List Byte} (h : 8 * n + 8 ≤ s.length) (rest : List Byte) :
    field n (s ++ rest) = field n s := by
  rw [field, field, List.drop_append_of_le_length (by omega), List.take_append_of_le_length]
  rw [List.length_drop]
  omega

variable [ByteOrder]

theorem Body.append {s : List Byte} {v : Fin 16 → Word} {cpsr : Word} (h : Body s v cpsr)
    (rest : List Byte) : Body (s ++ rest) v cpsr where
  register reg := by
    have hlen := h.length
    rw [field_append (by omega)]
    exact h.register reg
  status := by
    have hlen := h.length
    rw [field_append (by omega)]
    exact h.status

theorem readGeneralRegisters_body {gdb : GdbProtocolData} {q : Processor}
    (harm : gdb.arm = q.core) : ∃ payload, IsPayload payload ∧
      RepliesWith gdb (readGeneralRegisters gdb) payload ∧
      Body payload (display q) (readCpsr q.file.cells) := by
  have hvalue : ∀ i < 16, armReadRegister gdb.arm i = .ok (registerValue q i) :=
    fun i hi => harm ▸ armReadRegister_value q hi
  obtain ⟨gdb', hread, hanswered⟩ := readGeneralRegisters_answered hvalue
  have hbody := body_fields (registerValue q) (readCpsr q.file.cells)
  simp only [shown_registerValue] at hbody
  have hcpsr : armReadCpsr gdb.arm = readCpsr q.file.cells := by
    rw [harm]
    rfl
  rw [hcpsr] at hanswered
  exact ⟨_, isPayload_fields _ _, ⟨gdb', hread, hanswered.arm, hanswered.written⟩, hbody⟩

/-- A `G` request with this body, in a packet that is accepted. -/
def Requests (payload : List Byte) (t : PacketText) : Prop :=
  t.body = char 'G' :: payload ∧ Accepted t

/-- A request with this body leaves the machine as it finds it, with any digits of the
checksum and anything behind the packet. -/
def Restores [Host] (payload : List Byte) (arm : ArmCore) : Prop :=
  ∀ (gdb : GdbProtocolData) (t : PacketText) (beyond : List Byte) (u : HandlerLocals) (turns : ℕ),
    gdb.arm = arm → Requests payload t →
      Returns (gdbPacketAnalysis gdb (t.text ++ 0 :: beyond) t.text.length u turns)
        fun gdb' => gdb'.arm = arm

theorem restores_display [Host] {q : Processor} (hpc : 4 ∣ (q.file.cells 15).toNat)
    {payload : List Byte} (h : Body payload (display q) (readCpsr q.file.cells)) :
    Restores payload q.core := by
  rintro gdb t beyond u turns harm ⟨hbody, haccepted⟩
  have harm : (gdbSendAck gdb).arm = q.core := harm
  have hown : Body (payload ++ 0 :: t.high :: t.low :: 0 :: beyond) (display q)
      (ownStatus q).value := h.append _
  obtain ⟨gdb', hwrite, hanswered⟩ := writeGeneralRegisters_answered (gdbSendAck gdb) harm hown u
  have hkept : gdb'.arm = q.core := hanswered.arm.trans (rewritten_display hpc)
  refine ⟨gdb', ?_, hkept⟩
  rw [gdbPacketAnalysis_text, if_pos haccepted, requestText, hbody, ← lift_eq_ok.mpr hwrite]
  rfl

/-- The reply to `g` can be sent back in a packet, and every packet that sends it back
leaves the registers of all banks, the memory and the cycle count as they are. -/
theorem snapshot_restored [Host] (gdb : GdbProtocolData) {q : Processor} (harm : gdb.arm = q.core)
    (hpc : 4 ∣ (q.file.cells 15).toNat) : ∃ payload,
      RepliesWith gdb (readGeneralRegisters gdb) payload ∧ (∃ t, Requests payload t) ∧
      Restores payload gdb.arm := by
  obtain ⟨payload, hpayload, hreply, hbody⟩ := readGeneralRegisters_body harm
  have hplain : IsPayload (char 'G' :: payload) :=
    IsPayload.append (s := [char 'G']) (by decide) hpayload
  obtain ⟨t, ht, -, haccepted⟩ := exists_packet hplain
  exact ⟨payload, hreply, ⟨t, ht, haccepted⟩, harm ▸ restores_display hpc hbody⟩

omit [ByteOrder] in
theorem snapshot_restored_fiq : ∃ payload,
    RepliesWith (session (board .fiq).core)
      (@readGeneralRegisters .x86 (session (board .fiq).core)) payload ∧
    (∃ t, Requests payload t) ∧
      @Restores .x86 .x86 payload (session (board .fiq).core).arm :=
  letI := Host.x86
  letI := ByteOrder.x86
  snapshot_restored (session (board .fiq).core) (q := board .fiq) rfl (by decide)

end ArmSimulator.Debugger
