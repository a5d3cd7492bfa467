import ArmSimulator.Debugger.Words

/-! # The replies of the handlers

Every handler that replies does so once, at its end, with a payload free of the
characters that frame it. The registers and the memory are rendered as digits.
-/

namespace ArmSimulator.Debugger

open Machine Machine.Gdb Foundation.ExceptRun

/-- A reply has been sent, and stands in the packet. -/
def Replied (gdb gdb' : GdbProtocolData) : Prop :=
  ∃ payload, IsPayload payload ∧ gdb'.written = gdb.written ++ [frame payload] ∧
    gdb'.packet.cells.take gdb'.len = frame payload

/-- The handler returns, having replied. -/
def Replies (gdb : GdbProtocolData) (x : Except Stop GdbProtocolData) : Prop :=
  ∃ gdb', x = .ok gdb' ∧ Replied gdb gdb'

section Constants

variable {gdb gdb' : GdbProtocolData}

theorem Answered.replied {payload : List Byte} (h : Answered gdb payload gdb')
    (hpayload : IsPayload payload) : Replied gdb gdb' := ⟨payload, hpayload, h.written, h.held⟩

theorem gdbSendData_replies (gdb : GdbProtocolData) {s : List Byte} (hs : IsPayload s)
    (hlen : s.length + 5 ≤ maxPacketSize) : Replies gdb (gdbSendData gdb s) := by
  obtain ⟨gdb', hsend, hanswered⟩ := gdbSendData_answered gdb hs hlen
  exact ⟨gdb', hsend, hanswered.replied hs⟩

theorem gdbSendStopReason_replies (gdb : GdbProtocolData) :
    Replies gdb (gdbSendStopReason gdb) := by
  unfold gdbSendStopReason
  split_ifs
  · exact gdbSendData_replies gdb (by decide) (by decide)
  · exact gdbSendData_replies gdb (by decide) (by decide)
  · exact gdbSendData_replies gdb (by decide) (by decide)

theorem query_replies (gdb : GdbProtocolData) (data : List Byte) :
    Replies gdb (query gdb data) := by
  unfold query
  split_ifs
  all_goals
    refine gdbSendData_replies gdb ?_ ?_
    · simp [ascii, IsPayload, char]
    · simp [ascii, maxPacketSize]

theorem setThread_replies (gdb : GdbProtocolData) {data : List Byte} (hdata : data ≠ []) :
    Replies gdb (setThread gdb data) := by
  obtain ⟨type, data, rfl⟩ := List.exists_cons_of_ne_nil hdata
  unfold setThread
  simp only
  split_ifs
  all_goals exact gdbSendData_replies gdb (by decide) (by decide)

end Constants

/-! ## Registers -/

/-- The placeholder of the registers there are none of. -/
def placeholder : List Byte := ascii "xxxxxxxx"

theorem isPayload_placeholder : IsPayload placeholder := by
  simp [placeholder, ascii, IsPayload, char]

theorem length_placeholder : placeholder.length = 8 := by
  simp [placeholder, ascii]

section Registers

variable [ByteOrder] {gdb : GdbProtocolData}

def shown (value : ℕ → Word) (reg : ℕ) : Word := value reg - if reg = 15 then 4 else 0

/-- The 42 fields of a reply to `g`. -/
def fields (value : ℕ → Word) (cpsr : Word) : List (List Byte) :=
  (List.range 16).map (fun reg => wordText (shown value reg)) ++
    (List.replicate 25 placeholder ++ [wordText cpsr])

theorem isPayload_fields (value : ℕ → Word) (cpsr : Word) :
    IsPayload (fields value cpsr).flatten := by
  rw [← List.flatMap_id]
  refine .flatMap fun field hfield => ?_
  simp only [fields, List.mem_append, List.mem_map, List.mem_replicate, List.mem_singleton]
    at hfield
  rcases hfield with ⟨reg, -, rfl⟩ | ⟨-, rfl⟩ | rfl
  · exact isPayload_wordText _
  · exact isPayload_placeholder
  · exact isPayload_wordText _

theorem flatten_fields (value : ℕ → Word) (cpsr : Word) : (fields value cpsr).flatten =
    ((((List.range 15).flatMap fun reg => wordText (value reg)) ++ wordText (value 15 - 4)) ++
      ((List.range (8 * 3)).flatMap fun _ => placeholder)) ++ placeholder ++ wordText cpsr := by
  have hlow : (List.range 15).map (fun reg => wordText (shown value reg)) =
      (List.range 15).map fun reg => wordText (value reg) := by
    refine List.map_congr_left fun reg hreg => ?_
    have hne : reg ≠ 15 := (List.mem_range.mp hreg).ne
    simp [shown, hne]
  have hpc : shown value 15 = value 15 - 4 := rfl
  have hconst : (List.range (8 * 3)).map (fun _ => placeholder) =
      List.replicate 24 placeholder := by
    rw [List.map_const', List.length_range]
  rw [fields, List.range_succ, List.map_append, hlow, List.map_singleton, hpc, List.flatMap_def,
    List.flatMap_def, hconst, List.replicate_succ' (n := 24)]
  simp only [List.flatten_append, List.flatten_cons, List.flatten_nil, List.append_nil,
    List.append_assoc]

theorem readGeneralRegisters_answered {value : ℕ → Word}
    (hread : ∀ i < 16, armReadRegister gdb.arm i = .ok (value i)) :
    ∃ gdb', readGeneralRegisters gdb = .ok gdb' ∧
      Answered gdb (fields value (armReadCpsr gdb.arm)).flatten gdb' := by
  have hlow : Appends (fun s => (List.range 15).foldlM (fun s i => do
      let packet ← writeUint32 s.1 s.2 (← armReadRegister gdb.arm i)
      return (packet, s.2 + 8)) s) ((List.range 15).flatMap fun reg => wordText (value reg)) := by
    refine appends_foldlM _ fun i hi => ?_
    have hlt := List.mem_range.mp hi
    simp only [hread i (by omega), ok_bind]
    exact appends_writeUint32 (value i)
  have hx : Appends (fun s => (List.range (8 * 3)).foldlM (fun s _ => append s placeholder) s)
      ((List.range (8 * 3)).flatMap fun _ => placeholder) :=
    appends_foldlM _ fun _ _ => appends_append placeholder
  obtain ⟨p₁, h₁, hs₁⟩ := hlow gdb.packet [] (prefixed_nil _) (by simp [maxPacketSize])
  obtain ⟨p₂, h₂, hs₂⟩ := writeUint32_holds (value 15 - 4) hs₁ (by simp [maxPacketSize])
  obtain ⟨p₃, h₃, hs₃⟩ := hx p₂ _ hs₂.prefixed (by simp [length_placeholder, maxPacketSize])
  obtain ⟨p₄, h₄, hs₄⟩ := append_holds (t := placeholder) hs₃
    (by simp [length_placeholder, maxPacketSize])
  obtain ⟨p₅, h₅, hs₅⟩ := writeUint32_holds (armReadCpsr gdb.arm) hs₄.prefixed
    (by simp [length_placeholder, maxPacketSize])
  rw [List.nil_append, ← flatten_fields] at hs₅
  obtain ⟨gdb', hsend, hanswered⟩ := gdbSendBuffer_answered { gdb with packet := p₅ } hs₅
    (isPayload_fields _ _) (by rw [flatten_fields]; simp [length_placeholder, maxPacketSize])
  refine ⟨gdb', ?_, hanswered.arm, hanswered.written, hanswered.held⟩
  beta_reduce at h₁ h₃
  have h₁ : (List.range 15).foldlM (fun s i => do
      let packet ← writeUint32 s.1 s.2 (← armReadRegister gdb.arm i)
      return (packet, s.2 + 8)) (gdb.packet, buffer) = _ := h₁
  rw [List.length_append, length_wordText, ← Nat.add_assoc] at h₃
  have h₃ : (List.range (8 * 3)).foldlM (fun s _ => append s (ascii "xxxxxxxx")) _ = _ := h₃
  have h₄ : append (p₃, _) (ascii "xxxxxxxx") = _ := h₄
  rw [readGeneralRegisters, h₁, ok_bind]
  simp only [hread 15 (by omega), ok_bind, h₂]
  rw [h₃, ok_bind, h₄, ok_bind]
  simp only [h₅, ok_bind, hsend]

theorem readRegister_answered {data : List Byte} {reg : ℕ} {value : Word}
    (hreg : (atoi data).toNat = reg) (hlt : reg < 16)
    (hread : armReadRegister gdb.arm reg = .ok value) :
    ∃ gdb', Gdb.readRegister gdb data = .ok gdb' ∧
      Answered gdb (wordText (value - if reg = 15 then 4 else 0)) gdb' := by
  obtain ⟨packet, hwrite, hholds⟩ := writeUint32_holds (value - if reg = 15 then 4 else 0)
    (prefixed_nil gdb.packet) (by decide)
  obtain ⟨gdb', hsend, hanswered⟩ := gdbSendBuffer_answered { gdb with packet } hholds
    (isPayload_wordText _) (by rw [List.nil_append, length_wordText]; decide)
  have hwrite : writeUint32 gdb.packet buffer (value - if reg = 15 then 4 else 0) = .ok packet :=
    hwrite
  refine ⟨gdb', ?_, hanswered.arm, hanswered.written, hanswered.held⟩
  rw [Gdb.readRegister, hreg]
  simp only [hlt, not_true_eq_false, if_false, hread, ok_bind, hwrite]
  exact hsend

end Registers

/-! ## A debugger just connected -/

def blankPacket : Packet := ⟨List.replicate maxPacketSize 0, List.length_replicate⟩

def noLocals : HandlerLocals :=
  ⟨0, 0, 0, 0, 0, 0, fun _ => 0, fun _ => ⟨0, 0, 0, 0, 0, 0⟩⟩

/-- The first request comes to this. -/
def session (arm : ArmCore) : GdbProtocolData := gdbInitData arm blankPacket

end ArmSimulator.Debugger
