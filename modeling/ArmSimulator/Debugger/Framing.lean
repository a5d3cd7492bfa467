import ArmSimulator.Debugger.MemoryAccess
import ArmSimulator.Machine.Scanner

/-! # Framing

Every handler that returns has sent one reply, or nothing at all. A reply is a
text that the scanner's own rule for packets matches, and whose checksum the
packet analysis accepts before it hands on the payload.
-/

namespace ArmSimulator.Debugger

open Machine Machine.Gdb Foundation.ExceptRun Foundation.Numeral

/-! ## Computations of the handlers within the scanner's -/

theorem lift_eq_ok {α : Type} {x : Except Stop α} {a : α} :
    (liftM x : Except Halt α) = .ok a ↔ x = .ok a := by
  cases x with
  | error stop => exact iff_of_false (fun h => by cases h) (fun h => by cases h)
  | ok b => exact ⟨fun h => by cases h; rfl, fun h => by cases h; rfl⟩

theorem ensures_lift {α : Type} {x : Except Stop α} {P : α → Prop} (h : Ensures x P) :
    Ensures (liftM x : Except Halt α) P := fun a ha => h a (lift_eq_ok.mp ha)

theorem Replies.ensures {gdb : GdbProtocolData} {x : Except Stop GdbProtocolData}
    (h : Replies gdb x) : Ensures x (Replied gdb) := by
  obtain ⟨gdb', rfl, hreplied⟩ := h
  exact ensures_ok hreplied

/-! ## Replies of the handlers -/

section Handlers

variable [Host] [ByteOrder] (gdb : GdbProtocolData) (data : List Byte) (u : HandlerLocals)

variable {gdb data}

omit [Host] in
theorem readGeneralRegisters_mode {gdb' : GdbProtocolData}
    (h : readGeneralRegisters gdb = .ok gdb') : 16 ≤ getMode gdb.arm.reg := by
  obtain ⟨s, hs, -⟩ := bind_eq_ok.mp h
  rw [show List.range 15 = 0 :: (List.range 15).tail by decide, List.foldlM_cons] at hs
  obtain ⟨s₁, hs₁, -⟩ := bind_eq_ok.mp hs
  obtain ⟨value, hvalue, -⟩ := bind_eq_ok.mp hs₁
  exact armReadRegister_mode (by omega) hvalue

omit [Host] in
theorem readGeneralRegisters_ok (hmode : 16 ≤ getMode gdb.arm.reg) :
    Replies gdb (readGeneralRegisters gdb) := by
  have hread (i : ℕ) : ∃ value, i < 16 → armReadRegister gdb.arm i = .ok value := by
    by_cases hi : i < 16
    · obtain ⟨value, hvalue⟩ := armReadRegister_ok hmode (show i ≤ 15 by omega)
      exact ⟨value, fun _ => hvalue⟩
    · exact ⟨0, fun h => absurd h hi⟩
  choose value hvalue using hread
  obtain ⟨gdb', hreply, hanswered⟩ := readGeneralRegisters_answered hvalue
  exact ⟨gdb', hreply, hanswered.replied (isPayload_fields _ _)⟩

omit [Host] in
theorem readGeneralRegisters_ensures : Ensures (readGeneralRegisters gdb) (Replied gdb) :=
  fun gdb' h => (readGeneralRegisters_ok (readGeneralRegisters_mode h)).ensures gdb' h

omit [Host] in
theorem readRegister_bounds {gdb' : GdbProtocolData} (h : Gdb.readRegister gdb data = .ok gdb') :
    (atoi data).toNat < 16 ∧ 16 ≤ getMode gdb.arm.reg := by
  rw [Gdb.readRegister] at h
  by_cases hlt : (atoi data).toNat < 16
  · simp only [hlt, not_true_eq_false, if_false] at h
    obtain ⟨-, -, h⟩ := bind_eq_ok.mp h
    obtain ⟨value, hvalue, -⟩ := bind_eq_ok.mp h
    exact ⟨hlt, armReadRegister_mode (by omega) hvalue⟩
  · simp only [hlt, not_false_eq_true, if_true] at h
    cases h

omit [Host] in
theorem readRegister_ok (hlt : (atoi data).toNat < 16) (hmode : 16 ≤ getMode gdb.arm.reg) :
    Replies gdb (Gdb.readRegister gdb data) := by
  obtain ⟨value, hvalue⟩ := armReadRegister_ok hmode (Nat.le_of_lt_succ hlt)
  obtain ⟨gdb', hreply, hanswered⟩ := readRegister_answered rfl hlt hvalue
  exact ⟨gdb', hreply, hanswered.replied (isPayload_wordText _)⟩

omit [Host] in
theorem readRegister_ensures : Ensures (Gdb.readRegister gdb data) (Replied gdb) := by
  intro gdb' h
  obtain ⟨hlt, hmode⟩ := readRegister_bounds h
  exact (readRegister_ok hlt hmode).ensures gdb' h

variable (gdb data)

omit [Host] in
theorem writeGeneralRegisters_ensures :
    Ensures (writeGeneralRegisters gdb data u) (Replied gdb) :=
  ensures_bind fun arm => ensures_bind fun _ => ensures_bind fun value =>
    (gdbSendData_replies { gdb with arm := armWriteCpsr arm value } (s := ascii "OK") (by decide)
      (by decide)).ensures

omit [Host] in
theorem writeRegister_ensures : Ensures (Gdb.writeRegister gdb data u) (Replied gdb) := by
  have hok (arm : ArmCore) : Ensures (gdbSendData { gdb with arm } (ascii "OK")) (Replied gdb) :=
    (gdbSendData_replies { gdb with arm } (by decide) (by decide)).ensures
  refine ensures_bind fun value => ?_
  split_ifs
  · exact ensures_bind hok
  · exact ensures_bind fun _ => ensures_bind hok

omit [Host] [ByteOrder] in
theorem writeMemoryBinary_ensures : Ensures (writeMemoryBinary gdb data u) (Replied gdb) := by
  refine ensures_bind fun ⟨mem, writeOk⟩ => ?_
  cases writeOk with
  | true => exact (gdbSendData_replies { gdb with arm := { gdb.arm with mem } } (s := ascii "OK")
      (by decide) (by decide)).ensures
  | false => exact (gdbSendData_replies { gdb with arm := { gdb.arm with mem } } (s := ascii "E02")
      (by decide) (by decide)).ensures

omit [Host] [ByteOrder] in
theorem readMemory_replies (h : (sscanfXX data u.address u.size).2.toNat ≤ 509) :
    Replies gdb (readMemory gdb data u) := by
  obtain ⟨gdb', hread, hanswered⟩ := readMemory_answered gdb
    (a := (sscanfXX data u.address u.size).1) rfl ((length_bytesRead _ _ _).trans h)
  exact ⟨gdb', hread, hanswered.replied (.flatMap fun b _ => isPayload_sprintf02x b)⟩

omit [ByteOrder] in
theorem step_ensures : Ensures (Gdb.step gdb u) (Replied gdb) :=
  ensures_bind fun r =>
    (gdbSendStopReason_replies { gdb with arm := r.2, targetException := r.1 }).ensures

omit [ByteOrder] in
theorem cont_ensures (turns : ℕ) : Ensures (Gdb.cont gdb u turns) (Replied gdb) :=
  ensures_bind fun r => ensures_lift
    (gdbSendStopReason_replies { gdb with arm := r.1, targetException := r.2 }).ensures

/-- A handler that returns has replied, or it is `kill_request` and has done nothing. -/
theorem run_replied (h : GdbHandler) (hdata : data ≠ []) (turns : ℕ)
    (hm : h = .readMemory → (sscanfXX data u.address u.size).2.toNat ≤ 509) :
    Ensures (h.run gdb data u turns) fun gdb' => gdb' = gdb ∨ Replied gdb gdb' := by
  have hor {x : Except Halt GdbProtocolData} (hx : Ensures x (Replied gdb)) :
      Ensures x fun gdb' => gdb' = gdb ∨ Replied gdb gdb' := hx.mono fun _ => Or.inr
  cases h with
  | cont => exact hor (cont_ensures gdb u turns)
  | killRequest => exact ensures_ok (Or.inl rfl)
  | query => exact hor (ensures_lift (query_replies gdb data).ensures)
  | readGeneralRegisters => exact hor (ensures_lift readGeneralRegisters_ensures)
  | readMemory => exact hor (ensures_lift (readMemory_replies gdb data u (hm rfl)).ensures)
  | readRegister => exact hor (ensures_lift readRegister_ensures)
  | reason => exact hor (ensures_lift (gdbSendStopReason_replies gdb).ensures)
  | setThread => exact hor (ensures_lift (setThread_replies gdb hdata).ensures)
  | step => exact hor (ensures_lift (step_ensures gdb u))
  | writeGeneralRegisters => exact hor (ensures_lift (writeGeneralRegisters_ensures gdb data u))
  | writeMemoryBinary => exact hor (ensures_lift (writeMemoryBinary_ensures gdb data u))
  | writeRegister => exact hor (ensures_lift (writeRegister_ensures gdb data u))

end Handlers

/-! ## Analysis of a packet -/

/-- The checksum a packet gives. -/
def given (t : PacketText) : ℕ :=
  16 * (hexValue t.high).get t.high_hex + (hexValue t.low).get t.low_hex

theorem spells_given (t : PacketText) : Spells hexValue 16 [t.high, t.low] (given t) where
  ne_nil := List.cons_ne_nil _ _
  value := by
    rw [valueFrom, ← Option.some_get t.high_hex, Option.bind_some, valueFrom,
      ← Option.some_get t.low_hex, Option.bind_some, valueFrom]
    simp [given]

/-- The checksum it gives is the sum of its body. -/
def Accepted (t : PacketText) : Prop := t.body.sum.setWidth 32 = toUnsigned false (given t)

instance (t : PacketText) : Decidable (Accepted t) := inferInstanceAs (Decidable (_ = _))

/-- What the handlers find after the `$`: the body and the rest of the scanner's buffer. -/
def requestText (t : PacketText) (beyond : List Byte) : List Byte :=
  t.body ++ 0 :: t.high :: t.low :: 0 :: beyond

theorem length_text (t : PacketText) : t.text.length = t.body.length + 4 := by
  simp [PacketText.text]

section Analysis

variable [Host] [ByteOrder]

/-- An accepted packet is acknowledged and goes to its handler, any other is asked for again. -/
theorem gdbPacketAnalysis_text (gdb : GdbProtocolData) (t : PacketText) (beyond : List Byte)
    (u : HandlerLocals) (turns : ℕ) :
    gdbPacketAnalysis gdb (t.text ++ 0 :: beyond) t.text.length u turns =
      if Accepted t then handleRequest (gdbSendAck gdb) u turns (requestText t beyond)
      else .ok (gdbRequireRetransmission gdb) := by
  have hindex : max 1 (t.text.length - 3) = t.body.length + 1 := by
    rw [length_text]
    omega
  have hbody : ((t.text ++ 0 :: beyond).take (t.text.length - 3)).drop 1 = t.body := by
    rw [length_text]
    simp [PacketText.text]
  have hgiven : (t.text ++ 0 :: beyond).drop (t.body.length + 1 + 1) =
      [t.high, t.low] ++ 0 :: beyond := by
    simp [PacketText.text]
  have hrest : ((t.text ++ 0 :: beyond).set (t.body.length + 1) 0).drop 1 =
      requestText t beyond := by
    simp [PacketText.text, requestText]
  have hscan : sscanfX ([t.high, t.low] ++ 0 :: beyond) = some _ :=
    sscanfX_spells (spells_given t) (by rintro _ ⟨⟩; decide)
  rw [gdbPacketAnalysis, hindex, hbody, hgiven, hrest, hscan]
  simp only [Option.map_some, Option.getD_some]
  by_cases h : Accepted t
  · have hsum : t.body.sum.setWidth 32 = toUnsigned false (given t) := h
    rw [if_pos h, if_pos hsum]
  · have hsum : ¬ t.body.sum.setWidth 32 = toUnsigned false (given t) := h
    rw [if_neg h, if_neg hsum]

/-- A string the scanner matches in full, that is accepted and whose body is handed on
as the string it is. -/
def WellFramed (w : List Byte) : Prop :=
  ∃ t : PacketText, t.text = w ∧ ∀ gdb beyond u turns, ∃ text, cString text = t.body ∧
    gdbPacketAnalysis gdb (w ++ 0 :: beyond) w.length u turns =
      handleRequest (gdbSendAck gdb) u turns text

omit [Host] [ByteOrder] in
/-- A payload is framed in a packet that is accepted. -/
theorem exists_packet {payload : List Byte} (h : IsPayload payload) :
    ∃ t : PacketText, t.body = payload ∧ t.text = frame payload ∧ Accepted t := by
  obtain ⟨c, d, hcd⟩ := List.length_eq_two.mp (length_sprintf02x payload.sum)
  have hspells := spells_sprintf02x payload.sum
  rw [hcd] at hspells
  have hdigits := isSome_of_valueFrom hspells.value
  let t : PacketText := ⟨payload, c, d, fun b hb => (h b hb).2, hdigits c (by simp),
    hdigits d (by simp)⟩
  have hgiven : given t = payload.sum.toNat := by
    have hvalue := (spells_given t).value
    rw [hspells.value, Option.some.injEq] at hvalue
    exact hvalue.symm
  have haccepted : Accepted t := by
    rw [Accepted, hgiven, toUnsigned_byte]
  refine ⟨t, rfl, ?_, haccepted⟩
  rw [frame, hcd]
  rfl

theorem wellFramed_frame {payload : List Byte} (h : IsPayload payload) :
    WellFramed (frame payload) := by
  obtain ⟨t, hbody, htext, haccepted⟩ := exists_packet h
  refine ⟨t, htext, fun gdb beyond u turns => ⟨requestText t beyond,
    cString_append fun b hb => (h b (hbody ▸ hb)).1, ?_⟩⟩
  rw [← htext, gdbPacketAnalysis_text, if_pos haccepted]

end Analysis

end ArmSimulator.Debugger
