import ArmSimulator.Debugger.Handling
import ArmSimulator.Debugger.RegisterBlock
import ArmSimulator.Debugger.Text

/-! # Requests of any content

The peer chooses the text of a request, and the handlers trust it: numbers are
used whether `sscanf` has found them or not, a missing `:` or `=` is a null
pointer, register numbers meet an assertion, and lengths may exceed what was
sent. The condition on text and machine under which none of this happens.
-/

namespace ArmSimulator.Debugger

open Machine Machine.Gdb RegisterFile Storage Transfers Decoding Foundation.ExceptRun

/-- Every number that the handler takes from its text has been parsed. -/
def Parsed (data : List Byte) : GdbHandler → Prop
  | .readMemory | .writeMemoryBinary => ∃ a n, ∀ u v, sscanfXX data u v = (a, n)
  | .writeGeneralRegisters => ∀ i < 42, WordParsed (data.drop (8 * i))
  | .writeRegister => (sscanfX data).isSome ∧ WordParsed (afterIndex (char '=') data)
  | _ => True

/-- The character that the handler looks for is in its text. -/
def Found (data : List Byte) : GdbHandler → Prop
  | .writeMemoryBinary => (index (char ':') data).isSome
  | .writeRegister => (index (char '=') data).isSome
  | _ => True

/-! ## Texts in their buffer -/

section Texts

variable {data : List Byte} (r : List Byte)

theorem le_of_drop_ne_nil {k : ℕ} (h : data.drop k ≠ []) : k ≤ data.length := by
  by_contra hlt
  exact h (List.drop_eq_nil_of_le (by omega))

theorem wordParsed_terminated (h : WordParsed data) : WordParsed (data ++ 0 :: r) := by
  intro j hj
  rw [List.drop_append_of_le_length (le_of_drop_ne_nil (ne_nil_of_parsed (h j hj))),
    sscanf02x_terminated]
  exact h j hj

theorem takeBinary_append {content rest : List Byte} {b : Byte}
    (h : takeBinary content = .ok (b, rest)) : takeBinary (content ++ r) = .ok (b, rest ++ r) := by
  match content with
  | [] => cases h
  | [c] =>
    by_cases hc : c = 0x7d
    · rw [takeBinary, if_pos hc] at h
      cases h
    · rw [takeBinary_plain hc] at h
      cases h
      exact takeBinary_plain hc r
  | c :: d :: content =>
    by_cases hc : c = 0x7d
    · rw [takeBinary, if_pos hc] at h
      cases h
      exact if_pos hc
    · rw [takeBinary_plain hc] at h
      cases h
      exact takeBinary_plain hc _

theorem hasBytes_append (n : ℕ) : ∀ {content : List Byte}, HasBytes n content →
    HasBytes n (content ++ r) := by
  induction n with
  | zero => exact fun _ => trivial
  | succ n ih =>
    rintro content ⟨⟨b, rest⟩, htake, hrest⟩
    exact ⟨(b, rest ++ r), takeBinary_append r htake, ih hrest⟩

end Texts

/-! ## Robustness -/

section Robust

variable [Host] [ByteOrder]

/-- A request ends with a reply, as the one that has none, or as the end of the simulated
program. -/
def Handled (gdb : GdbProtocolData) (u : HandlerLocals) (request : Option GdbHandler)
    (x : Except Halt GdbProtocolData) : Prop :=
  Returns x (fun gdb' => Replied gdb gdb' ∨ request = some .killRequest ∧ gdb' = gdb) ∨
    request = some .step ∧ ExecutesExit (u.steps 0) gdb.arm ∧ x = .error (.stopped (.exit 0))

/-- A received packet is handled, also where nothing may be read behind its body, and with
nothing but what was parsed and found. -/
structure Robust (gdb : GdbProtocolData) (r : Reception) : Prop where
  handled : Handled (gdbSendAck gdb) r.u (r.packet.body.head?.bind handler)
    (gdbPacketAnalysis gdb (r.packet.text ++ 0 :: r.beyond) r.packet.text.length r.u r.turns)
  within : ∀ c data h, r.packet.body = c :: data → handler c = some h →
    Handled (gdbSendAck gdb) r.u (some h) (h.run (gdbSendAck gdb) data r.u r.turns)
  parsed : ∀ c data h, r.packet.body = c :: data → handler c = some h → Parsed data h
  found : ∀ c data h, r.packet.body = c :: data → handler c = some h → Found data h

/-- What a handler needs of the machine and of the numbers in its text. -/
def Meets (arm : ArmCore) (u : HandlerLocals) (data : List Byte) : GdbHandler → Prop
  | .readGeneralRegisters | .writeGeneralRegisters => Banked arm
  | .readMemory =>
    let (a, n) := sscanfXX data u.address u.size
    (bytesRead arm.mem n.toNat a).length ≤ 509
  | .readRegister => (atoi data).toNat < 16 ∧ Banked arm
  | .setThread => data ≠ []
  | .step => StepRuns (u.steps 0) arm
  | .writeMemoryBinary =>
    let (a, n) := sscanfXX data u.address u.size
    HasBytes (writeTurns arm.mem n.toNat a.toNat) (afterIndex (char ':') data)
  | .writeRegister => (((sscanfX data).map Prod.fst).getD u.reg).toNat < 16 ∧ Banked arm
  | .cont | .killRequest | .query | .reason => True

/-- The text is complete, and the machine and its numbers fit. -/
structure Sound (arm : ArmCore) (u : HandlerLocals) (data : List Byte) (h : GdbHandler) : Prop where
  parsed : Parsed data h
  found : Found data h
  meets : Meets arm u data h

/-! ## One handler -/

section Handler

variable {gdb : GdbProtocolData} {u : HandlerLocals} {data : List Byte}

omit [Host] [ByteOrder] in
theorem handled_iff_replied {h : GdbHandler} (hkill : h ≠ .killRequest) (hstep : h ≠ .step)
    {x : Except Stop GdbProtocolData} :
    Handled gdb u (some h) (liftM x : Except Halt GdbProtocolData) ↔ Returns x (Replied gdb) := by
  simp only [Handled, Option.some.injEq, hkill, hstep, false_and, or_false]
  exact returns_lift_iff

omit [ByteOrder] in
theorem step_handled_iff : Handled gdb u (some .step) (liftM (Gdb.step gdb u) :
    Except Halt GdbProtocolData) ↔ StepRuns (u.steps 0) gdb.arm := by
  rw [← armStep_ends_iff]
  simp only [Handled, Option.some.injEq, reduceCtorEq, false_and, or_false, true_and]
  refine or_congr (returns_lift_iff.trans step_returns_iff) ⟨fun h => h.1, fun h => ⟨h, ?_⟩⟩
  rw [step_exit h]
  rfl

/-- A handler whose text is complete ends as it should if the rest fits. -/
theorem run_handled_iff {h : GdbHandler} (hc : h ≠ .cont) (hparsed : Parsed data h) (turns : ℕ) :
    Handled gdb u (some h) (h.run gdb data u turns) ↔ Meets gdb.arm u data h := by
  cases h with
  | cont => exact absurd rfl hc
  | killRequest => exact iff_of_true (Or.inl ⟨gdb, rfl, Or.inr ⟨rfl, rfl⟩⟩) trivial
  | query =>
    refine (handled_iff_replied (by decide) (by decide)).trans ?_
    exact iff_of_true (query_replies gdb data) trivial
  | readGeneralRegisters =>
    exact (handled_iff_replied (by decide) (by decide)).trans readGeneralRegisters_returns_iff
  | readMemory =>
    exact (handled_iff_replied (by decide) (by decide)).trans (readMemory_returns_iff rfl)
  | readRegister =>
    exact (handled_iff_replied (by decide) (by decide)).trans readRegister_returns_iff
  | reason =>
    refine (handled_iff_replied (by decide) (by decide)).trans ?_
    exact iff_of_true (gdbSendStopReason_replies gdb) trivial
  | setThread => exact (handled_iff_replied (by decide) (by decide)).trans setThread_returns_iff
  | step => exact step_handled_iff
  | writeGeneralRegisters =>
    exact (handled_iff_replied (by decide) (by decide)).trans
      (writeGeneralRegisters_returns_iff hparsed)
  | writeMemoryBinary =>
    exact (handled_iff_replied (by decide) (by decide)).trans (writeMemoryBinary_returns_iff rfl)
  | writeRegister =>
    exact (handled_iff_replied (by decide) (by decide)).trans (writeRegister_returns_iff hparsed.2)

end Handler

/-! ## Behind the body -/

section Terminated

variable {arm : ArmCore} {u : HandlerLocals} {data : List Byte} (r : List Byte)

omit [ByteOrder] in
theorem Sound.terminated {h : GdbHandler} (hsound : Sound arm u data h) :
    Sound arm u (data ++ 0 :: r) h := by
  obtain ⟨hparsed, hfound, hmeets⟩ := hsound
  cases h with
  | cont | killRequest | query | reason => exact ⟨trivial, trivial, trivial⟩
  | readGeneralRegisters | step => exact ⟨trivial, trivial, hmeets⟩
  | readMemory =>
    obtain ⟨a, n, hscan⟩ := hparsed
    refine ⟨⟨a, n, fun u v => ?_⟩, trivial, ?_⟩
    · rw [sscanfXX_terminated, hscan]
    · rw [Meets, sscanfXX_terminated]
      exact hmeets
  | readRegister =>
    refine ⟨trivial, trivial, ?_⟩
    rw [Meets, atoi_terminated]
    exact hmeets
  | setThread => exact ⟨trivial, trivial, List.append_ne_nil_of_right_ne_nil _ (by simp)⟩
  | writeGeneralRegisters =>
    refine ⟨fun i hi => ?_, trivial, hmeets⟩
    have hne : data.drop (8 * i) ≠ [] := ne_nil_of_parsed (hparsed i hi 0 (by omega))
    rw [List.drop_append_of_le_length (le_of_drop_ne_nil hne)]
    exact wordParsed_terminated r (hparsed i hi)
  | writeMemoryBinary =>
    obtain ⟨a, n, hscan⟩ := hparsed
    have hcontent := afterIndex_terminated _ r (by decide) hfound
    refine ⟨⟨a, n, fun u v => ?_⟩, ?_, ?_⟩
    · rw [sscanfXX_terminated, hscan]
    · rw [Found, index_terminated _ _ (by decide), Option.isSome_map]
      exact hfound
    · rw [Meets, sscanfXX_terminated, hcontent]
      exact hasBytes_append _ _ hmeets
  | writeRegister =>
    have hcontent := afterIndex_terminated _ r (by decide) hfound
    refine ⟨⟨?_, ?_⟩, ?_, ?_⟩
    · rw [sscanfX_terminated, Option.isSome_map]
      exact hparsed.1
    · rw [hcontent]
      exact wordParsed_terminated r hparsed.2
    · rw [Found, index_terminated _ _ (by decide), Option.isSome_map]
      exact hfound
    · rw [Meets, sscanfX_value_terminated]
      exact hmeets

end Terminated

/-! ## Requests -/

omit [Host] [ByteOrder] in
theorem handler_cont : ∀ {c : Byte}, handler c = some .cont → c = char 'c' := by
  decide

omit [Host] [ByteOrder] in
theorem unsupported_handled (gdb : GdbProtocolData) (u : HandlerLocals) : Handled gdb u none
    (liftM (gdbSendData gdb (ascii "")) : Except Halt GdbProtocolData) := by
  have hreply : Replies gdb (gdbSendData gdb (ascii "")) :=
    gdbSendData_replies gdb (by decide) (by decide)
  exact Or.inl (returns_lift_iff.mpr (Returns.mono hreply fun _ => Or.inl))

/-- An accepted packet other than `c` is handled as it should exactly if its handler finds
its text complete, the machine in a mode of the bank table, and the numbers in bounds. -/
theorem robust_iff (gdb : GdbProtocolData) (r : Reception) (haccepted : Accepted r.packet)
    (hc : r.packet.body.head? ≠ some (char 'c')) : Robust gdb r ↔
      ∀ c data h, r.packet.body = c :: data → handler c = some h → Sound gdb.arm r.u data h := by
  have hcont {c : Byte} {data : List Byte} {h : GdbHandler} (hbody : r.packet.body = c :: data)
      (hh : handler c = some h) : h ≠ .cont := by
    rintro rfl
    rw [hbody, handler_cont hh] at hc
    exact hc rfl
  constructor
  · intro hrobust c data h hbody hh
    have hparsed := hrobust.parsed c data h hbody hh
    have hmeets : Meets (gdbSendAck gdb).arm r.u data h :=
      (run_handled_iff (hcont hbody hh) hparsed r.turns).mp (hrobust.within c data h hbody hh)
    exact ⟨hparsed, hrobust.found c data h hbody hh, hmeets⟩
  · intro hsound
    refine ⟨?_, fun c data h hbody hh => ?_, fun c data h hbody hh => (hsound c data h hbody hh).1,
      fun c data h hbody hh => (hsound c data h hbody hh).2⟩
    · rw [gdbPacketAnalysis_text, if_pos haccepted, requestText]
      cases hbody : r.packet.body with
      | nil => exact unsupported_handled _ _
      | cons c data =>
        rw [List.head?_cons, Option.bind_some, List.cons_append, handleRequest]
        cases hh : handler c with
        | none => exact unsupported_handled _ _
        | some h =>
          have hbuffer : Sound (gdbSendAck gdb).arm r.u _ h := (hsound c data h hbody hh).terminated
            (r.packet.high :: r.packet.low :: 0 :: r.beyond)
          exact (run_handled_iff (hcont hbody hh) hbuffer.parsed r.turns).mpr hbuffer.meets
    · have hs : Sound (gdbSendAck gdb).arm r.u data h := hsound c data h hbody hh
      exact (run_handled_iff (hcont hbody hh) hs.parsed r.turns).mpr hs.meets

end Robust

/-- `$p4#a4` -/
def registerRequest : Reception :=
  ⟨⟨ascii "p4", char 'a', char '4', by decide, by decide, by decide⟩, [], noLocals, 0⟩

theorem robust_registerRequest :
    @Robust Host.x86 .x86 (session (board .usr).core) registerRequest := by
  let host := Host.x86
  let order := ByteOrder.x86
  refine (robust_iff _ registerRequest (by decide) (by decide)).mpr ?_
  intro c data h hbody hh
  obtain ⟨rfl, rfl⟩ := List.cons.inj hbody
  obtain rfl : GdbHandler.readRegister = h := Option.some.inj hh
  exact ⟨trivial, trivial, by decide, by decide⟩

/-- `$p19#da`, the number of the status: `atoi` reads 19. -/
def statusRequest : Reception :=
  ⟨⟨ascii "p19", char 'd', char 'a', by decide, by decide, by decide⟩, [], noLocals, 0⟩

/-- A request for the status fails an assertion. -/
theorem statusRequest_fails : ¬ ∀ (_ : Host) (_ : ByteOrder) (gdb : GdbProtocolData)
    (r : Reception), Accepted r.packet → r.packet.body.head? ≠ some (char 'c') → Robust gdb r := by
  intro h
  let host := Host.x86
  let order := ByteOrder.x86
  have hrobust := h host order (session (board .usr).core) statusRequest (by decide) (by decide)
  have hhandled := hrobust.within (char 'p') (ascii "19") .readRegister rfl (by decide)
  have hparsed : Parsed (ascii "19") .readRegister := trivial
  have hbounds := (run_handled_iff (by decide) hparsed statusRequest.turns).mp hhandled
  exact absurd hbounds.1 (by decide)

end ArmSimulator.Debugger
