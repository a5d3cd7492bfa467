import ArmSimulator.Debugger.Framing

/-! # Retransmission

Whatever tokens arrive, everything sent is an acknowledgement or a framed reply,
and the packet keeps the reply sent last. A request for retransmission therefore
repeats it; stray bytes just before the request are complained of first.
-/

namespace ArmSimulator.Debugger

open Machine Machine.Gdb Foundation.ExceptRun

/-! ## What has been sent -/

/-- The reply sent last. -/
def lastReply (log : List (List Byte)) : Option (List Byte) :=
  (log.filter fun w => w.head? = some (char '$')).getLast?

section Log

variable {log : List (List Byte)} {w r : List Byte}

theorem lastReply_reply (h : w.head? = some (char '$')) : lastReply (log ++ [w]) = some w := by
  rw [lastReply, List.filter_append, List.filter_singleton]
  simp [h]

theorem lastReply_other (h : w.head? ≠ some (char '$')) :
    lastReply (log ++ [w]) = lastReply log := by
  rw [lastReply, List.filter_append, List.filter_singleton]
  simp [h, lastReply]

theorem mem_of_lastReply (h : lastReply log = some r) :
    r ∈ log ∧ r.head? = some (char '$') := by
  have hmem := List.mem_of_getLast? h
  rw [List.mem_filter, decide_eq_true_iff] at hmem
  exact hmem

end Log

section Session

variable [Host] [ByteOrder]

/-- An acknowledgement of either kind, nothing, or a reply. -/
def Sent (w : List Byte) : Prop := w = ascii "+" ∨ w = ascii "-" ∨ w = [] ∨ WellFramed w

/-- All that has been sent is in order, and the packet holds the last reply if there is one. -/
structure Consistent (gdb : GdbProtocolData) : Prop where
  sent : ∀ w ∈ gdb.written, Sent w
  held : gdb.packet.cells.take gdb.len = (lastReply gdb.written).getD []

variable {gdb gdb' : GdbProtocolData}

theorem Consistent.other (h : Consistent gdb) {w : List Byte} (hw : Sent w)
    (hhead : w.head? ≠ some (char '$')) : Consistent (rioWriten gdb w) where
  sent := List.forall_mem_append.mpr ⟨h.sent, List.forall_mem_singleton.mpr hw⟩
  held := h.held.trans (congrArg (·.getD []) (lastReply_other hhead).symm)

theorem Consistent.ack (h : Consistent gdb) : Consistent (gdbSendAck gdb) :=
  h.other (Or.inl rfl) (by decide)

theorem Consistent.nack (h : Consistent gdb) : Consistent (gdbRequireRetransmission gdb) :=
  h.other (Or.inr (Or.inl rfl)) (by decide)

theorem Consistent.replied (h : Consistent gdb) (hreplied : Replied gdb gdb') :
    Consistent gdb' := by
  obtain ⟨payload, hpayload, hwritten, hheld⟩ := hreplied
  refine ⟨?_, ?_⟩
  · rw [hwritten]
    exact List.forall_mem_append.mpr ⟨h.sent, List.forall_mem_singleton.mpr
      (Or.inr (Or.inr (Or.inr (wellFramed_frame hpayload))))⟩
  · rw [hwritten, lastReply_reply rfl, hheld]
    rfl

theorem Consistent.transmit (h : Consistent gdb) : Consistent (gdbTransmitPacket gdb) := by
  cases hlast : lastReply gdb.written with
  | none =>
    have hheld : gdb.packet.cells.take gdb.len = [] := by rw [h.held, hlast]; rfl
    rw [gdbTransmitPacket, hheld]
    exact h.other (Or.inr (Or.inr (Or.inl rfl))) (by decide)
  | some r =>
    obtain ⟨hmem, hhead⟩ := mem_of_lastReply hlast
    have hheld : gdb.packet.cells.take gdb.len = r := by rw [h.held, hlast]; rfl
    rw [gdbTransmitPacket, hheld]
    refine ⟨List.forall_mem_append.mpr ⟨h.sent, List.forall_mem_singleton.mpr (h.sent r hmem)⟩, ?_⟩
    exact hheld.trans (congrArg (·.getD []) (lastReply_reply hhead).symm)

/-! ## Requests -/

/-- A request to read memory asks for 509 bytes at most, which is what a reply has room for. -/
def Modest (r : Reception) : Prop :=
  ∀ data, requestText r.packet r.beyond = char 'm' :: data →
    (sscanfXX data r.u.address r.u.size).2.toNat ≤ 509

omit [Host] [ByteOrder] in
theorem handler_eq_readMemory {c : Byte} (h : handler c = some .readMemory) : c = char 'm' := by
  by_contra hc
  simp only [handler, hc, if_false, ite_eq_iff] at h
  simp at h

omit [Host] [ByteOrder] in
theorem requestText_eq (t : PacketText) (beyond : List Byte) :
    ∃ c data, requestText t beyond = c :: data ∧ data ≠ [] := by
  rw [requestText]
  cases t.body with
  | nil => exact ⟨_, _, rfl, List.cons_ne_nil _ _⟩
  | cons c body => exact ⟨c, _, rfl, by simp⟩

theorem handleRequest_consistent (r : Reception) (hr : Modest r) (h : Consistent gdb) :
    Ensures (handleRequest gdb r.u r.turns (requestText r.packet r.beyond)) Consistent := by
  obtain ⟨c, data, htext, hdata⟩ := requestText_eq r.packet r.beyond
  rw [htext, handleRequest]
  cases hc : handler c with
  | none =>
    exact ensures_lift (gdbSendData_replies gdb (by decide) (by decide)).ensures |>.mono
      fun _ => h.replied
  | some f =>
    have hm (hf : f = .readMemory) : (sscanfXX data r.u.address r.u.size).2.toNat ≤ 509 := by
      rw [hf] at hc
      exact hr data (by rw [htext, handler_eq_readMemory hc])
    refine (run_replied gdb data r.u f hdata r.turns hm).mono fun gdb' hrun => ?_
    cases hrun with
    | inl hsame => exact hsame ▸ h
    | inr hreplied => exact h.replied hreplied

/-! ## Runs of the scanner -/

/-- The scanner between two tokens. -/
structure Ready (s : ParserData) : Prop where
  room : s.len < maxErrorSize
  consistent : Consistent s.gdb

/-- What `handle_error` sends. -/
def complaint (s : ParserData) : List (List Byte) := if s.len ≠ 0 then [ascii "-"] else []

variable {s s' : ParserData}

omit [Host] [ByteOrder] in
theorem handleError_ok (h : s.len < maxErrorSize) :
    ∃ s', handleError s = .ok s' ∧ s'.len = 0 ∧
      s'.gdb = { s.gdb with written := s.gdb.written ++ complaint s } := by
  unfold handleError complaint
  by_cases hlen : s.len = 0
  · rw [if_neg (not_not.mpr hlen), if_neg (not_not.mpr hlen), List.append_nil]
    exact ⟨s, rfl, hlen, rfl⟩
  · rw [if_pos hlen, if_pos hlen, CharArray.set, if_pos h]
    exact ⟨_, rfl, rfl, rfl⟩

/-- A byte that belongs to no other token. -/
def IsStray : Token → Prop
  | .stray _ => True
  | _ => False

/-- What a rule does behind `handle_error`. -/
def act (data : ParserData) : Token → Except Halt ParserData
  | .minus => return { data with gdb := gdbTransmitPacket data.gdb }
  | .packet r => do
    let text := r.packet.text
    let gdb ← gdbPacketAnalysis data.gdb (text ++ 0 :: r.beyond) text.length r.u r.turns
    return { data with gdb }
  | _ => return data

theorem scan_eq {t : Token} (ht : ¬ IsStray t) :
    scan s t = (liftM (handleError s) : Except Halt ParserData) >>= fun s => act s t := by
  cases t with
  | plus => exact (bind_pure _).symm
  | minus => rfl
  | packet r => rfl
  | stray c => exact absurd trivial ht
  | eof => exact (bind_pure _).symm

theorem scan_act (h : s.len < maxErrorSize) {t : Token} (ht : ¬ IsStray t) :
    ∃ s₁, scan s t = act s₁ t ∧ s₁.len = 0 ∧
      s₁.gdb = { s.gdb with written := s.gdb.written ++ complaint s } := by
  obtain ⟨s₁, hs₁, hlen, hgdb⟩ := handleError_ok h
  exact ⟨s₁, by rw [scan_eq ht, hs₁]; rfl, hlen, hgdb⟩

theorem act_len (s : ParserData) (t : Token) : Ensures (act s t) fun s' => s'.len = s.len := by
  cases t with
  | packet r => exact ensures_bind fun gdb => ensures_pure rfl
  | _ => exact ensures_pure rfl

theorem Ready.scan_act (h : Ready s) {t : Token} (ht : ¬ IsStray t) :
    ∃ s₁, scan s t = act s₁ t ∧ s₁.len = 0 ∧ Consistent s₁.gdb ∧
      s₁.gdb = { s.gdb with written := s.gdb.written ++ complaint s } := by
  obtain ⟨s₁, hs₁, hlen, hgdb⟩ := Debugger.scan_act h.room ht
  refine ⟨s₁, hs₁, hlen, ?_, hgdb⟩
  rw [hgdb, complaint]
  split_ifs
  · exact h.consistent.nack
  · rw [List.append_nil]
    exact h.consistent

omit [Host] [ByteOrder] in
theorem addCharacterToError_ok (h : s.len < maxErrorSize) (c : Byte) :
    ∃ s', addCharacterToError s c = .ok s' ∧
      if maxErrorSize - 2 < s.len then s'.len = 1 ∧ s'.gdb = gdbRequireRetransmission s.gdb
      else s'.len = s.len + 1 ∧ s'.gdb = s.gdb := by
  have hset {s : ParserData} (h : s.len < maxErrorSize) : s.buffer.set s.len c = .ok _ := if_pos h
  unfold addCharacterToError
  split_ifs with hfull
  · obtain ⟨s₁, hs₁, hlen, hgdb⟩ := handleError_ok h
    have hroom : s₁.len < maxErrorSize := by rw [hlen]; decide
    rw [hs₁, ok_bind]
    beta_reduce
    rw [hset hroom]
    refine ⟨_, rfl, congrArg (· + 1) hlen, hgdb.trans ?_⟩
    rw [complaint, if_pos (by omega)]
    rfl
  · rw [pure_bind]
    beta_reduce
    rw [hset h]
    exact ⟨_, rfl, rfl, rfl⟩

theorem Ready.stray (h : Ready s) (c : Byte) :
    ∃ s', addCharacterToError s c = .ok s' ∧ Ready s' ∧ s'.len ≠ 0 ∧
      (s.len + 1 < maxErrorSize → s'.gdb = s.gdb) := by
  have hroom := h.room
  obtain ⟨s', hs', hkept⟩ := addCharacterToError_ok h.room c
  refine ⟨s', hs', ?_⟩
  unfold maxErrorSize at *
  split_ifs at hkept
  · obtain ⟨hlen, hgdb⟩ := hkept
    exact ⟨⟨by rw [hlen]; decide, hgdb ▸ h.consistent.nack⟩, by omega, by omega⟩
  · obtain ⟨hlen, hgdb⟩ := hkept
    exact ⟨⟨by rw [maxErrorSize]; omega, hgdb ▸ h.consistent⟩, by omega, fun _ => hgdb⟩

/-- A token that asks for no more of the memory than a reply has room for. -/
def Token.Modest : Token → Prop
  | .packet r => Debugger.Modest r
  | _ => True

/-- What is complained of after these tokens: nothing but a stray byte just before. -/
def complaintAfter (tokens : List Token) : List (List Byte) :=
  match tokens.getLast? with
  | some (.stray _) => [ascii "-"]
  | _ => []

theorem act_consistent (h : Consistent s.gdb) {t : Token} (ht : Token.Modest t) :
    Ensures (act s t) fun s' => Consistent s'.gdb := by
  cases t with
  | minus => exact ensures_ok h.transmit
  | packet r =>
    have hanalysis : Ensures (gdbPacketAnalysis s.gdb (r.packet.text ++ 0 :: r.beyond)
        r.packet.text.length r.u r.turns) Consistent := by
      rw [gdbPacketAnalysis_text]
      split_ifs
      · exact handleRequest_consistent r ht h.ack
      · exact ensures_ok h.nack
    exact hanalysis.bind fun gdb hgdb => ensures_ok hgdb
  | _ => exact ensures_ok h

/-- What one token preserves. -/
theorem scan_ready (h : Ready s) (t : Token) (ht : Token.Modest t) :
    Ensures (scan s t) fun s' => Ready s' ∧ complaint s' = complaintAfter [t] := by
  by_cases hstray : IsStray t
  · cases t with
    | stray c =>
      obtain ⟨s₂, hs₂, hready, hlen₂, -⟩ := h.stray c
      rw [scan, hs₂]
      exact ensures_ok ⟨hready, if_pos hlen₂⟩
    | _ => exact hstray.elim
  · obtain ⟨s₁, hs₁, hlen, hconsistent, -⟩ := h.scan_act hstray
    rw [hs₁]
    intro s' hs'
    have hempty : s'.len = 0 := (act_len s₁ t s' hs').trans hlen
    have hnone : complaintAfter [t] = [] := by
      cases t with
      | stray c => exact absurd trivial hstray
      | _ => rfl
    refine ⟨⟨by rw [hempty]; decide, act_consistent hconsistent ht s' hs'⟩, ?_⟩
    rw [hnone, complaint, if_neg (not_not.mpr hempty)]

theorem ready_gdbScanner (arm : ArmCore) (contents : Packet) (errors : CharArray maxErrorSize) :
    Ready (gdbScanner arm contents errors) := by
  refine ⟨show 0 < maxErrorSize by decide, ⟨fun w hw => ?_, ?_⟩⟩
  · exact absurd hw List.not_mem_nil
  · exact List.take_zero

/-- A run that has not come to a halt; the tokens so far decide whether stray bytes are
complained of next. -/
theorem run_ready {arm : ArmCore} {contents : Packet} {errors : CharArray maxErrorSize}
    {tokens : List Token} (hmodest : ∀ t ∈ tokens, Token.Modest t)
    (hrun : tokens.foldlM scan (gdbScanner arm contents errors) = .ok s) :
    Ready s ∧ complaint s = complaintAfter tokens := by
  have hstart := ready_gdbScanner arm contents errors
  cases tokens using List.reverseRecOn with
  | nil =>
    cases hrun
    exact ⟨hstart, rfl⟩
  | append_singleton tokens t =>
    rw [List.foldlM_append] at hrun
    obtain ⟨s₁, hs₁, hs⟩ := bind_eq_ok.mp hrun
    rw [List.foldlM_cons] at hs
    obtain ⟨s₂, hs₂, hs⟩ := bind_eq_ok.mp hs
    cases hs
    rw [List.forall_mem_append, List.forall_mem_singleton] at hmodest
    have hready : Ready s₁ := ensures_foldlM_mem tokens
      (fun s t ht h => (scan_ready h t (hmodest.1 t ht)).mono fun _ => And.left) hstart s₁ hs₁
    rw [complaintAfter, List.getLast?_concat]
    exact scan_ready hready t hmodest.2 s hs₂

theorem Ready.minus (h : Ready s) : ∃ s', scan s .minus = .ok s' ∧
    s'.gdb.written = s.gdb.written ++ complaint s ++ [(lastReply s.gdb.written).getD []] := by
  obtain ⟨s₁, hs₁, -, -, hgdb⟩ := h.scan_act (t := .minus) id
  refine ⟨{ s₁ with gdb := gdbTransmitPacket s₁.gdb }, hs₁, ?_⟩
  rw [← h.consistent.held, hgdb]
  rfl

theorem Ready.answered (h : Ready s) {r : Reception} (hr : Accepted r.packet)
    (hreplies : ∀ gdb, ∃ gdb', handleRequest gdb r.u r.turns (requestText r.packet r.beyond) =
      .ok gdb' ∧ Replied gdb gdb') :
    ∃ s' payload, scan s (.packet r) = .ok s' ∧ s'.len = 0 ∧ IsPayload payload ∧
      s'.gdb.written = s.gdb.written ++ complaint s ++ [ascii "+", frame payload] := by
  obtain ⟨s₁, hs₁, hlen, -, hgdb⟩ := h.scan_act (t := .packet r) id
  obtain ⟨gdb', hgdb', payload, hpayload, hwritten, -⟩ := hreplies (gdbSendAck s₁.gdb)
  refine ⟨{ s₁ with gdb := gdb' }, payload, hs₁.trans ?_, hlen, hpayload, ?_⟩
  · change (gdbPacketAnalysis s₁.gdb (r.packet.text ++ 0 :: r.beyond) r.packet.text.length r.u
      r.turns >>= _) = _
    rw [gdbPacketAnalysis_text, if_pos hr, hgdb']
    rfl
  · rw [hwritten, gdbSendAck, rioWriten, hgdb]
    simp

/-! ## Every run -/

/-- What the debugger can rely on after these tokens. -/
structure Reliable (tokens : List Token) (s : ParserData) : Prop where
  sent : ∀ w ∈ s.gdb.written, Sent w
  repeated : ∀ r, lastReply s.gdb.written = some r → ∃ s', scan s .minus = .ok s' ∧
    s'.gdb.written = s.gdb.written ++ complaintAfter tokens ++ [r]
  memoryRead : ∀ r : Reception, Accepted r.packet → Modest r →
    (∃ data, requestText r.packet r.beyond = char 'm' :: data) →
    ∃ s' payload, scan s (.packet r) = .ok s' ∧ IsPayload payload ∧
      s'.gdb.written = s.gdb.written ++ complaintAfter tokens ++ [ascii "+", frame payload]

/-- The framing of replies and their retransmission in every run. -/
theorem reliable_run {arm : ArmCore} {contents : Packet} {errors : CharArray maxErrorSize}
    {tokens : List Token} (hmodest : ∀ t ∈ tokens, Token.Modest t)
    (hrun : tokens.foldlM scan (gdbScanner arm contents errors) = .ok s) :
    Reliable tokens s := by
  obtain ⟨hready, hcomplaint⟩ := run_ready hmodest hrun
  refine ⟨hready.consistent.sent, fun r hr => ?_, fun r hr hm ⟨data, htext⟩ => ?_⟩
  · obtain ⟨s', hs', hwritten⟩ := hready.minus
    refine ⟨s', hs', ?_⟩
    rw [hwritten, hr, hcomplaint]
    rfl
  · obtain ⟨s', payload, hs', -, hpayload, hwritten⟩ := hready.answered hr fun gdb => by
      obtain ⟨gdb', hread, hreplied⟩ := readMemory_replies gdb data r.u (hm data htext)
      exact ⟨gdb', by rw [htext]; exact lift_eq_ok.mpr hread, hreplied⟩
    exact ⟨s', payload, hs', hpayload, by rw [hwritten, hcomplaint]⟩

end Session

/-! ## A stray byte before a request for retransmission -/

/-- `$?#3f` -/
def reasonRequest : Reception :=
  ⟨⟨[char '?'], char '3', char 'f', by decide, by decide, by decide⟩, [], noLocals, 0⟩

def reasonThenStray : List Token := [.packet reasonRequest, .stray (char 'x')]

theorem modest_reasonThenStray : ∀ t ∈ reasonThenStray, Token.Modest t := by
  have hrequest : Modest reasonRequest := fun data h => absurd (List.cons.inj h).1 (by decide)
  simp [reasonThenStray, Token.Modest, hrequest]

/-- The scanner of a new session. -/
def newScanner : ParserData :=
  gdbScanner ⟨0, fun _ => 0, ⟨#[], false⟩⟩ blankPacket ⟨List.replicate maxErrorSize 0,
    List.length_replicate⟩

theorem reasonThenStray_run [Host] [ByteOrder] : ∃ s payload,
    reasonThenStray.foldlM scan newScanner = .ok s ∧
      s.gdb.written = [ascii "+", frame payload] := by
  have hstart : Ready newScanner := ready_gdbScanner _ _ _
  have haccepted : Accepted reasonRequest.packet := by decide
  obtain ⟨s₁, payload, hs₁, hlen, -, hwritten⟩ := hstart.answered haccepted fun gdb => by
    obtain ⟨gdb', hreason, hreplied⟩ := gdbSendStopReason_replies gdb
    exact ⟨gdb', lift_eq_ok.mpr hreason, hreplied⟩
  have hready : Ready s₁ := (scan_ready hstart _ (modest_reasonThenStray _
    List.mem_cons_self) s₁ hs₁).1
  obtain ⟨s₂, hs₂, -, -, hgdb⟩ := hready.stray (char 'x')
  refine ⟨s₂, payload, ?_, ?_⟩
  · rw [reasonThenStray, List.foldlM_cons, hs₁, ok_bind, List.foldlM_cons, scan, hs₂]
    rfl
  · rw [hgdb (by rw [hlen]; decide), hwritten]
    rfl

theorem reliable_reasonThenStray : ∃ s payload,
    @List.foldlM _ _ _ _ (@scan Host.x86 .x86) newScanner reasonThenStray = .ok s ∧
      s.gdb.written = [ascii "+", frame payload] ∧ @Reliable .x86 .x86 reasonThenStray s := by
  obtain ⟨s, payload, hs, hwritten⟩ := @reasonThenStray_run .x86 .x86
  exact ⟨s, payload, hs, hwritten, @reliable_run .x86 .x86 _ _ _ _ _ modest_reasonThenStray hs⟩

/-- After the stray byte the last reply does not come alone. -/
theorem repeated_reasonThenStray : ¬ ∀ (_ : Host) (_ : ByteOrder) (arm : ArmCore)
    (contents : Packet) (errors : CharArray maxErrorSize) (tokens : List Token) (s : ParserData),
    (∀ t ∈ tokens, Token.Modest t) →
    tokens.foldlM scan (gdbScanner arm contents errors) = .ok s →
    ∀ r, lastReply s.gdb.written = some r → ∃ s', scan s .minus = .ok s' ∧
      s'.gdb.written = s.gdb.written ++ [r] := by
  intro h
  obtain ⟨s, payload, hs, hwritten⟩ := @reasonThenStray_run .x86 .x86
  obtain ⟨hready, hcomplaint⟩ := @run_ready .x86 .x86 _ _ _ _ _ modest_reasonThenStray hs
  have hlast : lastReply s.gdb.written = some (frame payload) := by
    rw [hwritten]
    exact @lastReply_reply [ascii "+"] _ rfl
  obtain ⟨s₁, hs₁, hsent⟩ := h .x86 .x86 _ _ _ _ s modest_reasonThenStray hs _ hlast
  obtain ⟨s₂, hs₂, hsent₂⟩ := @Ready.minus .x86 .x86 _ hready
  rw [hs₁, Except.ok.injEq] at hs₂
  rw [← hs₂, hsent, hcomplaint] at hsent₂
  have hlength := congrArg List.length hsent₂
  simp [reasonThenStray, complaintAfter] at hlength

end ArmSimulator.Debugger
