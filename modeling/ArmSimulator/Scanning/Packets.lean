import ArmSimulator.Debugger.Framing
import ArmSimulator.Debugger.Retransmission
import ArmSimulator.Scanning.Stream

/-! # Packets in a stream of bytes

The peer acknowledges, repeats itself and may send anything in between. A packet is cut
out of the stream wherever it stands: no other cut can swallow its frame, and what comes
before and behind it is cut as if it were not there.
-/

namespace ArmSimulator.Scanning

open Machine Machine.Gdb Debugger Foundation.LongestMatch Foundation.ExceptRun

/-! ## Cuts -/

theorem longest_final {w : List Byte} {i : Rule} (hw : w ≠ [])
    (hi : automaton.label (automaton.run w) = some i) (hfinal : (automaton.run w).Final)
    (behind : List Byte) : rules.Longest i w behind := by
  have hstate : stateAt (w ++ behind) w.length = automaton.run w := by
    rw [stateAt, List.take_left]
  have hlen : w.length ≤ (w ++ behind).length := by
    rw [List.length_append]
    omega
  have hlabel : automaton.label (automaton.run ((w ++ behind).take w.length)) = some i := by
    rw [List.take_left]
    exact hi
  have h := recognises_rules.longest (List.length_pos_of_ne_nil hw) hlen hlabel
    fun m hm hle => label_behind (hstate ▸ hfinal) m hm hle
  rwa [List.take_left, List.drop_left] at h

theorem longest_packet (t : PacketText) (behind : List Byte) :
    rules.Longest .packet t.text behind := by
  have hrun : automaton.run t.text = .packet := run_packet t
  have hfinal : (automaton.run t.text).Final := by
    intro k
    rw [hrun]
    cases k <;> rfl
  exact longest_final (List.cons_ne_nil _ _) (congrArg automaton.label hrun) hfinal behind

/-- The rule of a character that opens no frame. -/
def single (c : Byte) : Rule :=
  if c = newline then .echo else if c = char '+' then .plus
  else if c = char '-' then .minus else .stray

theorem final_single {c : Byte} (hc : c ≠ char '$') : (automaton.run [c]).Final := by
  intro k
  have hstart : automaton.run [c] = State.start.next (kind c) := rfl
  have hkind := isOfKind_kind c
  rw [hstart]
  cases h : kind c with
  | dollar =>
    rw [h] at hkind
    exact absurd hkind hc
  | _ => cases k <;> rfl

theorem longest_single {c : Byte} (hc : c ≠ char '$') (behind : List Byte) :
    rules.Longest (single c) [c] behind :=
  longest_final (List.cons_ne_nil _ _) (label_singleton c) (final_single hc) behind

/-- Around a packet the stream is cut as if each side stood alone. -/
theorem cuts_packet {front behind : List Byte} {l₁ l₂ : List Lexeme} (t : PacketText)
    (h₁ : rules.Cuts front l₁) (h₂ : rules.Cuts behind l₂) :
    rules.Cuts (front ++ (t.text ++ behind)) (l₁ ++ (.packet, t.text) :: l₂) :=
  h₁.append_separator separates_dollar (.cons (longest_packet t behind) h₂)

/-! ## Tokens -/

theorem text_injective {t t' : PacketText} (h : t.text = t'.text) : t = t' := by
  obtain ⟨body, high, low, _, _, _⟩ := t
  obtain ⟨body', high', low', _, _, _⟩ := t'
  have htext : body ++ [char '#', high, low] = body' ++ [char '#', high', low'] :=
    (List.cons.inj h).2
  obtain ⟨rfl, htail⟩ := List.append_inj' htext rfl
  obtain ⟨hhigh, hlow⟩ := List.cons.inj (List.cons.inj htail).2
  cases hhigh
  cases hlow
  rfl

theorem TokensOf.packet {t : PacketText} {lexemes : List Lexeme} {tokens : List Token}
    (h : TokensOf ((.packet, t.text) :: lexemes) tokens) :
    ∃ r rest, r.packet = t ∧ TokensOf lexemes rest ∧ tokens = .packet r :: rest := by
  generalize hfirst : (Rule.packet, t.text) = lexeme at h
  cases h with
  | echo => cases hfirst
  | cons h hrest =>
    cases h with
    | packet r => exact ⟨r, _, text_injective (Prod.mk.inj hfirst).2.symm, hrest, rfl⟩
    | _ => cases hfirst

theorem TokensOf.append {l₁ l₂ : List Lexeme} {tokens : List Token}
    (h : TokensOf (l₁ ++ l₂) tokens) :
    ∃ t₁ t₂, TokensOf l₁ t₁ ∧ TokensOf l₂ t₂ ∧ tokens = t₁ ++ t₂ := by
  induction l₁ generalizing tokens with
  | nil => exact ⟨[], tokens, .nil, h, rfl⟩
  | cons lexeme l₁ ih =>
    rw [List.cons_append] at h
    cases h with
    | echo h =>
      obtain ⟨t₁, t₂, h₁, h₂, rfl⟩ := ih h
      exact ⟨t₁, t₂, .echo h₁, h₂, rfl⟩
    | cons hlexeme h =>
      obtain ⟨t₁, t₂, h₁, h₂, rfl⟩ := ih h
      exact ⟨_ :: t₁, t₂, .cons hlexeme h₁, h₂, rfl⟩

/-- A packet makes its own token wherever it stands, and its neighbours theirs. -/
theorem Makes.packet {front behind : List Byte} {t : PacketText} {tokens : List Token}
    (h : Makes (front ++ (t.text ++ behind)) tokens) :
    ∃ t₁ r t₂, Makes front t₁ ∧ r.packet = t ∧ Makes behind t₂ ∧
      tokens = t₁ ++ .packet r :: t₂ := by
  obtain ⟨lexemes, hcuts, htokens⟩ := h
  obtain ⟨l₁, h₁⟩ := RuleSet.exists_cuts exists_pattern_singleton front
  obtain ⟨l₂, h₂⟩ := RuleSet.exists_cuts exists_pattern_singleton behind
  obtain rfl := hcuts.unique (cuts_packet t h₁ h₂)
  obtain ⟨t₁, _, ht₁, hrest, rfl⟩ := TokensOf.append htokens
  obtain ⟨r, t₂, hr, ht₂, rfl⟩ := TokensOf.packet hrest
  exact ⟨t₁, r, t₂, ⟨l₁, h₁, ht₁⟩, hr, ⟨l₂, h₂, ht₂⟩, rfl⟩

section Run

variable [Host] [ByteOrder]

/-- What is made of a packet by its checksum. -/
def answer (gdb : GdbProtocolData) (t : PacketText) (beyond : List Byte) (u : HandlerLocals)
    (turns : ℕ) : Except Halt GdbProtocolData :=
  if Accepted t then handleRequest (gdbSendAck gdb) u turns (requestText t beyond)
  else .ok (gdbRequireRetransmission gdb)

/-- The rule of packets, for one of them. -/
def receive (data : ParserData) (t : PacketText) (beyond : List Byte) (u : HandlerLocals)
    (turns : ℕ) : Except Halt ParserData := do
  let data ← handleError data
  let gdb ← answer data.gdb t beyond u turns
  return { data with gdb }

theorem scan_packet (data : ParserData) (r : Reception) :
    scan data (.packet r) = receive data r.packet r.beyond r.u r.turns := by
  simp only [scan, receive, answer, gdbPacketAnalysis_text]

/-- A packet is received wherever it stands in the stream, and its neighbours as if it
were not there. -/
theorem yylex_packet {front behind : List Byte} (t : PacketText) {input : List Chunk}
    (hinput : received input = front ++ (t.text ++ behind)) (last : LastAccepting)
    (env : ℕ → Surroundings) {steps turns : ℕ}
    (hsteps : 4 * (received input).length + 3 ≤ steps) (hturns : (received input).length < turns) :
    ∃ t₁ t₂ beyond u loops, Makes front t₁ ∧ Makes behind t₂ ∧ ∀ data,
      yylex steps turns env (yylexInit input last) data =
        (t₁.foldlM scan data >>= fun data => receive data t beyond u loops) >>= fun data =>
          (t₂ ++ [Token.eof]).foldlM scan data := by
  obtain ⟨tokens, hmakes, -, hrun⟩ := yylex_tokens steps turns (g := yylexInit input last) env
    (proper_init input last) hsteps hturns
  have hpending : pending (yylexInit input last) = _ := hinput
  rw [hpending] at hmakes
  obtain ⟨t₁, r, t₂, h₁, rfl, h₂, rfl⟩ := hmakes.packet
  refine ⟨t₁, t₂, r.beyond, r.u, r.turns, h₁, h₂, fun data => ?_⟩
  rw [hrun data, List.append_assoc, List.foldlM_append, List.cons_append, bind_assoc]
  simp only [List.foldlM_cons, scan_packet]

end Run

/-- `$?#3f` -/
def reasonPacket : PacketText := reasonRequest.packet

/-- An incomplete packet in front of a complete one. -/
def interruptedInput : List Chunk := [⟨ascii "$m0", by decide⟩, ⟨ascii ",4$?#3f+", by decide⟩]

theorem yylex_interruptedInput : ∃ t₁ t₂ beyond u loops, Makes (ascii "$m0,4") t₁ ∧
    Makes (ascii "+") t₂ ∧ ∀ data,
      @yylex Host.x86 .x86 47 12 noSurroundings (yylexInit interruptedInput (0, 0)) data =
        (t₁.foldlM (@scan Host.x86 .x86) data >>= fun data =>
          @receive Host.x86 .x86 data reasonPacket beyond u loops) >>= fun data =>
            (t₂ ++ [Token.eof]).foldlM (@scan Host.x86 .x86) data :=
  @yylex_packet Host.x86 .x86 (ascii "$m0,4") (ascii "+") reasonPacket interruptedInput (by decide)
    (0, 0) noSurroundings 47 12 (by decide) (by decide)

end ArmSimulator.Scanning
