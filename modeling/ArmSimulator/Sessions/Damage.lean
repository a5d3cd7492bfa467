import ArmSimulator.Scanning.Packets

/-! # Packets damaged on the way

The checksum adds up the body of a packet and is sent in hexadecimal. One changed byte
that leaves the packet a packet is found out, unless it is a digit of the checksum that
has kept its value. A damaged packet has no other effect than that it is asked for again.
-/

namespace ArmSimulator.Sessions

open Machine Machine.Gdb Scanning Debugger Foundation.LongestMatch Foundation.ExceptRun
open Foundation.Numeral

/-! ## Checksums -/

section Checksum

variable {t t' : PacketText}

theorem given_lt (t : PacketText) : given t < 2 ^ 8 := by
  have hdigit : ∀ c : Byte, ∀ h : (hexValue c).isSome, (hexValue c).get h < 16 := by decide
  have hhigh := hdigit t.high t.high_hex
  have hlow := hdigit t.low t.low_hex
  rw [given]
  omega

theorem accepted_iff (t : PacketText) : Accepted t ↔ t.body.sum.toNat = given t := by
  have hgiven : toUnsigned false (given t) = (BitVec.ofNat 8 (given t)).setWidth 32 := by
    have h := toUnsigned_byte (BitVec.ofNat 8 (given t))
    rwa [BitVec.toNat_ofNat, Nat.mod_eq_of_lt (given_lt t)] at h
  rw [Accepted, hgiven]
  constructor
  · intro h
    have h := congrArg (BitVec.setWidth 8) h
    rw [BitVec.setWidth_setWidth_of_le _ (by decide), BitVec.setWidth_setWidth_of_le _ (by decide),
      BitVec.setWidth_eq, BitVec.setWidth_eq] at h
    rw [h, BitVec.toNat_ofNat, Nat.mod_eq_of_lt (given_lt t)]
  · intro h
    rw [← h, BitVec.ofNat_toNat, BitVec.setWidth_eq]

theorem sum_replaced_iff (pre post : List Byte) {a b : Byte} :
    (pre ++ a :: post).sum = (pre ++ b :: post).sum ↔ a = b := by
  simp

theorem given_eq_iff : given t = given t' ↔
    hexValue t.high = hexValue t'.high ∧ hexValue t.low = hexValue t'.low := by
  have hdigit : ∀ c : Byte, ∀ h : (hexValue c).isSome, (hexValue c).get h < 16 := by decide
  have h₁ := hdigit t.low t.low_hex
  have h₂ := hdigit t'.low t'.low_hex
  rw [← Option.some_get t.high_hex, ← Option.some_get t'.high_hex, ← Option.some_get t.low_hex,
    ← Option.some_get t'.low_hex, Option.some.injEq, Option.some.injEq, given, given]
  omega

end Checksum

/-! ## One changed byte -/

section Damage

variable {t t' : PacketText} {pre post : List Byte} {a b : Byte}

/-- The byte that has changed is one of the body or a digit of the checksum. -/
inductive Changed (t t' : PacketText) (a b : Byte) : ℕ → Prop where
  | body (pre post : List Byte) (ht : t.body = pre ++ a :: post) (ht' : t'.body = pre ++ b :: post)
      (hhigh : t.high = t'.high) (hlow : t.low = t'.low) (n : ℕ) : Changed t t' a b (n + 3)
  | high (hbody : t.body = t'.body) (ht : t.high = a) (ht' : t'.high = b) (hlow : t.low = t'.low) :
      Changed t t' a b 1
  | low (hbody : t.body = t'.body) (hhigh : t.high = t'.high) (ht : t.low = a) (ht' : t'.low = b) :
      Changed t t' a b 0

def closing (t : PacketText) : List Byte := [char '#', t.high, t.low]

theorem text_eq_append {u v : List Byte} (h : t.text = u ++ v) (hv : v.length = 3) :
    char '$' :: t.body = u ∧ closing t = v := by
  have h : char '$' :: t.body ++ closing t = u ++ v := h
  exact List.append_inj' h hv.symm

theorem text_eq_closing {u v : List Byte} {m : ℕ} (h : t.text = u ++ v) (hv : v.length + m = 3) :
    char '$' :: t.body ++ (closing t).take m = u ∧ (closing t).drop m = v := by
  have h : char '$' :: t.body ++ (closing t).take m ++ (closing t).drop m = u ++ v := by
    rw [List.append_assoc, List.take_append_drop]
    exact h
  refine List.append_inj' h ?_
  rw [List.length_drop]
  change 3 - m = _
  omega

theorem changed_of_text (ht : t.text = pre ++ a :: post) (ht' : t'.text = pre ++ b :: post)
    (hab : a ≠ b) : Changed t t' a b post.length := by
  by_cases hpost : 3 ≤ post.length
  · obtain ⟨n, hn⟩ : ∃ n, post.length = n + 3 := ⟨post.length - 3, by omega⟩
    have hsplit (c : Byte) : pre ++ c :: post = (pre ++ c :: post.take n) ++ post.drop n := by
      rw [List.append_assoc, List.cons_append, List.take_append_drop]
    have hlast : (post.drop n).length = 3 := by
      rw [List.length_drop]
      omega
    obtain ⟨hbody, hframe⟩ := text_eq_append (ht.trans (hsplit a)) hlast
    obtain ⟨hbody', hframe'⟩ := text_eq_append (ht'.trans (hsplit b)) hlast
    obtain ⟨hhigh, hlow⟩ : t.high = t'.high ∧ t.low = t'.low := by
      simpa [closing] using hframe.trans hframe'.symm
    rw [hn]
    cases pre with
    | nil => exact absurd ((List.cons.inj hbody).1.symm.trans (List.cons.inj hbody').1) hab
    | cons c pre =>
      exact .body pre (post.take n) (List.cons.inj hbody).2 (List.cons.inj hbody').2 hhigh hlow n
  · obtain ⟨m, hm⟩ : ∃ m, post.length + 1 + m = 3 := ⟨2 - post.length, by omega⟩
    obtain ⟨hpre, hclosing⟩ := text_eq_closing ht hm
    obtain ⟨hpre', hclosing'⟩ := text_eq_closing ht' hm
    obtain ⟨hopen, htake⟩ := List.append_inj' (hpre.trans hpre'.symm) (by simp [closing])
    have hbody : t.body = t'.body := (List.cons.inj hopen).2
    match m with
    | 0 =>
      have ha : char '#' = a := (List.cons.inj hclosing).1
      have hb : char '#' = b := (List.cons.inj hclosing').1
      exact absurd (ha.symm.trans hb) hab
    | 1 =>
      obtain ⟨ha, hlow⟩ := List.cons.inj hclosing
      obtain ⟨hb, hlow'⟩ := List.cons.inj hclosing'
      have hlow : t.low = t'.low := (List.cons.inj (hlow.trans hlow'.symm)).1
      rw [show post.length = 1 by omega]
      exact .high hbody ha hb hlow
    | 2 =>
      have hhigh : t.high = t'.high := (List.cons.inj (List.cons.inj htake).2).1
      rw [show post.length = 0 by omega]
      exact .low hbody hhigh (List.cons.inj hclosing).1 (List.cons.inj hclosing').1
    | m + 3 => omega

/-- One changed byte is found out, unless it is a digit that has kept its value. -/
theorem accepted_changed_iff (h : Accepted t) (ht : t.text = pre ++ a :: post)
    (ht' : t'.text = pre ++ b :: post) (hab : a ≠ b) :
    Accepted t' ↔ post.length < 2 ∧ hexValue a = hexValue b := by
  rw [accepted_iff] at h
  rw [accepted_iff]
  have hchanged := changed_of_text ht ht' hab
  generalize post.length = n at hchanged
  cases hchanged with
  | body pre post hbody hbody' hhigh hlow n =>
    have hgiven : given t = given t' := given_eq_iff.mpr ⟨by rw [hhigh], by rw [hlow]⟩
    refine iff_of_false (fun hsum => hab ?_) fun hlt => absurd hlt.1 (by omega)
    rw [← hgiven, ← h, BitVec.toNat_inj, hbody, hbody', eq_comm, sum_replaced_iff] at hsum
    exact hsum
  | high hbody ha hb hlow =>
    rw [← hbody, h, given_eq_iff, ha, hb, hlow]
    simp
  | low hbody hhigh ha hb =>
    rw [← hbody, h, given_eq_iff, ha, hb, hhigh]
    simp

end Damage

/-- One byte has changed on the way, and with it the value of the packet. -/
def Damaged (t t' : PacketText) : Prop :=
  ∃ pre post a b, t.text = pre ++ a :: post ∧ t'.text = pre ++ b :: post ∧ a ≠ b ∧
    ¬ (post.length < 2 ∧ hexValue a = hexValue b)

theorem Damaged.not_accepted {t t' : PacketText} (h : Damaged t t') (ht : Accepted t) :
    ¬ Accepted t' := by
  obtain ⟨pre, post, a, b, htext, htext', hab, hvalue⟩ := h
  exact fun h' => hvalue ((accepted_changed_iff ht htext htext' hab).mp h')

/-! ## Retransmissions -/

theorem makes_nil {tokens : List Token} (h : Makes [] tokens) : tokens = [] := by
  obtain ⟨lexemes, hcuts, htokens⟩ := h
  obtain rfl := hcuts.unique .nil
  cases htokens
  rfl

theorem makes_packets {copies : List PacketText} {tokens : List Token}
    (h : Makes (copies.flatMap PacketText.text) tokens) :
    ∃ rs : List Reception, rs.map Reception.packet = copies ∧ tokens = rs.map .packet := by
  induction copies generalizing tokens with
  | nil => exact ⟨[], rfl, makes_nil h⟩
  | cons t copies ih =>
    have h : Makes ([] ++ (t.text ++ copies.flatMap PacketText.text)) tokens := h
    obtain ⟨t₁, r, t₂, h₁, rfl, h₂, rfl⟩ := h.packet
    obtain ⟨rs, rfl, rfl⟩ := ih h₂
    exact ⟨r :: rs, rfl, by rw [makes_nil h₁]; rfl⟩

theorem makes_copies {front : List Byte} {copies : List PacketText} {tokens : List Token}
    (h : Makes (front ++ copies.flatMap PacketText.text) tokens) :
    ∃ (t₁ : List Token) (rs : List Reception), Makes front t₁ ∧ rs.map Reception.packet = copies ∧
      tokens = t₁ ++ rs.map .packet := by
  cases copies with
  | nil =>
    rw [List.flatMap_nil, List.append_nil] at h
    exact ⟨tokens, [], h, rfl, by simp⟩
  | cons t copies =>
    obtain ⟨t₁, r, t₂, h₁, rfl, h₂, rfl⟩ := Makes.packet h
    obtain ⟨rs, rfl, rfl⟩ := makes_packets h₂
    exact ⟨t₁, r :: rs, h₁, rfl, rfl⟩

/-- A number of packets has been asked for again. -/
def rejected (k : ℕ) (data : ParserData) : ParserData :=
  { data with gdb := { data.gdb with
      written := data.gdb.written ++ List.replicate k (ascii "-") } }

theorem rejected_zero (data : ParserData) : rejected 0 data = data := by
  rw [rejected, List.replicate_zero, List.append_nil]

theorem rejected_rejected (j k : ℕ) (data : ParserData) :
    rejected j (rejected k data) = rejected (k + j) data := by
  simp [rejected, List.replicate_append_replicate]

theorem handleError_len (data : ParserData) : Ensures (handleError data) fun s => s.len = 0 := by
  unfold handleError
  split_ifs with h
  · exact ensures_bind fun _ => ensures_pure rfl
  · exact ensures_pure (not_not.mp h)

theorem handleError_of_len {data : ParserData} (h : data.len = 0) :
    handleError data = .ok data := if_neg (not_not.mpr h)

/-- The collected error is given up first. -/
def giveUp (data : ParserData) : Except Halt ParserData := liftM (handleError data)

theorem giveUp_of_len {data : ParserData} (h : data.len = 0) : giveUp data = .ok data := by
  rw [giveUp, handleError_of_len h]
  rfl

theorem giveUp_len (data : ParserData) : Ensures (giveUp data) fun s => s.len = 0 :=
  ensures_lift (handleError_len data)

section Run

variable [Host] [ByteOrder]

theorem receive_giveUp (data : ParserData) (t : PacketText) (beyond : List Byte)
    (u : HandlerLocals) (turns : ℕ) :
    (giveUp data >>= fun data => receive data t beyond u turns) =
      receive data t beyond u turns := by
  cases hdata : giveUp data with
  | error stop =>
    have hdata : (liftM (handleError data) : Except Halt ParserData) = .error stop := hdata
    rw [receive, hdata]
    rfl
  | ok s =>
    have hs : (liftM (handleError s) : Except Halt ParserData) = .ok s :=
      giveUp_of_len (giveUp_len data s hdata)
    have hdata : (liftM (handleError data) : Except Halt ParserData) = .ok s := hdata
    rw [ok_bind, receive, receive, hs, hdata]

theorem receive_rejected {t : PacketText} (ht : ¬ Accepted t) (data : ParserData)
    (beyond : List Byte) (u : HandlerLocals) (turns : ℕ) :
    receive data t beyond u turns = giveUp data >>= fun data => .ok (rejected 1 data) := by
  simp only [receive, answer, if_neg ht, ok_bind]
  rfl

theorem foldlM_rejected {rs : List Reception} (hrs : ∀ r ∈ rs, ¬ Accepted r.packet)
    (data : ParserData) (r : Reception) :
    ((rs.map Token.packet).foldlM scan data >>= fun data => scan data (.packet r)) =
      giveUp data >>= fun data => scan (rejected rs.length data) (.packet r) := by
  induction rs generalizing data with
  | nil =>
    simp only [List.map_nil, List.foldlM_nil, pure_bind, List.length_nil, rejected_zero,
      scan_packet, receive_giveUp]
  | cons c rs ih =>
    obtain ⟨hc, hrs⟩ := List.forall_mem_cons.mp hrs
    rw [List.map_cons, List.foldlM_cons, scan_packet, receive_rejected hc, bind_assoc, bind_assoc]
    cases hdata : giveUp data with
    | error stop => rfl
    | ok s =>
      have hs : (rejected 1 s).len = 0 := giveUp_len data s hdata
      rw [ok_bind, ok_bind, ok_bind, ih hrs, giveUp_of_len hs, ok_bind, rejected_rejected,
        List.length_cons, Nat.add_comm]

/-- Damaged copies of a packet are asked for again and have no other effect: the request
is handled once, when it arrives undamaged. -/
theorem yylex_retransmitted {front behind : List Byte} {t : PacketText} {copies : List PacketText}
    (ht : Accepted t) (hcopies : ∀ c ∈ copies, Damaged t c) {input : List Chunk}
    (hinput : received input =
      front ++ (copies.flatMap PacketText.text ++ (t.text ++ behind)))
    (last : LastAccepting) (env : ℕ → Surroundings) {steps turns : ℕ}
    (hsteps : 4 * (received input).length + 3 ≤ steps) (hturns : (received input).length < turns) :
    ∃ t₁ t₂ beyond u loops, Makes front t₁ ∧ Makes behind t₂ ∧ ∀ data,
      yylex steps turns env (yylexInit input last) data =
        t₁.foldlM scan data >>= fun data => giveUp data >>= fun data =>
          receive (rejected copies.length data) t beyond u loops >>= fun data =>
            (t₂ ++ [Token.eof]).foldlM scan data := by
  obtain ⟨tokens, hmakes, -, hrun⟩ := yylex_tokens steps turns (g := yylexInit input last) env
    (proper_init input last) hsteps hturns
  have hpending : pending (yylexInit input last) = _ := hinput
  rw [hpending, ← List.append_assoc] at hmakes
  obtain ⟨_, r, t₂, hfront, rfl, h₂, rfl⟩ := hmakes.packet
  obtain ⟨t₁, rs, h₁, rfl, rfl⟩ := makes_copies hfront
  have hrs : ∀ c ∈ rs, ¬ Accepted c.packet := fun c hc =>
    (hcopies c.packet (List.mem_map_of_mem hc)).not_accepted ht
  refine ⟨t₁, t₂, r.beyond, r.u, r.turns, h₁, h₂, fun data => ?_⟩
  rw [hrun data]
  have hsplit : t₁ ++ rs.map Token.packet ++ .packet r :: t₂ ++ [Token.eof] =
      t₁ ++ (rs.map Token.packet ++ .packet r :: (t₂ ++ [Token.eof])) := by
    simp
  rw [hsplit, List.foldlM_append]
  refine congrArg _ (funext fun data => ?_)
  rw [List.foldlM_append]
  simp only [List.foldlM_cons]
  rw [← bind_assoc, foldlM_rejected hrs, bind_assoc, List.length_map]
  simp only [scan_packet]

end Run

theorem plain_step : ∀ c ∈ [char 's'], c ≠ char '$' ∧ c ≠ char '#' := by decide

/-- `$s#3f` and `$?#33` for `$?#3f` -/
def damagedReasons : List PacketText :=
  [{ reasonPacket with body := [char 's'], body_plain := plain_step },
    { reasonPacket with low := char '3', low_hex := reasonPacket.high_hex }]

theorem damaged_reasons : ∀ c ∈ damagedReasons, Damaged reasonPacket c := by
  rintro c (_ | ⟨_, _ | ⟨_, ⟨⟩⟩⟩)
  · exact ⟨[char '$'], ascii "#3f", char '?', char 's', by decide, by decide, by decide, by decide⟩
  · exact ⟨ascii "$?#3", [], char 'f', char '3', by decide, by decide, by decide, by decide⟩

def damagedInput : List Chunk :=
  [⟨ascii "+$s#3f$?", by decide⟩, ⟨ascii "#33$?#3f+", by decide⟩]

theorem yylex_damagedInput : ∃ t₁ t₂ beyond u loops, Makes (ascii "+") t₁ ∧
    Makes (ascii "+") t₂ ∧ ∀ data,
      @yylex Host.x86 .x86 71 18 noSurroundings (yylexInit damagedInput (0, 0)) data =
        t₁.foldlM (@scan Host.x86 .x86) data >>= fun data => giveUp data >>= fun data =>
          @receive Host.x86 .x86 (rejected 2 data) reasonPacket beyond u loops >>= fun data =>
            (t₂ ++ [Token.eof]).foldlM (@scan Host.x86 .x86) data :=
  @yylex_retransmitted Host.x86 .x86 (ascii "+") (ascii "+") reasonPacket damagedReasons
    (by decide) damaged_reasons damagedInput (by decide) (0, 0) noSurroundings 71 18 (by decide)
    (by decide)

end ArmSimulator.Sessions
