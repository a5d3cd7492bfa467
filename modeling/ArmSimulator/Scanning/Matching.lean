import ArmSimulator.Scanning.Tables

/-! # One token of the generated scanner

Wherever the reads have cut the input, and whatever NULs are in it, the scanner is in
the state that the automaton reaches on what it has read of the token, and it
remembers the last accepting state it came through. What it returns is therefore the
rule and the length of the longest match.
-/

namespace ArmSimulator.Scanning

open Machine Machine.Gdb Foundation.LongestMatch Foundation.ExceptRun

/-- The state after the first characters of an input. -/
def stateAt (d : List Byte) (k : ℕ) : State := automaton.run (d.take k)

section States

variable {d : List Byte}

theorem stateAt_zero (d : List Byte) : stateAt d 0 = .start := by
  rw [stateAt, List.take_zero]
  rfl

theorem stateAt_succ {k : ℕ} (hk : k < d.length) :
    stateAt d (k + 1) = (stateAt d k).next (kind d[k]) := by
  rw [stateAt, List.take_succ_eq_append_getElem hk, Recogniser.run_concat]
  rfl

theorem label_one (hd : 0 < d.length) : (stateAt d 1).label ≠ none := by
  obtain ⟨c, d, rfl⟩ := List.exists_cons_of_length_pos hd
  have h : (stateAt (c :: d) 1).label = _ := label_singleton c
  rw [h]
  exact Option.some_ne_none _

theorem stateAt_behind {k : ℕ} (h : (stateAt d k).Final) :
    ∀ m, k < m → m ≤ d.length → stateAt d m = .jam := by
  intro m hm
  induction m, hm using Nat.le_induction with
  | base =>
    intro hle
    rw [stateAt_succ (by omega), h]
  | succ m _ ih =>
    intro hle
    rw [stateAt_succ (by omega), ih (by omega), State.next_jam]

theorem label_behind {k : ℕ} (h : (stateAt d k).Final) :
    ∀ m, k < m → m ≤ d.length → (stateAt d m).label = none := by
  intro m hm hle
  rw [stateAt_behind h m hm hle]
  rfl

theorem label_from {k : ℕ} (h : stateAt d k = .jam) :
    ∀ m, k ≤ m → m ≤ d.length → (stateAt d m).label = none := by
  intro m hm hle
  rcases hm.lt_or_eq with hm | rfl
  · exact label_behind (fun c => by rw [h, State.next_jam]) m hm hle
  · rw [h]
    rfl

theorem alive_before {k : ℕ} (hk : k ≤ d.length) (h : stateAt d k ≠ .jam) :
    ∀ j ≤ k, stateAt d j ≠ .jam := by
  intro j hj hjam
  rcases hj.lt_or_eq with hj | rfl
  · exact h (stateAt_behind (fun c => by rw [hjam, State.next_jam]) k hj hk)
  · exact h hjam

/-- The last accepting state before a position. -/
structure Best (d : List Byte) (last : LastAccepting) (cp : ℕ) : Prop where
  lt : last.2 < cp
  state : last.1 = (stateAt d last.2).number
  accepts : (stateAt d last.2).label ≠ none
  le : ∀ k < cp, (stateAt d k).label ≠ none → k ≤ last.2

/-- What the scanner remembers at a position; before the second there is nothing yet, and
what is left there of the token before makes no difference. -/
def Noted (d : List Byte) (last : LastAccepting) (cp : ℕ) : Prop := 2 ≤ cp → Best d last cp

theorem noted_zero (d : List Byte) (last : LastAccepting) : Noted d last 0 :=
  fun h => absurd h (by omega)

theorem Noted.before {last : LastAccepting} {cp : ℕ} (h : Noted d last (cp + 1))
    (hlabel : (stateAt d cp).label = none) : Noted d last cp := by
  intro htwo
  have hbest := h (by omega)
  have hne : last.2 ≠ cp := fun hcp => hbest.accepts (hcp ▸ hlabel)
  have hlt := hbest.lt
  exact ⟨by omega, hbest.state, hbest.accepts, fun k hk => hbest.le k (by omega)⟩

theorem Noted.note {last : LastAccepting} {cp : ℕ} (h : Noted d last cp) (hcp : cp ≤ d.length) :
    ∃ last', noteAccepting (stateAt d cp).number cp last = .ok last' ∧ Noted d last' (cp + 1) := by
  rw [noteAccepting, entry_yyAccept]
  refine ⟨_, rfl, fun htwo => ?_⟩
  by_cases hlabel : (stateAt d cp).label = none
  · rw [if_neg (mt (act_pos_iff _).mp (not_not.mpr hlabel))]
    have hne : cp ≠ 1 := by
      rintro rfl
      exact label_one (by omega) hlabel
    have hbest := h (by omega)
    refine ⟨by have := hbest.lt; omega, hbest.state, hbest.accepts, fun k hk hk' => ?_⟩
    rcases Nat.lt_succ_iff_lt_or_eq.mp hk with hk | rfl
    · exact hbest.le k hk hk'
    · exact absurd hlabel hk'
  · rw [if_pos ((act_pos_iff _).mpr hlabel)]
    exact ⟨Nat.lt_succ_self cp, rfl, hlabel, fun k hk _ => Nat.le_of_lt_succ hk⟩

end States

/-! ## The loops over the buffer -/

section Loops

variable {d chars : List Byte} {last : LastAccepting}

/-- How the loop at `yy_match` ends. -/
inductive MatchEnd (d chars : List Byte) (cp : ℕ) : ℕ × ℕ × LastAccepting → Prop where
  /-- in a state that jams on everything -/
  | final (k : ℕ) (last : LastAccepting) (hlt : cp < k) (hk : k ≤ chars.length)
      (h : (stateAt d k).Final) (hnoted : Noted d last k) :
      MatchEnd d chars cp ((stateAt d k).number, k, last)
  /-- behind a NUL, of the input or of the end of the buffer -/
  | nul (k : ℕ) (hle : cp ≤ k) (hk : k ≤ chars.length) (halive : stateAt d k ≠ .jam)
      (hnul : ∀ h : k < chars.length, chars[k] = 0) : MatchEnd d chars cp (13, k + 2, 3, k + 1)

theorem MatchEnd.mono {cp : ℕ} {r : ℕ × ℕ × LastAccepting} (h : MatchEnd d chars (cp + 1) r) :
    MatchEnd d chars cp r := by
  cases h with
  | final k last hlt hk h hnoted => exact .final k last (by omega) hk h hnoted
  | nul k hle hk halive hnul => exact .nul k (by omega) hk halive hnul

theorem yyMatch_nul {s : State} (hs : s ≠ .jam) (c : Byte) (cells : List Byte) (cp : ℕ)
    {last' : LastAccepting} (hnote : noteAccepting s.number cp last = .ok last') :
    yyMatch (0 :: c :: cells) s.number cp last = .ok (13, cp + 2, 3, cp + 1) := by
  obtain ⟨k, hk, hentry⟩ := exists_entry_yyEc c
  rw [yyMatch, entry_yyEc_nul, ok_bind, hnote, ok_bind, yyNextState_nul hs, ok_bind]
  change yyMatch (c :: cells) 3 (cp + 1) last' = _
  rw [yyMatch, hentry, ok_bind]
  change (yyNextState 3 k >>= _) = _
  rw [yyNextState_end hk]
  rfl

theorem yyMatch_ends (hchars : chars <+: d) (n : ℕ) : ∀ {cp : ℕ} {last : LastAccepting},
    chars.length - cp = n → cp ≤ chars.length → stateAt d cp ≠ .jam → Noted d last cp →
    Returns (yyMatch ((chars ++ [0, 0]).drop cp) (stateAt d cp).number cp last)
      (MatchEnd d chars cp) := by
  have hlen := hchars.length_le
  induction n with
  | zero =>
    intro cp last hn hcp halive hnoted
    obtain rfl : cp = chars.length := by omega
    obtain ⟨last', hnote, -⟩ := hnoted.note hlen
    rw [List.drop_left]
    exact ⟨_, yyMatch_nul halive 0 [] _ hnote,
      .nul _ le_rfl le_rfl halive fun h => absurd h (lt_irrefl _)⟩
  | succ n ih =>
    intro cp last hn hcp halive hnoted
    have hlt : cp < chars.length := by omega
    obtain ⟨last', hnote, hnoted'⟩ := hnoted.note (hcp.trans hlen)
    have hcell : (chars ++ [0, 0]).drop cp = chars[cp] :: (chars ++ [0, 0]).drop (cp + 1) := by
      rw [List.drop_eq_getElem_cons (by rw [List.length_append]; omega),
        List.getElem_append_left hlt]
    rw [hcell]
    by_cases hnul : chars[cp] = 0
    · obtain ⟨c, cells, hnext⟩ : ∃ c cells, (chars ++ [0, 0]).drop (cp + 1) = c :: cells :=
        List.exists_cons_of_length_pos (by simp; omega)
      rw [hnul, hnext]
      exact ⟨_, yyMatch_nul halive c cells cp hnote, .nul cp le_rfl hcp halive fun _ => hnul⟩
    · obtain ⟨base, hbase, hfinal⟩ := exists_entry_yyBase (stateAt d (cp + 1))
      have hstate : (stateAt d cp).next (kind chars[cp]) = stateAt d (cp + 1) := by
        rw [stateAt_succ (by omega), hchars.getElem hlt]
      rw [yyMatch, entry_yyEc hnul, ok_bind, hnote, ok_bind, yyNextState_eq halive, ok_bind,
        hstate, hbase, ok_bind]
      split_ifs with h14
      · refine (ih (by omega) hlt (fun hjam => h14 (hfinal.mpr ?_)) hnoted').mono
          fun _ => MatchEnd.mono
        rw [hjam]
        exact State.next_jam
      · exact returns_pure (.final (cp + 1) last' (Nat.lt_succ_self _) hlt
          (hfinal.mp (not_not.mp h14)) hnoted')

theorem previousStateLoop_eq {k : ℕ} (hk : k ≤ d.length) (halive : stateAt d k ≠ .jam)
    (n : ℕ) : ∀ {cp : ℕ}
    {last : LastAccepting}, k - cp = n → cp ≤ k → Noted d last cp →
    ∃ last', previousStateLoop ((d.take k).drop cp) cp (stateAt d cp).number last =
      .ok ((stateAt d k).number, last') ∧ Noted d last' k := by
  induction n with
  | zero =>
    intro cp last hn hcp hnoted
    obtain rfl : cp = k := by omega
    rw [List.drop_eq_nil_of_le (List.length_take_le _ _)]
    exact ⟨last, rfl, hnoted⟩
  | succ n ih =>
    intro cp last hn hcp hnoted
    have hlt : cp < (d.take k).length := by
      rw [List.length_take_of_le hk]
      omega
    obtain ⟨last', hnote, hnoted'⟩ := hnoted.note (hcp.trans hk)
    obtain ⟨last'', hloop, hnoted''⟩ := ih (by omega) (by omega) hnoted'
    refine ⟨last'', ?_, hnoted''⟩
    rw [List.drop_eq_getElem_cons hlt, List.getElem_take, previousStateLoop, textClass_eq, ok_bind,
      hnote, ok_bind, yyNextState_eq (alive_before hk halive cp hcp), ok_bind,
      ← stateAt_succ (by omega), hloop]

theorem yyGetPreviousState_eq {k : ℕ} (hk : k ≤ d.length) (halive : stateAt d k ≠ .jam)
    (last : LastAccepting) : ∃ last', yyGetPreviousState (d.take k) last =
      .ok ((stateAt d k).number, last') ∧ Noted d last' k := by
  have hstart : (stateAt d 0).number = 1 := by
    rw [stateAt_zero]
    rfl
  have h := previousStateLoop_eq hk halive k (Nat.sub_zero k) k.zero_le (noted_zero d last)
  rwa [hstart, List.drop_zero] at h

theorem yyTryNulTrans_eq {k : ℕ} (hk : k < d.length) (hnul : d[k] = 0)
    (halive : stateAt d k ≠ .jam) (hnoted : Noted d last k) :
    ∃ last', yyTryNulTrans (stateAt d k).number k last =
      .ok (if stateAt d (k + 1) = .jam then 0 else (stateAt d (k + 1)).number, last') ∧
      Noted d last' (k + 1) := by
  obtain ⟨last', hnote, hnoted'⟩ := hnoted.note hk.le
  have hnext : (stateAt d k).next (kind 0) = stateAt d (k + 1) := by
    rw [stateAt_succ hk, hnul]
  refine ⟨last', ?_, hnoted'⟩
  have htrans : yyNextState (stateAt d k).number 1 = .ok (stateAt d (k + 1)).number := by
    rw [← hnext]
    exact yyNextState_eq halive .other
  rw [yyTryNulTrans, hnote, ok_bind, htrans, ok_bind]
  cases stateAt d (k + 1) <;> rfl

end Loops

/-! ## Tokens -/

/-- What is still to be read. -/
def pending (g : Yyguts) : List Byte := g.chars ++ (g.input.map Subtype.val).flatten

/-- Nothing is read once the end of the input has been seen. -/
def Proper (g : Yyguts) : Prop := g.status = .eofPending → g.input = []

/-- The token that has been scanned is the one at the front of the input, and all of it is
in the buffer. -/
structure Scanned (d : List Byte) (r : ℕ × ℕ × Yyguts) : Prop where
  proper : Proper r.2.2
  left : pending r.2.2 = d
  found : ∃ i : Rule, r.1 = i.act ∧ rules.Longest i (d.take r.2.1) (d.drop r.2.1)
  length_le : r.2.1 ≤ r.2.2.chars.length

section Tokens

variable {d : List Byte} {g : Yyguts}

theorem chars_initial (hd : pending g = d) : g.chars <+: d := hd ▸ List.prefix_append _ _

theorem yyScan_find (hproper : Proper g) (hd : pending g = d) {k : ℕ} (hpos : 0 < k)
    (hk : k ≤ g.chars.length) (hnoted : (stateAt d k).label = none → Noted d g.last k)
    (hbehind : ∀ m, k < m → m ≤ d.length → (stateAt d m).label = none) (turns : ℕ) :
    Returns (yyScan (turns + 1) g (.yyFindAction (stateAt d k).number k)) (Scanned d) := by
  have hlen := (chars_initial hd).length_le
  have hact (i : Rule) : i.act ≠ 0 ∧ i.act ≠ yyEndOfBuffer := by cases i <;> decide
  rw [yyScan, entry_yyAccept, ok_bind]
  cases hlabel : (stateAt d k).label with
  | some i =>
    rw [State.act_eq hlabel]
    simp only [(hact i).1, if_false, pure_bind, (hact i).2]
    exact returns_pure ⟨hproper, hd, ⟨i, rfl, recognises_rules.longest hpos (hk.trans hlen) hlabel
      hbehind⟩, hk⟩
  | none =>
    have hne : k ≠ 1 := by
      rintro rfl
      exact label_one (by omega) hlabel
    have hbest := hnoted hlabel (by omega)
    obtain ⟨i, hi⟩ := Option.ne_none_iff_exists'.mp hbest.accepts
    have hzero : (stateAt d k).act = 0 := by
      rw [State.act, hlabel]
      rfl
    have haccept : entry yyAccept g.last.1 = .ok i.act := by
      rw [hbest.state, entry_yyAccept, State.act_eq hi]
    have hlast : 0 < g.last.2 := hbest.le 1 (by omega) (label_one (by omega))
    have hlt := hbest.lt
    have hrest : ∀ m, g.last.2 < m → m ≤ d.length → (stateAt d m).label = none := by
      intro m hm hmlen
      rcases lt_trichotomy m k with hmk | rfl | hmk
      · by_contra hm'
        exact absurd (hbest.le m hmk hm') (Nat.not_le_of_lt hm)
      · exact hlabel
      · exact hbehind m hmk hmlen
    simp only [hzero, if_true, haccept, ok_bind, (hact i).1, if_false, (hact i).2]
    exact returns_pure ⟨hproper, hd, ⟨i, rfl, recognises_rules.longest hlast
      (hlt.le.trans (hk.trans hlen)) hi hrest⟩, hlt.le.trans hk⟩

theorem leaveNew_eq (hproper : Proper g) (hd : pending g = d) :
    ∃ g', leaveNew g = g' ∧ Proper g' ∧ pending g' = d ∧ g'.chars = g.chars ∧
      g'.input = g.input := by
  unfold leaveNew
  split_ifs
  · exact ⟨_, rfl, fun h => (by cases h), hd, rfl, rfl⟩
  · exact ⟨_, rfl, hproper, hd, rfl, rfl⟩

theorem yyGetNextBuffer_cons {chunk : Chunk} {input : List Chunk} (hproper : Proper g)
    (h : g.input = chunk :: input) : yyGetNextBuffer g (g.chars.length + 1) =
      (.continueScan, { g with chars := g.chars ++ chunk.val, input }) := by
  have hstatus : g.status ≠ .eofPending := fun hs => by
    rw [hproper hs] at h
    cases h
  rw [yyGetNextBuffer, h]
  simp only [hstatus, if_false, chunk.property, Nat.add_sub_cancel, List.take_length]

theorem yyGetNextBuffer_nil (h : g.input = []) : yyGetNextBuffer g (g.chars.length + 1) =
    if g.chars = [] then (.endOfFile, { g with chars := [], status := .new, input := [] })
    else (.lastMatch, { g with chars := g.chars, status := .eofPending, input := [] }) := by
  rw [yyGetNextBuffer, h]
  simp only [ite_self, if_true, Nat.add_sub_cancel, List.take_length]

/-- Where the scanning goes on behind a NUL, with less left to do than `m`. -/
inductive Resumed (d : List Byte) (m : ℕ) : Yyguts × Option Label → Prop where
  | scanning (g : Yyguts) (cp : ℕ) (hproper : Proper g) (hd : pending g = d)
      (hcp : cp ≤ g.chars.length) (halive : stateAt d cp ≠ .jam) (hnoted : Noted d g.last cp)
      (hless : d.length - cp + g.input.length < m) :
      Resumed d m (g, some (.yyMatch (stateAt d cp).number cp))
  | finding (g : Yyguts) (k : ℕ) (hproper : Proper g) (hd : pending g = d) (hpos : 0 < k)
      (hk : k ≤ g.chars.length) (hnoted : (stateAt d k).label = none → Noted d g.last k)
      (hbehind : ∀ m, k < m → m ≤ d.length → (stateAt d m).label = none) :
      Resumed d m (g, some (.yyFindAction (stateAt d k).number k))

theorem endOfBuffer_resumes (hpos : 0 < d.length) (hproper : Proper g) (hd : pending g = d)
    {k : ℕ} (hk : k ≤ g.chars.length) (halive : stateAt d k ≠ .jam)
    (hnul : ∀ h : k < g.chars.length, g.chars[k] = 0) :
    Returns (endOfBuffer g (k + 1)) (Resumed d (d.length - k + g.input.length)) := by
  obtain ⟨g', hg', hproper', hd', hchars, hinput⟩ := leaveNew_eq hproper hd
  have hpre := chars_initial hd'
  have hlen := hpre.length_le
  rw [← hchars] at hk
  have htext : g'.chars.take k = d.take k := by
    obtain ⟨rest, rfl⟩ := hpre
    rw [List.take_append_of_le_length hk]
  unfold endOfBuffer
  simp only [hg', Nat.add_sub_cancel]
  by_cases hlt : k < g'.chars.length
  · -- a NUL of the input
    have hdk : d[k] = 0 := by
      rw [← hpre.getElem hlt]
      simp only [hchars, hnul (hchars ▸ hlt)]
    obtain ⟨last₁, hstate, hnoted₁⟩ := yyGetPreviousState_eq (hk.trans hlen) halive g'.last
    obtain ⟨last₂, htrans, hnoted₂⟩ := yyTryNulTrans_eq (hlt.trans_le hlen) hdk halive hnoted₁
    simp only [if_pos (show k + 1 ≤ g'.chars.length from hlt), htext, hstate, ok_bind, htrans]
    by_cases hjam : stateAt d (k + 1) = .jam
    · have hk0 : k ≠ 0 := by
        rintro rfl
        exact label_one hpos (by rw [hjam]; rfl)
      simp only [hjam, if_true, ne_eq, not_true_eq_false, if_false]
      exact returns_pure (.finding _ k hproper' hd' (Nat.pos_of_ne_zero hk0) hk hnoted₂.before
        (label_from hjam))
    · have hnumber : (stateAt d (k + 1)).number ≠ 0 := by cases stateAt d (k + 1) <;> decide
      simp only [hjam, if_false, hnumber, ne_eq, not_false_eq_true, if_true]
      refine returns_pure (.scanning _ (k + 1) hproper' hd' hlt hjam hnoted₂ ?_)
      change d.length - (k + 1) + g'.input.length < _
      rw [hinput]
      omega
  · obtain rfl : k = g'.chars.length := by omega
    rw [if_neg (by omega)]
    obtain ⟨last, hstate, hnoted⟩ := yyGetPreviousState_eq hlen halive g'.last
    cases hin : g'.input with
    | cons chunk input =>
      rw [yyGetNextBuffer_cons hproper' hin]
      simp only [List.take_left, ← htext, List.take_length] at hstate ⊢
      rw [hstate, ok_bind]
      have hinput' : input.length < g.input.length := by
        rw [← hinput, hin]
        exact Nat.lt_succ_self _
      refine returns_pure (.scanning _ g'.chars.length ?_ ?_ ?_ halive hnoted ?_)
      · intro hs
        rw [hproper' hs] at hin
        cases hin
      · rw [← hd', pending, pending, hin]
        simp
      · simp
      · change d.length - g'.chars.length + input.length < _
        omega
    | nil =>
      have hall : g'.chars = d := by
        rw [← hd', pending, hin]
        simp
      have hne : g'.chars ≠ [] := List.ne_nil_of_length_pos (by rw [hall]; exact hpos)
      rw [yyGetNextBuffer_nil hin, if_neg hne]
      simp only [← htext, List.take_length] at hstate
      simp only [hstate, ok_bind]
      refine returns_pure (.finding _ g'.chars.length (fun _ => rfl) ?_ ?_ le_rfl (fun _ => hnoted)
        ?_)
      · rw [← hd', pending, pending, hin]
      · exact List.length_pos_of_ne_nil hne
      · intro m hm hle
        rw [hall] at hm
        omega

theorem yyScan_endOfBuffer (g : Yyguts) (k turns : ℕ) :
    yyScan (turns + 1) { g with last := (3, k + 1) } (.yyFindAction 13 (k + 2)) =
      endOfBuffer { g with last := (3, k + 1) } (k + 1) >>= fun r => match r with
        | (g, some label) => yyScan turns g label
        | (g, none) => .ok (yyStateEof, 0, g) := rfl

/-- From any position within a token, in at most two steps for each character and each
read that are left. -/
theorem yyScan_scanned (hpos : 0 < d.length) (turns : ℕ) : ∀ {g : Yyguts} {cp : ℕ}, Proper g →
    pending g = d → cp ≤ g.chars.length → stateAt d cp ≠ .jam → Noted d g.last cp →
    2 * (d.length - cp + g.input.length) + 3 ≤ turns →
    Returns (yyScan turns g (.yyMatch (stateAt d cp).number cp)) (Scanned d) := by
  induction turns using Nat.strong_induction_on with
  | _ turns ih =>
    intro g cp hproper hd hcp halive hnoted hturns
    obtain ⟨turns, rfl⟩ : ∃ t, turns = t + 3 := ⟨turns - 3, by omega⟩
    obtain ⟨r, hr, hend⟩ := yyMatch_ends (chars_initial hd) _ rfl hcp halive hnoted
    rw [yyScan, hr, ok_bind]
    cases hend with
    | final k last hlt hk hfinal hnoted' =>
      exact yyScan_find (g := { g with last }) hproper hd (by omega) hk (fun _ => hnoted')
        (label_behind hfinal) _
    | nul k hle hk halive' hnul =>
      obtain ⟨r, hr, hresumed⟩ := endOfBuffer_resumes (g := { g with last := (3, k + 1) }) hpos
        hproper hd hk halive' hnul
      change Returns (yyScan (turns + 2) _ _) _
      rw [yyScan_endOfBuffer, hr, ok_bind]
      cases hresumed with
      | scanning g' cp' hproper' hd' hcp' halive'' hnoted' hless =>
        change d.length - cp' + g'.input.length < d.length - k + g.input.length at hless
        exact ih (turns + 1) (by omega) hproper' hd' hcp' halive'' hnoted' (by omega)
      | finding g' k' hproper' hd' hpos' hk' hnoted' hbehind =>
        exact yyScan_find hproper' hd' hpos' hk' hnoted' hbehind _

theorem yyScan_token (hproper : Proper g) (hpos : 0 < (pending g).length) {turns : ℕ}
    (hturns : 2 * ((pending g).length + g.input.length) + 3 ≤ turns) :
    Returns (yyScan turns g (.yyMatch 1 0)) (Scanned (pending g)) := by
  have hstart : (stateAt (pending g) 0).number = 1 := by
    rw [stateAt_zero]
    rfl
  have h := yyScan_scanned hpos turns hproper rfl (Nat.zero_le _) (by rw [stateAt_zero]; decide)
    (noted_zero _ g.last) (by rwa [Nat.sub_zero])
  rwa [hstart] at h

theorem yyScan_eof (hempty : pending g = []) (turns : ℕ) :
    ∃ g', yyScan (turns + 2) g (.yyMatch 1 0) = .ok (yyStateEof, 0, g') := by
  obtain ⟨hchars, hread⟩ := List.append_eq_nil_iff.mp hempty
  have hinput : g.input = [] := by
    cases hin : g.input with
    | nil => rfl
    | cons chunk input =>
      rw [hin] at hread
      exact absurd (List.append_eq_nil_iff.mp hread).1 chunk.property
  obtain ⟨chars, status, input, last⟩ := g
  obtain rfl : chars = [] := hchars
  obtain rfl : input = [] := hinput
  cases status <;> exact ⟨_, rfl⟩

end Tokens

end ArmSimulator.Scanning
