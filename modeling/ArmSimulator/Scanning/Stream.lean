import ArmSimulator.Debugger.Request
import ArmSimulator.Scanning.Matching

/-! # The whole input

The scanner runs the rules of the tokens its input is cut into, and that of the end of
the input behind them. The cut is that of all the bytes together: where the reads have
divided them makes no difference to it. A packet is found wherever it stands, whatever
stands around it.
-/

namespace ArmSimulator.Scanning

open Machine Machine.Gdb Foundation.LongestMatch Foundation.ExceptRun

abbrev Lexeme := Rule × List Byte

/-- The token that a rule makes of its text. -/
inductive Produces : Lexeme → Token → Prop where
  | plus : Produces (.plus, [char '+']) .plus
  | minus : Produces (.minus, [char '-']) .minus
  | packet (r : Reception) : Produces (.packet, r.packet.text) (.packet r)
  | stray (c : Byte) : Produces (.stray, [c]) (.stray c)

/-- The tokens of a cut; what is echoed makes none. -/
inductive TokensOf : List Lexeme → List Token → Prop where
  | nil : TokensOf [] []
  | echo {w : List Byte} {lexemes : List Lexeme} {tokens : List Token}
      (h : TokensOf lexemes tokens) : TokensOf ((.echo, w) :: lexemes) tokens
  | cons {lexeme : Lexeme} {token : Token} {lexemes : List Lexeme} {tokens : List Token}
      (h : Produces lexeme token) (hrest : TokensOf lexemes tokens) :
      TokensOf (lexeme :: lexemes) (token :: tokens)

/-- The bytes make the tokens. -/
def Makes (bytes : List Byte) (tokens : List Token) : Prop :=
  ∃ lexemes, rules.Cuts bytes lexemes ∧ TokensOf lexemes tokens

def received (input : List Chunk) : List Byte := (input.map Subtype.val).flatten

theorem input_length_le (g : Yyguts) : g.input.length ≤ (pending g).length := by
  rw [pending, List.length_append]
  refine le_trans ?_ (Nat.le_add_left _ _)
  induction g.input with
  | nil => exact le_rfl
  | cons chunk input ih =>
    have := List.length_pos_of_ne_nil chunk.property
    rw [List.map_cons, List.flatten_cons, List.length_append, List.length_cons]
    omega

theorem Scanned.rest {d : List Byte} {act n : ℕ} {g : Yyguts} (h : Scanned d (act, n, g)) :
    0 < n ∧ n ≤ d.length ∧ g.chars.take n = d.take n ∧
      pending { g with chars := g.chars.drop n } = d.drop n := by
  obtain ⟨-, hd, ⟨i, -, hlongest⟩, hn⟩ := h
  have hd : pending g = d := hd
  have hn : n ≤ g.chars.length := hn
  refine ⟨?_, hn.trans (chars_initial hd).length_le, ?_, ?_⟩
  · by_contra hzero
    exact hlongest.ne_nil (by rw [Nat.eq_zero_of_not_pos hzero, List.take_zero])
  · rw [← hd, pending, List.take_append_of_le_length hn]
  · rw [← hd, pending, pending, List.drop_append_of_le_length hn]

/-- What a token finds besides its text. -/
def Finds (env : Surroundings) : Token → Prop
  | .packet r => r.u = env.u ∧ r.turns = env.turns
  | _ => True

section Run

variable [Host] [ByteOrder]

theorem yyAction_eq {i : Rule} {w : List Byte} (h : w ∈ rules.language i) (beyond : List Byte)
    (u : HandlerLocals) (turns : ℕ) :
    (i = .echo ∧ ∀ data, yyAction data i.act w beyond u turns = .ok data) ∨
      ∃ t, Produces (i, w) t ∧ Finds ⟨u, turns⟩ t ∧
        ∀ data, yyAction data i.act w beyond u turns = scan data t := by
  cases i with
  | plus =>
    obtain ⟨_, rfl, rfl⟩ := h
    exact Or.inr ⟨.plus, .plus, trivial, fun _ => rfl⟩
  | minus =>
    obtain ⟨_, rfl, rfl⟩ := h
    exact Or.inr ⟨.minus, .minus, trivial, fun _ => rfl⟩
  | packet =>
    obtain ⟨t, rfl⟩ := mem_packetPattern.mp h
    exact Or.inr ⟨.packet ⟨t, beyond, u, turns⟩, .packet ⟨t, beyond, u, turns⟩, ⟨rfl, rfl⟩,
      fun _ => rfl⟩
  | stray =>
    obtain ⟨c, -, rfl⟩ := h
    exact Or.inr ⟨.stray c, .stray c, trivial, fun _ => rfl⟩
  | echo => exact Or.inl ⟨rfl, fun _ => rfl⟩

theorem yylex_tokens (steps turns : ℕ) : ∀ {g : Yyguts} (env : ℕ → Surroundings), Proper g →
    4 * (pending g).length + 3 ≤ steps → (pending g).length < turns →
    ∃ tokens, Makes (pending g) tokens ∧ (∀ t ∈ tokens, ∃ k, Finds (env k) t) ∧
      ∀ data, yylex steps turns env g data = (tokens ++ [Token.eof]).foldlM scan data := by
  induction turns with
  | zero => exact fun _ _ _ hturns => absurd hturns (Nat.not_lt_zero _)
  | succ turns ih =>
    intro g env hproper hsteps hturns
    rcases Nat.eq_zero_or_pos (pending g).length with hempty | hpos
    · obtain ⟨steps, rfl⟩ : ∃ t, steps = t + 2 := ⟨steps - 2, by omega⟩
      have hnil := List.eq_nil_of_length_eq_zero hempty
      obtain ⟨g', hg'⟩ := yyScan_eof hnil steps
      refine ⟨[], ⟨[], hnil ▸ .nil, .nil⟩, List.forall_mem_nil _, fun data => ?_⟩
      rw [yylex, hg', ok_bind]
      exact (bind_pure _).symm
    · have hle := input_length_le g
      have hturns : 2 * ((pending g).length + g.input.length) + 3 ≤ steps := by omega
      obtain ⟨⟨act, n, g'⟩, hscan, hscanned⟩ := yyScan_token hproper hpos hturns
      obtain ⟨i, hact, hlongest⟩ := hscanned.found
      obtain ⟨hn, hle', htext, hrest⟩ := hscanned.rest
      have hless : ((pending g).drop n).length < (pending g).length := by
        rw [List.length_drop]
        omega
      obtain ⟨tokens, ⟨lexemes, hcuts, htokens⟩, hfinds, hrun⟩ := ih
        (g := { g' with chars := g'.chars.drop n }) (fun k => env (k + 1)) hscanned.proper
        (by rw [hrest]; omega) (by rw [hrest]; omega)
      rw [hrest] at hcuts
      have hcut : rules.Cuts (pending g) ((i, (pending g).take n) :: lexemes) := by
        have h := RuleSet.Cuts.cons hlongest hcuts
        rwa [List.take_append_drop] at h
      have hstep : ∀ data, yylex steps (turns + 1) env g data =
          yyAction data i.act ((pending g).take n) ((g'.chars ++ [0, 0]).drop (n + 1)) (env 0).u
            (env 0).turns >>= fun data => (tokens ++ [Token.eof]).foldlM scan data := by
        intro data
        have hne : i.act ≠ yyStateEof := by cases i <;> decide
        obtain rfl : act = i.act := hact
        rw [yylex, hscan, ok_bind]
        simp only [hne, if_false, htext]
        exact congrArg _ (funext hrun)
      have hlater : ∀ t ∈ tokens, ∃ k, Finds (env k) t := fun t ht =>
        let ⟨k, hk⟩ := hfinds t ht
        ⟨k + 1, hk⟩
      rcases yyAction_eq hlongest.chosen.mem ((g'.chars ++ [0, 0]).drop (n + 1)) (env 0).u
        (env 0).turns with ⟨rfl, hecho⟩ | ⟨t, ht, hfind, hact'⟩
      · refine ⟨tokens, ⟨_, hcut, .echo htokens⟩, hlater, fun data => ?_⟩
        rw [hstep, hecho, ok_bind]
      · refine ⟨t :: tokens, ⟨_, hcut, .cons ht htokens⟩,
          List.forall_mem_cons.mpr ⟨⟨0, hfind⟩, hlater⟩, fun data => ?_⟩
        rw [hstep, hact']
        rfl

omit [Host] [ByteOrder] in
theorem proper_init (input : List Chunk) (last : LastAccepting) :
    Proper (yylexInit input last) := fun h => by cases h

/-- However the input is divided, the scanner runs the rules of its cut. -/
theorem yylex_eq (input : List Chunk) (last : LastAccepting) (env : ℕ → Surroundings)
    {steps turns : ℕ} (hsteps : 4 * (received input).length + 3 ≤ steps)
    (hturns : (received input).length < turns) :
    ∃ tokens, Makes (received input) tokens ∧
      ∀ data, yylex steps turns env (yylexInit input last) data =
        (tokens ++ [Token.eof]).foldlM scan data := by
  obtain ⟨tokens, hmakes, -, hrun⟩ := yylex_tokens steps turns (g := yylexInit input last) env
    (proper_init input last) hsteps hturns
  exact ⟨tokens, hmakes, hrun⟩

end Run

/-- `$?#3f+`, read in two pieces. -/
def dividedInput : List Chunk := [⟨ascii "$?#", by decide⟩, ⟨ascii "3f+", by decide⟩]

theorem length_blankError : (List.replicate maxErrorSize (0 : Byte)).length = maxErrorSize :=
  List.length_replicate

def blankError : CharArray maxErrorSize := ⟨List.replicate maxErrorSize 0, length_blankError⟩

def noSurroundings : ℕ → Surroundings := fun _ => ⟨Debugger.noLocals, 0⟩

theorem yylex_dividedInput : ∃ tokens, Makes (ascii "$?#3f+") tokens ∧
    ∀ data, @yylex Host.x86 .x86 27 7 noSurroundings (yylexInit dividedInput (0, 0)) data =
      (tokens ++ [Token.eof]).foldlM (@scan Host.x86 .x86) data :=
  @yylex_eq Host.x86 .x86 dividedInput (0, 0) noSurroundings 27 7 (by decide) (by decide)

end ArmSimulator.Scanning
