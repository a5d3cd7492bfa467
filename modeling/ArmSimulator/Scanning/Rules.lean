import ArmSimulator.Foundation.LongestMatch
import ArmSimulator.Machine.Scanner

/-! # The rules of the scanner

The patterns of `scanner.l` as languages, in the order of the file, and the automaton
that tells which of them matches a word. A character of a packet's frame opens or ends
it: no pattern has a `$` behind its front, so every `$` of the input starts a token.
-/

namespace ArmSimulator.Scanning

open Machine Machine.Gdb Foundation.LongestMatch
open scoped Computability

/-! ## Patterns -/

/-- The patterns in their order; the last is the default rule of every scanner. -/
inductive Rule where
  | plus | minus | packet | stray | echo
  deriving DecidableEq, Repr

/-- The number of a rule's action. -/
def Rule.act : Rule → ℕ
  | plus => 1
  | minus => 2
  | packet => 3
  | stray => 4
  | echo => 5

def newline : Byte := char '\n'

/-- One character of a class. -/
def oneOf (p : Byte → Prop) : Language Byte := {w | ∃ c, p c ∧ w = [c]}

/-- `[^$#]` -/
def IsPlain (c : Byte) : Prop := c ≠ char '$' ∧ c ≠ char '#'

/-- `{HEX}` -/
def IsHex (c : Byte) : Prop := (hexValue c).isSome

/-- `"$"[^$#]*"#"{HEX}{HEX}` -/
def packetPattern : Language Byte :=
  oneOf (· = char '$') * (oneOf IsPlain)∗ * oneOf (· = char '#') * oneOf IsHex * oneOf IsHex

def pattern : Rule → Language Byte
  | .plus => oneOf (· = char '+')
  | .minus => oneOf (· = char '-')
  | .packet => packetPattern
  | .stray => oneOf (· ≠ newline)
  | .echo => oneOf fun _ => True

theorem act_injective : Function.Injective Rule.act := by
  intro i j h
  cases i <;> cases j <;> first | rfl | cases h

def rules : RuleSet Byte Rule := ⟨pattern, Rule.act, act_injective⟩

theorem mem_oneOf {p : Byte → Prop} {w : List Byte} : w ∈ oneOf p ↔ ∃ c, p c ∧ w = [c] := Iff.rfl

theorem mem_kstar_oneOf {p : Byte → Prop} {w : List Byte} : w ∈ (oneOf p)∗ ↔ ∀ c ∈ w, p c := by
  rw [Language.mem_kstar]
  constructor
  · rintro ⟨ws, rfl, hws⟩ c hc
    obtain ⟨w, hw, hcw⟩ := List.mem_flatten.mp hc
    obtain ⟨d, hd, rfl⟩ := hws w hw
    exact List.mem_singleton.mp hcw ▸ hd
  · intro h
    refine ⟨w.map fun c => [c], by rw [← List.flatMap_def, List.flatMap_singleton'], fun v hv => ?_⟩
    obtain ⟨c, hc, rfl⟩ := List.mem_map.mp hv
    exact ⟨c, h c hc, rfl⟩

theorem mem_packetPattern {w : List Byte} : w ∈ packetPattern ↔ ∃ t : PacketText, t.text = w := by
  simp only [packetPattern, Language.mem_mul, mem_kstar_oneOf, mem_oneOf]
  constructor
  · rintro ⟨_, ⟨_, ⟨_, ⟨_, ⟨_, rfl, rfl⟩, body, hbody, rfl⟩, _, ⟨_, rfl, rfl⟩, rfl⟩,
      _, ⟨high, hhigh, rfl⟩, rfl⟩, _, ⟨low, hlow, rfl⟩, rfl⟩
    exact ⟨⟨body, high, low, hbody, hhigh, hlow⟩, by simp [PacketText.text]⟩
  · rintro ⟨⟨body, high, low, hbody, hhigh, hlow⟩, rfl⟩
    exact ⟨_, ⟨_, ⟨_, ⟨_, ⟨_, rfl, rfl⟩, body, hbody, rfl⟩, _, ⟨_, rfl, rfl⟩, rfl⟩,
      _, ⟨high, hhigh, rfl⟩, rfl⟩, _, ⟨low, hlow, rfl⟩, by simp [PacketText.text]⟩

theorem exists_pattern_singleton (c : Byte) : ∃ i, [c] ∈ rules.language i :=
  ⟨.echo, c, trivial, rfl⟩

theorem separates_dollar : rules.Separates (char '$') := by
  intro i w hw
  have hone {p : Byte → Prop} (h : w ∈ oneOf p) : char '$' ∉ w.tail := by
    obtain ⟨c, -, rfl⟩ := h
    exact List.not_mem_nil
  cases i with
  | packet =>
    obtain ⟨t, rfl⟩ := mem_packetPattern.mp hw
    have hhex : ∀ c : Byte, (hexValue c).isSome → char '$' ≠ c := by decide
    have hhash : char '$' ≠ char '#' := by decide
    intro hmem
    rw [PacketText.text, List.tail_cons, List.mem_append] at hmem
    rcases hmem with hmem | hmem
    · exact (t.body_plain _ hmem).1 rfl
    · simp [hhash, hhex _ t.high_hex, hhex _ t.low_hex] at hmem
  | _ => exact hone hw

/-! ## The automaton -/

/-- What the patterns distinguish of a character. -/
inductive Kind where
  | other | newline | hash | dollar | plus | minus | hex
  deriving DecidableEq, Repr

def kind (c : Byte) : Kind :=
  if c = newline then .newline
  else if c = char '#' then .hash
  else if c = char '$' then .dollar
  else if c = char '+' then .plus
  else if c = char '-' then .minus
  else if (hexValue c).isSome then .hex
  else .other

/-- What has been read of a token. -/
inductive State where
  | start | other | newline | dollar | plus | minus | body | hash | digit | packet | jam
  deriving DecidableEq, Repr

def State.next : State → Kind → State
  | start, .newline => newline
  | start, .dollar => dollar
  | start, .plus => plus
  | start, .minus => minus
  | start, _ => other
  | dollar, .hash | body, .hash => hash
  | dollar, .dollar | body, .dollar => jam
  | dollar, _ | body, _ => body
  | hash, .hex => digit
  | digit, .hex => packet
  | _, _ => jam

def State.label : State → Option Rule
  | other | dollar => some .stray
  | newline => some .echo
  | plus => some .plus
  | minus => some .minus
  | packet => some .packet
  | _ => none

def automaton : Recogniser Byte State Rule := ⟨.start, fun s c => s.next (kind c), State.label⟩

/-- The words that lead to a state. -/
def Reads (w : List Byte) : State → Prop
  | .start => w = []
  | .other => ∃ c, (kind c = .other ∨ kind c = .hash ∨ kind c = .hex) ∧ w = [c]
  | .newline => w = [newline]
  | .dollar => w = [char '$']
  | .plus => w = [char '+']
  | .minus => w = [char '-']
  | .body => ∃ u, (∀ c ∈ u, IsPlain c) ∧ w = char '$' :: u
  | .hash => ∃ u, (∀ c ∈ u, IsPlain c) ∧ w = char '$' :: (u ++ [char '#'])
  | .digit => ∃ u h, (∀ c ∈ u, IsPlain c) ∧ IsHex h ∧ w = char '$' :: (u ++ [char '#', h])
  | .packet => ∃ t : PacketText, t.text = w
  | .jam => True

/-- What its kind says of a character. -/
def IsOfKind (c : Byte) : Kind → Prop
  | .newline => c = newline
  | .hash => c = char '#'
  | .dollar => c = char '$'
  | .plus => c = char '+'
  | .minus => c = char '-'
  | .hex => IsHex c
  | .other => True

theorem isOfKind_kind (c : Byte) : IsOfKind c (kind c) := by
  unfold kind
  split_ifs <;> first | assumption | trivial

theorem isPlain_iff_kind : ∀ c : Byte, c ≠ char '$' ∧ c ≠ char '#' ↔
    kind c ≠ .hash ∧ kind c ≠ .dollar := by decide

theorem kind_of_isHex : ∀ c : Byte, (hexValue c).isSome → kind c = .hex := by decide

section Reading

variable {w u : List Byte}

theorem reads_open (hu : ∀ c ∈ u, IsPlain c) (c : Byte) :
    Reads (char '$' :: (u ++ [c])) (State.body.next (kind c)) := by
  have hbody (hplain : kind c ≠ .hash ∧ kind c ≠ .dollar) : Reads (char '$' :: (u ++ [c])) .body :=
    ⟨u ++ [c], List.forall_mem_append.mpr
      ⟨hu, List.forall_mem_singleton.mpr ((isPlain_iff_kind c).mpr hplain)⟩, rfl⟩
  have hc := isOfKind_kind c
  cases hk : kind c with
  | hash =>
    rw [hk] at hc
    exact ⟨u, hu, by rw [show c = char '#' from hc]⟩
  | dollar => trivial
  | _ => exact hbody (by rw [hk]; decide)

theorem Reads.next {s : State} (h : Reads w s) (c : Byte) : Reads (w ++ [c]) (s.next (kind c)) := by
  have hc := isOfKind_kind c
  cases s with
  | start =>
    obtain rfl : w = [] := h
    rw [List.nil_append]
    cases hk : kind c with
    | other => exact ⟨c, Or.inl hk, rfl⟩
    | hash => exact ⟨c, Or.inr (Or.inl hk), rfl⟩
    | hex => exact ⟨c, Or.inr (Or.inr hk), rfl⟩
    | _ =>
      rw [hk] at hc
      exact congrArg (fun c => [c]) hc
  | dollar =>
    obtain rfl : w = [char '$'] := h
    have hnext : State.dollar.next (kind c) = State.body.next (kind c) := by cases kind c <;> rfl
    rw [hnext]
    exact reads_open (u := []) (List.forall_mem_nil _) c
  | body =>
    obtain ⟨u, hu, rfl⟩ := h
    exact reads_open hu c
  | hash =>
    obtain ⟨u, hu, rfl⟩ := h
    cases hk : kind c with
    | hex =>
      rw [hk] at hc
      exact ⟨u, c, hu, hc, by simp⟩
    | _ => trivial
  | digit =>
    obtain ⟨u, high, hu, hhigh, rfl⟩ := h
    cases hk : kind c with
    | hex =>
      rw [hk] at hc
      exact ⟨⟨u, high, c, hu, hhigh, hc⟩, by simp [PacketText.text]⟩
    | _ => trivial
  | _ => cases kind c <;> trivial

theorem reads_run (w : List Byte) : Reads w (automaton.run w) := by
  induction w using List.reverseRecOn with
  | nil => rfl
  | append_singleton w c ih =>
    rw [Recogniser.run_concat]
    exact ih.next c

theorem run_open (hu : ∀ c ∈ u, IsPlain c) : automaton.run (char '$' :: u) = .dollar ∨
    automaton.run (char '$' :: u) = .body := by
  induction u using List.reverseRecOn with
  | nil => exact Or.inl rfl
  | append_singleton u c ih =>
    obtain ⟨hu, hc⟩ := List.forall_mem_append.mp hu
    obtain ⟨hhash, hdollar⟩ := (isPlain_iff_kind c).mp (hc c List.mem_cons_self)
    rw [← List.cons_append, Recogniser.run_concat]
    refine Or.inr ?_
    change State.next _ (kind c) = _
    rcases ih hu with h | h <;> rw [h] <;> cases hk : kind c <;>
      first | rfl | exact absurd hk hhash | exact absurd hk hdollar

theorem run_packet (t : PacketText) : automaton.run t.text = .packet := by
  have htext : t.text = (char '$' :: t.body) ++ [char '#', t.high, t.low] := rfl
  have hhash : (automaton.run (char '$' :: t.body)).next (kind (char '#')) = .hash := by
    rcases run_open t.body_plain with h | h <;> rw [h] <;> rfl
  rw [htext, Recogniser.run_append]
  change (((automaton.run _).next (kind (char '#'))).next (kind t.high)).next (kind t.low) = _
  rw [hhash, kind_of_isHex _ t.high_hex, kind_of_isHex _ t.low_hex]
  rfl

theorem label_singleton (c : Byte) : automaton.label (automaton.run [c]) =
    some (if c = newline then .echo else if c = char '+' then .plus
      else if c = char '-' then .minus else .stray) := by
  revert c
  decide

end Reading

/-- The automaton tells the rules apart. -/
theorem recognises_rules : automaton.Recognises rules where
  sound w i h := by
    have hreads := reads_run w
    change (automaton.run w).label = some i at h
    generalize automaton.run w = s at h hreads
    have hkind : ∀ c : Byte, kind c = .other ∨ kind c = .hash ∨ kind c = .hex → c ≠ newline := by
      decide
    cases s with
    | other =>
      cases h
      obtain ⟨c, hc, rfl⟩ := hreads
      exact ⟨c, hkind c hc, rfl⟩
    | newline =>
      cases h
      exact ⟨_, trivial, hreads⟩
    | dollar =>
      cases h
      exact ⟨_, by decide, hreads⟩
    | plus =>
      cases h
      exact ⟨_, rfl, hreads⟩
    | minus =>
      cases h
      exact ⟨_, rfl, hreads⟩
    | packet =>
      cases h
      exact mem_packetPattern.mpr hreads
    | _ => cases h
  complete w j h := by
    cases j with
    | plus =>
      obtain ⟨_, rfl, rfl⟩ := h
      exact ⟨.plus, by decide, le_rfl⟩
    | minus =>
      obtain ⟨_, rfl, rfl⟩ := h
      exact ⟨.minus, by decide, le_rfl⟩
    | packet =>
      obtain ⟨t, rfl⟩ := mem_packetPattern.mp h
      exact ⟨.packet, by rw [run_packet]; rfl, le_rfl⟩
    | stray =>
      obtain ⟨c, hc, rfl⟩ := h
      refine ⟨_, label_singleton c, ?_⟩
      rw [if_neg hc]
      split_ifs <;> decide
    | echo =>
      obtain ⟨c, -, rfl⟩ := h
      refine ⟨_, label_singleton c, ?_⟩
      split_ifs <;> decide

end ArmSimulator.Scanning
