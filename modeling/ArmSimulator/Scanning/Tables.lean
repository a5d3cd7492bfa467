import ArmSimulator.Machine.Yylex
import ArmSimulator.Scanning.Rules

/-! # The tables of the generated scanner

Entry by entry the compressed tables of `scanner.c` hold the automaton of the rules.
State 3 is entered on the NUL that ends the buffer, from every state, and leads
nowhere; a state that jams on everything has the base 14.
-/

namespace ArmSimulator.Scanning

open Machine Machine.Gdb Foundation.LongestMatch Foundation.ExceptRun

/-- The number of a kind in `yy_ec`. -/
def Kind.number : Kind → ℕ
  | other => 1
  | newline => 2
  | hash => 3
  | dollar => 4
  | plus => 5
  | minus => 6
  | hex => 7

def State.number : State → ℕ
  | start => 1
  | other => 4
  | newline => 5
  | dollar => 6
  | plus => 7
  | minus => 8
  | body => 9
  | hash => 10
  | digit => 11
  | packet => 12
  | jam => 13

/-- The number of the action in a state, 0 for none. -/
def State.act (s : State) : ℕ := (s.label.map Rule.act).getD 0

/-- Every character jams. -/
def State.Final (s : State) : Prop := ∀ k, s.next k = .jam

theorem entry_eq {table : List ℕ} {i n : ℕ} (h : table[i]? = some n) : entry table i = .ok n := by
  rw [entry, h]

theorem entry_yyEc {c : Byte} (hc : c ≠ 0) : entry yyEc c.toNat = .ok (kind c).number := by
  have htable : ∀ c : Byte, c ≠ 0 → yyEc[c.toNat]? = some (kind c).number := by decide
  exact entry_eq (htable c hc)

theorem entry_yyEc_nul : entry yyEc (0 : Byte).toNat = .ok 0 := rfl

theorem exists_entry_yyEc (c : Byte) : ∃ k < 8, entry yyEc c.toNat = .ok k := by
  by_cases hc : c = 0
  · exact ⟨0, by omega, hc ▸ entry_yyEc_nul⟩
  · exact ⟨_, by cases kind c <;> decide, entry_yyEc hc⟩

theorem textClass_eq (c : Byte) : textClass c = .ok (kind c).number := by
  rw [textClass]
  split_ifs with hc
  · exact entry_yyEc hc
  · rw [not_not.mp hc]
    rfl

theorem yyNextState_eq {s : State} (hs : s ≠ .jam) (k : Kind) :
    yyNextState s.number k.number = .ok (s.next k).number := by
  cases s with
  | jam => exact absurd rfl hs
  | _ => cases k <;> rfl

theorem yyNextState_nul {s : State} (hs : s ≠ .jam) : yyNextState s.number 0 = .ok 3 := by
  cases s with
  | jam => exact absurd rfl hs
  | _ => rfl

theorem yyNextState_end : ∀ {k : ℕ}, k < 8 → yyNextState 3 k = .ok 13
  | 0, _ | 1, _ | 2, _ | 3, _ | 4, _ | 5, _ | 6, _ | 7, _ => rfl
  | k + 8, hk => absurd hk (by omega)

theorem entry_yyAccept (s : State) : entry yyAccept s.number = .ok s.act := by
  cases s <;> rfl

theorem exists_entry_yyBase (s : State) :
    ∃ base, entry yyBase s.number = .ok base ∧ (base = 14 ↔ s.Final) := by
  have hopen {base : ℕ} {k : Kind} (hbase : base ≠ 14) (hk : s.next k ≠ .jam) :
      base = 14 ↔ s.Final := iff_of_false hbase fun h => hk (h k)
  have hfinal (h : ∀ k, s.next k = .jam) : 14 = 14 ↔ s.Final := iff_of_true rfl h
  cases s with
  | start => exact ⟨0, rfl, hopen (k := .other) (by decide) (by decide)⟩
  | dollar => exact ⟨9, rfl, hopen (k := .other) (by decide) (by decide)⟩
  | body => exact ⟨8, rfl, hopen (k := .other) (by decide) (by decide)⟩
  | hash => exact ⟨3, rfl, hopen (k := .hex) (by decide) (by decide)⟩
  | digit => exact ⟨2, rfl, hopen (k := .hex) (by decide) (by decide)⟩
  | _ => exact ⟨14, rfl, hfinal fun k => by cases k <;> rfl⟩

theorem act_pos_iff (s : State) : s.act ≠ 0 ↔ s.label ≠ none := by
  cases s <;> decide

theorem State.act_eq {s : State} {i : Rule} (h : s.label = some i) : s.act = i.act := by
  rw [State.act, h]
  rfl

theorem State.next_jam (k : Kind) : State.jam.next k = .jam := by
  cases k <;> rfl

end ArmSimulator.Scanning
