import Mathlib.Computability.Language
import Mathlib.Tactic.Common

/-! # Cutting an input at its longest matches

Rules are languages with a rank. The token at the front of an input is the longest
prefix that some rule matches, and of the rules that match it the one of least rank
is chosen. A symbol that no rule matches behind the front of a token separates the
input: what comes before it is cut as if the input ended there. An automaton that
labels words with the chosen rule finds the longest match by remembering the last
labelled state.
-/

namespace Foundation.LongestMatch

variable {α ι : Type*}

structure RuleSet (α ι : Type*) where
  language : ι → Language α
  rank : ι → ℕ
  rank_injective : Function.Injective rank

namespace RuleSet

variable (R : RuleSet α ι)

/-- Of the rules that match the word this one comes first. -/
structure Chooses (w : List α) (i : ι) : Prop where
  mem : w ∈ R.language i
  le : ∀ j, w ∈ R.language j → R.rank i ≤ R.rank j

/-- The token at the front of `token ++ rest`. -/
structure Longest (i : ι) (token rest : List α) : Prop where
  ne_nil : token ≠ []
  chosen : R.Chooses token i
  maximal : ∀ j u, u <+: token ++ rest → u ∈ R.language j → u.length ≤ token.length

/-- An input and the tokens it is cut into. -/
inductive Cuts : List α → List (ι × List α) → Prop where
  | nil : Cuts [] []
  | cons {i : ι} {token rest : List α} {tokens : List (ι × List α)} (h : R.Longest i token rest)
      (hrest : Cuts rest tokens) : Cuts (token ++ rest) ((i, token) :: tokens)

variable {R}

theorem Chooses.unique {w : List α} {i j : ι} (hi : R.Chooses w i) (hj : R.Chooses w j) : i = j :=
  R.rank_injective (Nat.le_antisymm (hi.le j hj.mem) (hj.le i hi.mem))

theorem Longest.unique {i j : ι} {t u r s : List α} (h : R.Longest i t r) (h' : R.Longest j u s)
    (heq : t ++ r = u ++ s) : i = j ∧ t = u ∧ r = s := by
  have hle : u.length ≤ t.length := h.maximal j u (heq ▸ List.prefix_append u s) h'.chosen.mem
  have hge : t.length ≤ u.length := h'.maximal i t (heq ▸ List.prefix_append t r) h.chosen.mem
  obtain ⟨htu, hrs⟩ := List.append_inj heq (Nat.le_antisymm hge hle)
  exact ⟨h.chosen.unique (htu ▸ h'.chosen), htu, hrs⟩

theorem Cuts.unique {input : List α} {tokens tokens' : List (ι × List α)}
    (h : R.Cuts input tokens) (h' : R.Cuts input tokens') : tokens = tokens' := by
  induction h generalizing tokens' with
  | nil =>
    generalize hempty : ([] : List α) = input at h'
    cases h' with
    | nil => rfl
    | cons h' _ => exact absurd (List.append_eq_nil_iff.mp hempty.symm).1 h'.ne_nil
  | cons h hrest ih =>
    rename_i i token rest tokens
    generalize heq : token ++ rest = input at h'
    cases h' with
    | nil => exact absurd (List.append_eq_nil_iff.mp heq).1 h.ne_nil
    | cons h' hrest' =>
      obtain ⟨rfl, rfl, rfl⟩ := h.unique h' heq
      rw [ih hrest']

/-- No symbol is lost, none is read twice. -/
theorem Cuts.flatten {input : List α} {tokens : List (ι × List α)} (h : R.Cuts input tokens) :
    (tokens.map Prod.snd).flatten = input := by
  induction h with
  | nil => rfl
  | cons _ _ ih => rw [List.map_cons, List.flatten_cons, ih]

/-! ## Separators -/

/-- No rule matches the symbol behind the front of a token. -/
def Separates (R : RuleSet α ι) (a : α) : Prop := ∀ i w, w ∈ R.language i → a ∉ w.tail

section Separator

variable {a : α}

theorem Longest.append_separator (ha : R.Separates a) {i : ι} {token rest : List α}
    (h : R.Longest i token rest) (behind : List α) :
    R.Longest i token (rest ++ a :: behind) where
  ne_nil := h.ne_nil
  chosen := h.chosen
  maximal j u hu hmem := by
    obtain ⟨v, hv⟩ := hu
    rw [← List.append_assoc] at hv
    rcases List.append_eq_append_iff.mp hv with ⟨w, hw, -⟩ | ⟨w, rfl, hw⟩
    · exact h.maximal j u ⟨w, hw.symm⟩ hmem
    · cases w with
      | nil => exact h.maximal j _ (by rw [List.append_nil]) hmem
      | cons b w =>
        obtain ⟨rfl, -⟩ := List.cons.inj hw
        refine absurd ?_ (ha j _ hmem)
        obtain ⟨c, token, rfl⟩ := List.exists_cons_of_ne_nil h.ne_nil
        simp

/-- An input is cut in front of every separator. -/
theorem Cuts.append_separator (ha : R.Separates a) {front behind : List α}
    {tokens tokens' : List (ι × List α)} (h : R.Cuts front tokens)
    (h' : R.Cuts (a :: behind) tokens') : R.Cuts (front ++ a :: behind) (tokens ++ tokens') := by
  induction h with
  | nil => exact h'
  | cons h _ ih =>
    rw [List.append_assoc]
    exact .cons (h.append_separator ha behind) ih

end Separator

/-! ## Existence -/

section Existence

theorem exists_chooses {w : List α} {j : ι} (h : w ∈ R.language j) : ∃ i, R.Chooses w i := by
  obtain ⟨i, hi, hle⟩ := (InvImage.wf R.rank wellFounded_lt).has_min
    {i | w ∈ R.language i} ⟨j, h⟩
  exact ⟨i, hi, fun k hk => Nat.le_of_not_lt (hle k hk)⟩

theorem exists_longest (hR : ∀ a, ∃ i, [a] ∈ R.language i) {input : List α} (h : input ≠ []) :
    ∃ i token rest, input = token ++ rest ∧ R.Longest i token rest := by
  classical
  let P (n : ℕ) : Prop := ∃ i, input.take n ∈ R.language i
  obtain ⟨a, tail, rfl⟩ := List.exists_cons_of_ne_nil h
  have hone : P 1 := hR a
  have hle : 1 ≤ (a :: tail).length := by simp
  set n := Nat.findGreatest P (a :: tail).length with hn
  have hpos : 1 ≤ n := Nat.le_findGreatest hle hone
  obtain ⟨j, hj⟩ : P n := Nat.findGreatest_spec hle hone
  obtain ⟨i, hi⟩ := exists_chooses hj
  refine ⟨i, (a :: tail).take n, (a :: tail).drop n, (List.take_append_drop n _).symm, ?_, hi, ?_⟩
  · intro hnil
    rw [List.take_eq_nil_iff] at hnil
    rcases hnil with hnil | hnil
    · omega
    · cases hnil
  · intro k u hu hmem
    rw [List.take_append_drop] at hu
    have hlen : n ≤ (a :: tail).length := Nat.findGreatest_le _
    rw [List.length_take_of_le hlen]
    refine Nat.le_findGreatest hu.length_le ⟨k, ?_⟩
    rwa [← List.prefix_iff_eq_take.mp hu]

/-- Where every symbol is matched, every input can be cut. -/
theorem exists_cuts (hR : ∀ a, ∃ i, [a] ∈ R.language i) (input : List α) :
    ∃ tokens, R.Cuts input tokens := by
  induction hlen : input.length using Nat.strong_induction_on generalizing input with
  | _ n ih =>
    by_cases h : input = []
    · exact ⟨[], h ▸ .nil⟩
    · obtain ⟨i, token, rest, rfl, hlongest⟩ := exists_longest hR h
      have htoken := List.length_pos_of_ne_nil hlongest.ne_nil
      rw [List.length_append] at hlen
      obtain ⟨tokens, hrest⟩ := ih rest.length (by omega) rest rfl
      exact ⟨_, .cons hlongest hrest⟩

end Existence

end RuleSet

/-! ## Automata -/

/-- A deterministic automaton with a rule in some of its states. -/
structure Recogniser (α σ ι : Type*) where
  start : σ
  next : σ → α → σ
  label : σ → Option ι

namespace Recogniser

variable {σ : Type*} (A : Recogniser α σ ι)

/-- The state a word leads to. -/
def run (w : List α) : σ := w.foldl A.next A.start

theorem run_concat (w : List α) (a : α) : A.run (w ++ [a]) = A.next (A.run w) a := by
  rw [run, run, List.foldl_append]
  rfl

theorem run_append (w v : List α) : A.run (w ++ v) = v.foldl A.next (A.run w) := by
  rw [run, run, List.foldl_append]

/-- The label of a word's state is the rule that is chosen for it. -/
structure Recognises (R : RuleSet α ι) : Prop where
  sound : ∀ w i, A.label (A.run w) = some i → w ∈ R.language i
  complete : ∀ w j, w ∈ R.language j → ∃ i, A.label (A.run w) = some i ∧ R.rank i ≤ R.rank j

variable {A} {R : RuleSet α ι}

theorem Recognises.chooses (h : A.Recognises R) {w : List α} {i : ι}
    (hi : A.label (A.run w) = some i) : R.Chooses w i where
  mem := h.sound w i hi
  le j hj := by
    obtain ⟨k, hk, hle⟩ := h.complete w j hj
    rw [hi, Option.some.injEq] at hk
    exact hk ▸ hle

/-- The longest prefix in a labelled state is the token at the front. -/
theorem Recognises.longest (h : A.Recognises R) {input : List α} {n : ℕ} {i : ι} (hpos : 0 < n)
    (hlen : n ≤ input.length) (hi : A.label (A.run (input.take n)) = some i)
    (hrest : ∀ m, n < m → m ≤ input.length → A.label (A.run (input.take m)) = none) :
    R.Longest i (input.take n) (input.drop n) where
  ne_nil hnil := by
    rw [List.take_eq_nil_iff] at hnil
    rcases hnil with rfl | rfl
    · exact absurd hpos (lt_irrefl 0)
    · exact absurd (hpos.trans_le hlen) (Nat.not_lt_zero 0)
  chosen := h.chooses hi
  maximal j u hu hmem := by
    rw [List.take_append_drop] at hu
    rw [List.length_take_of_le hlen]
    by_contra hlt
    obtain ⟨k, hk, -⟩ := h.complete u j hmem
    have hnone := hrest u.length (Nat.lt_of_not_le hlt) hu.length_le
    rw [← List.prefix_iff_eq_take.mp hu, hk] at hnone
    cases hnone

end Recogniser

end Foundation.LongestMatch
