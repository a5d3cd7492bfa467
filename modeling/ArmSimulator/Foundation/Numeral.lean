import Mathlib.Algebra.Group.Nat.Defs
import Mathlib.Tactic.Common

/-! # Numerals

A numeral is a string of digits in a base, the most significant first. Scanning
takes the digits a string starts with; rendering spells a number with a given
count of digits, and what it spells is scanned back modulo the base's power.
-/

namespace Foundation.Numeral

variable {α : Type*} (digit : α → Option ℕ) (b : ℕ)

/-- Reads on from `n` while there are digits, and returns what follows them. -/
def scan : ℕ → List α → ℕ × List α
  | n, [] => (n, [])
  | n, c :: s =>
    match digit c with
    | some d => scan (b * n + d) s
    | none => (n, c :: s)

/-- What a string of digits makes of `n`. -/
def valueFrom : ℕ → List α → Option ℕ
  | n, [] => some n
  | n, c :: s => (digit c).bind fun d => valueFrom (b * n + d) s

/-- A nonempty string of digits with this value. -/
structure Spells (s : List α) (n : ℕ) : Prop where
  ne_nil : s ≠ []
  value : valueFrom digit b 0 s = some n

variable {digit b}

theorem valueFrom_append (s t : List α) : ∀ n,
    valueFrom digit b n (s ++ t) = (valueFrom digit b n s).bind fun m => valueFrom digit b m t := by
  induction s with
  | nil => exact fun _ => rfl
  | cons c s ih =>
    intro n
    rw [List.cons_append, valueFrom, valueFrom]
    cases digit c with
    | none => rfl
    | some d => exact ih _

theorem le_of_valueFrom (hb : 0 < b) {s : List α} : ∀ {n m : ℕ},
    valueFrom digit b n s = some m → n ≤ m := by
  induction s with
  | nil => exact fun h => Nat.le_of_eq (Option.some.inj h)
  | cons c s ih =>
    intro n m h
    obtain ⟨d, -, h⟩ := Option.bind_eq_some_iff.mp h
    calc n ≤ b * n := Nat.le_mul_of_pos_left n hb
      _ ≤ b * n + d := Nat.le_add_right _ _
      _ ≤ m := ih h

theorem isSome_of_valueFrom {s : List α} : ∀ {n m : ℕ}, valueFrom digit b n s = some m →
    ∀ c ∈ s, (digit c).isSome := by
  induction s with
  | nil => simp
  | cons a s ih =>
    intro n m h c hc
    obtain ⟨d, hd, hrest⟩ := Option.bind_eq_some_iff.mp h
    rcases List.mem_cons.mp hc with rfl | hc
    · rw [hd]
      rfl
    · exact ih hrest c hc

theorem scan_append {s rest : List α} (hrest : ∀ c ∈ rest.head?, digit c = none) :
    ∀ {n m : ℕ}, valueFrom digit b n s = some m → scan digit b n (s ++ rest) = (m, rest) := by
  induction s with
  | nil =>
    intro n m h
    obtain rfl : n = m := Option.some.inj h
    cases rest with
    | nil => rfl
    | cons c rest => rw [List.nil_append, scan, hrest c rfl]
  | cons a s ih =>
    intro n m h
    obtain ⟨d, hd, h⟩ := Option.bind_eq_some_iff.mp h
    rw [List.cons_append, scan, hd]
    exact ih h

theorem scan_terminated {c : α} (hc : digit c = none) (rest : List α) (s : List α) : ∀ n,
    scan digit b n (s ++ c :: rest) =
      ((scan digit b n s).1, (scan digit b n s).2 ++ c :: rest) := by
  induction s with
  | nil =>
    intro n
    have hstop : scan digit b n (c :: rest) = (n, c :: rest) := by
      rw [scan, hc]
    exact hstop
  | cons a s ih =>
    intro n
    rw [List.cons_append, scan, scan]
    cases digit a with
    | none => rfl
    | some d => exact ih _

/-! ## Rendering -/

/-- The low `w` digits of a number. -/
def render (char : ℕ → α) (b : ℕ) : ℕ → ℕ → List α
  | 0, _ => []
  | w + 1, n => render char b w (n / b) ++ [char (n % b)]

theorem length_render (char : ℕ → α) : ∀ w n, (render char b w n).length = w
  | 0, _ => rfl
  | w + 1, n => by rw [render, List.length_append, length_render char w, List.length_singleton]

section Render

variable {char : ℕ → α} (hb : 0 < b) (hchar : ∀ d < b, digit (char d) = some d)

include hb in
theorem mem_render (w : ℕ) : ∀ {n : ℕ} {c : α}, c ∈ render char b w n → ∃ d < b, c = char d := by
  induction w with
  | zero => simp [render]
  | succ w ih =>
    intro n c hc
    rcases List.mem_append.mp hc with hc | hc
    · exact ih hc
    · exact ⟨n % b, Nat.mod_lt n hb, List.mem_singleton.mp hc⟩

include hb hchar

theorem valueFrom_render (w : ℕ) : ∀ n, valueFrom digit b 0 (render char b w n) =
    some (n % b ^ w) := by
  induction w with
  | zero => simp [render, valueFrom, Nat.mod_one]
  | succ w ih =>
    intro n
    have hlast : valueFrom digit b (n / b % b ^ w) [char (n % b)] =
        some (b * (n / b % b ^ w) + n % b) := by
      rw [valueFrom, hchar _ (Nat.mod_lt n hb)]
      rfl
    rw [render, valueFrom_append, ih, Option.bind_some, hlast, Nat.pow_succ', Nat.mod_mul,
      Nat.add_comm]

theorem spells_render {w n : ℕ} (hw : 0 < w) (hn : n < b ^ w) :
    Spells digit b (render char b w n) n where
  ne_nil h := by
    have hlen := length_render (b := b) char w n
    rw [h, List.length_nil] at hlen
    omega
  value := by rw [valueFrom_render hb hchar, Nat.mod_eq_of_lt hn]

end Render

end Foundation.Numeral
