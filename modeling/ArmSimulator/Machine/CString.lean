import ArmSimulator.Foundation.Numeral
import ArmSimulator.Machine.Host

/-! # Strings of the C library

A pointer to characters is the list of the bytes from it to the end of its
array, so `data + 2` is `data.drop 2`. Conversions follow the C library that
the simulator is built with: `sscanf` leaves its arguments alone where it does
not match, and numbers too large for `unsigned long` or `long` become its bound.
-/

namespace ArmSimulator.Machine

open Foundation.Numeral

def char (c : Char) : Byte := BitVec.ofNat 8 c.toNat

/-- The characters of a string constant, without its terminator. -/
def ascii (s : String) : List Byte := s.toList.map char

/-- The string a pointer points to. -/
def cString (data : List Byte) : List Byte := data.takeWhile (· ≠ 0)

/-- `index(data, c)`, `none` for a null pointer. -/
def index (c : Byte) : List Byte → Option (List Byte)
  | [] => none
  | b :: data => if b = c then some (b :: data) else if b = 0 then none else index c data

/-- `strcmp` of two strings without their terminators: the difference of the first
characters that differ, as unsigned ones. -/
def strcmp : List Byte → List Byte → Int
  | [], [] => 0
  | [], d :: _ => -d.toNat
  | c :: _, [] => c.toNat
  | c :: s, d :: t => if c = d then strcmp s t else c.toNat - d.toNat

/-! ## Numbers -/

def isSpace (c : Byte) : Bool := c = char ' ' ∨ 9 ≤ c ∧ c ≤ 13

def hexValue (c : Byte) : Option Nat :=
  if char '0' ≤ c ∧ c ≤ char '9' then some (c.toNat - '0'.toNat)
  else if char 'a' ≤ c ∧ c ≤ char 'f' then some (c.toNat - 'a'.toNat + 10)
  else if char 'A' ≤ c ∧ c ≤ char 'F' then some (c.toNat - 'A'.toNat + 10)
  else none

def decimalValue (c : Byte) : Option Nat :=
  if char '0' ≤ c ∧ c ≤ char '9' then some (c.toNat - '0'.toNat) else none

/-- Skips blanks and takes a sign, `true` for a minus. -/
def scanSign (data : List Byte) : Bool × List Byte :=
  match data.dropWhile isSpace with
  | [] => (false, [])
  | c :: data =>
    if c = char '-' then (true, data)
    else if c = char '+' then (false, data)
    else (false, c :: data)

/-- Digits after an optional `0x`. -/
def scanHex : List Byte → Option (Nat × List Byte)
  | [] => none
  | c :: data =>
    if ¬ (hexValue c).isSome then none
    else if c = char '0' ∧ (data.head? = some (char 'x') ∨ data.head? = some (char 'X')) then
      some (scan hexValue 16 0 (data.drop 1))
    else some (scan hexValue 16 0 (c :: data))

/-- `strtoul` stored in an `unsigned int` -/
def toUnsigned (negative : Bool) (n : Nat) : Word :=
  if 2 ^ 64 ≤ n then BitVec.allOnes 32
  else if negative then -BitVec.ofNat 32 n else BitVec.ofNat 32 n

/-- `sscanf(data, "%x", &value)`, with what follows the number -/
def sscanfX (data : List Byte) : Option (Word × List Byte) :=
  let (negative, data) := scanSign data
  (scanHex data).map fun (n, rest) => (toUnsigned negative n, rest)

/-- `sscanf(data, "%02x", &value)`: no more than two characters -/
def sscanf02x (data : List Byte) : Option Word :=
  (sscanfX ((data.dropWhile isSpace).take 2)).map Prod.fst

/-- `sscanf(data, "%x,%x", &address, &size)` -/
def sscanfXX (data : List Byte) (address size : Word) : Word × Word :=
  match sscanfX data with
  | none => (address, size)
  | some (address, []) => (address, size)
  | some (address, c :: data) =>
    if c = char ',' then (address, ((sscanfX data).map Prod.fst).getD size) else (address, size)

/-- `atoi(data)`, the bits of an `int` -/
def atoi (data : List Byte) : Word :=
  let (negative, data) := scanSign data
  let n := (scan decimalValue 10 0 data).1
  if negative then BitVec.ofInt 32 (max (-2 ^ 63) (-n)) else BitVec.ofInt 32 (min (2 ^ 63 - 1) n)

def hexChar (d : Nat) : Byte :=
  BitVec.ofNat 8 (if d < 10 then '0'.toNat + d else 'a'.toNat + d - 10)

/-- `sprintf(data, "%02x", value)` without the terminator -/
def sprintf02x (value : Byte) : List Byte := render hexChar 16 2 value.toNat

/-! ## What the conversions read back -/

theorem hexValue_hexChar : ∀ d < 16, hexValue (hexChar d) = some d := by
  decide

@[simp] theorem length_sprintf02x (value : Byte) : (sprintf02x value).length = 2 :=
  length_render hexChar 2 _

theorem spells_sprintf02x (value : Byte) : Spells hexValue 16 (sprintf02x value) value.toNat :=
  spells_render (by omega) hexValue_hexChar (by omega) value.isLt

theorem hexValue_digit : ∀ {c : Byte}, (hexValue c).isSome →
    isSpace c = false ∧ c ≠ char '-' ∧ c ≠ char '+' ∧ c ≠ char 'x' ∧ c ≠ char 'X' := by
  decide

theorem toUnsigned_toNat (v : Word) : toUnsigned false v.toNat = v := by
  have hlt := v.isLt
  rw [toUnsigned, if_neg (by omega), if_neg (by decide), BitVec.ofNat_toNat, BitVec.setWidth_eq]

theorem toUnsigned_byte (b : Byte) : toUnsigned false b.toNat = b.setWidth 32 := by
  have hlt := b.isLt
  rw [toUnsigned, if_neg (by omega), if_neg (by decide), BitVec.ofNat_toNat]

theorem scanSign_spells {s : List Byte} {n : Nat} (h : Spells hexValue 16 s n) (rest : List Byte) :
    scanSign (s ++ rest) = (false, s ++ rest) := by
  obtain ⟨c, s, rfl⟩ := List.exists_cons_of_ne_nil h.ne_nil
  obtain ⟨hspace, hminus, hplus, -⟩ :=
    hexValue_digit (isSome_of_valueFrom h.value c List.mem_cons_self)
  rw [List.cons_append, scanSign, List.dropWhile_cons_of_neg (by rw [hspace]; decide)]
  simp only [if_neg hminus, if_neg hplus]

theorem sscanfX_spells {s rest : List Byte} {n : Nat} (h : Spells hexValue 16 s n)
    (hrest : ∀ c ∈ rest.head?, hexValue c = none ∧ c ≠ char 'x' ∧ c ≠ char 'X') :
    sscanfX (s ++ rest) = some (toUnsigned false n, rest) := by
  have hscan : scan hexValue 16 0 (s ++ rest) = (n, rest) :=
    scan_append (fun c hc => (hrest c hc).1) h.value
  have hdigits := isSome_of_valueFrom h.value
  have hsign := scanSign_spells h rest
  obtain ⟨c, s, rfl⟩ := List.exists_cons_of_ne_nil h.ne_nil
  have hprefix : ¬ ((s ++ rest).head? = some (char 'x') ∨ (s ++ rest).head? = some (char 'X')) := by
    cases s with
    | nil => exact fun hx => hx.elim (fun hx => (hrest _ hx).2.1 rfl) fun hx => (hrest _ hx).2.2 rfl
    | cons d s =>
      obtain ⟨-, -, -, hx, hX⟩ := hexValue_digit (hdigits d (by simp))
      simp only [List.cons_append, List.head?_cons, Option.some.injEq]
      exact fun h => h.elim hx hX
  have hhex : scanHex (c :: (s ++ rest)) = some (n, rest) := by
    have hsome := hdigits c List.mem_cons_self
    rw [scanHex, if_neg (not_not.mpr hsome), if_neg fun hx => hprefix hx.2, ← List.cons_append,
      hscan]
  rw [sscanfX, hsign]
  simp only [List.cons_append, hhex, Option.map_some]

theorem sscanfXX_spells {s t rest : List Byte} {a n : Word} {c : Byte}
    (hs : Spells hexValue 16 s a.toNat) (ht : Spells hexValue 16 t n.toNat)
    (hc : hexValue c = none ∧ c ≠ char 'x' ∧ c ≠ char 'X') (u v : Word) :
    sscanfXX (s ++ char ',' :: (t ++ c :: rest)) u v = (a, n) := by
  have hfirst : sscanfX (s ++ char ',' :: (t ++ c :: rest)) =
      some (a, char ',' :: (t ++ c :: rest)) := by
    rw [sscanfX_spells hs (by rintro _ ⟨⟩; decide), toUnsigned_toNat]
  have hsecond : sscanfX (t ++ c :: rest) = some (n, c :: rest) := by
    rw [sscanfX_spells ht (by rintro _ ⟨⟩; exact hc), toUnsigned_toNat]
  rw [sscanfXX, hfirst]
  simp only [if_true, hsecond, Option.map_some, Option.getD_some]

theorem sscanf02x_spells {c d : Byte} {rest : List Byte} {n : Nat}
    (h : Spells hexValue 16 [c, d] n) : sscanf02x (c :: d :: rest) = some (toUnsigned false n) := by
  have hspace := (hexValue_digit (isSome_of_valueFrom h.value c List.mem_cons_self)).1
  have hscan : sscanfX ([c, d] ++ []) = _ := sscanfX_spells h (by simp)
  rw [sscanf02x, List.dropWhile_cons_of_neg (by rw [hspace]; decide)]
  simp only [List.take_succ_cons, List.take_zero]
  rw [List.append_nil] at hscan
  rw [hscan]
  rfl

theorem decimalValue_eq : ∀ c : Byte,
    decimalValue c = (hexValue c).bind fun d => if d ≤ 9 then some d else none := by
  decide

theorem scan_decimal {rest : List Byte} (hrest : ∀ c ∈ rest.head?, decimalValue c = none)
    {n : Nat} (hn : n < 16) (s : List Byte) (hne : s ≠ [])
    (h : valueFrom hexValue 16 0 s = some n) :
    (scan decimalValue 10 0 (s ++ rest)).1 = if n ≤ 9 then n else 0 := by
  induction s with
  | nil => exact absurd rfl hne
  | cons c s ih =>
    obtain ⟨d, hd, h⟩ := Option.bind_eq_some_iff.mp h
    have hc : decimalValue c = if d ≤ 9 then some d else none := by
      rw [decimalValue_eq, hd]
      rfl
    rw [List.cons_append, scan, hc]
    cases s with
    | nil =>
      obtain rfl : 16 * 0 + d = n := Option.some.inj h
      have hscan : scan decimalValue 10 (10 * 0 + d) rest = (10 * 0 + d, rest) :=
        scan_append (s := []) hrest rfl
      by_cases h9 : d ≤ 9
      · simpa [h9] using congrArg Prod.fst hscan
      · simp [h9]
    | cons c' s =>
      -- a digit before the last one is zero
      obtain ⟨d', hd', hlast⟩ := Option.bind_eq_some_iff.mp h
      have hle := le_of_valueFrom (by omega) hlast
      obtain rfl : d = 0 := by omega
      exact ih (List.cons_ne_nil _ _) h

theorem atoi_spells {s rest : List Byte} {n : Nat} (h : Spells hexValue 16 s n) (hn : n < 16)
    (hrest : ∀ c ∈ rest.head?, decimalValue c = none) :
    (atoi (s ++ rest)).toNat = if n ≤ 9 then n else 0 := by
  have hsmall : ∀ k : Nat, k < 16 → (BitVec.ofInt 32 (min (2 ^ 63 - 1) (k : Int))).toNat = k := by
    decide
  have hlt : (if n ≤ 9 then n else 0) < 16 := by
    split_ifs <;> omega
  rw [atoi, scanSign_spells h]
  simp only [Bool.false_eq_true, if_false, scan_decimal hrest hn s h.ne_nil h.value]
  exact hsmall _ hlt

theorem index_append {c : Byte} {s rest : List Byte} (hs : ∀ b ∈ s, b ≠ c ∧ b ≠ 0) :
    index c (s ++ c :: rest) = some (c :: rest) := by
  induction s with
  | nil => rw [List.nil_append, index, if_pos rfl]
  | cons b s ih =>
    obtain ⟨hc, h0⟩ := hs b List.mem_cons_self
    rw [List.cons_append, index, if_neg hc, if_neg h0]
    exact ih fun b hb => hs b (List.mem_cons_of_mem _ hb)

theorem cString_append {s rest : List Byte} (hs : ∀ b ∈ s, b ≠ 0) :
    cString (s ++ 0 :: rest) = s := by
  rw [cString, List.takeWhile_append_of_pos (by simpa using hs),
    List.takeWhile_cons_of_neg (by simp), List.append_nil]

end ArmSimulator.Machine
