import ArmSimulator.Machine.GdbProtocol

/-! # Texts and their terminators

The conversions of the C library stop at a terminator: what follows it in its
array, and the terminator itself, make no difference to what they return. An
empty text stands for a terminator that nothing may be read behind.
-/

namespace ArmSimulator.Debugger

open Machine Machine.Gdb Foundation.Numeral

variable (s r : List Byte)

theorem dropWhile_terminated :
    (s ++ 0 :: r).dropWhile isSpace = s.dropWhile isSpace ++ 0 :: r := by
  induction s with
  | nil => rfl
  | cons c s ih =>
    rw [List.cons_append, List.dropWhile_cons, List.dropWhile_cons]
    split
    · exact ih
    · rfl

theorem scanSign_terminated :
    scanSign (s ++ 0 :: r) = ((scanSign s).1, (scanSign s).2 ++ 0 :: r) := by
  unfold scanSign
  rw [dropWhile_terminated]
  cases s.dropWhile isSpace with
  | nil => rfl
  | cons c t =>
    simp only [List.cons_append]
    split
    · rfl
    · split
      · rfl
      · rfl

theorem scanHex_terminated :
    scanHex (s ++ 0 :: r) = (scanHex s).map fun n => (n.1, n.2 ++ 0 :: r) := by
  have hzero : hexValue 0 = none := by decide
  match s with
  | [] => rfl
  | [c] =>
    have hend (d : Option Byte) (hd : d = none ∨ d = some 0) :
        ¬ (c = char '0' ∧ (d = some (char 'x') ∨ d = some (char 'X'))) := by
      rcases hd with rfl | rfl
      · exact fun h => absurd h.2 (by decide)
      · exact fun h => absurd h.2 (by decide)
    rw [List.singleton_append, scanHex, scanHex, if_neg (hend (0 :: r).head? (Or.inr rfl)),
      if_neg (hend [].head? (Or.inl rfl))]
    split
    · rfl
    · exact congrArg some (scan_terminated hzero r [c] 0)
  | c :: d :: t =>
    rw [List.cons_append, List.cons_append, scanHex, scanHex]
    simp only [List.head?_cons, List.drop_succ_cons, List.drop_zero]
    split_ifs
    · exact congrArg some (scan_terminated hzero r t 0)
    · exact congrArg some (scan_terminated hzero r (c :: d :: t) 0)
    · rfl

theorem sscanfX_terminated :
    sscanfX (s ++ 0 :: r) = (sscanfX s).map fun n => (n.1, n.2 ++ 0 :: r) := by
  unfold sscanfX
  rw [scanSign_terminated]
  dsimp only
  rw [scanHex_terminated, Option.map_map, Option.map_map]
  rfl

theorem sscanfX_value_terminated :
    (sscanfX (s ++ 0 :: r)).map Prod.fst = (sscanfX s).map Prod.fst := by
  rw [sscanfX_terminated, Option.map_map]
  rfl

theorem sscanf02x_terminated : sscanf02x (s ++ 0 :: r) = sscanf02x s := by
  unfold sscanf02x
  rw [dropWhile_terminated]
  match s.dropWhile isSpace with
  | [] => exact sscanfX_value_terminated [] (r.take 1)
  | [c] => exact sscanfX_value_terminated [c] []
  | c :: d :: t => rfl

theorem sscanfXX_terminated (u v : Word) : sscanfXX (s ++ 0 :: r) u v = sscanfXX s u v := by
  have hcomma : (0 : Byte) ≠ char ',' := by decide
  unfold sscanfXX
  rw [sscanfX_terminated]
  match sscanfX s with
  | none => rfl
  | some (a, []) => exact if_neg hcomma
  | some (a, c :: t) =>
    simp only [Option.map_some, List.cons_append, sscanfX_value_terminated]

theorem atoi_terminated : atoi (s ++ 0 :: r) = atoi s := by
  have hzero : decimalValue 0 = none := by decide
  unfold atoi
  rw [scanSign_terminated]
  dsimp only
  rw [scan_terminated hzero]

theorem index_terminated {c : Byte} (hc : c ≠ 0) :
    index c (s ++ 0 :: r) = (index c s).map (· ++ 0 :: r) := by
  induction s with
  | nil =>
    have hstop : index c (0 :: r) = none := by
      rw [index, if_neg hc.symm, if_pos rfl]
    exact hstop
  | cons b s ih =>
    rw [List.cons_append, index, index]
    split
    · rfl
    · split
      · rfl
      · exact ih

theorem index_ne_nil (c : Byte) : index c s ≠ some [] := by
  induction s with
  | nil => exact Option.some_ne_none [] ∘ Eq.symm
  | cons b s ih =>
    rw [index]
    split
    · simp
    · split
      · simp
      · exact ih

theorem afterIndex_terminated {c : Byte} (hc : c ≠ 0) (h : (index c s).isSome) :
    afterIndex c (s ++ 0 :: r) = afterIndex c s ++ 0 :: r := by
  obtain ⟨t, ht⟩ := Option.isSome_iff_exists.mp h
  have hne : t ≠ [] := by
    rintro rfl
    exact index_ne_nil s c ht
  obtain ⟨b, t, rfl⟩ := List.exists_cons_of_ne_nil hne
  rw [afterIndex, afterIndex, index_terminated _ _ hc, ht]
  rfl

end ArmSimulator.Debugger
