import Mathlib.Data.List.GetD
import Mathlib.Data.List.Lex
import Mathlib.Data.List.Sort
import ArmSimulator.Foundation.BinarySearch
import ArmSimulator.Foundation.ExceptRun
import ArmSimulator.Machine.Debug

/-! # The selection of debugging messages

File names are ordered like their sequences of characters, and `strcmp` decides
that order. The table lists the selected names in it: adding a name inserts it
into the ordered list, and looking one up is a binary search.
-/

namespace ArmSimulator.Messages

open Machine Machine.Debug Foundation.ExceptRun Foundation.BinarySearch

/-! ## The order of file names -/

def code (s : List Byte) : List ℕ := s.map BitVec.toNat

theorem code_injective : Function.Injective code :=
  List.map_injective_iff.mpr fun _ _ => BitVec.eq_of_toNat_eq

theorem chars_injective : Function.Injective FileName.chars := by
  rintro ⟨s, hs⟩ ⟨t, ht⟩ h
  simpa using h

instance : LinearOrder FileName :=
  LinearOrder.lift' (fun x => code x.chars) (code_injective.comp chars_injective)

theorem strcmp_swap (s t : List Byte) : strcmp t s = -strcmp s t := by
  fun_induction strcmp s t with
  | case1 => rfl
  | case2 d t => rw [strcmp, neg_neg]
  | case3 c s => rw [strcmp]
  | case4 s d t ih => rw [strcmp, if_pos rfl, ih]
  | case5 c s d t hne => rw [strcmp, if_neg (Ne.symm hne), neg_sub]

theorem strcmp_neg_iff {s t : List Byte} (hs : 0 ∉ s) (ht : 0 ∉ t) :
    strcmp s t < 0 ↔ code s < code t := by
  fun_induction strcmp s t with
  | case1 => simp [code]
  | case2 d t =>
    have hd : 0 < d.toNat := by
      simp only [List.mem_cons, not_or] at ht
      exact Nat.pos_of_ne_zero fun h0 => ht.1 (BitVec.eq_of_toNat_eq h0.symm)
    simp [code, hd]
  | case3 c s => simp [code]
  | case4 s d t ih =>
    simp only [List.mem_cons, not_or] at hs ht
    rw [ih hs.2 ht.2]
    simp [code]
  | case5 c s d t hne =>
    have hcode : c.toNat ≠ d.toNat := fun h => hne (BitVec.eq_of_toNat_eq h)
    simp only [code, List.map_cons, List.cons_lt_cons_iff, hcode, false_and, or_false]
    omega

theorem strcmp_lt_zero_iff (x y : FileName) : strcmp x.chars y.chars < 0 ↔ x < y :=
  strcmp_neg_iff x.plain y.plain

theorem zero_lt_strcmp_iff (x y : FileName) : 0 < strcmp x.chars y.chars ↔ y < x := by
  rw [← strcmp_lt_zero_iff, strcmp_swap x.chars, neg_lt_zero]

theorem strcmp_le_zero_iff (x y : FileName) : strcmp x.chars y.chars ≤ 0 ↔ x ≤ y := by
  rw [← not_lt, zero_lt_strcmp_iff, not_lt]

theorem strcmp_eq_zero_iff (x y : FileName) : strcmp x.chars y.chars = 0 ↔ x = y := by
  rw [le_antisymm_iff, strcmp_le_zero_iff, ← not_lt (b := (0 : Int)), strcmp_lt_zero_iff, not_lt,
    ← le_antisymm_iff]

/-! ## The table as a list -/

/-- The assigned entries of the table, in their order. -/
def Lists (t : DebugTable) (l : List FileName) : Prop :=
  (∃ rest, t.debuggedFiles = l.map some ++ rest) ∧ t.nbDebuggedFiles = l.length

variable {t : DebugTable} {l : List FileName}

theorem lists_empty : Lists DebugTable.empty [] := ⟨⟨_, rfl⟩, rfl⟩

theorem Lists.length_le (h : Lists t l) : l.length ≤ maxFilesNumber := by
  obtain ⟨⟨rest, hfiles⟩, -⟩ := h
  have hsize := t.size_eq
  rw [hfiles, List.length_append, List.length_map] at hsize
  omega

theorem lt_size {pre rest : List (Option FileName)} {file : Option FileName}
    (h : t.debuggedFiles = pre ++ file :: rest) : pre.length < maxFilesNumber := by
  rw [← t.size_eq, h, List.length_append, List.length_cons]
  omega

theorem pointer_eq {pre rest : List (Option FileName)} {file : Option FileName}
    (h : t.debuggedFiles = pre ++ file :: rest) : t.pointer pre.length = .ok file := by
  have hlt := lt_size h
  rw [DebugTable.pointer, if_pos (by omega), Int.toNat_natCast, h,
    List.getElem?_append_right le_rfl, Nat.sub_self]
  rfl

theorem set_returns {pre rest : List (Option FileName)} {file : Option FileName}
    (h : t.debuggedFiles = pre ++ file :: rest) (name : Option FileName) :
    Returns (t.set pre.length name) fun t' =>
      t'.debuggedFiles = pre ++ name :: rest ∧ t'.nbDebuggedFiles = t.nbDebuggedFiles := by
  rw [DebugTable.set, if_pos (lt_size h), returns_ok_iff]
  refine ⟨?_, rfl⟩
  change t.debuggedFiles.set pre.length name = _
  rw [h, List.set_append_right _ _ le_rfl, Nat.sub_self, List.set_cons_zero]

theorem Lists.compare_eq {pre post : List FileName} {file : FileName}
    (h : Lists t (pre ++ file :: post)) (name : FileName) :
    t.compare pre.length name = .ok (strcmp file.chars name.chars) := by
  obtain ⟨⟨rest, hfiles⟩, -⟩ := h
  rw [List.map_append, List.append_assoc] at hfiles
  have hpointer := pointer_eq hfiles
  rw [List.length_map] at hpointer
  rw [DebugTable.compare, hpointer]
  rfl

/-! ## Adding a name -/

theorem insertionPoint_eq (name : FileName) (pre post : List FileName)
    (h : Lists t (pre ++ post)) :
    insertionPoint t name pre.length =
      .ok (pre.length + (post.takeWhile (· < name)).length) := by
  have hle := h.length_le
  have hnb := h.2
  rw [List.length_append] at hle hnb
  induction post generalizing pre with
  | nil =>
    rw [insertionPoint, if_neg (by simp only [List.length_nil] at hnb; omega)]
    rfl
  | cons file post ih =>
    rw [List.length_cons] at hle hnb
    rw [insertionPoint, if_pos (by omega), h.compare_eq, ok_bind]
    by_cases hlt : file < name
    · have hnext := ih (pre ++ [file]) (by simpa using h) (by simp; omega) (by simp; omega)
      rw [if_pos ((strcmp_lt_zero_iff _ _).mpr hlt)]
      rw [List.length_append, List.length_singleton] at hnext
      rw [hnext, List.takeWhile_cons_of_pos (by simpa using hlt), List.length_cons]
      congr 1
      omega
    · rw [if_neg ((strcmp_lt_zero_iff _ _).not.mpr hlt),
        List.takeWhile_cons_of_neg (by simpa using hlt)]
      rfl

theorem shift_returns (pre mid : List (Option FileName)) {rest : List (Option FileName)}
    {last : Option FileName} (h : t.debuggedFiles = pre ++ (mid ++ last :: rest)) :
    Returns (shift t pre.length mid.length) fun t' =>
      (∃ file, t'.debuggedFiles = pre ++ file :: (mid ++ rest)) ∧
        t'.nbDebuggedFiles = t.nbDebuggedFiles := by
  induction mid using List.reverseRecOn generalizing t last rest with
  | nil => exact returns_pure ⟨⟨last, h⟩, rfl⟩
  | append_singleton mid file ih =>
    have hread : t.debuggedFiles = (pre ++ mid) ++ file :: last :: rest := by simpa using h
    have hwrite : t.debuggedFiles = (pre ++ (mid ++ [file])) ++ last :: rest := by simpa using h
    have hpointer := pointer_eq hread
    have hset := set_returns hwrite file
    simp only [List.length_append, List.length_singleton, Nat.cast_add] at hpointer hset
    rw [List.length_append, List.length_singleton, shift, hpointer, ok_bind]
    refine hset.bind ?_
    rintro t' ⟨hfiles, hnb⟩
    have hmoved : t'.debuggedFiles = pre ++ (mid ++ file :: file :: rest) := by
      simpa using hfiles
    refine (ih hmoved).mono ?_
    rintro t'' ⟨⟨first, hfirst⟩, hnb'⟩
    exact ⟨⟨first, by simpa using hfirst⟩, hnb'.trans hnb⟩

/-- Adding a name inserts it into the ordered list. -/
theorem Lists.addDebugTo_returns (h : Lists t l) (name : FileName)
    (hroom : l.length < maxFilesNumber) :
    Returns (addDebugTo t name) fun t' => Lists t' (l.orderedInsert (· ≤ ·) name) := by
  set pre := l.takeWhile (· < name) with hpre
  set post := l.dropWhile (· < name) with hpost
  have hsplit : l = pre ++ post := List.takeWhile_append_dropWhile.symm
  have hinsert : l.orderedInsert (· ≤ ·) name = pre ++ name :: post := by
    rw [List.orderedInsert_eq_take_drop, hpre, hpost]
    simp only [not_le]
  have hpoint : insertionPoint t name 0 = .ok pre.length := by
    simpa using insertionPoint_eq name [] l h
  have hlength : l.length = pre.length + post.length := by rw [hsplit, List.length_append]
  have hsize := t.size_eq
  obtain ⟨⟨rest, hfiles⟩, hnb⟩ := h
  rw [hfiles, List.length_append, List.length_map] at hsize
  obtain ⟨last, rest, rfl⟩ := List.exists_cons_of_length_pos (l := rest) (by omega)
  rw [hsplit, List.map_append, List.append_assoc] at hfiles
  have hshift := shift_returns _ _ hfiles
  rw [List.length_map, List.length_map] at hshift
  rw [addDebugTo, hpoint, ok_bind, if_neg (by omega), hnb, hlength, Nat.add_sub_cancel_left]
  refine hshift.bind ?_
  rintro t₁ ⟨⟨file, hmoved⟩, hnb₁⟩
  have hset := set_returns hmoved (some name)
  rw [List.length_map] at hset
  refine hset.bind ?_
  rintro t₂ ⟨hadded, hnb₂⟩
  refine returns_pure ⟨⟨rest, ?_⟩, ?_⟩
  · rw [hinsert]
    simpa using hadded
  · rw [List.orderedInsert_length]
    exact congrArg (· + 1) (hnb₂.trans (hnb₁.trans hnb))

/-- The table lists the names that were added, in order. -/
def Selects (t : DebugTable) (names : List FileName) : Prop :=
  ∃ l, Lists t l ∧ l.Pairwise (· ≤ ·) ∧ l.Perm names

theorem Selects.addDebugTo_returns {names : List FileName} (h : Selects t names) (name : FileName)
    (hroom : names.length < maxFilesNumber) :
    Returns (addDebugTo t name) fun t' => Selects t' (name :: names) := by
  obtain ⟨l, hlists, hsorted, hperm⟩ := h
  refine (hlists.addDebugTo_returns name (by rwa [hperm.length_eq])).mono fun t' ht' => ?_
  exact ⟨_, ht', hsorted.orderedInsert name,
    (List.perm_orderedInsert (· ≤ ·) name l).trans (hperm.cons name)⟩

theorem Selects.foldlM_returns {done : List FileName} (h : Selects t done)
    (names : List FileName) (hroom : done.length + names.length ≤ maxFilesNumber) :
    Returns (names.foldlM addDebugTo t) fun t' => Selects t' (names.reverse ++ done) := by
  induction names generalizing t done with
  | nil => exact returns_pure h
  | cons name names ih =>
    rw [List.length_cons] at hroom
    rw [List.foldlM_cons]
    refine (h.addDebugTo_returns name (by omega)).bind fun t' ht' => ?_
    refine (ih ht' (by rw [List.length_cons]; omega)).mono fun t'' ht'' => ?_
    rwa [List.reverse_cons, List.append_assoc]

/-! ## Looking a name up -/

instance : Inhabited FileName := ⟨[], List.not_mem_nil⟩

def entry (l : List FileName) (i : ℤ) : FileName := l.getD i.toNat default

theorem entry_natCast {i : ℕ} (hi : i < l.length) : entry l i = l[i] := by
  rw [entry, Int.toNat_natCast, List.getD_eq_getElem _ _ hi]

theorem Lists.compare_entry (h : Lists t l) {i : ℤ} (hi : 0 ≤ i) (hlt : i < l.length)
    (name : FileName) : t.compare i name = .ok (strcmp (entry l i).chars name.chars) := by
  obtain ⟨n, rfl⟩ := Int.eq_ofNat_of_zero_le hi
  have hn : n < l.length := Int.ofNat_lt.mp hlt
  have hsplit : l = l.take n ++ l[n] :: l.drop (n + 1) := by
    rw [List.getElem_cons_drop, List.take_append_drop]
  have hcompare := (hsplit ▸ h : Lists t (l.take n ++ l[n] :: l.drop (n + 1))).compare_eq name
  rwa [List.length_take_of_le hn.le, ← entry_natCast hn] at hcompare

theorem ascending_entry (h : l.Pairwise (· ≤ ·)) : Ascending (entry l) 0 (l.length - 1) := by
  intro i j hi hij hj
  obtain ⟨m, rfl⟩ := Int.eq_ofNat_of_zero_le hi
  obtain ⟨n, rfl⟩ := Int.eq_ofNat_of_zero_le (hi.trans hij)
  have hn : n < l.length := by omega
  have hmn : m ≤ n := Int.ofNat_le.mp hij
  rw [entry_natCast (hmn.trans_lt hn), entry_natCast hn]
  exact h.sortedLE.getElem_le_getElem_of_le hmn

theorem occurs_entry_iff (name : FileName) :
    Occurs (entry l) name 0 (l.length - 1) ↔ name ∈ l := by
  rw [List.mem_iff_getElem]
  constructor
  · rintro ⟨i, hi, hlt, rfl⟩
    obtain ⟨n, rfl⟩ := Int.eq_ofNat_of_zero_le hi
    have hn : n < l.length := by omega
    exact ⟨n, hn, (entry_natCast hn).symm⟩
  · rintro ⟨n, hn, rfl⟩
    exact ⟨n, by omega, by omega, entry_natCast hn⟩

theorem Lists.searchLoop_step (h : Lists t l) (name : FileName) {lo hi : ℤ} (hlo : 0 ≤ lo)
    (hhi : hi ≤ l.length - 1) (hlt : lo < hi) :
    searchLoop t name lo hi =
      if strcmp (entry l ((lo + hi) / 2)).chars name.chars < 0 then
        searchLoop t name ((lo + hi) / 2 + 1) hi
      else if 0 < strcmp (entry l ((lo + hi) / 2)).chars name.chars then
        searchLoop t name lo ((lo + hi) / 2 - 1)
      else .ok 1 := by
  have hmiddle : (lo + hi).tdiv 2 = (lo + hi) / 2 := Int.tdiv_eq_ediv_of_nonneg (by omega)
  rw [searchLoop, if_pos hlt, hmiddle]
  change (t.compare _ name >>= _) = _
  rw [h.compare_entry (by omega) (by omega), ok_bind]
  rfl

theorem Lists.searchLoop_eq (h : Lists t l) (name : FileName) {lo hi : ℤ} (hlo : 0 ≤ lo)
    (hhi : hi ≤ l.length - 1) :
    searchLoop t name lo hi = .ok (if search (entry l) name lo hi then 1 else 0) := by
  fun_induction search (entry l) name lo hi with
  | case1 lo hi hlt hbefore ih =>
    rw [h.searchLoop_step name hlo hhi hlt, if_pos ((strcmp_lt_zero_iff _ _).mpr hbefore)]
    exact ih (by omega) hhi
  | case2 lo hi hlt hge hbehind ih =>
    rw [h.searchLoop_step name hlo hhi hlt, if_neg ((strcmp_lt_zero_iff _ _).not.mpr hge),
      if_pos ((zero_lt_strcmp_iff _ _).mpr hbehind)]
    exact ih hlo (by omega)
  | case3 lo hi hlt hge hle =>
    rw [h.searchLoop_step name hlo hhi hlt, if_neg ((strcmp_lt_zero_iff _ _).not.mpr hge),
      if_neg ((zero_lt_strcmp_iff _ _).not.mpr hle)]
    rfl
  | case4 lo hi hge =>
    rw [searchLoop, if_neg hge]
    by_cases heq : lo = hi
    · subst heq
      rw [if_pos rfl, h.compare_entry hlo (by omega), ok_bind]
      simp only [strcmp_eq_zero_iff, true_and, decide_eq_true_eq]
      split <;> rfl
    · rw [if_neg heq]
      simp only [heq, false_and, decide_false]
      rfl

theorem Selects.isDebugged_eq {names : List FileName} (h : Selects t names) (name : FileName) :
    isDebugged t name = .ok (if name ∈ names then 1 else 0) := by
  obtain ⟨l, hlists, hsorted, hperm⟩ := h
  rw [isDebugged, hlists.2, hlists.searchLoop_eq name le_rfl le_rfl,
    if_congr ((search_iff (ascending_entry hsorted)).trans
      ((occurs_entry_iff name).trans hperm.mem_iff)) rfl rfl]

/-- After the names of a command line, no more than the table holds, it lists them
all in the order of `strcmp`, and a lookup finds these names and no others. -/
theorem foldlM_addDebugTo (names : List FileName) (h : names.length ≤ maxFilesNumber) :
    Returns (names.foldlM addDebugTo DebugTable.empty) fun t =>
      (∃ l, Lists t l ∧ l.Pairwise (fun x y => strcmp x.chars y.chars ≤ 0) ∧ l.Perm names) ∧
        ∀ x, isDebugged t x = .ok (if x ∈ names then 1 else 0) := by
  have hempty : Selects DebugTable.empty [] := ⟨[], lists_empty, List.Pairwise.nil, .refl _⟩
  refine (hempty.foldlM_returns names (by simpa using h)).mono fun t ht => ?_
  rw [List.append_nil] at ht
  refine ⟨?_, fun x => ?_⟩
  · obtain ⟨l, hlists, hsorted, hperm⟩ := ht
    exact ⟨l, hlists, hsorted.imp fun h => (strcmp_le_zero_iff _ _).mpr h,
      hperm.trans names.reverse_perm⟩
  · rw [ht.isDebugged_eq]
    simp only [List.mem_reverse]

/-- Two files, one of them twice. -/
def selected : List FileName :=
  [⟨ascii "memory.c", by decide⟩, ⟨ascii "main.c", by decide⟩, ⟨ascii "memory.c", by decide⟩]

theorem foldlM_addDebugTo_selected :
    Returns (selected.foldlM addDebugTo DebugTable.empty) fun t =>
      (∃ l, Lists t l ∧ l.Pairwise (fun x y => strcmp x.chars y.chars ≤ 0) ∧ l.Perm selected) ∧
        ∀ x, isDebugged t x = .ok (if x ∈ selected then 1 else 0) :=
  foldlM_addDebugTo selected (by decide)

end ArmSimulator.Messages
