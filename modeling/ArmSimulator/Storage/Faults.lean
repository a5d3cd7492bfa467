import ArmSimulator.Storage.Bounds

/-! # Accesses that leave the block

Behind the bound test an accessor indexes the block at each address of the
access, modulo `2 ^ 32`. One of them is past the block exactly when the access
wraps, unless the memory fills the whole address space.
-/

namespace ArmSimulator.Storage

open Machine Foundation.ExceptRun

/-- The bound test lets the access pass. -/
def Admitted (mem : Memory) (n : Width) (a : Word) : Prop := (lastByte a n).toNat < mem.values.size

/-- The access is let pass, and then indexes the block past its end. -/
def Faults (mem : Memory) (n : Width) (a : Word) : Prop :=
  Wraps mem a n ∧ mem.values.size < 2 ^ 32

instance (mem : Memory) (n : Width) (a : Word) : Decidable (Admitted mem n a) :=
  inferInstanceAs (Decidable (_ < _))

instance (mem : Memory) (n : Width) (a : Word) : Decidable (Faults mem n a) :=
  inferInstanceAs (Decidable (_ ∧ _))

variable {mem : Memory} {a : Word} {n : Width}

theorem not_faults_byte : ¬ Faults mem .byte a := by
  rintro ⟨⟨hwrap, -, -⟩, -⟩
  have ha := a.isLt
  rw [Width.bytes] at hwrap
  omega

theorem admitted_of_faults (h : Faults mem n a) : Admitted mem n a := (wraps_iff.mp h.1).1

theorem not_faults_of_rejected (h : ¬ Admitted mem n a) : ¬ Faults mem n a :=
  fun hfaults => h (admitted_of_faults hfaults)

theorem faults_congr {m : Memory} (h : m.values.size = mem.values.size) :
    Faults m n a ↔ Faults mem n a := by
  rw [Faults, Faults, Wraps, Wraps, h]

theorem admitted_congr {m : Memory} (h : m.values.size = mem.values.size) :
    Admitted m n a ↔ Admitted mem n a := by
  rw [Admitted, Admitted, h]

/-! ## Loads and stores of single bytes -/

section Bytes

variable {β : Type} {Q : β → Prop} {C : Prop} {b : Word}

theorem returns_load_iff {f : Byte → Except Stop β} (h : ∀ x, Returns (f x) Q ↔ C) :
    Returns (mem.load b >>= f) Q ↔ b.toNat < mem.values.size ∧ C := by
  by_cases hb : b.toNat < mem.values.size
  · obtain ⟨x, hx⟩ := load_of_lt hb
    rw [hx, ok_bind, h x, and_iff_right hb]
  · have hx : mem.load b = .error .wild := by
      rw [Memory.load, Array.getElem?_eq_none (Nat.le_of_not_lt hb)]
    rw [hx]
    exact iff_of_false (not_returns_error _) fun h => hb h.1

theorem returns_store_iff {m : Memory} (hm : m.values.size = mem.values.size) (x : Byte)
    {f : Memory → Except Stop β}
    (h : ∀ m', m'.values.size = mem.values.size → (Returns (f m') Q ↔ C)) :
    Returns (m.store b x >>= f) Q ↔ b.toNat < mem.values.size ∧ C := by
  by_cases hb : b.toNat < mem.values.size
  · rw [store_eq (by omega), ok_bind, and_iff_right hb]
    exact h _ (by rw [Array.size_setIfInBounds, hm])
  · have hx : m.store b x = .error .wild := if_neg (by rwa [hm])
    rw [hx]
    exact iff_of_false (not_returns_error _) fun h => hb h.1

end Bytes

/-! ## The six accessors -/

theorem faults_byte (h : Admitted mem .byte a) :
    a.toNat < mem.values.size ∧ True ↔ ¬ Faults mem .byte a :=
  iff_of_true ⟨h, trivial⟩ not_faults_byte

theorem faults_half (h : Admitted mem .half a) :
    a.toNat < mem.values.size ∧ (a + 1).toNat < mem.values.size ↔ ¬ Faults mem .half a := by
  have h : (a + 1).toNat < mem.values.size := h
  rw [Faults, Wraps, Width.bytes]
  bv_omega

theorem faults_word (h : Admitted mem .word a) :
    a.toNat < mem.values.size ∧ (a + 1).toNat < mem.values.size ∧
      (a + 2).toNat < mem.values.size ∧ (a + 3).toNat < mem.values.size ↔
    ¬ Faults mem .word a := by
  have h : (a + 3).toNat < mem.values.size := h
  rw [Faults, Wraps, Width.bytes]
  bv_omega

/-- An accessor that returns says whether the access was let pass, and keeps the size. -/
structure Answers (mem : Memory) (n : Width) (a : Word) (r : Int) : Prop where
  zero : Admitted mem n a → r = 0
  rejected : ¬ Admitted mem n a → r = -1

theorem Answers.zero_iff {r : Int} (h : Answers mem n a r) : r = 0 ↔ Admitted mem n a := by
  by_cases hadmitted : Admitted mem n a
  · exact iff_of_true (h.zero hadmitted) hadmitted
  · rw [h.rejected hadmitted]
    exact iff_of_false (by decide) hadmitted

theorem returns_tested_iff {α : Type} {old : α} {body : Except Stop (Int × α)} {Q : α → Prop}
    (hold : Q old) {C : Prop} (hC : Admitted mem n a → (C ↔ ¬ Faults mem n a))
    (hbody : Returns body (fun r => r.1 = 0 ∧ Q r.2) ↔ C) :
    Returns (if a < 0 ∨ memoryGetSize mem ≤ (lastByte a n).toNat then .ok (-1, old) else body)
      (fun r => Answers mem n a r.1 ∧ Q r.2) ↔ ¬ Faults mem n a := by
  by_cases h : Admitted mem n a
  · have hanswers (r : Int) : Answers mem n a r ↔ r = 0 :=
      ⟨fun ha => ha.zero h, fun hr => ⟨fun _ => hr, fun hn => absurd h hn⟩⟩
    simp only [if_neg (not_rejected h), hanswers]
    rw [hbody, hC h]
  · have hreject : a < 0 ∨ memoryGetSize mem ≤ (lastByte a n).toNat := Or.inr (Nat.le_of_not_lt h)
    rw [if_pos hreject, returns_ok_iff]
    exact iff_of_true ⟨⟨fun ha => absurd ha h, fun _ => rfl⟩, hold⟩ (not_faults_of_rejected h)

theorem memoryRead_returns_iff (v : n.Value) :
    Returns (memoryRead n mem a v) (fun r => Answers mem n a r.1) ↔ ¬ Faults mem n a := by
  have hdrop {x : Except Stop (Int × n.Value)} :
      Returns x (fun r => Answers mem n a r.1) ↔ Returns x fun r => Answers mem n a r.1 ∧ True :=
    returns_congr fun _ _ => (and_iff_left trivial).symm
  have hdone {α : Type} (x : α) : Returns (pure ((0 : Int), x) : Except Stop (Int × α))
      (fun r => r.1 = 0 ∧ True) ↔ True := iff_true_intro (returns_pure ⟨rfl, trivial⟩)
  rw [hdrop]
  cases n with
  | byte =>
    refine returns_tested_iff (Q := fun _ => True) trivial faults_byte ?_
    exact returns_load_iff hdone
  | half =>
    refine returns_tested_iff (Q := fun _ => True) trivial faults_half ?_
    split
    · rw [returns_load_iff fun x => returns_load_iff fun _ => hdone _, and_true]
    · rw [returns_load_iff fun x => returns_load_iff fun _ => hdone _, and_true, and_comm]
  | word =>
    refine returns_tested_iff (Q := fun _ => True) trivial faults_word ?_
    split
    · rw [returns_load_iff fun _ => returns_load_iff fun _ => returns_load_iff fun _ =>
        returns_load_iff fun _ => hdone _, and_true]
    · rw [returns_load_iff fun _ => returns_load_iff fun _ => returns_load_iff fun _ =>
        returns_load_iff fun _ => hdone _]
      tauto

theorem memoryWrite_returns_iff (v : n.Value) {Q : Memory → Prop}
    (hQ : ∀ m : Memory, m.values.size = mem.values.size → Q m) :
    Returns (memoryWrite n mem a v) (fun r => Answers mem n a r.1 ∧ Q r.2) ↔
      ¬ Faults mem n a := by
  have hdone (m : Memory) (hm : m.values.size = mem.values.size) :
      Returns (pure ((0 : Int), m) : Except Stop (Int × Memory)) (fun r => r.1 = 0 ∧ Q r.2) ↔
        True :=
    iff_true_intro (returns_pure ⟨rfl, hQ m hm⟩)
  cases n with
  | byte =>
    refine returns_tested_iff (hQ mem rfl) faults_byte ?_
    exact returns_store_iff rfl v hdone
  | half =>
    refine returns_tested_iff (hQ mem rfl) faults_half ?_
    split
    all_goals
      rw [returns_store_iff rfl _ fun _ h₁ => returns_store_iff h₁ _ hdone, and_true]
  | word =>
    refine returns_tested_iff (hQ mem rfl) faults_word ?_
    split
    · rw [returns_store_iff rfl _ fun _ h₁ => returns_store_iff h₁ _ fun _ h₂ =>
        returns_store_iff h₂ _ fun _ h₃ => returns_store_iff h₃ _ hdone, and_true]
    · rw [returns_store_iff rfl _ fun _ h₁ => returns_store_iff h₁ _ fun _ h₂ =>
        returns_store_iff h₂ _ fun _ h₃ => returns_store_iff h₃ _ hdone]
      tauto

/-! ## The out-parameter of a read -/

theorem memoryRead_rejected (h : ¬ Admitted mem n a) (v : n.Value) :
    memoryRead n mem a v = .ok (-1, v) :=
  (memoryRead_boundTested v).rejected (Nat.le_of_not_lt h)

theorem memoryRead_admitted (h : Admitted mem n a) (v v' : n.Value) :
    memoryRead n mem a v = memoryRead n mem a v' := by
  have htest := not_rejected (a := a) h
  cases n with
  | byte => exact (if_neg htest).trans (if_neg htest).symm
  | half => exact (if_neg htest).trans (if_neg htest).symm
  | word => exact (if_neg htest).trans (if_neg htest).symm

/-! ## How an access stops -/

theorem load_throws (mem : Memory) (b : Word) : Throws (mem.load b) (· = .wild) := by
  unfold Memory.load
  split
  · exact throws_ok _
  · exact throws_error rfl

theorem store_throws (mem : Memory) (b : Word) (x : Byte) :
    Throws (mem.store b x) (· = .wild) := by
  unfold Memory.store
  split
  · exact throws_ok _
  · exact throws_error rfl

theorem memoryReadWord_throws (v : Word) : Throws (memoryReadWord mem a v) (· = .wild) := by
  unfold memoryReadWord
  split
  · exact throws_ok _
  · split
    all_goals
      exact (load_throws _ _).bind fun _ => (load_throws _ _).bind fun _ =>
        (load_throws _ _).bind fun _ => (load_throws _ _).bind fun _ => throws_ok _

theorem memoryWriteWord_throws (v : Word) : Throws (memoryWriteWord mem a v) (· = .wild) := by
  unfold memoryWriteWord
  split
  · exact throws_ok _
  · split
    all_goals
      exact (store_throws _ _ _).bind fun _ => (store_throws _ _ _).bind fun _ =>
        (store_throws _ _ _).bind fun _ => (store_throws _ _ _).bind fun _ => throws_ok _

/-! ## Accesses within a computation -/

section Rest

variable {β : Type} {Q : β → Prop} {C : Prop}

theorem BoundTested.answers {α : Type} {old : α} {out : Except Stop (Int × α)}
    (h : BoundTested mem a n old out) : Ensures out fun r => Answers mem n a r.1 := by
  rintro ⟨r, new⟩ hr
  refine ⟨fun hadmitted => h.passed hadmitted r new hr, fun hrejected => ?_⟩
  rw [h.rejected (Nat.le_of_not_lt hrejected), Except.ok.injEq, Prod.mk.injEq] at hr
  exact hr.1.symm

theorem returns_read_iff (v : n.Value) {f : Int × n.Value → Except Stop β}
    (hf : ∀ r, Answers mem n a r.1 → (Returns (f r) Q ↔ C)) :
    Returns (memoryRead n mem a v >>= f) Q ↔ ¬ Faults mem n a ∧ C := by
  by_cases h : Faults mem n a
  · refine iff_of_false (fun hreturns => ?_) fun hreturns => hreturns.1 h
    have hread := (returns_bind_iff.mp hreturns).and_ensures (memoryRead_boundTested v).answers
    exact (memoryRead_returns_iff v).mp (hread.mono fun _ hr => hr.2) h
  · rw [and_iff_right h]
    exact ((memoryRead_returns_iff v).mpr h).bind_iff fun r _ hr => hf r hr

theorem returns_write_iff (v : n.Value) {f : Int × Memory → Except Stop β}
    (hf : ∀ r, Answers mem n a r.1 → r.2.values.size = mem.values.size →
      (Returns (f r) Q ↔ C)) :
    Returns (memoryWrite n mem a v >>= f) Q ↔ ¬ Faults mem n a ∧ C := by
  by_cases h : Faults mem n a
  · refine iff_of_false (fun hreturns => ?_) fun hreturns => hreturns.1 h
    have hwrite := (returns_bind_iff.mp hreturns).and_ensures (memoryWrite_boundTested v).answers
    exact (memoryWrite_returns_iff v (Q := fun _ => True) fun _ _ => trivial).mp
      (hwrite.mono fun _ hr => ⟨hr.2, trivial⟩) h
  · rw [and_iff_right h]
    exact ((memoryWrite_returns_iff v fun _ hm => hm).mpr h).bind_iff
      fun r _ hr => hf r hr.1 hr.2

end Rest

end ArmSimulator.Storage
