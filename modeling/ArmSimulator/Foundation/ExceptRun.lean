import Mathlib.Tactic.Common

/-! # Computations and loops that can fail

A bind succeeds exactly when both of its parts do. What one iteration of a
loop preserves, every completed run of the loop preserves.
-/

namespace Foundation.ExceptRun

universe u v

variable {ε : Type u} {α β : Type v}

theorem bind_eq_ok {x : Except ε α} {f : α → Except ε β} {b : β} :
    (x >>= f) = .ok b ↔ ∃ a, x = .ok a ∧ f a = .ok b := by
  cases x with
  | error e => simp [bind, Except.bind]
  | ok a => simp [bind, Except.bind]

theorem map_eq_ok {x : Except ε α} {f : α → β} {b : β} :
    f <$> x = .ok b ↔ ∃ a, x = .ok a ∧ f a = b := by
  cases x <;> simp

@[simp] theorem pure_eq_ok {a b : α} : (pure a : Except ε α) = .ok b ↔ a = b := by
  simp [pure, Except.pure]

theorem exists_of_isOk {x : Except ε α} (h : x.isOk) : ∃ a, x = .ok a := by
  cases x with
  | error e => cases h
  | ok a => exact ⟨a, rfl⟩

theorem ok_bind (a : α) (f : α → Except ε β) : (Except.ok a >>= f) = f a := rfl

theorem cond_bind (c : Bool) (x y : Except ε α) (f : α → Except ε β) :
    ((if c then x else y) >>= f) = if c then x >>= f else y >>= f := by
  cases c <;> rfl

theorem bind_map_congr {α' β' : Type v} {φ : α → α'} {ψ : β → β'} {x : Except ε α}
    {y : Except ε α'} {f : α → Except ε β} {g : α' → Except ε β'} (hx : y = φ <$> x)
    (hf : ∀ a, x = .ok a → g (φ a) = ψ <$> f a) : (y >>= g) = ψ <$> (x >>= f) := by
  subst hx
  cases x with
  | error e => rfl
  | ok a => exact hf a rfl

theorem bind_map_same {β' : Type v} {ψ : β → β'} {x : Except ε α} {f : α → Except ε β}
    {g : α → Except ε β'} (hf : ∀ a, x = .ok a → g a = ψ <$> f a) :
    (x >>= g) = ψ <$> (x >>= f) :=
  bind_map_congr (φ := id) (id_map x).symm hf

/-! ## Postconditions -/

/-- Every value the computation returns satisfies `P`. -/
def Ensures (x : Except ε α) (P : α → Prop) : Prop := ∀ a, x = .ok a → P a

section Rules

variable {P : α → Prop} {Q : β → Prop} {x : Except ε α}

theorem ensures_ok {a : α} (h : P a) : Ensures (.ok a : Except ε α) P := by
  intro b hb
  rw [Except.ok.injEq] at hb
  exact hb ▸ h

theorem ensures_pure {a : α} (h : P a) : Ensures (pure a : Except ε α) P := ensures_ok h

theorem ensures_error (e : ε) : Ensures (.error e : Except ε α) P := by
  intro a ha
  simp at ha

theorem ensures_true (x : Except ε α) : Ensures x fun _ => True := fun _ _ => trivial

theorem Ensures.mono {P' : α → Prop} (h : Ensures x P) (hP : ∀ a, P a → P' a) : Ensures x P' :=
  fun a ha => hP a (h a ha)

theorem Ensures.bind {f : α → Except ε β} (h : Ensures x P) (hf : ∀ a, P a → Ensures (f a) Q) :
    Ensures (x >>= f) Q := by
  intro b hb
  obtain ⟨a, ha, hb⟩ := bind_eq_ok.mp hb
  exact hf a (h a ha) b hb

theorem ensures_bind {f : α → Except ε β} (hf : ∀ a, Ensures (f a) Q) : Ensures (x >>= f) Q :=
  (ensures_true x).bind fun a _ => hf a

theorem Ensures.map {f : α → β} (h : Ensures x fun a => Q (f a)) : Ensures (f <$> x) Q := by
  intro b hb
  obtain ⟨a, ha, rfl⟩ := map_eq_ok.mp hb
  exact h a ha

end Rules

/-! ## Total correctness -/

/-- The computation returns, with a value that satisfies `P`. -/
def Returns (x : Except ε α) (P : α → Prop) : Prop := ∃ a, x = .ok a ∧ P a

section Total

variable {P P' : α → Prop} {Q : β → Prop} {x : Except ε α}

theorem returns_ok_iff {a : α} : Returns (.ok a : Except ε α) P ↔ P a := by
  constructor
  · rintro ⟨b, hb, hP⟩
    rw [Except.ok.injEq] at hb
    exact hb ▸ hP
  · exact fun h => ⟨a, rfl, h⟩

theorem returns_pure {a : α} (h : P a) : Returns (pure a : Except ε α) P := returns_ok_iff.mpr h

theorem not_returns_error (e : ε) : ¬ Returns (.error e : Except ε α) P := by
  rintro ⟨a, ha, -⟩
  cases ha

theorem Returns.mono (h : Returns x P) (hP : ∀ a, P a → P' a) : Returns x P' := by
  obtain ⟨a, ha, hPa⟩ := h
  exact ⟨a, ha, hP a hPa⟩

theorem Returns.and_ensures (h : Returns x P) (h' : Ensures x P') :
    Returns x fun a => P a ∧ P' a := by
  obtain ⟨a, ha, hPa⟩ := h
  exact ⟨a, ha, hPa, h' a ha⟩

theorem returns_congr (h : ∀ a, x = .ok a → (P a ↔ P' a)) : Returns x P ↔ Returns x P' :=
  exists_congr fun a => and_congr_right fun ha => h a ha

theorem returns_bind_iff {f : α → Except ε β} :
    Returns (x >>= f) Q ↔ Returns x fun a => Returns (f a) Q := by
  constructor
  · rintro ⟨b, hb, hQ⟩
    obtain ⟨a, ha, hfa⟩ := bind_eq_ok.mp hb
    exact ⟨a, ha, b, hfa, hQ⟩
  · rintro ⟨a, ha, b, hfa, hQ⟩
    exact ⟨b, bind_eq_ok.mpr ⟨a, ha, hfa⟩, hQ⟩

theorem returns_map_iff {f : α → β} : Returns (f <$> x) Q ↔ Returns x fun a => Q (f a) := by
  constructor
  · rintro ⟨b, hb, hQ⟩
    obtain ⟨a, ha, rfl⟩ := map_eq_ok.mp hb
    exact ⟨a, ha, hQ⟩
  · rintro ⟨a, ha, hQ⟩
    exact ⟨f a, map_eq_ok.mpr ⟨a, ha, rfl⟩, hQ⟩

theorem Returns.bind {f : α → Except ε β} (h : Returns x P) (hf : ∀ a, P a → Returns (f a) Q) :
    Returns (x >>= f) Q :=
  returns_bind_iff.mpr (h.mono hf)

theorem Returns.map {f : α → β} (h : Returns x fun a => Q (f a)) : Returns (f <$> x) Q :=
  returns_map_iff.mpr h

theorem Returns.bind_iff {f : α → Except ε β} {C : Prop} (h : Returns x P)
    (hf : ∀ a, x = .ok a → P a → (Returns (f a) Q ↔ C)) : Returns (x >>= f) Q ↔ C := by
  obtain ⟨a, ha, hPa⟩ := h
  rw [ha, ok_bind]
  exact hf a ha hPa

end Total

/-! ## Failures -/

/-- Every error the computation ends in satisfies `P`. -/
def Throws (x : Except ε α) (P : ε → Prop) : Prop := ∀ e, x = .error e → P e

section Failures

variable {P : ε → Prop} {x : Except ε α}

theorem bind_eq_error {f : α → Except ε β} {e : ε} :
    (x >>= f) = .error e ↔ x = .error e ∨ ∃ a, x = .ok a ∧ f a = .error e := by
  cases x with
  | error e' => simp [bind, Except.bind]
  | ok a => simp [bind, Except.bind]

theorem map_eq_error {f : α → β} {e : ε} : f <$> x = .error e ↔ x = .error e := by
  cases x <;> simp

theorem throws_ok (a : α) : Throws (.ok a : Except ε α) P := by
  intro e he
  cases he

theorem throws_error {e : ε} (h : P e) : Throws (.error e : Except ε α) P := by
  intro e' he'
  rw [Except.error.injEq] at he'
  exact he' ▸ h

theorem Throws.bind {f : α → Except ε β} (h : Throws x P) (hf : ∀ a, Throws (f a) P) :
    Throws (x >>= f) P := by
  intro e he
  rcases bind_eq_error.mp he with he | ⟨a, -, he⟩
  · exact h e he
  · exact hf a e he

end Failures

/-! ## Parameters that make no difference -/

/-- The value is the same whatever the parameter. -/
def Ignores {ι : Type*} {γ : Type*} (f : ι → γ) : Prop := ∀ i j, f i = f j

section Parameters

variable {ι : Type*}

theorem ignores_const {γ : Type*} (c : γ) : Ignores fun _ : ι => c := fun _ _ => rfl

theorem Ignores.bind {f : ι → Except ε α} {g : ι → α → Except ε β} (hf : Ignores f)
    (hg : ∀ a, Ignores fun i => g i a) : Ignores fun i => f i >>= g i := by
  intro i j
  change (f i >>= g i) = (f j >>= g j)
  rw [hf i j]
  exact congrArg _ (funext fun a => hg a i j)

theorem ignores_map_iff {f : ι → Except ε α} {g : α → β} (hg : Function.Injective g) :
    (Ignores fun i => g <$> f i) ↔ Ignores f := by
  refine forall₂_congr fun i j => ⟨fun h => ?_, congrArg _⟩
  have h : g <$> f i = g <$> f j := h
  cases hi : f i with
  | error e =>
    rw [hi] at h
    exact (map_eq_error.mp h.symm).symm
  | ok a =>
    rw [hi] at h
    obtain ⟨b, hb, hab⟩ := map_eq_ok.mp h.symm
    rw [hb, hg hab]

end Parameters

section Loop

variable {σ : Type v} {ι : Type*} {step : σ → ι → Except ε σ} {P : σ → Prop}

/-- A property that every completed iteration of the loop preserves holds after it. -/
theorem ensures_foldlM_mem (is : List ι) (hstep : ∀ s, ∀ i ∈ is, P s → Ensures (step s i) P)
    {s : σ} (hs : P s) : Ensures (is.foldlM step s) P := by
  induction is generalizing s with
  | nil => exact ensures_pure hs
  | cons i is ih =>
    rw [List.foldlM_cons]
    exact (hstep s i List.mem_cons_self hs).bind fun t ht =>
      ih (fun s j hj => hstep s j (List.mem_cons_of_mem i hj)) ht

theorem ensures_foldlM (hstep : ∀ s i, P s → Ensures (step s i) P) (is : List ι) {s : σ}
    (hs : P s) : Ensures (is.foldlM step s) P :=
  ensures_foldlM_mem is (fun s i _ => hstep s i) hs

theorem foldlM_congr {step' : σ → ι → Except ε σ} (is : List ι)
    (h : ∀ s, ∀ i ∈ is, step s i = step' s i) (s : σ) : is.foldlM step s = is.foldlM step' s := by
  induction is generalizing s with
  | nil => rfl
  | cons i is ih =>
    rw [List.foldlM_cons, List.foldlM_cons, h s i List.mem_cons_self]
    exact congrArg _ (funext fun t => ih (fun t j hj => h t j (List.mem_cons_of_mem i hj)) t)

theorem foldlM_idle {is : List ι} {s : σ} (h : ∀ i ∈ is, step s i = .ok s) :
    is.foldlM step s = .ok s := by
  induction is with
  | nil => rfl
  | cons i is ih =>
    rw [List.foldlM_cons, h i List.mem_cons_self, ok_bind]
    exact ih fun j hj => h j (List.mem_cons_of_mem i hj)

theorem returns_foldlM_mem (is : List ι) (hstep : ∀ s, ∀ i ∈ is, P s → Returns (step s i) P)
    {s : σ} (hs : P s) : Returns (is.foldlM step s) P := by
  induction is generalizing s with
  | nil => exact returns_pure hs
  | cons i is ih =>
    rw [List.foldlM_cons]
    exact (hstep s i List.mem_cons_self hs).bind fun t ht =>
      ih (fun s j hj => hstep s j (List.mem_cons_of_mem i hj)) ht

theorem foldlM_map_comm {φ : σ → σ} (h : ∀ s i, step (φ s) i = φ <$> step s i) (is : List ι)
    (s : σ) : is.foldlM step (φ s) = φ <$> is.foldlM step s := by
  induction is generalizing s with
  | nil => rfl
  | cons i is ih =>
    rw [List.foldlM_cons, List.foldlM_cons, h, bind_map_left, map_bind]
    exact congrArg _ (funext ih)

theorem throws_foldlM {E : ε → Prop} (hstep : ∀ s i, Throws (step s i) E) (is : List ι) (s : σ) :
    Throws (is.foldlM step s) E := by
  induction is generalizing s with
  | nil => exact throws_ok s
  | cons i is ih =>
    rw [List.foldlM_cons]
    exact (hstep s i).bind ih

theorem forM_eq_ok {f : ι → Except ε PUnit} {is : List ι} (h : ∀ i ∈ is, f i = .ok ⟨⟩) :
    is.forM f = .ok ⟨⟩ := by
  induction is with
  | nil => rfl
  | cons i is ih =>
    change (f i >>= fun _ => is.forM f) = _
    rw [h i List.mem_cons_self, ok_bind]
    exact ih fun j hj => h j (List.mem_cons_of_mem i hj)

end Loop

/-! ## Properties along a run -/

section Run

variable {σ : Type v} {ι : Type*} {step : σ → ι → Except ε σ} {P Q : σ → ι → Prop}

/-- `P` holds of every state the run reaches and of what happens there. -/
def Along (step : σ → ι → Except ε σ) (P : σ → ι → Prop) : σ → List ι → Prop
  | _, [] => True
  | s, i :: is => P s i ∧ ∀ t, step s i = .ok t → Along step P t is

theorem Along.mono (h : ∀ s i, P s i → Q s i) (is : List ι) {s : σ} (hP : Along step P s is) :
    Along step Q s is := by
  induction is generalizing s with
  | nil => trivial
  | cons i is ih => exact ⟨h s i hP.1, fun t ht => ih (hP.2 t ht)⟩

theorem along_cons_ok {i : ι} {is : List ι} {s t : σ} (h : step s i = .ok t) :
    Along step P s (i :: is) ↔ P s i ∧ Along step P t is := by
  refine and_congr_right fun _ => ⟨fun hrest => hrest t h, fun hrest t' ht' => ?_⟩
  rw [h, Except.ok.injEq] at ht'
  exact ht' ▸ hrest

/-- Properties equivalent where an invariant holds that one of them keeps are equivalent
along every run that starts there. -/
theorem along_congr_of_invariant {I : σ → Prop} (h : ∀ s i, I s → (P s i ↔ Q s i))
    (hkeep : ∀ s i, I s → P s i → Ensures (step s i) I) (is : List ι) {s : σ} (hs : I s) :
    Along step P s is ↔ Along step Q s is := by
  induction is generalizing s with
  | nil => rfl
  | cons i is ih =>
    refine and_congr_right_iff.mpr ?_ |>.trans (and_congr_left_iff.mpr fun _ => h s i hs)
    exact fun hP => forall₂_congr fun t ht => ih (hkeep s i hs hP t ht)

theorem along_congr (h : ∀ s i, P s i ↔ Q s i) (is : List ι) {s : σ} :
    Along step P s is ↔ Along step Q s is :=
  along_congr_of_invariant (I := fun _ => True) (fun s i _ => h s i)
    (fun _ _ _ _ => ensures_true _) is trivial

/-- A change of the state that commutes with the steps of a run commutes with the run. -/
theorem foldlM_map_of_along {φ : σ → σ} (h : ∀ s i, P s i → step (φ s) i = φ <$> step s i)
    (is : List ι) {s : σ} (hs : Along step P s is) :
    is.foldlM step (φ s) = φ <$> is.foldlM step s := by
  induction is generalizing s with
  | nil => rfl
  | cons i is ih =>
    rw [List.foldlM_cons, List.foldlM_cons]
    exact bind_map_congr (h s i hs.1) fun t ht => ih (hs.2 t ht)

end Run

end Foundation.ExceptRun
