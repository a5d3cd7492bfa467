import ArmSimulator.Foundation.ExceptRun

/-! # Computations that mirror others

A computation mirrors another through a view of its values if it returns exactly where the
other does, with a value that is seen as the other's. Runs whose steps mirror each other
mirror each other. A part of the state that only some of the events of a run move follows
the run of these events alone.
-/

namespace Foundation.Simulation

open Foundation.ExceptRun

universe u v w

variable {α β : Type u} {γ δ : Type v} {ε ζ : Type w}

/-- What `x` returns, seen through the view, is what `y` returns. -/
def Mirrors (view : α → γ) (x : Except ε α) (y : Except ζ γ) : Prop :=
  ∀ c, y = .ok c ↔ ∃ a, x = .ok a ∧ view a = c

section Rules

variable {view : α → γ} {view' : β → δ} {x : Except ε α} {y : Except ζ γ}

theorem mirrors_ok {a : α} {c : γ} (h : view a = c) :
    Mirrors view (.ok a : Except ε α) (.ok c : Except ζ γ) := by
  intro d
  rw [Except.ok.injEq]
  constructor
  · rintro rfl
    exact ⟨a, rfl, h⟩
  · rintro ⟨b, hb, rfl⟩
    rw [Except.ok.injEq] at hb
    rw [← hb, h]

theorem mirrors_refl (x : Except ε α) : Mirrors id x x := by
  intro c
  constructor
  · exact fun h => ⟨c, h, rfl⟩
  · rintro ⟨a, ha, rfl⟩
    exact ha

theorem mirrors_of_not_returns (hx : ∀ a, x ≠ .ok a) (hy : ∀ c, y ≠ .ok c) :
    Mirrors view x y := by
  intro c
  refine iff_of_false (hy c) ?_
  rintro ⟨a, ha, -⟩
  exact hx a ha

theorem Mirrors.bind {f : α → Except ε β} {g : γ → Except ζ δ} (h : Mirrors view x y)
    (hf : ∀ a, x = .ok a → Mirrors view' (f a) (g (view a))) :
    Mirrors view' (x >>= f) (y >>= g) := by
  intro d
  constructor
  · intro hd
    obtain ⟨c, hc, hd⟩ := bind_eq_ok.mp hd
    obtain ⟨a, ha, rfl⟩ := (h c).mp hc
    obtain ⟨b, hb, rfl⟩ := (hf a ha d).mp hd
    exact ⟨b, bind_eq_ok.mpr ⟨a, ha, hb⟩, rfl⟩
  · rintro ⟨b, hb, rfl⟩
    obtain ⟨a, ha, hb⟩ := bind_eq_ok.mp hb
    have hy : y = .ok (view a) := (h _).mpr ⟨a, ha, rfl⟩
    exact bind_eq_ok.mpr ⟨view a, hy, (hf a ha _).mpr ⟨b, hb, rfl⟩⟩

theorem Mirrors.map {f : α → β} {seen : β → γ} (h : Mirrors view x y)
    (hf : ∀ a, seen (f a) = view a) : Mirrors seen (f <$> x) y := by
  intro c
  rw [h c]
  constructor
  · rintro ⟨a, ha, rfl⟩
    exact ⟨f a, map_eq_ok.mpr ⟨a, ha, rfl⟩, hf a⟩
  · rintro ⟨b, hb, rfl⟩
    obtain ⟨a, ha, rfl⟩ := map_eq_ok.mp hb
    exact ⟨a, ha, (hf a).symm⟩

theorem Mirrors.ensures (h : Mirrors view x y) {P : γ → Prop} (hy : Ensures y P) :
    Ensures x fun a => P (view a) :=
  fun a ha => hy _ ((h _).mpr ⟨a, ha, rfl⟩)

end Rules

theorem mirrors_bind_same {α γ δ : Type u} {view : γ → δ} {x : Except ε α} {f : α → Except ε γ}
    {g : α → Except ε δ} (h : ∀ a, x = .ok a → Mirrors view (f a) (g a)) :
    Mirrors view (x >>= f) (x >>= g) := (mirrors_refl x).bind h

section Runs

variable {ι : Type*} {view : α → γ} {step : α → ι → Except ε α} {step' : γ → ι → Except ζ γ}
  {I : α → Prop}

/-- Steps that mirror each other where an invariant holds make runs that do. -/
theorem mirrors_foldlM (hstep : ∀ s i, I s → Mirrors view (step s i) (step' (view s) i))
    (hkeep : ∀ s i, I s → Ensures (step s i) I) (is : List ι) {s : α} (hs : I s) :
    Mirrors view (is.foldlM step s) (is.foldlM step' (view s)) := by
  induction is generalizing s with
  | nil => exact mirrors_ok rfl
  | cons i is ih =>
    rw [List.foldlM_cons, List.foldlM_cons]
    exact (hstep s i hs).bind fun t ht => ih (hkeep s i hs t ht)

end Runs

section Part

variable {ι : Type*} {σ τ : Type u} {step : σ → ι → Except ε σ} {move : τ → ι → Except ε τ}
  {moves : ι → Bool}

/-- A part that other events leave as it is follows the run of those that move it. -/
theorem ensures_foldlM_filter (part : σ → τ)
    (hmoves : ∀ s i, moves i → Ensures (step s i) fun t => move (part s) i = .ok (part t))
    (hrests : ∀ s i, ¬ moves i → Ensures (step s i) fun t => part t = part s)
    (is : List ι) (s : σ) : Ensures (is.foldlM step s) fun t =>
      (is.filter moves).foldlM move (part s) = .ok (part t) := by
  induction is generalizing s with
  | nil => exact ensures_ok rfl
  | cons i is ih =>
    rw [List.foldlM_cons]
    by_cases hi : moves i
    · rw [List.filter_cons_of_pos hi]
      refine (hmoves s i hi).bind fun t ht => (ih t).mono fun t' ht' => ?_
      rw [List.foldlM_cons, ht, ok_bind]
      exact ht'
    · rw [List.filter_cons_of_neg hi]
      exact (hrests s i hi).bind fun t ht => ht ▸ ih t

end Part

section Agreement

variable {ι κ : Type*} {σ : Type u} {step : σ → ι → Except ε σ} {P : σ → ι → Prop}
  {R : ι → ι → Prop} {f : ι → Option κ}

theorem forall₂_filterMap (is : List ι) : List.Forall₂ (fun i k => f i = some k)
    (is.filter fun i => (f i).isSome) (is.filterMap f) := by
  induction is with
  | nil => exact .nil
  | cons i is ih =>
    cases hi : f i with
    | none =>
      rw [List.filter_cons_of_neg (by simp [hi]), List.filterMap_cons_none hi]
      exact ih
    | some k =>
      rw [List.filter_cons_of_pos (by simp [hi]), List.filterMap_cons_some hi]
      exact .cons hi ih

theorem forall₂_of_filterMap_eq {is js : List ι} (h : is.filterMap f = js.filterMap f) :
    List.Forall₂ (fun i j => ∃ k, f i = some k ∧ f j = some k)
      (is.filter fun i => (f i).isSome) (js.filter fun i => (f i).isSome) := by
  have his := forall₂_filterMap (f := f) is
  have hjs := forall₂_filterMap (f := f) js
  rw [h] at his
  generalize js.filterMap f = ks at his hjs
  generalize (is.filter fun i => (f i).isSome) = is at his
  generalize (js.filter fun i => (f i).isSome) = js at hjs
  induction his generalizing js with
  | nil =>
    cases hjs
    exact .nil
  | cons hi _ ih =>
    cases hjs with
    | cons hj hjs => exact .cons ⟨_, hi, hj⟩ (ih _ hjs)

/-- Runs over related events agree if related events do where a property holds that holds
along the first run. -/
theorem foldlM_agree (h : ∀ s i j, P s i → R i j →
    Ensures (step s i) fun t => Ensures (step s j) fun t' => t = t') {is js : List ι}
    (hR : List.Forall₂ R is js) {s : σ} (hP : Along step P s is) :
    Ensures (is.foldlM step s) fun t => Ensures (js.foldlM step s) fun t' => t = t' := by
  induction hR generalizing s with
  | nil => exact ensures_ok (ensures_ok rfl)
  | cons hij _ ih =>
    intro t ht t' ht'
    rw [List.foldlM_cons] at ht ht'
    obtain ⟨s₁, h₁, ht⟩ := bind_eq_ok.mp ht
    obtain ⟨s₂, h₂, ht'⟩ := bind_eq_ok.mp ht'
    obtain rfl : s₁ = s₂ := h _ _ _ hP.1 hij s₁ h₁ s₂ h₂
    exact ih (hP.2 s₁ h₁) t ht t' ht'

end Agreement

end Foundation.Simulation
