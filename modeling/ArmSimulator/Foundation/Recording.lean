import ArmSimulator.Foundation.ExceptRun

/-! # Computations that record events

The events up to the end of a computation, be it a value or an error. Without the record
it is the plain computation. Two computations agree where a property of events allows it
if they can only differ once an event without the property is recorded.
-/

namespace Foundation.Recording

open ExceptRun

universe u v

/-- A computation with what it records. -/
structure Recorded (ι : Type*) (ε : Type u) (α : Type v) where
  log : List ι
  result : Except ε α

variable {ι : Type*} {ε : Type u} {α β γ : Type v}

namespace Recorded

def record (i : ι) (a : α) : Recorded ι ε α := ⟨[i], .ok a⟩

def lift (x : Except ε α) : Recorded ι ε α := ⟨[], x⟩

protected def bind (x : Recorded ι ε α) (f : α → Recorded ι ε β) : Recorded ι ε β :=
  match x.result with
  | .error e => ⟨x.log, .error e⟩
  | .ok a => ⟨x.log ++ (f a).log, (f a).result⟩

/-- The same events, with the errors of another computation. -/
def mapError {ε' : Type u} (f : ε → ε') (x : Recorded ι ε α) : Recorded ι ε' α :=
  ⟨x.log, x.result.mapError f⟩

instance : Monad (Recorded ι ε) where
  pure a := lift (.ok a)
  bind := Recorded.bind

end Recorded

open Recorded

variable {x y : Recorded ι ε α} {f g : α → Recorded ι ε β}

/-! ## The plain computation -/

@[simp] theorem result_record (i : ι) (a : α) : (record i a : Recorded ι ε α).result = .ok a := rfl

@[simp] theorem result_lift (x : Except ε α) : (lift x : Recorded ι ε α).result = x := rfl

@[simp] theorem result_pure (a : α) : (pure a : Recorded ι ε α).result = pure a := rfl

@[simp] theorem result_ite {c : Prop} [Decidable c] :
    (if c then x else y).result = if c then x.result else y.result := apply_ite result c x y

@[simp] theorem result_bind : (x >>= f).result = (x.result >>= fun a => (f a).result) := by
  change (Recorded.bind x f).result = _
  rw [Recorded.bind]
  cases x.result <;> rfl

theorem bind_bind {g : β → Recorded ι ε γ} : x >>= f >>= g = x >>= fun a => f a >>= g := by
  change Recorded.bind (Recorded.bind x f) g = Recorded.bind x fun a => Recorded.bind (f a) g
  unfold Recorded.bind
  cases x.result with
  | error e => rfl
  | ok a =>
    dsimp only
    cases (f a).result with
    | error e => rfl
    | ok b => simp only [List.append_assoc]

/-! ## Properties of the events -/

/-- Every event that is recorded satisfies `P`. -/
def All (P : ι → Prop) (x : Recorded ι ε α) : Prop := ∀ i ∈ x.log, P i

/-- Computations that are the same if the events of the first satisfy `P`. -/
def Agree (P : ι → Prop) (x y : Recorded ι ε α) : Prop := All P x → x = y

section Events

variable {P : ι → Prop}

theorem all_lift (x : Except ε α) : All P (lift x) := by
  intro i hi
  cases hi

theorem all_pure (a : α) : All P (pure a : Recorded ι ε α) := all_lift _

@[simp] theorem all_record_iff {i : ι} {a : α} : All P (record i a : Recorded ι ε α) ↔ P i := by
  simp [All, record]

theorem all_bind_iff :
    All P (x >>= f) ↔ All P x ∧ ∀ a, x.result = .ok a → All P (f a) := by
  change All P (Recorded.bind x f) ↔ _
  rw [Recorded.bind]
  cases hx : x.result with
  | error e =>
    rw [and_iff_left (by rintro _ ⟨⟩)]
    rfl
  | ok a =>
    simp only [Except.ok.injEq, forall_eq']
    exact List.forall_mem_append

theorem all_bind_congr {C : Prop} (hx : All P x → Returns x.result fun _ => True)
    (hf : ∀ a, x.result = .ok a → (All P (f a) ↔ C)) : All P (x >>= f) ↔ All P x ∧ C := by
  rw [all_bind_iff]
  refine and_congr_right fun hall => ?_
  obtain ⟨a, ha, -⟩ := hx hall
  rw [← hf a ha, ha]
  simp only [Except.ok.injEq, forall_eq']

theorem all_lift_bind_iff {x : Except ε α} :
    All P (lift x >>= f) ↔ ∀ a, x = .ok a → All P (f a) :=
  all_bind_iff.trans (and_iff_right (all_lift x))

theorem all_bind_lift_iff {f : α → Except ε β} : All P (x >>= fun a => lift (f a)) ↔ All P x :=
  all_bind_iff.trans (and_iff_left fun a _ => all_lift (f a))

theorem agree_refl (x : Recorded ι ε α) : Agree P x x := fun _ => rfl

theorem agree_record {i : ι} {a b : α} (h : P i → a = b) :
    Agree P (record i a : Recorded ι ε α) (record i b) :=
  fun hall => congrArg (record i) (h (all_record_iff.mp hall))

theorem Agree.bind (h : Agree P x y) (hf : ∀ a, Agree P (f a) (g a)) :
    Agree P (x >>= f) (y >>= g) := by
  intro hall
  obtain ⟨hx, hrest⟩ := all_bind_iff.mp hall
  rw [← h hx]
  change Recorded.bind x f = Recorded.bind x g
  unfold Recorded.bind
  cases hresult : x.result with
  | error e => rfl
  | ok a =>
    dsimp only
    rw [hf a (hrest a hresult)]

end Events

/-! ## Events and values -/

/-- Every event satisfies `P`, and the value, if there is one, `Q`. -/
def Yields (P : ι → Prop) (x : Recorded ι ε α) (Q : α → Prop) : Prop :=
  All P x ∧ Ensures x.result Q

section Yields

variable {P : ι → Prop} {Q : α → Prop} {R : β → Prop}

theorem yields_pure {a : α} (h : Q a) : Yields P (pure a : Recorded ι ε α) Q :=
  ⟨all_pure a, ensures_pure h⟩

theorem yields_lift {x : Except ε α} (h : Ensures x Q) : Yields P (lift x) Q := ⟨all_lift x, h⟩

theorem Yields.mono {Q' : α → Prop} (h : Yields P x Q) (hQ : ∀ a, Q a → Q' a) : Yields P x Q' :=
  ⟨h.1, h.2.mono hQ⟩

theorem Yields.bind (h : Yields P x Q) (hf : ∀ a, Q a → Yields P (f a) R) :
    Yields P (x >>= f) R := by
  refine ⟨all_bind_iff.mpr ⟨h.1, fun a ha => (hf a (h.2 a ha)).1⟩, ?_⟩
  rw [result_bind]
  exact h.2.bind fun a ha => (hf a ha).2

theorem yields_foldlM {σ : Type v} {κ : Type*} {step : σ → κ → Recorded ι ε σ} {I : σ → Prop}
    (hstep : ∀ s i, I s → Yields P (step s i) I) (is : List κ) {s : σ} (hs : I s) :
    Yields P (is.foldlM step s) I := by
  induction is generalizing s with
  | nil => exact yields_pure hs
  | cons i is ih =>
    rw [List.foldlM_cons]
    exact (hstep s i hs).bind fun t ht => ih ht

end Yields

/-! ## Loops -/

section Loop

variable {σ : Type v} {κ : Type*} {step : σ → κ → Recorded ι ε σ} {P : ι → Prop}

theorem result_foldlM (is : List κ) (s : σ) :
    (is.foldlM step s).result = is.foldlM (fun s i => (step s i).result) s := by
  induction is generalizing s with
  | nil => rfl
  | cons i is ih =>
    rw [List.foldlM_cons, List.foldlM_cons, result_bind]
    exact congrArg _ (funext ih)

theorem all_foldlM {I : σ → Prop} (hstep : ∀ s i, I s → All P (step s i))
    (hkeep : ∀ s i, I s → Ensures (step s i).result I) (is : List κ) {s : σ} (hs : I s) :
    All P (is.foldlM step s) := by
  induction is generalizing s with
  | nil => exact all_pure s
  | cons i is ih =>
    rw [List.foldlM_cons, all_bind_iff]
    exact ⟨hstep s i hs, fun t ht => ih (hkeep s i hs t ht)⟩

end Loop

end Foundation.Recording
