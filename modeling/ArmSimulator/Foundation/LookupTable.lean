import Mathlib.Data.List.Nodup
import Mathlib.Logic.Function.Basic
import Mathlib.Logic.Function.Iterate

/-! # Lookup tables filled by a double loop on first use

A table in static storage starts with no slot assigned. A pair of nested loops
assigns one slot per pair of counters, and a flag makes every later call of the
initialiser a no-op. Lookups are exact as soon as the slot number is injective
on the pairs the loops visit.
-/

namespace Foundation.LookupTable

variable {α : Type*}

/-- A slot is `none` until an assignment reaches it. -/
abbrev Table (α : Type*) := ℕ → Option α

def assign (t : Table α) (e : ℕ × α) : Table α := Function.update t e.1 (some e.2)

def fill (t : Table α) (es : List (ℕ × α)) : Table α := es.foldl assign t

@[simp] theorem fill_cons (t : Table α) (e : ℕ × α) (es : List (ℕ × α)) :
    fill t (e :: es) = fill (assign t e) es := rfl

theorem fill_of_not_mem (t : Table α) (es : List (ℕ × α)) {i : ℕ}
    (hi : ∀ e ∈ es, e.1 ≠ i) : fill t es i = t i := by
  induction es generalizing t with
  | nil => rfl
  | cons e es ih =>
    rw [fill_cons, ih _ (fun e' he' => hi e' (List.mem_cons_of_mem _ he'))]
    exact Function.update_of_ne (hi e List.mem_cons_self).symm _ _

theorem fill_of_mem (t : Table α) (es : List (ℕ × α)) (hes : (es.map Prod.fst).Nodup)
    {i : ℕ} {a : α} (h : (i, a) ∈ es) : fill t es i = some a := by
  induction es generalizing t with
  | nil => simp at h
  | cons e es ih =>
    obtain ⟨he, hes⟩ := List.nodup_cons.mp hes
    rw [fill_cons]
    rcases List.mem_cons.mp h with rfl | h
    · rw [fill_of_not_mem]
      · simp [assign]
      · rintro e' he' rfl
        exact he (List.mem_map.mpr ⟨e', he', rfl⟩)
    · exact ih _ hes h

/-- The assignments of `for (i < m) for (j < n) t[key i j] = value i j`. -/
def loops (m n : ℕ) (key : ℕ → ℕ → ℕ) (value : ℕ → ℕ → α) : List (ℕ × α) :=
  (List.range m).flatMap fun i => (List.range n).map fun j => (key i j, value i j)

theorem mem_loops {m n : ℕ} {key : ℕ → ℕ → ℕ} {value : ℕ → ℕ → α} {e : ℕ × α} :
    e ∈ loops m n key value ↔ ∃ i < m, ∃ j < n, (key i j, value i j) = e := by
  simp [loops]

section Keys

variable {m n : ℕ} {key : ℕ → ℕ → ℕ} {value : ℕ → ℕ → α}
  (hkey : ∀ i < m, ∀ j < n, ∀ i' < m, ∀ j' < n, key i j = key i' j' → i = i' ∧ j = j')

include hkey

theorem loops_nodup : ((loops m n key value).map Prod.fst).Nodup := by
  simp only [loops, List.map_flatMap, List.map_map, Function.comp_def]
  rw [List.nodup_flatMap]
  refine ⟨fun i hi => ?_, List.nodup_range.pairwise_of_forall_ne ?_⟩
  · refine (List.nodup_map_iff_inj_on List.nodup_range).mpr fun j hj j' hj' h => ?_
    simp only [List.mem_range] at hi hj hj'
    exact (hkey i hi j hj i hi j' hj' h).2
  · intro i hi i' hi' hne k hk hk'
    simp only [List.mem_map, List.mem_range] at hi hi' hk hk'
    obtain ⟨j, hj, rfl⟩ := hk
    obtain ⟨j', hj', h⟩ := hk'
    exact hne (hkey i' hi' j' hj' i hi j hj h).1.symm

theorem fill_loops (t : Table α) {i j : ℕ} (hi : i < m) (hj : j < n) :
    fill t (loops m n key value) (key i j) = some (value i j) :=
  fill_of_mem t _ (loops_nodup hkey) (mem_loops.mpr ⟨i, hi, j, hj, rfl⟩)

end Keys

theorem fill_loops_outside (t : Table α) {m n : ℕ} {key : ℕ → ℕ → ℕ} {value : ℕ → ℕ → α} {k : ℕ}
    (hk : ∀ i < m, ∀ j < n, key i j ≠ k) : fill t (loops m n key value) k = t k := by
  refine fill_of_not_mem t _ fun e he => ?_
  obtain ⟨i, hi, j, hj, rfl⟩ := mem_loops.mp he
  exact hk i hi j hj

/-- A table with the flag that says whether its initialiser has run. -/
structure Lazy (α : Type*) where
  ready : Bool
  table : Table α

/-- Static storage before the first call. -/
def Lazy.start : Lazy α := ⟨false, fun _ => none⟩

def Lazy.force (es : List (ℕ × α)) (s : Lazy α) : Lazy α :=
  if s.ready then s else ⟨true, fill s.table es⟩

end Foundation.LookupTable
