import ArmSimulator.Foundation.ExceptRun
import ArmSimulator.RegisterFile.File

/-! # The saved status registers

Column 17 of the bank table is never assigned, so the saved status of every
exception mode is stored where `r0` is. The five registers behave as cells of
their own only while nothing changes the word that is there at the start.
-/

namespace ArmSimulator.RegisterFile

open Machine Foundation.ExceptRun

/-- One call of a writing register function. -/
inductive SavedAccess where
  | writeSpsr (value : Word)
  | writeRegister (reg : Fin 16) (value : Word)
  | writeCpsr (status : Status)

def savedAccess (r : Registers) : SavedAccess → Except Stop Registers
  | .writeSpsr value => writeSpsr r value
  | .writeRegister reg value => writeRegister r reg value
  | .writeCpsr status => .ok (writeCpsr r status.value)

def modeAfter (m : Mode) : SavedAccess → Mode
  | .writeSpsr _ => m
  | .writeRegister _ _ => m
  | .writeCpsr status => status.mode

/-- The saved status registers of the architecture, one for each exception mode. -/
abbrev Saved := Mode → Word

def Saved.access (saved : Saved) (m : Mode) : SavedAccess → Saved
  | .writeSpsr value => if isException m then Function.update saved m value else saved
  | .writeRegister _ _ => saved
  | .writeCpsr _ => saved

/-- Every exception mode reads its own register. -/
def Reads (saved : Saved) (r : Registers) : Prop :=
  ∀ m, isException m → readSpsr (inMode r m) = .ok (saved m)

/-- What a write of a saved status leaves alone. -/
def Apart (r r' : Registers) : SavedAccess → Prop
  | .writeSpsr _ => (∀ m (reg : Fin 16), readRegister (inMode r' m) reg =
      readRegister (inMode r m) reg) ∧ readCpsr r' = readCpsr r
  | .writeRegister _ _ => True
  | .writeCpsr _ => True

/-- The five registers are independent cells at every point of the run. -/
def Isolated : Saved → Registers → Mode → List SavedAccess → Prop
  | saved, r, _, [] => Reads saved r
  | saved, r, m, a :: as => Reads saved r ∧ ∃ r', savedAccess r a = .ok r' ∧ Apart r r' a ∧
      Isolated (saved.access m a) r' (modeAfter m a) as

/-- Every value written to `r0` or to a saved status is `x`. -/
def WritesOnly (x : Word) : Mode → List SavedAccess → Prop
  | _, [] => True
  | m, .writeSpsr value :: as => (isException m → value = x) ∧ WritesOnly x m as
  | m, .writeRegister reg value :: as => (reg = 0 → value = x) ∧ WritesOnly x m as
  | _, .writeCpsr status :: as => WritesOnly x status.mode as

theorem reads_iff {f : File} {saved : Saved} :
    Reads saved f.cells ↔ ∀ m, isException m → saved m = f.cells 0 := by
  refine forall₂_congr fun m hm => ?_
  rw [f.readSpsr_inMode hm, Except.ok.injEq, eq_comm]

namespace File

variable (f : File)

def savedAccess : SavedAccess → File
  | .writeSpsr value => f.writeSaved value
  | .writeRegister reg value => f.write reg value
  | .writeCpsr status => f.writeStatus status

theorem savedAccess_eq (a : SavedAccess) :
    RegisterFile.savedAccess f.cells a = .ok (f.savedAccess a).cells := by
  cases a with
  | writeSpsr value => exact f.writeSpsr_eq value
  | writeRegister reg value => exact f.writeRegister_eq reg value
  | writeCpsr status => rfl

theorem savedAccess_mode (a : SavedAccess) :
    (f.savedAccess a).mode = modeAfter f.mode a := by
  cases a with
  | writeSpsr value => rw [savedAccess, writeSaved]; split <;> rfl
  | writeRegister reg value => rfl
  | writeCpsr status => rfl

end File

/-- What one access has to meet: `x` is the word in the position of `r0`. -/
def Keeps (x : Word) (m : Mode) : SavedAccess → Prop
  | .writeSpsr value => isException m → value = x
  | .writeRegister reg value => reg = 0 → value = x
  | .writeCpsr _ => True

section Step

variable {f : File} {saved : Saved}

theorem savedAccess_cell {a : SavedAccess} (h : Keeps (f.cells 0) f.mode a) :
    (f.savedAccess a).cells 0 = f.cells 0 := by
  cases a with
  | writeSpsr value =>
    by_cases hm : isException f.mode
    · rw [File.savedAccess, f.writeSaved_cells hm, h hm, Function.update_eq_self]
    · rw [File.savedAccess, File.writeSaved, if_neg hm]
  | writeRegister reg value =>
    by_cases hreg : reg = 0
    · have hpos := (position_eq_zero f.mode reg).mpr hreg
      simp only [File.savedAccess, File.write, File.store, hpos, Function.update_self]
      exact h hreg
    · have hpos : 0 ≠ position f.mode reg := fun hp => hreg ((position_eq_zero _ _).mp hp.symm)
      exact Function.update_of_ne hpos _ _
  | writeCpsr status =>
    have hpos : (0 : Position) ≠ Position.cpsr := by decide
    exact Function.update_of_ne hpos status.value f.cells

theorem apart_of_keeps {a : SavedAccess} (h : Keeps (f.cells 0) f.mode a) :
    Apart f.cells (f.savedAccess a).cells a := by
  cases a with
  | writeSpsr value =>
    have hcells : (f.writeSaved value).cells = f.cells := by
      by_cases hm : isException f.mode
      · rw [f.writeSaved_cells hm, h hm, Function.update_eq_self]
      · rw [File.writeSaved, if_neg hm]
    exact ⟨fun m reg => by rw [File.savedAccess, hcells], by rw [File.savedAccess, hcells]⟩
  | writeRegister reg value => trivial
  | writeCpsr status => trivial

theorem reads_of_keeps (hsaved : Reads saved f.cells) {a : SavedAccess}
    (h : Keeps (f.cells 0) f.mode a) :
    Reads (saved.access f.mode a) (f.savedAccess a).cells := by
  rw [reads_iff] at hsaved ⊢
  intro m hm
  rw [savedAccess_cell h, ← hsaved m hm]
  cases a with
  | writeSpsr value =>
    rw [Saved.access]
    split
    · rename_i hmode
      by_cases hmm : m = f.mode
      · rw [hmm, Function.update_self, hsaved _ hmode]
        exact h hmode
      · rw [Function.update_of_ne hmm]
    · rfl
  | writeRegister reg value => rfl
  | writeCpsr status => rfl

theorem keeps_of_isolated (hsaved : Reads saved f.cells) {a : SavedAccess}
    (hapart : Apart f.cells (f.savedAccess a).cells a)
    (hreads : Reads (saved.access f.mode a) (f.savedAccess a).cells) :
    Keeps (f.cells 0) f.mode a := by
  rw [reads_iff] at hsaved hreads
  cases a with
  | writeSpsr value =>
    intro hm
    have h₀ : readRegister (inMode (f.writeSaved value).cells f.mode) (0 : Fin 16) =
        readRegister (inMode f.cells f.mode) (0 : Fin 16) := hapart.1 f.mode 0
    have hpos := (position_eq_zero f.mode 0).mpr rfl
    rw [File.readRegister_inMode, File.readRegister_inMode, hpos, Except.ok.injEq,
      f.writeSaved_cells hm, Function.update_self] at h₀
    exact h₀
  | writeRegister reg value =>
    intro hreg
    have hpos := (position_eq_zero f.mode reg).mpr hreg
    have hcell : (f.savedAccess (.writeRegister reg value)).cells 0 = value := by
      simp only [File.savedAccess, File.write, File.store, hpos, Function.update_self]
    rw [← hcell, ← hreads .svc rfl]
    exact hsaved .svc rfl
  | writeCpsr status => trivial

end Step

theorem writesOnly_cons {x : Word} {m : Mode} {a : SavedAccess} {as : List SavedAccess} :
    WritesOnly x m (a :: as) ↔ Keeps x m a ∧
      WritesOnly x (modeAfter m a) as := by
  cases a with
  | writeSpsr value => rfl
  | writeRegister reg value => rfl
  | writeCpsr status => simp [WritesOnly, Keeps, modeAfter]

theorem Isolated.reads {saved : Saved} {r : Registers} {m : Mode} {as : List SavedAccess}
    (h : Isolated saved r m as) : Reads saved r := by
  cases as with
  | nil => exact h
  | cons => exact h.1

theorem isolated_iff (as : List SavedAccess) : ∀ {f : File} {saved : Saved},
    Reads saved f.cells →
      (Isolated saved f.cells f.mode as ↔ WritesOnly (f.cells 0) f.mode as) := by
  induction as with
  | nil => exact fun hsaved => ⟨fun _ => trivial, fun _ => hsaved⟩
  | cons a as ih =>
    intro f saved hsaved
    rw [writesOnly_cons, Isolated, ← f.savedAccess_mode a]
    constructor
    · rintro ⟨-, r', hr', hapart, hrest⟩
      rw [f.savedAccess_eq, Except.ok.injEq] at hr'
      subst hr'
      have hkeeps := keeps_of_isolated hsaved hapart hrest.reads
      refine ⟨hkeeps, ?_⟩
      rw [← savedAccess_cell hkeeps]
      exact (ih hrest.reads).mp hrest
    · rintro ⟨hkeeps, hrest⟩
      rw [← savedAccess_cell hkeeps] at hrest
      exact ⟨hsaved, _, f.savedAccess_eq a, apart_of_keeps hkeeps,
        (ih (reads_of_keeps hsaved hkeeps)).mpr hrest⟩

/-- The five saved status registers are independent cells throughout a run exactly
when the run writes nothing to them or to `r0` but the word they already hold. -/
theorem saved_isolated_iff (f : File) (as : List SavedAccess) :
    (∃ saved, Isolated saved f.cells f.mode as) ↔ WritesOnly (f.cells 0) f.mode as := by
  constructor
  · rintro ⟨saved, h⟩
    exact (isolated_iff as h.reads).mp h
  · intro h
    refine ⟨fun _ => f.cells 0, (isolated_iff as ?_).mpr h⟩
    exact reads_iff.mpr fun _ _ => rfl

/-- Writing the saved status in SVC mode changes `r0`. -/
theorem saved_not_isolated :
    ¬ ∀ (f : File) (as : List SavedAccess), ∃ saved, Isolated saved f.cells f.mode as := by
  intro h
  obtain ⟨saved, hreads, r', hr', hapart, hrest⟩ :=
    h (File.blank (modeStatus .svc)) [.writeSpsr 1]
  rw [File.savedAccess_eq, Except.ok.injEq] at hr'
  subst hr'
  have hkeeps := keeps_of_isolated hreads hapart hrest
  exact absurd (hkeeps rfl) (by decide)

end ArmSimulator.RegisterFile
