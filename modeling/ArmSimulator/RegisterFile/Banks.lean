import ArmSimulator.Foundation.AliasedStore
import ArmSimulator.Foundation.ExceptRun
import ArmSimulator.RegisterFile.File

/-! # The banked register file

The architecture gives each mode its own copy of some registers. The bank table
puts the private `r13` and `r14` of IRQ, SVC, ABT and UND in the same two
positions, so the register array stands for the architectural file as long as
no mode of the four reads one of them after another of the four has written it.
-/

namespace ArmSimulator.RegisterFile

open Machine Foundation.AliasedStore Foundation.ExceptRun

/-! ## The architectural file -/

/-- The mode whose copy of a register is used, `usr` for the common one. -/
def bankOf (m : Mode) (reg : Fin 16) : Mode :=
  match m with
  | .usr | .sys => .usr
  | .fiq => if 8 ≤ reg ∧ reg ≤ 14 then .fiq else .usr
  | m => if reg = 13 ∨ reg = 14 then m else .usr

theorem bankOf_bankOf (m : Mode) (reg : Fin 16) : bankOf (bankOf m reg) reg = bankOf m reg := by
  cases m <;> revert reg <;> decide

/-- A general register together with the mode it belongs to. -/
structure Cell where
  bank : Mode
  reg : Fin 16
  own : bankOf bank reg = bank
  deriving DecidableEq

def cell (m : Mode) (reg : Fin 16) : Cell := ⟨bankOf m reg, reg, bankOf_bankOf m reg⟩

structure BankedFile where
  status : Status
  cells : Cell → Word

/-- One call of a register function. -/
inductive Access where
  | readRegister (reg : Fin 16)
  | readUsrRegister (reg : Fin 16)
  | readCpsr
  | writeRegister (reg : Fin 16) (value : Word)
  | writeUsrRegister (reg : Fin 16) (value : Word)
  | writeCpsr (status : Status)

namespace BankedFile

def write (b : BankedFile) (c : Cell) (value : Word) : BankedFile :=
  { b with cells := Function.update b.cells c value }

/-- The values read and the file afterwards. -/
def access (b : BankedFile) : Access → List Word × BankedFile
  | .readRegister reg => ([b.cells (cell b.status.mode reg)], b)
  | .readUsrRegister reg => ([b.cells (cell .usr reg)], b)
  | .readCpsr => ([b.status.value], b)
  | .writeRegister reg value => ([], b.write (cell b.status.mode reg) value)
  | .writeUsrRegister reg value => ([], b.write (cell .usr reg) value)
  | .writeCpsr status => ([], { b with status })

def reads : BankedFile → List Access → List Word
  | _, [] => []
  | b, a :: as => (b.access a).1 ++ (b.access a).2.reads as

end BankedFile

/-! ## The register array -/

def access (r : Registers) : Access → Except Stop (List Word × Registers)
  | .readRegister reg => do return ([← readRegister r reg], r)
  | .readUsrRegister reg => do return ([← readUsrRegister r reg], r)
  | .readCpsr => .ok ([readCpsr r], r)
  | .writeRegister reg value => do return ([], ← writeRegister r reg value)
  | .writeUsrRegister reg value => do return ([], ← writeUsrRegister r reg value)
  | .writeCpsr status => .ok ([], writeCpsr r status.value)

def reads : Registers → List Access → Except Stop (List Word)
  | _, [] => .ok []
  | r, a :: as => do
    let (values, r) ← access r a
    return values ++ (← reads r as)

namespace File

/-- The access on a file in a valid mode, where it cannot fail. -/
def access (f : File) : Access → List Word × File
  | .readRegister reg => ([f.cells (position f.mode reg)], f)
  | .readUsrRegister reg => ([f.cells (position .usr reg)], f)
  | .readCpsr => ([Machine.readCpsr f.cells], f)
  | .writeRegister reg value => ([], f.write reg value)
  | .writeUsrRegister reg value => ([], f.writeUsr reg value)
  | .writeCpsr status => ([], f.writeStatus status)

def reads : File → List Access → List Word
  | _, [] => []
  | f, a :: as => (f.access a).1 ++ (f.access a).2.reads as

theorem access_eq (f : File) (a : Access) :
    RegisterFile.access f.cells a = .ok ((f.access a).1, (f.access a).2.cells) := by
  cases a with
  | readRegister reg => rw [RegisterFile.access, f.readRegister_eq]; rfl
  | readUsrRegister reg => rw [RegisterFile.access, f.readUsrRegister_eq]; rfl
  | readCpsr => rfl
  | writeRegister reg value => rw [RegisterFile.access, f.writeRegister_eq]; rfl
  | writeUsrRegister reg value => rw [RegisterFile.access, f.writeUsrRegister_eq]; rfl
  | writeCpsr status => rfl

theorem reads_eq (f : File) (as : List Access) :
    RegisterFile.reads f.cells as = .ok (f.reads as) := by
  induction as generalizing f with
  | nil => rfl
  | cons a as ih =>
    rw [RegisterFile.reads, f.access_eq, ok_bind]
    simp only [ih]
    rfl

end File

/-- The registers the four modes have in common in the array. -/
def Shared (m : Mode) (reg : Fin 16) : Prop :=
  (m = .irq ∨ m = .svc ∨ m = .abt ∨ m = .und) ∧ (reg = 13 ∨ reg = 14)

instance (m : Mode) (reg : Fin 16) : Decidable (Shared m reg) :=
  inferInstanceAs (Decidable (_ ∧ _))

def place (c : Cell) : Position := position c.bank c.reg

theorem place_cell (m : Mode) (reg : Fin 16) : place (cell m reg) = position m reg := by
  cases m <;> revert reg <;> decide

theorem place_ne_cpsr (c : Cell) : place c ≠ Position.cpsr := position_ne_cpsr _ _

def registerAt (l : Position) : Nat :=
  if l.val < 16 then l else if l.val < Position.r8Fiq.val then l - 13 else l - 21

theorem registerAt_position (m : Mode) (reg : Fin 16) : registerAt (position m reg) = reg := by
  cases m <;> revert reg <;> decide

theorem reg_eq_of_position {m m' : Mode} {reg reg' : Fin 16}
    (h : position m reg = position m' reg') : reg = reg' := by
  apply Fin.ext
  rw [← registerAt_position m reg, ← registerAt_position m' reg', h]

theorem position_eq_of_own {m m' : Mode} {reg : Fin 16} (hm : bankOf m reg = m)
    (hm' : bankOf m' reg = m') (h : position m reg = position m' reg) :
    m = m' ∨ Shared m reg ∧ Shared m' reg := by
  cases m <;> cases m' <;> revert reg <;> decide

theorem place_eq {c d : Cell} (h : place c = place d) :
    c = d ∨ c.reg = d.reg ∧ Shared c.bank c.reg ∧ Shared d.bank d.reg := by
  obtain ⟨m, reg, hm⟩ := c
  obtain ⟨m', reg', hm'⟩ := d
  obtain rfl : reg = reg' := reg_eq_of_position h
  rcases position_eq_of_own hm hm' h with rfl | hshared
  · exact Or.inl rfl
  · exact Or.inr ⟨rfl, hshared⟩

theorem shared_bankOf : ∀ {m : Mode} {reg : Fin 16}, Shared (bankOf m reg) reg ↔ Shared m reg := by
  intro m
  cases m <;> decide

theorem position_shared {m m' : Mode} {reg : Fin 16} (h : Shared m reg) (h' : Shared m' reg) :
    position m reg = position m' reg := by
  cases m <;> cases m' <;> revert reg <;> decide

/-! ## Undisturbed runs -/

/-- For each register, the mode among the four that last wrote it. -/
abbrev Last := Fin 16 → Option Mode

def afterWrite (last : Last) (m : Mode) (reg : Fin 16) : Last :=
  if Shared m reg then Function.update last reg (some m) else last

/-- A read of a shared register comes after no write or after one in the same mode. -/
def Own (last : Last) (m : Mode) (reg : Fin 16) : Prop :=
  Shared m reg → last reg = none ∨ last reg = some m

/-- No mode of the four reads `r13` or `r14` after another of them has written it. -/
def Undisturbed : Last → Mode → List Access → Prop
  | _, _, [] => True
  | last, m, .readRegister reg :: as => Own last m reg ∧ Undisturbed last m as
  | last, m, .writeRegister reg _ :: as => Undisturbed (afterWrite last m reg) m as
  | last, _, .writeCpsr status :: as => Undisturbed last status.mode as
  | last, m, .readUsrRegister _ :: as => Undisturbed last m as
  | last, m, .writeUsrRegister _ _ :: as => Undisturbed last m as
  | last, m, .readCpsr :: as => Undisturbed last m as

/-- The array stands for the architectural file, with `last` as the ghost state. -/
structure Refines (last : Last) (b : BankedFile) (f : File) : Prop where
  mode : b.status.mode = f.mode
  value : b.status.value = readCpsr f.cells
  tracks : ∃ owner, Tracks place owner b.cells f.cells ∧
    ∀ m reg, Shared m reg → owner (position m reg) = (last reg).map (cell · reg)

/-- The architectural file whose cells read as the array does. -/
def File.banked (f : File) : BankedFile := ⟨⟨readCpsr f.cells, f.mode, f.mode_eq⟩, f.cells ∘ place⟩

theorem refines_banked (f : File) : Refines (fun _ => none) f.banked f where
  mode := rfl
  value := rfl
  tracks := ⟨fun _ => none, tracks_start f.cells, fun _ _ _ => rfl⟩

namespace Refines

variable {last : Last} {b : BankedFile} {f : File}

theorem read (h : Refines last b f) {m : Mode} {reg : Fin 16} (hown : Own last m reg) :
    f.cells (position m reg) = b.cells (cell m reg) := by
  obtain ⟨owner, htracks, hlast⟩ := h.tracks
  rw [← place_cell]
  apply htracks.agree
  by_cases hs : Shared m reg
  · rw [Fresh, place_cell, hlast m reg hs]
    rcases hown hs with hn | hm
    · exact Or.inl (by rw [hn]; rfl)
    · exact Or.inr (by rw [hm]; rfl)
  · refine htracks.fresh_of_alone fun c hc => ?_
    rcases place_eq hc with hc | ⟨-, -, hs'⟩
    · exact hc
    · exact absurd (shared_bankOf.mp hs') hs

theorem write (h : Refines last b f) (m : Mode) (reg : Fin 16) (v : Word) :
    Refines (afterWrite last m reg) (b.write (cell m reg) v)
      (f.store (position m reg) (position_ne_cpsr m reg) v) where
  mode := h.mode
  value := by
    rw [readCpsr, File.store]
    simp only [Function.update_of_ne (position_ne_cpsr m reg).symm]
    exact h.value
  tracks := by
    obtain ⟨owner, htracks, hlast⟩ := h.tracks
    refine ⟨_, place_cell m reg ▸ htracks.write (cell m reg) v, fun m' reg' hs' => ?_⟩
    by_cases hs : Shared m reg
    · rw [afterWrite, if_pos hs]
      by_cases hreg : reg' = reg
      · subst hreg
        rw [position_shared hs' hs, Function.update_self, Function.update_self]
        rfl
      · have hpos : position m' reg' ≠ position m reg := fun hp => hreg (reg_eq_of_position hp)
        rw [Function.update_of_ne hpos, Function.update_of_ne hreg, hlast m' reg' hs']
    · have hpos : position m' reg' ≠ position m reg := by
        rw [← place_cell, ← place_cell]
        intro hp
        rcases place_eq hp with hc | ⟨-, -, hs''⟩
        · have hbank := shared_bankOf.mpr hs'
          rw [show bankOf m' reg' = bankOf m reg from congrArg Cell.bank hc,
            show reg' = reg from congrArg Cell.reg hc] at hbank
          exact hs (shared_bankOf.mp hbank)
        · exact hs (shared_bankOf.mp hs'')
      rw [afterWrite, if_neg hs, Function.update_of_ne hpos, hlast m' reg' hs']

theorem writeStatus (h : Refines last b f) (s : Status) :
    Refines last { b with status := s } (f.writeStatus s) where
  mode := rfl
  value := (readCpsr_writeCpsr f.cells s.value).symm
  tracks := by
    obtain ⟨owner, htracks, hlast⟩ := h.tracks
    exact ⟨owner, htracks.write_outside place_ne_cpsr s.value, hlast⟩

end Refines

theorem own_usr (last : Last) (reg : Fin 16) : Own last .usr reg := by
  intro h
  simp [Shared] at h

theorem afterWrite_usr (last : Last) (reg : Fin 16) : afterWrite last .usr reg = last :=
  if_neg (by simp [Shared])

theorem reads_of_refines (as : List Access) : ∀ {last : Last} {b : BankedFile} {f : File},
    Refines last b f → Undisturbed last f.mode as → f.reads as = b.reads as := by
  induction as with
  | nil => intros; rfl
  | cons a as ih =>
    intro last b f h hu
    rw [File.reads, BankedFile.reads]
    cases a with
    | readRegister reg =>
      rw [File.access, BankedFile.access, h.mode, h.read hu.1]
      exact congrArg _ (ih h hu.2)
    | readUsrRegister reg =>
      rw [File.access, BankedFile.access, h.read (own_usr last reg)]
      exact congrArg _ (ih h hu)
    | readCpsr =>
      rw [File.access, BankedFile.access, ← h.value]
      exact congrArg _ (ih h hu)
    | writeRegister reg value =>
      rw [File.access, BankedFile.access, h.mode]
      exact ih (h.write f.mode reg value) hu
    | writeUsrRegister reg value =>
      have hw := h.write .usr reg value
      rw [afterWrite_usr] at hw
      exact ih hw hu
    | writeCpsr status => exact ih (h.writeStatus status) hu

/-- From any contents, every read of an undisturbed run returns what the
architectural file returns. -/
theorem reads_eq_banked (f : File) (as : List Access)
    (h : Undisturbed (fun _ => none) f.mode as) : reads f.cells as = .ok (f.banked.reads as) := by
  rw [f.reads_eq, reads_of_refines as (refines_banked f) h]

/-- SVC and IRQ each keep a stack pointer, with no read in between. -/
theorem reads_eq_banked_switch :
    reads (File.blank (modeStatus .svc)).cells [.writeRegister 13 1, .readRegister 13,
      .writeCpsr (modeStatus .irq), .writeRegister 13 2, .readRegister 13] =
    .ok ((File.blank (modeStatus .svc)).banked.reads [.writeRegister 13 1, .readRegister 13,
      .writeCpsr (modeStatus .irq), .writeRegister 13 2, .readRegister 13]) :=
  reads_eq_banked _ _ (by
    simp [Undisturbed, Own, Shared, afterWrite, File.blank, modeStatus])

/-- After IRQ set its stack pointer, SVC no longer reads its own. -/
theorem reads_disturbed :
    ¬ ∀ (f : File) (as : List Access), reads f.cells as = .ok (f.banked.reads as) := by
  intro h
  have hsvc := h (File.blank (modeStatus .svc)) [.writeRegister 13 1, .writeCpsr (modeStatus .irq),
    .writeRegister 13 2, .writeCpsr (modeStatus .svc), .readRegister 13]
  rw [File.reads_eq, Except.ok.injEq] at hsvc
  exact absurd hsvc (by decide)

end ArmSimulator.RegisterFile
