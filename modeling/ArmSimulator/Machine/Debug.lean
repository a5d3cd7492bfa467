import ArmSimulator.Machine.CString

/-! # The files whose messages are shown (`debug.c`)

A table of pointers to file names, kept in the order of `strcmp`. The names
themselves do not change once they are in the table. A pointer that was never
assigned is null, and reads through it are `wild` like those outside the table.
-/

namespace ArmSimulator.Machine.Debug

def maxFilesNumber : Nat := 64

/-- The string a file name points to, without its terminator. -/
structure FileName where
  chars : List Byte
  plain : 0 ∉ chars
  deriving DecidableEq

structure DebugTable where
  debuggedFiles : List (Option FileName)
  nbDebuggedFiles : Nat
  size_eq : debuggedFiles.length = maxFilesNumber

namespace DebugTable

def empty : DebugTable := ⟨List.replicate maxFilesNumber none, 0, List.length_replicate⟩

/-- `debugged_files[i]` -/
def pointer (t : DebugTable) (i : Int) : Except Stop (Option FileName) :=
  if 0 ≤ i ∧ i < maxFilesNumber then .ok (t.debuggedFiles[i.toNat]?.join) else .error .wild

/-- `debugged_files[i] = name` -/
def set (t : DebugTable) (i : Nat) (name : Option FileName) : Except Stop DebugTable :=
  if i < maxFilesNumber then
    .ok { t with
      debuggedFiles := t.debuggedFiles.set i name
      size_eq := by rw [List.length_set, t.size_eq] }
  else .error .wild

/-- `strcmp(debugged_files[i], name)` -/
def compare (t : DebugTable) (i : Int) (name : FileName) : Except Stop Int := do
  match ← t.pointer i with
  | none => .error .wild
  | some file => return strcmp file.chars name.chars

end DebugTable

/-- The `while` loop of `add_debug_to` -/
def insertionPoint (t : DebugTable) (name : FileName) (i : Nat) : Except Stop Nat := do
  if i < t.nbDebuggedFiles ∧ i < maxFilesNumber then
    if (← t.compare i name) < 0 then insertionPoint t name (i + 1) else return i
  else return i
termination_by maxFilesNumber - i

/-- The `for` loop of `add_debug_to`, from `j = i + n` down to `i`. -/
def shift (t : DebugTable) (i : Nat) : Nat → Except Stop DebugTable
  | 0 => return t
  | n + 1 => do
    let t ← t.set (i + n + 1) (← t.pointer (i + n))
    shift t i n

def addDebugTo (t : DebugTable) (name : FileName) : Except Stop DebugTable := do
  let i ← insertionPoint t name 0
  if maxFilesNumber ≤ i then return t
  let t ← shift t i (t.nbDebuggedFiles - i)
  let t ← t.set i (some name)
  return { t with nbDebuggedFiles := t.nbDebuggedFiles + 1 }

theorem middle_bounds {lo hi : Int} (h : lo < hi) :
    lo ≤ (lo + hi).tdiv 2 ∧ (lo + hi).tdiv 2 ≤ hi := by
  rw [Int.tdiv_eq_ediv, Int.sign_eq_one_of_pos (by decide)]
  split <;> omega

/-- The `while` loop of `__is_debugged` and what follows it; `lo` and `hi` are `from` and `to`. -/
def searchLoop (t : DebugTable) (name : FileName) (lo hi : Int) : Except Stop Int := do
  if lo < hi then
    let middle := (lo + hi).tdiv 2
    let result ← t.compare middle name
    if result < 0 then searchLoop t name (middle + 1) hi
    else if 0 < result then searchLoop t name lo (middle - 1)
    else return 1
  else if lo = hi then
    if (← t.compare lo name) = 0 then return 1 else return 0
  else return 0
termination_by (hi - lo).toNat
decreasing_by all_goals have := middle_bounds ‹lo < hi›; omega

def isDebugged (t : DebugTable) (name : FileName) : Except Stop Int :=
  searchLoop t name 0 (t.nbDebuggedFiles - 1)

end ArmSimulator.Machine.Debug
