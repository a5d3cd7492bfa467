import ArmSimulator.Footprint.Steps
import ArmSimulator.Transfers.PlainOffset

/-! # Runs beside covered bytes

What a program does not access makes no difference to it, and it leaves what it does not
access.
-/

namespace ArmSimulator.Footprint

open Machine RegisterFile Storage Transfers Decoding DataProcessing Exceptions
  Foundation.Overlay Foundation.ExceptRun

/-- The processor with some bytes of its memory covered. -/
def cover (s : Cover Byte) (p : ArmCore) : ArmCore := { p with mem := covered s p.mem }

variable {s : Cover Byte} {p : ArmCore}

theorem Apart.mono {t : Cover Byte} {n : Width} {a : Word} (h : Apart s n a)
    (hst : ∀ i, s i = none → t i = none) : Apart t n a :=
  fun k hk => hst _ (h k hk)

theorem cover_eq_self_iff : cover s p = p ↔
    ∀ i b, s i = some b → i < p.mem.values.size → p.mem.values[i]? = some b := by
  rw [← Cover.overlay_eq_self_iff]
  constructor
  · exact fun h => congrArg (fun q => q.mem.values) h
  · intro h
    rw [cover, covered, h]

section Runs

variable [Host] {events : List Event}

theorem armStep_cover {u : Locals} (h : StepFits (Apart s) u p) :
    armStep u (cover s p) = Prod.map id (cover s) <$> armStep u p :=
  armStep_recode (recoding_covered s) h

theorem happen_cover (h : RunFits (Apart s) events p) :
    events.foldlM happen (cover s p) = cover s <$> events.foldlM happen p :=
  happen_recode (recoding_covered s) h

/-- What a run does not reach makes no difference to it, and stays as it was. -/
theorem run_frame (h : RunFits (Apart s) events p) :
    events.foldlM happen (cover s p) = cover s <$> events.foldlM happen p ∧
      Ensures (events.foldlM happen p) fun q =>
        ∀ i, (s i).isSome → q.mem.values[i]? = p.mem.values[i]? := by
  refine ⟨happen_cover h, fun q hq i hi => ?_⟩
  -- the run under a cover by what is there
  let own : Cover Byte := fun i => if (s i).isSome then p.mem.values[i]? else none
  have hown : cover own p = p := cover_eq_self_iff.mpr fun i b hb _ => by
    by_cases hs : (s i).isSome
    · exact (if_pos hs).symm.trans hb
    · exact absurd ((if_neg hs).symm.trans hb) (by simp)
  have hfits : RunFits (Apart own) events p :=
    h.mono fun n a hapart => hapart.mono fun i hs => if_neg (by simp [hs])
  have hrun := happen_cover hfits
  rw [hown, hq] at hrun
  have hkeep : cover own q = q := (Except.ok.inj hrun).symm
  have hsize : q.mem.values.size = p.mem.values.size := (happen_steady events p q hq).size
  by_cases hlt : i < p.mem.values.size
  · have hcell : own i = some p.mem.values[i] :=
      (if_pos hi).trans (Array.getElem?_eq_getElem hlt)
    rw [cover_eq_self_iff.mp hkeep i _ hcell (hsize ▸ hlt), Array.getElem?_eq_getElem hlt]
  · rw [Array.getElem?_eq_none (by omega), Array.getElem?_eq_none (by omega)]

end Runs

/-- `str r0, [r1]` at address 0, which stores over itself, and a word behind it. -/
def storeProgram : Processor := program .usr #[0x00, 0x00, 0x81, 0xE5, 1, 2, 3, 7]

theorem storeProgram_address : fetchAddress storeProgram.core = .ok 0 := by
  rw [fetchAddress_core, storeProgram, pcAddress_program]

theorem storeProgram_fits [Host] {fits : Width → Word → Prop} (h : fits .word 0) (u : Locals) :
    StepFits fits u storeProgram.core := by
  refine ⟨?_, ?_⟩
  · rw [storeProgram_address]
    exact ensures_ok fun _ => h
  · have hfetch : armFetch storeProgram.core u.inst =
        .ok (0, 0xE5810000, (fetched storeProgram).core) := program_fetch .usr rfl
    have haddress : plainAddress storeProgram 0xE5810000 = 0 := by decide
    have htarget : target u (fetched storeProgram).core 0xE5810000 =
        .ok (.wordByte (plainAddress storeProgram 0xE5810000)) :=
      target_plain ⟨by decide, by decide, by decide, by decide, by decide⟩
    rw [haddress] at htarget
    rw [hfetch]
    refine ensures_ok fun _ _ => ?_
    change Ensures (accesses (fetched storeProgram).core 0xE5810000 <$>
      target u (fetched storeProgram).core 0xE5810000) _
    rw [htarget]
    exact ensures_ok (allFit_one.mpr fun _ => h)

def secondWord : Cover Byte := fun i => if 4 ≤ i then some 0xFF else none

def stepThenIrq : List Event := [.step ⟨0, 0, 0, 0, 0, 0⟩, .irq 6]

theorem storeProgram_fits_run [Host] {fits : Width → Word → Prop} (h : fits .word 0) :
    RunFits fits stepThenIrq storeProgram.core :=
  ⟨storeProgram_fits h _, fun _ _ => ⟨trivial, fun _ _ => trivial⟩⟩

theorem storeProgram_frame :
    stepThenIrq.foldlM (@happen Host.x86) (cover secondWord storeProgram.core) =
        cover secondWord <$> stepThenIrq.foldlM (@happen Host.x86) storeProgram.core ∧
      Ensures (stepThenIrq.foldlM (@happen Host.x86) storeProgram.core) fun q =>
        ∀ i, (secondWord i).isSome → q.mem.values[i]? = storeProgram.core.mem.values[i]? :=
  @run_frame secondWord storeProgram.core Host.x86 stepThenIrq
    (@storeProgram_fits_run Host.x86 (Apart secondWord) (by decide))

end ArmSimulator.Footprint
