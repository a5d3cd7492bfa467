import ArmSimulator.Foundation.ExceptRun
import ArmSimulator.Machine.Instruction

/-! # The target of a load or store

`arm_load_store` first works out which handler runs and at which address, then
runs it. The condition field of the instruction has a part only in the second
half: the addressing modes use it for the updated base alone, which is dropped.
-/

namespace ArmSimulator.Transfers

open Machine Foundation.ExceptRun

/-- The handler of an instruction and its address. -/
inductive Target where
  | miscellaneous (address : Word)
  | wordByte (address : Word)
  | skipped
  | undefined
  deriving DecidableEq

/-- The instruction words the decoder passes to `arm_load_store`. -/
def IsLoadStore (ins : Word) : Prop :=
  (getBits ins 27 25).toNat = 2 ∨ (getBits ins 27 25).toNat = 3 ∨
    (getBits ins 27 25).toNat = 0 ∧
      ¬ (getBits ins 24 23 = 0b10 ∧ (getBits ins 21 20 = 0b00 ∨ getBits ins 21 20 = 0b10)) ∧
      getBit ins 4 = 1 ∧ getBit ins 7 = 1

instance (ins : Word) : Decidable (IsLoadStore ins) := inferInstanceAs (Decidable (_ ∨ _ ∨ _))

section Target

variable [Host]

def target (u : Locals) (proc : ArmCore) (ins : Word) : Except Stop Target := do
  let rn ← armReadRegister proc (getBits ins 19 16).toNat
  let rm ← armReadRegister proc (getBits ins 3 0).toNat
  match (getBits ins 27 25).toNat with
  | 0 => (fun r => .miscellaneous r.1) <$> addrmodeLoadStoreMiscellaneous proc ins rn rm
  | 2 => return .wordByte (addrmodeLoadStore proc ins u.address rn (getBits ins 11 0)).1
  | 3 =>
    let a : Bool := ¬ getBits ins 11 4 ≠ 0
    if a || (!(getBit ins 4 ≠ 0 : Bool) && (pBit ins || !wBit ins)) then
      let add := if a then rm else setIndex proc ins (rm.setWidth 8)
      return .wordByte (addrmodeLoadStore proc ins u.address rn add).1
    else return .skipped
  | _ => return .undefined

omit [Host] in
def perform (u : Locals) (proc : ArmCore) (ins : Word) : Target → Except Stop (Int × ArmCore)
  | .miscellaneous address => handlerResult <$> executeInstrMiscellaneous u proc ins address
  | .wordByte address => handlerResult <$> executeInstrWordByte u proc ins address
  | .skipped => .ok (0, proc)
  | .undefined => .ok (Exception.undefinedInstruction, proc)

theorem armLoadStore_target (u : Locals) (proc : ArmCore) (ins : Word) :
    armLoadStore u proc ins = (target u proc ins >>= perform u proc ins) := by
  unfold armLoadStore target
  cases armReadRegister proc (getBits ins 19 16).toNat with
  | error e => rfl
  | ok rn =>
    cases armReadRegister proc (getBits ins 3 0).toNat with
    | error e => rfl
    | ok rm =>
      simp only [ok_bind]
      generalize (getBits ins 27 25).toNat = c
      rcases c with _ | _ | _ | _ | c
      · cases addrmodeLoadStoreMiscellaneous proc ins rn rm <;> rfl
      · rfl
      · rfl
      · refine Eq.trans ?_ (cond_bind _ _ _ _).symm
        rfl
      · rfl

theorem executeClass_loadStore (u : Locals) (p : ArmCore) {ins : Word} (h : IsLoadStore ins) :
    executeClass u p ins = armLoadStore u p ins := by
  unfold executeClass
  rcases h with h | h | ⟨h, hmisc, hbits⟩
  · simp only [h]
  · simp only [h]
  · simp only [h, hmisc, hbits, and_self, if_true, if_false]

end Target

end ArmSimulator.Transfers
