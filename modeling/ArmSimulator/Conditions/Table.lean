import ArmSimulator.Machine.Instruction

/-! # The condition table of the decoder

The table holds the predicate of each of the fourteen conditions over the
flags of the status. Its slots are the pairs of condition and flags, so the
loops that fill it leave the computed value in each of them.
-/

namespace ArmSimulator.Conditions

open Machine Foundation.LookupTable

/-- The condition codes below `AL`. -/
inductive Condition where
  | eq | ne | cs | cc | mi | pl | vs | vc | hi | ls | ge | lt | gt | le
  deriving DecidableEq, Repr

namespace Condition

def code : Condition → Nat
  | eq => 0
  | ne => 1
  | cs => 2
  | cc => 3
  | mi => 4
  | pl => 5
  | vs => 6
  | vc => 7
  | hi => 8
  | ls => 9
  | ge => 10
  | lt => 11
  | gt => 12
  | le => 13

/-- The predicate of the architecture over the flags N, Z, C and V. -/
def holds (condition : Condition) (n z c v : Bool) : Bool :=
  match condition with
  | eq => z
  | ne => !z
  | cs => c
  | cc => !c
  | mi => n
  | pl => !n
  | vs => v
  | vc => !v
  | hi => c && !z
  | ls => !c || z
  | ge => n == v
  | lt => n != v
  | gt => !z && (n == v)
  | le => z || (n != v)

theorem code_lt (condition : Condition) : condition.code < 14 := by
  cases condition <;> decide

theorem exists_code {c : Nat} (hc : c < 14) : ∃ condition : Condition, condition.code = c := by
  have h : ∀ c < 14, [eq, ne, cs, cc, mi, pl, vs, vc, hi, ls, ge, lt, gt, le].any
      (·.code = c) := by decide
  obtain ⟨condition, -, hcode⟩ := List.any_eq_true.mp (h c hc)
  exact ⟨condition, of_decide_eq_true hcode⟩

def accepts (condition : Condition) (cpsr : Word) : Bool :=
  condition.holds (cpsr.getLsbD 31) (cpsr.getLsbD 30) (cpsr.getLsbD 29) (cpsr.getLsbD 28)

end Condition

theorem decodeConditionIndex_eq {flags : Nat} (cond : Nat) (hflags : flags < 16) :
    decodeConditionIndex cond flags = 16 * cond + flags := by
  rw [decodeConditionIndex, ← Nat.shiftLeft_add_eq_or_of_lt (i := 4) hflags, Nat.shiftLeft_eq]
  omega

theorem armDecodeCondition_eq {cond flags : Nat} (hcond : cond < 14) (hflags : flags < 16) :
    armDecodeCondition cond flags = decodeConditionValue cond flags := by
  have hkey : ∀ i < 14, ∀ j < 16, ∀ i' < 14, ∀ j' < 16,
      decodeConditionIndex i j = decodeConditionIndex i' j' → i = i' ∧ j = j' := by
    intro i _ j hj i' _ j' hj' h
    rw [decodeConditionIndex_eq i hj, decodeConditionIndex_eq i' hj'] at h
    omega
  simp only [armDecodeCondition, initDecodeCondition, Lazy.force, Lazy.start, Bool.false_eq_true,
    if_false]
  rw [fill_loops hkey _ hcond hflags, Option.getD_some]

theorem decodeConditionValue_holds (condition : Condition) : ∀ flags < 16,
    decodeConditionValue condition.code flags = condition.holds (flags.testBit 3) (flags.testBit 2)
      (flags.testBit 1) (flags.testBit 0) := by
  cases condition <;> decide

theorem testBit_cpsrFlags (p : ArmCore) {i : Nat} (hi : i < 4) :
    (cpsrFlags p).testBit i = (armReadCpsr p).getLsbD (28 + i) := by
  have h := getLsbD_getBits (armReadCpsr p) 31 28 i
  rw [decide_eq_true (by omega), Bool.true_and] at h
  exact h

/-- The decoder's test is the predicate of the architecture over the status. -/
theorem armDecodeCondition_accepts (condition : Condition) (p : ArmCore) :
    armDecodeCondition condition.code (cpsrFlags p) = condition.accepts (armReadCpsr p) := by
  have hflags : cpsrFlags p < 16 := toNat_getBits_lt (armReadCpsr p) (h := 31) (l := 28) (by omega)
  rw [armDecodeCondition_eq condition.code_lt hflags,
    decodeConditionValue_holds condition _ hflags]
  simp only [testBit_cpsrFlags p (i := 3) (by omega), testBit_cpsrFlags p (i := 2) (by omega),
    testBit_cpsrFlags p (i := 1) (by omega), testBit_cpsrFlags p (i := 0) (by omega)]
  rfl

end ArmSimulator.Conditions
