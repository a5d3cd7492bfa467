import ArmSimulator.Conditions.Comparison
import ArmSimulator.DataProcessing.Effect
import ArmSimulator.RegisterFile.Processor
import Mathlib.Data.Int.ModEq
import Mathlib.Data.Nat.Digits.Defs

/-! # Subtraction over several words

`subs` on the lowest word and `sbcs` on the others should subtract numbers of any
length, the carry flag standing for no borrow. The first word comes out right.
From the second on the source subtracts the bitwise complement of the flag, -1 or
-2, in place of its negation, and the word is off whatever the incoming flag is.
-/

namespace ArmSimulator.DataProcessing

open Machine RegisterFile Conditions Foundation.ExceptRun

/-- The operands of an instruction and the word it leaves in its register. -/
structure Limb where
  rn : Word
  operand : Word
  res : Word
  deriving DecidableEq, Repr

/-- The number of a list of words, the least significant first. -/
def value (ws : List Word) : Nat := Nat.ofDigits (2 ^ 32) (ws.map BitVec.toNat)

theorem value_cons (w : Word) (ws : List Word) : value (w :: ws) = w.toNat + 2 ^ 32 * value ws :=
  rfl

/-- The two directions of subtraction. -/
inductive Family where
  | sub | rsb
  deriving DecidableEq, Repr

namespace Family

/-- `SUB` and `RSB`, for the lowest word. -/
def first : Family → Nat
  | sub => 0b0010
  | rsb => 0b0011

/-- `SBC` and `RSC`, for the other words. -/
def rest : Family → Nat
  | sub => 0b0110
  | rsb => 0b0111

def minuend : Family → Limb → Word
  | sub => Limb.rn
  | rsb => Limb.operand

def subtrahend : Family → Limb → Word
  | sub => Limb.operand
  | rsb => Limb.rn

end Family

/-- The C flag. -/
def carry (p : ArmCore) : Bool := (armReadCpsr p).getLsbD 29

/-- One instruction with the S bit and a destination other than the program counter. -/
structure Executes (opcode : Nat) (p p' : ArmCore) (w : Limb) : Prop where
  run : ∃ rd < 15, executeInst opcode p rd w.rn w.operand true = .ok (0, p') ∧
    armReadRegister p' rd = .ok w.res

/-- Instructions on successive words from a state with the first flag to one with the second.
The first has opcode `opcode`, the others `rest`; between two of them anything may happen that
keeps the flag. -/
inductive Chain (rest : Nat) : Nat → Bool → List Limb → Bool → Prop where
  | nil {opcode : Nat} {c : Bool} : Chain rest opcode c [] c
  | cons {opcode : Nat} {p p' : ArmCore} {w : Limb} {ws : List Limb} {c : Bool} :
      Executes opcode p p' w → Chain rest rest (carry p') ws c →
      Chain rest opcode (carry p) (w :: ws) c

/-- The results are the difference of the operands and the flag says that it did not borrow. -/
structure SubtractLaw (f : Family) (ws : List Limb) (c : Bool) : Prop where
  difference : (value (ws.map Limb.res) : Int) =
    (value (ws.map f.minuend) - value (ws.map f.subtrahend)) % 2 ^ (32 * ws.length)
  carry : c ↔ value (ws.map f.subtrahend) ≤ value (ws.map f.minuend)

/-! ## One instruction -/

section Instruction

variable {opcode : Nat} {p p' : ArmCore} {w : Limb}

theorem Executes.result (h : Executes opcode p p' w) (hop : opcode < 8) :
    ∃ r, aluOf opcode (armReadCpsr p) w.rn w.operand = some r ∧ w.res = r.res ∧
      carry p' = r.cFlag := by
  obtain ⟨rd, hrd, hrun, hread⟩ := h.run
  obtain ⟨r, hr⟩ := exists_aluOf (show opcode < 16 by omega) (armReadCpsr p) w.rn w.operand
  have htest : ¬ IsTest opcode := fun ht => absurd ht.1 (by omega)
  have hr' := aluSwitch_test hr
  rw [decide_eq_false htest] at hr'
  rw [executeInst_eq hr, if_neg htest] at hrun
  obtain ⟨p₁, hp₁, hupdate⟩ := bind_eq_ok.mp hrun
  have hpc : ¬ rd = 15 := by omega
  simp only [updateStatus, Bool.true_or, if_true, hpc, decide_false, Bool.and_false,
    Bool.false_eq_true, if_false, pure_eq_ok, Prod.mk.injEq, true_and] at hupdate
  subst hupdate
  have hwritten := armReadRegister_written (by omega) hp₁ (getBits_flagsCpsr (armReadCpsr p) r)
  rw [hwritten, Except.ok.injEq] at hread
  refine ⟨r, hr, hread.symm, ?_⟩
  rw [carry, armReadCpsr, armWriteCpsr, readCpsr_writeCpsr, getLsbD_flagsCpsr, if_neg (by decide),
    if_pos rfl]

theorem executes_core (q : Processor) {a b : Word} {r : AluResult} (hop : opcode < 8)
    (hr : aluOf opcode (armReadCpsr q.core) a b = some r) :
    Executes opcode q.core (armWriteCpsr (q.write 1 r.res).core (flagsCpsr (armReadCpsr q.core) r))
      ⟨a, b, r.res⟩ := by
  have htest : ¬ IsTest opcode := fun ht => absurd ht.1 (by omega)
  have hwrite : armWriteRegister q.core 1 r.res = .ok (q.write 1 r.res).core :=
    q.armWriteRegister_eq 1 r.res
  refine ⟨1, by decide, ?_, armReadRegister_written (by decide) hwrite (getBits_flagsCpsr _ r)⟩
  rw [executeInst_eq hr, if_neg htest, hwrite, ok_bind, updateStatus]
  simp

theorem Executes.first {f : Family} (h : Executes f.first p p' w) :
    w.res = f.minuend w - f.subtrahend w ∧
      carry p' = getCarryFlagSub (f.minuend w) (f.subtrahend w) := by
  obtain ⟨r, hr, hres, hcarry⟩ := h.result (by cases f <;> decide)
  rw [hres, hcarry]
  cases f <;> exact Option.some.inj hr ▸ ⟨rfl, rfl⟩

/-- The complement of the flag as a number is -1 or -2. -/
theorem Executes.rest {f : Family} (h : Executes f.rest p p' w) :
    w.res = f.minuend w - f.subtrahend w + if carry p then 2 else 1 := by
  obtain ⟨r, hr, hres, -⟩ := h.result (by cases f <;> decide)
  have hflag : decide (getBit (armReadCpsr p) 29 ≠ 0) = carry p := by
    simp only [getBit_ne_zero, Bool.decide_eq_true]
    rfl
  have hcomplement (x : Word) (c : Bool) : x - ~~~boolInt c = x + if c then 2 else 1 := by
    cases c
    · exact sub_neg_eq_add x 1
    · exact sub_neg_eq_add x 2
  rw [hres, ← hcomplement]
  unfold aluOf at hr
  rw [hflag] at hr
  cases f <;> exact (congrArg AluResult.res (Option.some.inj hr)).symm

end Instruction

/-! ## The lowest two words -/

theorem subtractLaw_single_iff (f : Family) {w : Limb} (c : Bool)
    (hres : w.res = f.minuend w - f.subtrahend w) :
    SubtractLaw f [w] c ↔ (c ↔ (f.subtrahend w).toNat ≤ (f.minuend w).toNat) := by
  have hvalue (x : Word) : value [x] = x.toNat := by rw [value_cons]; simp [value]
  have hdifference : (w.res.toNat : Int) =
      ((f.minuend w).toNat - (f.subtrahend w).toNat : Int) % 2 ^ 32 := by
    have hm := (f.minuend w).isLt
    have hs := (f.subtrahend w).isLt
    rw [hres, BitVec.toNat_sub]
    omega
  constructor
  · intro h
    have hcarry := h.carry
    rwa [List.map_singleton, List.map_singleton, hvalue, hvalue] at hcarry
  · intro h
    refine ⟨?_, ?_⟩
    · simpa only [List.map_singleton, hvalue, List.length_singleton, Nat.mul_one] using hdifference
    · rwa [List.map_singleton, List.map_singleton, hvalue, hvalue]

/-- Adding 1 or 2 to the second word spoils the difference, with or without a borrow. -/
theorem not_subtractLaw (f : Family) {w₀ w₁ : Limb} (ws : List Limb) (c b : Bool)
    (h₀ : w₀.res = f.minuend w₀ - f.subtrahend w₀)
    (h₁ : w₁.res = f.minuend w₁ - f.subtrahend w₁ + if b then 2 else 1) :
    ¬ SubtractLaw f (w₀ :: w₁ :: ws) c := by
  intro h
  have hdvd : (2 ^ 64 : Int) ∣ 2 ^ (32 * (w₀ :: w₁ :: ws).length) := by
    refine pow_dvd_pow 2 ?_
    simp only [List.length_cons]
    omega
  have hmod := (Int.mod_modEq (value ((w₀ :: w₁ :: ws).map f.minuend) -
    value ((w₀ :: w₁ :: ws).map f.subtrahend)) (2 ^ (32 * (w₀ :: w₁ :: ws).length))).of_dvd hdvd
  rw [← h.difference] at hmod
  obtain ⟨z, hz⟩ := hmod.dvd
  simp only [List.map_cons, value_cons] at hz
  push_cast at hz
  have hm₀ := (f.minuend w₀).isLt
  have hs₀ := (f.subtrahend w₀).isLt
  have hr₀ : w₀.res.toNat = (2 ^ 32 - (f.subtrahend w₀).toNat + (f.minuend w₀).toNat) % 2 ^ 32 := by
    rw [h₀, BitVec.toNat_sub]
  have hr₁ : w₁.res.toNat = ((2 ^ 32 - (f.subtrahend w₁).toNat + (f.minuend w₁).toNat) % 2 ^ 32 +
      if b then 2 else 1) % 2 ^ 32 := by
    rw [h₁, BitVec.toNat_add, BitVec.toNat_sub]
    cases b <;> rfl
  have hs₁ := (f.subtrahend w₁).isLt
  cases b <;> simp only [if_true, Bool.false_eq_true, if_false] at hr₁ <;> omega

/-! ## Chains -/

/-- Subtracting single words leaves the right flag. -/
def SingleExact (a b : Word) : Prop :=
  a.msb ∧ ¬ b.msb ∧ Odd (borrows a b).card ∨ a.toNat < b.toNat ∧ Even (borrows a b).card

theorem singleExact_iff (a b : Word) :
    (getCarryFlagSub a b ↔ b.toNat ≤ a.toNat) ↔ SingleExact a b := by
  have hodd := getCarryFlagSub_iff a b
  rw [SingleExact, ← Nat.not_odd_iff_even, ← hodd]
  by_cases hc : getCarryFlagSub a b
  · have hsign : b.toNat ≤ a.toNat ↔ a.msb ∧ ¬ b.msb := by
      by_cases heq : a.msb = b.msb
      · have hlt := lt_of_getCarryFlagSub heq hc
        refine iff_of_false (by omega) fun h => ?_
        exact h.2 (heq ▸ h.1)
      · have ha := a.isLt
        have hb := b.isLt
        rw [BitVec.msb_eq_decide, BitVec.msb_eq_decide, decide_eq_decide] at heq
        simp only [BitVec.msb_eq_decide, decide_eq_true_eq]
        omega
    simp only [hc, true_iff, not_true_eq_false, and_false, or_false, and_true, hsign]
  · simp only [hc, false_iff, not_false_eq_true, and_true, and_false, false_or, not_le,
      Bool.false_eq_true]

/-- Subtraction over several words obeys its law exactly for single words whose flag
comes out right; every longer chain breaks it. -/
theorem subtractLaw_iff (f : Family) {ws : List Limb} {c c' : Bool} (hne : ws ≠ [])
    (h : Chain f.rest f.first c ws c') :
    SubtractLaw f ws c' ↔ ∃ w, ws = [w] ∧ SingleExact (f.minuend w) (f.subtrahend w) := by
  cases h with
  | nil => exact absurd rfl hne
  | cons hfirst hrest =>
    rename_i p p' w₀ ws
    obtain ⟨hres, hcarry⟩ := hfirst.first
    generalize hc : carry p' = c₁ at hrest
    cases hrest with
    | nil =>
      rw [subtractLaw_single_iff f _ hres, ← hc, hcarry, singleExact_iff]
      simp
    | cons hsecond _ =>
      refine iff_of_false (not_subtractLaw f _ _ _ hres hsecond.rest) ?_
      rintro ⟨w, hw, -⟩
      simp at hw

/-- What `subs` makes of 2 ^ 31 and 1. -/
def borrowing : AluResult :=
  ⟨0x80000000 - 1, getCarryFlagSub 0x80000000 1, getOverflowFlagSub (0x80000000 - 1) 0x80000000 1,
    false⟩

theorem singleExact_borrowing : SingleExact 0x80000000 1 :=
  Or.inl ⟨by decide, by decide, by decide⟩

theorem subtractLaw_subs :
    SubtractLaw .sub [⟨0x80000000, 1, borrowing.res⟩] (carry (armWriteCpsr
      (idle.write 1 borrowing.res).core (flagsCpsr (armReadCpsr idle.core) borrowing))) :=
  (@subtractLaw_iff .sub _ (carry idle.core) _ (List.cons_ne_nil _ _)
    (.cons (executes_core idle (by decide) rfl) .nil)).mpr ⟨_, rfl, singleExact_borrowing⟩

/-- Two words of zero less themselves do not leave zero. -/
theorem multiword_subtraction_fails : ¬ ∀ (f : Family) (ws : List Limb) (c c' : Bool), ws ≠ [] →
    Chain f.rest f.first c ws c' → SubtractLaw f ws c' := by
  intro h
  obtain ⟨r₀, hr₀⟩ :=
    exists_aluOf (show Family.sub.first < 16 by decide) (armReadCpsr idle.core) 0 0
  obtain ⟨r₁, hr₁⟩ := exists_aluOf (show Family.sub.rest < 16 by decide) (armReadCpsr idle.core) 0 0
  have h₀ := executes_core idle (by decide) hr₀
  have h₁ := executes_core idle (by decide) hr₁
  obtain ⟨hres, hcarry⟩ := h₀.first (f := .sub)
  have hclear : getCarryFlagSub 0 0 = false :=
    Bool.eq_false_iff.mpr fun hc => absurd (lt_of_getCarryFlagSub rfl hc) (by decide)
  have hidle : carry idle.core = false := rfl
  have hrest : Chain Family.sub.rest Family.sub.rest (carry idle.core) [⟨0, 0, r₁.res⟩] _ :=
    .cons h₁ .nil
  rw [hidle, ← hcarry.trans hclear] at hrest
  exact not_subtractLaw .sub [] _ _ hres h₁.rest (h .sub _ _ _ (by simp) (.cons h₀ hrest))

end ArmSimulator.DataProcessing
