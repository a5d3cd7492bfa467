import ArmSimulator.Transfers.PlainOffset

/-! # The address of a half or double word

`arm_load_store` works out the constant offset of an extra load or store, and
then passes the value of the register in its low bits to the addressing mode in
its place. So a constant is right where nothing is added to the base, or where
that register happens to hold it.
-/

namespace ArmSimulator.Transfers

open Machine RegisterFile Decoding Foundation.ExceptRun

/-- A register plus or minus an offset. -/
def displaced (q : Processor) (ins offset : Word) : Word :=
  if getBit ins 23 ≠ 0 then q.register (rn ins) + offset else q.register (rn ins) - offset

theorem displaced_inj (q : Processor) (ins : Word) {x y : Word} :
    displaced q ins x = displaced q ins y ↔ x = y := by
  rw [displaced, displaced]
  split_ifs
  · exact BitVec.add_right_inj _
  · constructor
    · intro h
      rwa [BitVec.sub_eq_add_neg, BitVec.sub_eq_add_neg, BitVec.add_right_inj, BitVec.neg_inj] at h
    · exact congrArg _

/-- The constant or the register that bit 22 selects. -/
def specifiedOffset (q : Processor) (ins : Word) : Word :=
  if getBit ins 22 ≠ 0 then setOffset ins else q.register (rm ins)

/-- Where an extra load or store has its word, half or byte. -/
def specifiedAddress (q : Processor) (ins : Word) : Word :=
  if pBit ins then displaced q ins (specifiedOffset q ins) else q.register (rn ins)

/-- The handler gets the specified address, and one with a constant offset does not depend
on the register that the constant's low bits would name. -/
structure ExtraAddressed [Host] (u : Locals) (q : Processor) (ins : Word) : Prop where
  located : target u q.core ins = .ok (.miscellaneous (specifiedAddress q ins))
  independent : getBit ins 22 ≠ 0 → rm ins ≠ rn ins → rm ins ≠ rd ins →
    ∀ v, target u (q.write (rm ins) v).core ins = target u q.core ins

/-- The register stands for the constant, or no constant is added. -/
def OffsetStands (q : Processor) (ins : Word) : Prop :=
  ¬ pBit ins ∨ getBit ins 22 = 0 ∨
    q.register (rm ins) = setOffset ins ∧ (rm ins = rn ins ∨ rm ins = rd ins)

section Address

variable [Host] {u : Locals} {q : Processor} {ins : Word}

/-- The code adds the register whatever bit 22 is. -/
theorem target_extra (hclass : (getBits ins 27 25).toNat = 0) :
    target u q.core ins = .ok (.miscellaneous
      (if pBit ins then displaced q ins (q.register (rm ins)) else q.register (rn ins))) := by
  have hrn : armReadRegister q.core (getBits ins 19 16).toNat = .ok (q.register (rn ins)) :=
    q.armReadRegister_eq (rn ins)
  have hrm : armReadRegister q.core (getBits ins 3 0).toNat = .ok (q.register (rm ins)) :=
    q.armReadRegister_eq (rm ins)
  rw [target, hrn, ok_bind, hrm, ok_bind]
  simp only [hclass, addrmodeLoadStoreMiscellaneous, hrm, ok_bind]
  cases pBit ins with
  | true =>
    simp only [if_true, ite_self, op_eq]
    rfl
  | false => rfl

theorem located_iff (hclass : (getBits ins 27 25).toNat = 0) :
    target u q.core ins = .ok (.miscellaneous (specifiedAddress q ins)) ↔
      (pBit ins → getBit ins 22 ≠ 0 → q.register (rm ins) = setOffset ins) := by
  rw [target_extra hclass, Except.ok.injEq, Target.miscellaneous.injEq, specifiedAddress,
    specifiedOffset]
  cases pBit ins with
  | false => simp
  | true =>
    simp only [if_true, displaced_inj, forall_const]
    split_ifs with hb
    · exact ⟨fun h _ => h, fun h => h hb⟩
    · exact iff_of_true rfl fun h => absurd h hb

omit [Host] in
theorem exists_write_ne (q : Processor) (reg : Fin 16) :
    ∃ v, (q.write reg v).register reg ≠ q.register reg := by
  by_cases hv : (q.write reg 0).register reg = q.register reg
  · refine ⟨4, fun h => ?_⟩
    rw [← hv, Processor.register_write, Processor.register_write] at h
    split_ifs at h
    · exact absurd h (by decide)
    · exact absurd h (by decide)
  · exact ⟨0, hv⟩

omit [Host] in
theorem register_write_other (q : Processor) {reg reg' : Fin 16} (hne : reg' ≠ reg) (v : Word) :
    (q.write reg v).register reg' = q.register reg' := by
  change (let value := (q.write reg v).file.cells (position q.file.mode reg')
    if reg' = 15 then readPc value else value) = _
  rw [Processor.write_cells, if_neg fun h => hne (reg_eq_of_position h)]
  rfl

/-- With an index the register is used, unless it is the base. -/
theorem independent_iff (hclass : (getBits ins 27 25).toNat = 0) (hne : rm ins ≠ rn ins) :
    (∀ v, target u (q.write (rm ins) v).core ins = target u q.core ins) ↔ ¬ pBit ins := by
  have hbase (v : Word) : (q.write (rm ins) v).register (rn ins) = q.register (rn ins) :=
    register_write_other q hne.symm v
  have hdisplaced (v x : Word) : displaced (q.write (rm ins) v) ins x = displaced q ins x := by
    rw [displaced, displaced, hbase]
  simp only [target_extra hclass, Except.ok.injEq, Target.miscellaneous.injEq, hbase, hdisplaced]
  cases pBit ins with
  | false => simp
  | true =>
    simp only [if_true, displaced_inj, not_true_eq_false, iff_false, not_forall]
    exact exists_write_ne q (rm ins)

/-- The addresses of halves and double words are right exactly where the offset is a
register, is not added, or is what the register holds that is the base or the operand. -/
theorem extraAddressed_iff (u : Locals) (q : Processor) (hclass : (getBits ins 27 25).toNat = 0) :
    ExtraAddressed u q ins ↔ OffsetStands q ins := by
  rw [OffsetStands]
  constructor
  · rintro ⟨hlocated, hindependent⟩
    rw [located_iff hclass] at hlocated
    by_contra hnone
    simp only [not_or, not_not] at hnone
    obtain ⟨hp, hb, hregister⟩ := hnone
    have hsame : ¬ (rm ins = rn ins ∨ rm ins = rd ins) := fun h =>
      hregister ⟨hlocated hp hb, h⟩
    rw [not_or] at hsame
    exact (independent_iff hclass hsame.1).mp (hindependent hb hsame.1 hsame.2) hp
  · intro h
    refine ⟨(located_iff hclass).mpr fun hp hb => ?_, fun hb hn hd => ?_⟩
    · rcases h with h | h | h
      · exact absurd hp h
      · exact absurd h hb
      · exact h.1
    · rw [independent_iff hclass hn]
      rcases h with h | h | ⟨-, h | h⟩
      · exact h
      · exact absurd h hb
      · exact absurd h hn
      · exact absurd h hd

end Address

/-- `r1` holds 4 and `r2` 2. -/
def halves : Processor := ((program .usr #[0, 0, 0, 0, 0, 0, 7, 0]).write 1 4).write 2 2

/-- `ldrh r0, [r1, r2]` has its offset in a register, and `ldrh r2, [r1, #2]` the constant
that is in `r2`. -/
theorem extraAddressed_register :
    @ExtraAddressed Host.x86 ⟨0, 0, 0, 0, 0, 0⟩ halves 0xE19100B2 ∧
      @ExtraAddressed Host.x86 ⟨0, 0, 0, 0, 0, 0⟩ halves 0xE1D120B2 :=
  letI := Host.x86
  ⟨(extraAddressed_iff ⟨0, 0, 0, 0, 0, 0⟩ halves (by decide)).mpr (Or.inr (Or.inl (by decide))),
    (extraAddressed_iff ⟨0, 0, 0, 0, 0, 0⟩ halves (by decide)).mpr
      (Or.inr (Or.inr ⟨by decide, Or.inr (by decide)⟩))⟩

/-- `ldrh r0, [r1, #2]` reads from `r1` plus what `r2` holds. -/
theorem extraAddressed_constant : ¬ ∀ (_ : Host) (u : Locals) (q : Processor) (ins : Word),
    (getBits ins 27 25).toNat = 0 → ExtraAddressed u q ins := by
  intro h
  let host := Host.x86
  have hclass : (getBits (0xE1D100B2 : Word) 27 25).toNat = 0 := by decide
  have hlocated := (h host ⟨0, 0, 0, 0, 0, 0⟩ (program .usr #[]) _ hclass).located
  exact absurd ((located_iff hclass).mp hlocated (by decide) (by decide)) (by decide)

end ArmSimulator.Transfers
