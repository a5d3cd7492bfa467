import ArmSimulator.Transfers.PlainOffset

/-! # Double words

A double word goes to or from an even register and the next one. The handler
tests for what it should refuse the wrong way round: it returns before any
access when its register is even, and does so without a sign of it. So a
transfer is right only where there is nothing to transfer.
-/

namespace ArmSimulator.Transfers

open Machine RegisterFile Storage Exceptions Decoding Foundation.ExceptRun

/-- The codes of `execute_instr_miscellaneous` for a pair of registers. -/
def loadPairCode : Nat := 2
def storePairCode : Nat := 3

/-- An unconditional transfer of an even pair other than that of the link register. -/
structure IsPair (code : Nat) (ins : Word) : Prop where
  condition : condField ins = 0b1110
  code : miscellaneousCode ins = code
  even : (rd ins).val % 2 = 0
  link : rd ins ≠ 14

/-- Two registers hold two words of memory. -/
def PairEq (q : Processor) (reg : Fin 16) (x y : Word) : Prop :=
  q.register reg = x ∧ q.register (reg + 1) = y

section Pairs

variable (u : Locals) (q : Processor) (ins a : Word)

/-- The pair is stored at the address, nothing else changes in memory, and 0 is returned. -/
def StoresPair : Prop :=
  ∃ p', executeInstrMiscellaneous u q.core ins a = .ok (0, p') ∧
    PairEq q (rd ins) (wordAt p'.mem a.toNat) (wordAt p'.mem (a.toNat + 4)) ∧
    (∀ i, i < a.toNat ∨ a.toNat + 8 ≤ i → p'.mem.values[i]? = q.mem.values[i]?) ∧
    p'.mem.isBigEndian = q.mem.isBigEndian

/-- The words at the address are loaded into the pair. -/
def LoadsPair : Prop :=
  ∃ q' : Processor, executeInstrMiscellaneous u q.core ins a = .ok (0, q'.core) ∧
    PairEq q' (rd ins) (wordAt q.mem a.toNat) (wordAt q.mem (a.toNat + 4))

/-- A pair stored and loaded into another one is copied. -/
def CopiesPair (u' : Locals) (ins' : Word) : Prop :=
  ∃ (p₁ : ArmCore) (q₂ : Processor), executeInstrMiscellaneous u q.core ins a = .ok (0, p₁) ∧
    executeInstrMiscellaneous u' p₁ ins' a = .ok (0, q₂.core) ∧
    PairEq q₂ (rd ins') (q.register (rd ins)) (q.register (rd ins + 1))

variable {u q ins a}

theorem executeInstrMiscellaneous_pair {code : Nat} (h : IsPair code ins)
    (hcode : code = loadPairCode ∨ code = storePairCode) :
    executeInstrMiscellaneous u q.core ins a = .ok (0, q.core) := by
  have heven : ¬ (getBits ins 15 12).toNat % 2 ≠ 0 := not_not.mpr h.even
  have hins : miscellaneousCode ins = code := h.code
  rw [miscellaneousCode] at hins
  unfold executeInstrMiscellaneous
  rcases hcode with rfl | rfl
  · simp only [hins, loadPairCode]
    exact if_pos (Or.inl heven)
  · simp only [hins, storePairCode]
    exact if_pos (Or.inl heven)

theorem storesPair_iff (h : IsPair storePairCode ins) : StoresPair u q ins a ↔
    PairEq q (rd ins) (wordAt q.mem a.toNat) (wordAt q.mem (a.toNat + 4)) := by
  rw [StoresPair, executeInstrMiscellaneous_pair h (Or.inr rfl)]
  constructor
  · rintro ⟨p', hp', hpair, -⟩
    rw [Except.ok.injEq, Prod.mk.injEq] at hp'
    rw [← hp'.2] at hpair
    exact hpair
  · exact fun hpair => ⟨q.core, rfl, hpair, fun _ _ => rfl, rfl⟩

theorem pairEq_congr {q' : Processor} (h : q'.core = q.core) (reg : Fin 16) (x y : Word) :
    PairEq q' reg x y ↔ PairEq q reg x y := by
  have hregister (r : Fin 16) : q'.register r = q.register r := by
    have hread := q'.armReadRegister_eq r
    rw [h, q.armReadRegister_eq r, Except.ok.injEq] at hread
    exact hread.symm
  rw [PairEq, PairEq, hregister, hregister]

theorem loadsPair_iff (h : IsPair loadPairCode ins) : LoadsPair u q ins a ↔
    PairEq q (rd ins) (wordAt q.mem a.toNat) (wordAt q.mem (a.toNat + 4)) := by
  rw [LoadsPair, executeInstrMiscellaneous_pair h (Or.inl rfl)]
  constructor
  · rintro ⟨q', hq', hpair⟩
    rw [Except.ok.injEq, Prod.mk.injEq] at hq'
    exact (pairEq_congr hq'.2.symm _ _ _).mp hpair
  · exact fun hpair => ⟨q, rfl, hpair⟩

theorem copiesPair_iff {u' : Locals} {ins' : Word} (h : IsPair storePairCode ins)
    (h' : IsPair loadPairCode ins') : CopiesPair u q ins a u' ins' ↔
      PairEq q (rd ins') (q.register (rd ins)) (q.register (rd ins + 1)) := by
  rw [CopiesPair, executeInstrMiscellaneous_pair h (Or.inr rfl)]
  constructor
  · rintro ⟨p₁, q₂, hp₁, hq₂, hpair⟩
    rw [Except.ok.injEq, Prod.mk.injEq] at hp₁
    rw [← hp₁.2, executeInstrMiscellaneous_pair h' (Or.inl rfl), Except.ok.injEq,
      Prod.mk.injEq] at hq₂
    exact (pairEq_congr hq₂.2.symm _ _ _).mp hpair
  · exact fun hpair => ⟨q.core, q, rfl, executeInstrMiscellaneous_pair h' (Or.inl rfl), hpair⟩

/-- At every address a double word is stored, loaded and copied exactly where the words
are in their places already. -/
theorem doubleword_iff (u u' : Locals) (q : Processor) (a : Word) {st ld : Word}
    (hst : IsPair storePairCode st) (hld : IsPair loadPairCode ld) :
    (StoresPair u q st a ↔
      PairEq q (rd st) (wordAt q.mem a.toNat) (wordAt q.mem (a.toNat + 4))) ∧
    (LoadsPair u' q ld a ↔
      PairEq q (rd ld) (wordAt q.mem a.toNat) (wordAt q.mem (a.toNat + 4))) ∧
    (CopiesPair u q st a u' ld ↔
      PairEq q (rd ld) (q.register (rd st)) (q.register (rd st + 1))) :=
  ⟨storesPair_iff hst, loadsPair_iff hld, copiesPair_iff hst hld⟩

end Pairs

/-- `strd r2, [r4]` -/
theorem isPair_strd : IsPair storePairCode 0xE1C420F0 :=
  ⟨by decide, by decide, by decide, by decide⟩

/-- `ldrd r6, [r4]` -/
theorem isPair_ldrd : IsPair loadPairCode 0xE1C460D0 :=
  ⟨by decide, by decide, by decide, by decide⟩

/-- A memory of two words, 1 and 2. -/
def eightBytes : Processor := program .usr #[1, 0, 0, 0, 2, 0, 0, 0]

/-- `r2` and `r3`, and `r6` and `r7`, hold the words of the memory. -/
def paired : Processor := (((eightBytes.write 2 1).write 3 2).write 6 1).write 7 2

theorem doubleword_kept : StoresPair ⟨0, 0, 0, 0, 0, 0⟩ paired 0xE1C420F0 0 ∧
    LoadsPair ⟨0, 0, 0, 0, 0, 0⟩ paired 0xE1C460D0 0 ∧
    CopiesPair ⟨0, 0, 0, 0, 0, 0⟩ paired 0xE1C420F0 0 ⟨0, 0, 0, 0, 0, 0⟩ 0xE1C460D0 := by
  obtain ⟨hstore, hload, hcopy⟩ := doubleword_iff ⟨0, 0, 0, 0, 0, 0⟩ ⟨0, 0, 0, 0, 0, 0⟩ paired 0
    isPair_strd isPair_ldrd
  exact ⟨hstore.mpr ⟨by decide, by decide⟩, hload.mpr ⟨by decide, by decide⟩,
    hcopy.mpr ⟨by decide, by decide⟩⟩

/-- A double word with a three in `r2` is not stored. -/
theorem doubleword_lost : ¬ ∀ (u : Locals) (q : Processor) (a st : Word), 8 ∣ a.toNat →
    a.toNat + 8 ≤ q.mem.values.size → IsPair storePairCode st → StoresPair u q st a := by
  intro h
  have hstored := h ⟨0, 0, 0, 0, 0, 0⟩ (eightBytes.write 2 3) 0 _ (by decide) (by decide)
    isPair_strd
  rw [storesPair_iff isPair_strd] at hstored
  exact absurd hstored.1 (by decide)

end ArmSimulator.Transfers
