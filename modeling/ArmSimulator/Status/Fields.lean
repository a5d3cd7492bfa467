import ArmSimulator.RegisterFile.Banks
import ArmSimulator.Shifting.BarrelShifter
import ArmSimulator.Status.Frame
import ArmSimulator.Storage.Blocks

/-! # The fields of a move to the status

A move to the status replaces the bytes its mask selects. The operand reaches
`write_psr` in a single byte, so that every selected byte becomes the lowest
byte of the operand; and a saved status is kept in the word of `r0` and of the
saved statuses of all other modes.
-/

namespace ArmSimulator.Status

open Machine RegisterFile Transfers DataProcessing Storage Shifting Foundation.ExceptRun

/-! ## The bytes of the assembled word -/

/-- The mask of the instruction selects a byte. -/
def Selects (ins : Word) (i : Nat) : Prop := getBit ins (16 + i) ≠ 0

instance (ins : Word) (i : Nat) : Decidable (Selects ins i) := inferInstanceAs (Decidable (_ ≠ _))

section Bytes

variable (x : Word) (v : Byte) {i j : Nat}

theorem getLsbD_setByte {k : Nat} (hk : k < 3) (hi : i < 4) (hj : j < 8) :
    (setBits x (8 * k + 7) (8 * k) (v.setWidth 32)).getLsbD (8 * i + j) =
      if i = k then v.getLsbD j else x.getLsbD (8 * i + j) := by
  rw [getLsbD_setBits, decide_eq_true (show 8 * i + j < 32 by omega), Bool.true_and,
    BitVec.getLsbD_setWidth]
  split_ifs with hik
  · subst hik
    rw [decide_eq_false (show ¬ 8 * i + j < 8 * i by omega),
      decide_eq_false (show ¬ 8 * i + 7 < 8 * i + j by omega),
      decide_eq_true (show 8 * i ≤ _ by omega),
      Nat.add_sub_cancel_left, decide_eq_true (show j < 32 by omega)]
    simp
  · rcases Nat.lt_or_gt_of_ne hik with h | h
    · rw [decide_eq_true (show 8 * i + j < 8 * k by omega),
        decide_eq_false (show ¬ 8 * k ≤ 8 * i + j by omega)]
      simp
    · have hhigh : v.getLsbD (8 * i + j - 8 * k) = false :=
        BitVec.getLsbD_of_ge v _ (by omega)
      rw [decide_eq_true (show 8 * k + 7 < 8 * i + j by omega), hhigh]
      simp

/-- The highest byte takes two steps, since its highest bit is the sign. -/
theorem getLsbD_setTopByte (hi : i < 4) (hj : j < 8) :
    (if getBit (v.setWidth 32) 7 ≠ 0 then setBit (setBits x 30 24 (v.setWidth 32)) 31
      else clrBit (setBits x 30 24 (v.setWidth 32)) 31).getLsbD (8 * i + j) =
      if i = 3 then v.getLsbD j else x.getLsbD (8 * i + j) := by
  have hsign : getBit (v.setWidth 32) 7 ≠ 0 ↔ v.getLsbD 7 = true := by
    rw [getBit_ne_zero, BitVec.getLsbD_setWidth]
    simp
  have hfield : (setBits x 30 24 (v.setWidth 32)).getLsbD (8 * i + j) =
      (decide (8 * i + j < 24 ∨ 30 < 8 * i + j) && x.getLsbD (8 * i + j) ||
        decide (i = 3) && v.getLsbD j) := by
    rw [getLsbD_setBits, BitVec.getLsbD_setWidth]
    by_cases h3 : i = 3
    · subst h3
      rw [show 8 * 3 + j - 24 = j by omega]
      simp [show 24 + j < 32 by omega, show j < 32 by omega]
    · simp [h3, show 8 * i + j < 24 by omega, show 8 * i + j < 32 by omega,
        show ¬ 24 ≤ 8 * i + j by omega]
  by_cases h31 : 8 * i + j = 31
  · obtain ⟨rfl, rfl⟩ : i = 3 ∧ j = 7 := by omega
    simp only [hsign, if_true]
    split_ifs with hv
    · rw [getLsbD_setBit _ (by omega), hv]
      simp
    · rw [getLsbD_clrBit _ (by omega), decide_eq_true rfl, Bool.not_true, Bool.false_and]
      exact (Bool.eq_false_of_not_eq_true hv).symm
  · have hbit : (if getBit (v.setWidth 32) 7 ≠ 0 then setBit (setBits x 30 24 (v.setWidth 32)) 31
        else clrBit (setBits x 30 24 (v.setWidth 32)) 31).getLsbD (8 * i + j) =
        (setBits x 30 24 (v.setWidth 32)).getLsbD (8 * i + j) := by
      split_ifs
      · rw [getLsbD_setBit _ (by omega), decide_eq_false h31, Bool.false_or]
      · rw [getLsbD_clrBit _ (by omega), decide_eq_false h31, Bool.not_false, Bool.true_and]
    rw [hbit, hfield]
    split_ifs with h3
    · rw [decide_eq_false (by omega), decide_eq_true h3, Bool.false_and, Bool.true_and,
        Bool.false_or]
    · rw [decide_eq_true (by omega), decide_eq_false h3, Bool.true_and, Bool.false_and,
        Bool.or_false]

theorem wordByte_psrFields (ins psr : Word) (hi : i < 4) :
    wordByte (psrFields ins psr v) i = if Selects ins i then v else wordByte psr i := by
  apply BitVec.eq_of_getLsbD_eq
  intro j hj
  have hstep (c : Prop) [Decidable c] {y z : Word} {k : Nat}
      (h : z.getLsbD (8 * i + j) = if i = k then v.getLsbD j else y.getLsbD (8 * i + j)) :
      (if c then z else y).getLsbD (8 * i + j) =
        if c ∧ i = k then v.getLsbD j else y.getLsbD (8 * i + j) := by
    by_cases hc : c
    · simp only [hc, if_true, true_and, h]
    · simp only [hc, if_false, false_and]
  have hbyte : (if Selects ins i then v else wordByte psr i).getLsbD j =
      if getBit ins (16 + i) ≠ 0 then v.getLsbD j else psr.getLsbD (8 * i + j) := by
    by_cases hs : Selects ins i
    · rw [if_pos hs, if_pos (show getBit ins (16 + i) ≠ 0 from hs)]
    · rw [if_neg hs, if_neg (show ¬ getBit ins (16 + i) ≠ 0 from hs), getLsbD_wordByte psr hj]
  rw [getLsbD_wordByte _ hj, hbyte, psrFields, hstep _ (getLsbD_setTopByte _ v hi hj),
    hstep _ (getLsbD_setByte _ v (k := 2) (by omega) hi hj),
    hstep _ (getLsbD_setByte _ v (k := 1) (by omega) hi hj),
    hstep _ (getLsbD_setByte _ v (k := 0) (by omega) hi hj)]
  rcases (show i = 0 ∨ i = 1 ∨ i = 2 ∨ i = 3 by omega) with rfl | rfl | rfl | rfl
  all_goals simp

theorem eq_iff_wordByte {y z : Word} : y = z ↔ ∀ i < 4, wordByte y i = wordByte z i := by
  refine ⟨fun h i _ => h ▸ rfl, fun h => ?_⟩
  rw [← wordOfBytes_wordByte y, ← wordOfBytes_wordByte z, h 0 (by omega), h 1 (by omega),
    h 2 (by omega), h 3 (by omega)]

theorem psrFields_fields_iff (ins psr x : Word) : (∀ i < 4, wordByte (psrFields ins psr v) i =
      if Selects ins i then wordByte x i else wordByte psr i) ↔
    ∀ i < 4, Selects ins i → wordByte x i = v := by
  refine forall₂_congr fun i hi => ?_
  rw [wordByte_psrFields _ _ _ hi]
  split_ifs with h
  · exact ⟨fun hv _ => hv.symm, fun hv => (hv h).symm⟩
  · exact iff_of_true rfl fun hs => absurd hs h

theorem psrFields_eq_iff (ins psr : Word) :
    psrFields ins psr v = psr ↔ ∀ i < 4, Selects ins i → wordByte psr i = v := by
  rw [eq_iff_wordByte, ← psrFields_fields_iff _ ins psr psr]
  simp only [ite_self]

end Bytes

/-! ## The operand -/

/-- The operand of a move to the status, with all its bits. -/
def msrOperand (q : Processor) (ins : Word) : Word :=
  if getBit ins 25 ≠ 0 then (getBits ins 7 0).rotateRight (2 * (getBits ins 11 8).toNat)
  else q.register (rm ins)

section Operand

variable [Host]

theorem ror_zero (x : Word) : ror x 0 = x := by
  have hshr : cShr x (0 : Byte).toNat = x := cShr_zero x
  have hshl : cShl x (32 - (0 : Byte).toNat) = x ∨ cShl x (32 - (0 : Byte).toNat) = 0 :=
    cShl_width x
  rw [ror, hshr]
  rcases hshl with h | h
  · rw [h, BitVec.or_self]
  · rw [h]
    exact BitVec.or_zero

theorem msrByte_eq (q : Processor) (ins : Word) :
    msrByte q.core ins = .ok (wordByte (msrOperand q ins) 0) := by
  have hlow (x : Word) : wordByte x 0 = x.setWidth 8 := by
    rw [wordByte, Nat.mul_zero, BitVec.ushiftRight_zero]
  rw [msrByte, msrOperand, hlow]
  split_ifs with hform
  · have himm : ((getBits ins 7 0).setWidth 8).setWidth 32 = getBits ins 7 0 := by
      have hlt := toNat_getBits_lt ins (h := 7) (l := 0) (by omega)
      bv_omega
    have hrot := toNat_getBits_lt ins (h := 11) (l := 8) (by omega)
    have hcount : ((2 * getBits ins 11 8).setWidth 8 : Byte).toNat =
        2 * (getBits ins 11 8).toNat := by
      bv_omega
    rw [himm]
    by_cases hzero : (getBits ins 11 8).toNat = 0
    · have hbyte : ((2 * getBits ins 11 8).setWidth 8 : Byte) = 0 :=
        BitVec.eq_of_toNat_eq (by rw [hcount, hzero]; rfl)
      rw [hbyte, ror_zero, hzero, Nat.mul_zero, BitVec.rotateRight_def]
      simp
    · rw [ror_eq _ (by omega) (by omega), hcount]
  · have hrm : armReadRegister q.core (getBits ins 3 0).toNat = .ok (q.register (rm ins)) :=
      q.armReadRegister_eq (rm ins)
    rw [hrm]
    rfl

end Operand

/-! ## The register array seen from a mode -/

/-- The registers of a mode, whatever mode the array is in. -/
def seenFrom (r : Registers) (m : Mode) : File where
  cells := inMode r m
  mode := m
  mode_eq := by
    have hlt := m.bits_range.2
    have hbits := Exceptions.toNat_modeBits m
    rw [getMode, inMode, readCpsr_writeCpsr, getBits_setBits _ (by omega) (by omega) (by omega),
      hbits]

theorem seenFrom_cells (r : Registers) (m : Mode) {l : Position} (hl : l ≠ Position.cpsr) :
    (seenFrom r m).cells l = r l :=
  Function.update_of_ne hl _ _

theorem readRegister_inMode (r : Registers) (m : Mode) (reg : Fin 16) :
    readRegister (inMode r m) reg = .ok (r (position m reg)) := by
  have hread := (seenFrom r m).readRegister_eq reg
  rwa [seenFrom_cells _ _ (position_ne_cpsr _ _)] at hread

theorem readSpsr_inMode (r : Registers) {m : Mode} (hm : isException m) :
    readSpsr (inMode r m) = .ok (r 0) := by
  have hread := (seenFrom r m).readSpsr_eq
  have hm' : isException (seenFrom r m).mode := hm
  rwa [if_pos hm', seenFrom_cells _ _ (by decide)] at hread

/-! ## The effect of a move -/

/-- The status or the saved status, as bit 22 selects. -/
def selectedPsr (p : ArmCore) (ins : Word) : Except Stop Word :=
  if getBit ins 22 ≠ 0 then armReadSpsr p else .ok (armReadCpsr p)

/-- The selected bytes of the selected status are those of the operand, and all else stays. -/
structure MovesFields (q : Processor) (ins : Word) (p' : ArmCore) : Prop where
  fields : ∃ old new, selectedPsr q.core ins = .ok old ∧ selectedPsr p' ins = .ok new ∧
    ∀ i < 4, wordByte new i =
      if Selects ins i then wordByte (msrOperand q ins) i else wordByte old i
  general : ∀ (m : Mode) (reg : Fin 16),
    readRegister (inMode p'.reg m) reg = readRegister (inMode q.core.reg m) reg
  status : getBit ins 22 ≠ 0 → armReadCpsr p' = armReadCpsr q.core
  saved : ∀ m, isException m → ¬ (getBit ins 22 ≠ 0 ∧ m = q.file.mode) →
    readSpsr (inMode p'.reg m) = readSpsr (inMode q.core.reg m)
  memory : p'.mem = q.mem
  cycles : p'.cycleCount = q.cycleCount

/-- A word that reads the status into a register. -/
def IsStatusRead (ins : Word) : Prop := getBits ins 21 20 ≠ 0b10 ∧ getBit ins 22 = 0

/-- The status is the same once it was read and moved back. -/
def MovesBack [Host] (q : Processor) (mrs msr : Word) : Prop :=
  ∃ p₁ p₂, armMiscellaneous q.core mrs = .ok (0, p₁) ∧ armMiscellaneous p₁ msr = .ok (0, p₂) ∧
    armReadCpsr p₂ = armReadCpsr q.core

section Effect

variable [Host] {q : Processor} {ins : Word}

theorem armMiscellaneous_status (hmsr : getBits ins 21 20 = 0b10) (hcpsr : getBit ins 22 = 0) :
    armMiscellaneous q.core ins = .ok (0, armWriteCpsr q.core
      (psrFields ins (armReadCpsr q.core) (wordByte (msrOperand q ins) 0))) := by
  rw [armMiscellaneous_msr _ hmsr, msrByte_eq, ok_bind, armMiscellaneous_cpsr _ _ _ hcpsr]
  rfl

theorem armMiscellaneous_saved (hmsr : getBits ins 21 20 = 0b10) (hspsr : getBit ins 22 ≠ 0)
    (hmode : isException q.file.mode) : armMiscellaneous q.core ins = .ok (0, (q.writeSaved
      (psrFields ins (q.file.cells 0) (wordByte (msrOperand q ins) 0))).core) := by
  rw [armMiscellaneous_msr _ hmsr, msrByte_eq, ok_bind, writePsr, decide_eq_true hspsr]
  simp only [if_true, q.armReadSpsr_eq, hmode, ok_bind, q.armWriteSpsr_eq]

omit [Host] in
theorem fields_exists_iff {p' : ArmCore} {psr x : Word} {v : Byte}
    (hold : selectedPsr q.core ins = .ok psr)
    (hnew : selectedPsr p' ins = .ok (psrFields ins psr v)) :
    (∃ old new, selectedPsr q.core ins = .ok old ∧ selectedPsr p' ins = .ok new ∧
      ∀ i < 4, wordByte new i = if Selects ins i then wordByte x i else wordByte old i) ↔
    ∀ i < 4, Selects ins i → wordByte x i = v := by
  rw [← psrFields_fields_iff v ins psr x, hold, hnew]
  constructor
  · rintro ⟨old, new, hpsr, hfields, h⟩
    rw [Except.ok.injEq] at hpsr hfields
    subst hpsr hfields
    exact h
  · exact fun h => ⟨_, _, rfl, rfl, h⟩

omit [Host] in
theorem movesFields_status_iff (hcpsr : getBit ins 22 = 0) (v : Byte) :
    MovesFields q ins (armWriteCpsr q.core (psrFields ins (armReadCpsr q.core) v)) ↔
      ∀ i < 4, Selects ins i → wordByte (msrOperand q ins) i = v := by
  have hold : selectedPsr q.core ins = .ok (armReadCpsr q.core) := if_neg (not_not.mpr hcpsr)
  have hnew : selectedPsr (armWriteCpsr q.core (psrFields ins (armReadCpsr q.core) v)) ins =
      .ok (psrFields ins (armReadCpsr q.core) v) := by
    rw [selectedPsr, if_neg (not_not.mpr hcpsr), armReadCpsr, armWriteCpsr, readCpsr_writeCpsr]
  have hcell {l : Position} (hl : l ≠ Position.cpsr) :
      (armWriteCpsr q.core (psrFields ins (armReadCpsr q.core) v)).reg l = q.core.reg l :=
    Function.update_of_ne hl _ _
  refine ⟨fun h => (fields_exists_iff hold hnew).mp h.fields, fun h => ?_⟩
  refine ⟨(fields_exists_iff hold hnew).mpr h, fun m reg => ?_, fun hspsr => ?_, fun m hm _ => ?_,
    rfl, rfl⟩
  · rw [readRegister_inMode, readRegister_inMode, hcell (position_ne_cpsr m reg)]
  · exact absurd hcpsr hspsr
  · rw [readSpsr_inMode _ hm, readSpsr_inMode _ hm, hcell (by decide)]

omit [Host] in
theorem movesFields_saved_iff (hspsr : getBit ins 22 ≠ 0) (hmode : isException q.file.mode)
    (v : Byte) : MovesFields q ins (q.writeSaved (psrFields ins (q.file.cells 0) v)).core ↔
      ∀ i < 4, Selects ins i → wordByte (msrOperand q ins) i = v ∧
        wordByte (q.file.cells 0) i = v := by
  have hold : selectedPsr q.core ins = .ok (q.file.cells 0) := by
    rw [selectedPsr, if_pos hspsr, q.armReadSpsr_eq, if_pos hmode]
  have hcell (l : Position) : (q.writeSaved (psrFields ins (q.file.cells 0) v)).core.reg l =
      if l = 0 then psrFields ins (q.file.cells 0) v else q.core.reg l :=
    q.writeSaved_cells hmode _ l
  have hnew : selectedPsr (q.writeSaved (psrFields ins (q.file.cells 0) v)).core ins =
      .ok (psrFields ins (q.file.cells 0) v) := by
    have hmode' : isException (q.writeSaved (psrFields ins (q.file.cells 0) v)).file.mode := by
      rwa [Processor.writeSaved_mode]
    rw [selectedPsr, if_pos hspsr, Processor.armReadSpsr_eq, if_pos hmode']
    exact congrArg Except.ok ((hcell 0).trans (if_pos rfl))
  constructor
  · intro h i hi hs
    have hzero := h.general .usr 0
    rw [readRegister_inMode, readRegister_inMode, (position_eq_zero _ _).mpr rfl, hcell,
      if_pos rfl, Except.ok.injEq] at hzero
    exact ⟨(fields_exists_iff hold hnew).mp h.fields i hi hs,
      (psrFields_eq_iff v ins _).mp hzero i hi hs⟩
  · intro h
    have hsame : psrFields ins (q.file.cells 0) v = q.file.cells 0 :=
      (psrFields_eq_iff v ins _).mpr fun i hi hs => (h i hi hs).2
    have hkept (l : Position) :
        (q.writeSaved (psrFields ins (q.file.cells 0) v)).core.reg l = q.core.reg l := by
      rw [hcell, hsame]
      split_ifs with hl
      · rw [hl]
        rfl
      · rfl
    have harray : (q.writeSaved (psrFields ins (q.file.cells 0) v)).core.reg = q.core.reg :=
      funext hkept
    refine ⟨(fields_exists_iff hold hnew).mpr fun i hi hs => (h i hi hs).1, fun m reg => ?_,
      fun _ => ?_, fun m _ _ => ?_, rfl, rfl⟩
    · rw [harray]
    · rw [armReadCpsr, harray]
      rfl
    · rw [harray]

/-- What a register reads back of the status that was written to it. -/
def readBack (reg : Fin 16) (cpsr : Word) : Word := if reg = 15 then readPc cpsr else cpsr

theorem movesBack_iff {mrs : Word} (hmrs : IsStatusRead mrs) (hmsr : getBits ins 21 20 = 0b10)
    (hcpsr : getBit ins 22 = 0) (hform : getBit ins 25 = 0) (hreg : rd mrs = rm ins) :
    MovesBack q mrs ins ↔ ∀ i < 4, Selects ins i → wordByte (readCpsr q.file.cells) i =
      wordByte (readBack (rm ins) (readCpsr q.file.cells)) 0 := by
  let q₁ := q.write (rm ins) (readCpsr q.file.cells)
  have hread : armMiscellaneous q.core mrs = .ok (0, q₁.core) := by
    have hwrite : armWriteRegister q.core (getBits mrs 15 12).toNat (readCpsr q.file.cells) =
        .ok q₁.core := by
      change armWriteRegister q.core (rd mrs).val _ = _
      rw [hreg, q.armWriteRegister_eq]
    unfold armMiscellaneous
    simp only [hmrs.1, hmrs.2, ne_eq, not_true_eq_false, decide_false, Bool.false_eq_true, if_false]
    change (armWriteRegister q.core (getBits mrs 15 12).toNat (readCpsr q.file.cells) >>= _) = _
    rw [hwrite]
    rfl
  have hstatus : armReadCpsr q₁.core = readCpsr q.file.cells :=
    Function.update_of_ne (position_ne_cpsr _ _).symm _ _
  have hoperand : msrOperand q₁ ins = readBack (rm ins) (readCpsr q.file.cells) := by
    rw [msrOperand, if_neg (not_not.mpr hform), readBack, Processor.register_write]
  have hmove := armMiscellaneous_status (q := q₁) hmsr hcpsr
  have hkept : (∀ i < 4, Selects ins i → wordByte (readCpsr q.file.cells) i =
      wordByte (readBack (rm ins) (readCpsr q.file.cells)) 0) ↔
      psrFields ins (armReadCpsr q₁.core) (wordByte (msrOperand q₁ ins) 0) =
        readCpsr q.file.cells := by
    rw [hstatus, hoperand, psrFields_eq_iff]
  rw [hkept, MovesBack, hread]
  constructor
  · rintro ⟨p₁, p₂, h₁, h₂, hcpsr₂⟩
    rw [Except.ok.injEq, Prod.mk.injEq] at h₁
    rw [← h₁.2, hmove, Except.ok.injEq, Prod.mk.injEq] at h₂
    rw [← h₂.2, armReadCpsr, armWriteCpsr, readCpsr_writeCpsr] at hcpsr₂
    exact hcpsr₂
  · intro h
    refine ⟨_, _, rfl, hmove, ?_⟩
    rw [armReadCpsr, armWriteCpsr, readCpsr_writeCpsr]
    exact h

/-- A move to the status is right exactly where every selected byte of the operand is its
lowest one and, in the saved status, already there; the status moves back exactly where
every selected byte of it is the lowest one of what was read. -/
theorem movesFields_iff (q : Processor) (hmsr : getBits ins 21 20 = 0b10)
    (hspsr : getBit ins 22 ≠ 0 → isException q.file.mode) :
    (Returns (armMiscellaneous q.core ins) (fun r => r.1 = 0 ∧ MovesFields q ins r.2) ↔
      ∀ i < 4, Selects ins i → wordByte (msrOperand q ins) i = wordByte (msrOperand q ins) 0 ∧
        (getBit ins 22 ≠ 0 → wordByte (q.file.cells 0) i = wordByte (msrOperand q ins) 0)) ∧
    ∀ mrs, IsStatusRead mrs → getBit ins 22 = 0 → getBit ins 25 = 0 → rd mrs = rm ins →
      (MovesBack q mrs ins ↔ ∀ i < 4, Selects ins i → wordByte (readCpsr q.file.cells) i =
        wordByte (readBack (rm ins) (readCpsr q.file.cells)) 0) := by
  refine ⟨?_, fun mrs hmrs hcpsr hform hreg => movesBack_iff hmrs hmsr hcpsr hform hreg⟩
  by_cases hcpsr : getBit ins 22 = 0
  · rw [armMiscellaneous_status hmsr hcpsr, returns_ok_iff, and_iff_right rfl,
      movesFields_status_iff hcpsr]
    simp only [hcpsr, ne_eq, not_true_eq_false, false_implies, and_true]
  · rw [armMiscellaneous_saved hmsr hcpsr (hspsr hcpsr), returns_ok_iff, and_iff_right rfl,
      movesFields_saved_iff hcpsr (hspsr hcpsr)]
    simp only [hcpsr, ne_eq, not_false_eq_true, true_implies]

end Effect

/-- `msr cpsr_c, r1` with the masks and SYS mode in `r1`, and `mrs r1, cpsr` before it. -/
theorem movesFields_control : Returns
      (@armMiscellaneous Host.x86 (idle.write 1 0xDF).core 0xE121F001)
      (fun r => r.1 = 0 ∧ MovesFields (idle.write 1 0xDF) 0xE121F001 r.2) ∧
    @MovesBack Host.x86 (idle.write 1 0xDF) 0xE10F1000 0xE121F001 := by
  let host := Host.x86
  have hcpsr : getBit (0xE121F001 : Word) 22 = 0 := by decide
  have hselects : ∀ i < 4, Selects 0xE121F001 i → i = 0 := by decide
  have hmsr : getBits (0xE121F001 : Word) 21 20 = 0b10 := by decide
  obtain ⟨hmoves, hback⟩ := movesFields_iff (idle.write 1 0xDF) hmsr fun h => absurd hcpsr h
  refine ⟨hmoves.mpr fun i hi hs => ?_,
    (hback 0xE10F1000 ⟨by decide, by decide⟩ hcpsr (by decide) (by decide)).mpr fun i hi hs => ?_⟩
  · exact ⟨hselects i hi hs ▸ rfl, fun h => absurd hcpsr h⟩
  · rw [hselects i hi hs]
    decide

/-- `msr cpsr_f, r0` clears the flags that `r0` has set. -/
theorem movesFields_flags : ¬ ∀ (_ : Host) (q : Processor) (ins : Word),
    getBits ins 21 20 = 0b10 → q.file.mode ≠ .usr → (getBit ins 22 ≠ 0 → isException q.file.mode) →
      Returns (armMiscellaneous q.core ins) fun r => r.1 = 0 ∧ MovesFields q ins r.2 := by
  intro h
  let host := Host.x86
  have hcpsr : getBit (0xE128F000 : Word) 22 = 0 := by decide
  have hmsr : getBits (0xE128F000 : Word) 21 20 = 0b10 := by decide
  have hmoves := h host (idle.write 0 0xF0000000) 0xE128F000 hmsr (by decide)
    fun hspsr => absurd hcpsr hspsr
  rw [armMiscellaneous_status hmsr hcpsr, returns_ok_iff, and_iff_right rfl,
    movesFields_status_iff hcpsr] at hmoves
  exact absurd (hmoves 3 (by decide) (by decide)) (by decide)

end ArmSimulator.Status
