import ArmSimulator.Foundation.ExceptRun
import ArmSimulator.Storage.Blocks

/-! # Widths and byte orders agree

After a write below the top of the address space, reads of every width see the
parts of the value in the order of the memory, narrower writes in that order
give the same memory, and a memory of the opposite order reads the value
reversed.
-/

namespace ArmSimulator.Storage

open Machine Foundation.ByteBlock Foundation.ExceptRun

def upperHalf (v : Word) : Half := (v >>> 16).setWidth 16

def lowerHalf (v : Word) : Half := v.setWidth 16

/-- The half at the lower of the two addresses. -/
def firstHalf (bigEndian : Bool) (v : Word) : Half := if bigEndian then upperHalf v else lowerHalf v

def secondHalf (bigEndian : Bool) (v : Word) : Half :=
  if bigEndian then lowerHalf v else upperHalf v

def swapEndian (mem : Memory) : Memory := { mem with isBigEndian := !mem.isBigEndian }

/-- `memory_write_byte` on consecutive addresses. -/
def writeBytes (mem : Memory) (a : Word) : List Byte → Except Stop Memory
  | [] => .ok mem
  | b :: bs => do
    let (_, mem) ← memoryWriteByte mem a b
    writeBytes mem (a + 1) bs

/-- `memory_write_half` on the two halves of a word. -/
def writeHalves (mem : Memory) (a : Word) (first second : Half) : Except Stop Memory := do
  let (_, mem) ← memoryWriteHalf mem a first
  let (_, mem) ← memoryWriteHalf mem (a + 2) second
  return mem

/-- The laws of a word written at `a` that turned `mem` into `mem'`. -/
structure WordWritten (mem mem' : Memory) (a v : Word) : Prop where
  readWord : ∀ old, memoryReadWord mem' a old = .ok (0, v)
  readByte : ∀ i < 4, ∀ old, memoryReadByte mem' (a + BitVec.ofNat 32 i) old =
    .ok (0, if mem.isBigEndian then wordByte v (3 - i) else wordByte v i)
  readFirst : ∀ old, memoryReadHalf mem' a old = .ok (0, firstHalf mem.isBigEndian v)
  readSecond : ∀ old, memoryReadHalf mem' (a + 2) old = .ok (0, secondHalf mem.isBigEndian v)
  byBytes : writeBytes mem a (inOrder mem.isBigEndian (wordBytes v)) = .ok mem'
  byHalves : writeHalves mem a (firstHalf mem.isBigEndian v) (secondHalf mem.isBigEndian v) =
    .ok mem'
  opposite : ∀ old, memoryReadWord (swapEndian mem') a old = .ok (0, reverse4 v)
  outside : ∀ i, i < a.toNat ∨ a.toNat + 4 ≤ i → mem'.values[i]? = mem.values[i]?
  size : memoryGetSize mem' = memoryGetSize mem
  isBigEndian : mem'.isBigEndian = mem.isBigEndian

/-- The laws of a half written at `a` that turned `mem` into `mem'`. -/
structure HalfWritten (mem mem' : Memory) (a : Word) (v : Half) : Prop where
  readHalf : ∀ old, memoryReadHalf mem' a old = .ok (0, v)
  readByte : ∀ i < 2, ∀ old, memoryReadByte mem' (a + BitVec.ofNat 32 i) old =
    .ok (0, if mem.isBigEndian then halfByte v (1 - i) else halfByte v i)
  byBytes : writeBytes mem a (inOrder mem.isBigEndian (halfBytes v)) = .ok mem'
  opposite : ∀ old, memoryReadHalf (swapEndian mem') a old = .ok (0, reverse2 v)
  outside : ∀ i, i < a.toNat ∨ a.toNat + 2 ≤ i → mem'.values[i]? = mem.values[i]?
  size : memoryGetSize mem' = memoryGetSize mem
  isBigEndian : mem'.isBigEndian = mem.isBigEndian

/-! ## Splitting a word in halves -/

theorem halfByte_upperHalf (v : Word) {i : Nat} (hi : i < 2) :
    halfByte (upperHalf v) i = wordByte v (i + 2) := by
  apply BitVec.eq_of_getLsbD_eq
  intro j hj
  rw [getLsbD_halfByte _ hj, getLsbD_wordByte _ hj, upperHalf, BitVec.getLsbD_setWidth,
    BitVec.getLsbD_ushiftRight, decide_eq_true (by omega), Bool.true_and]
  congr 1
  omega

theorem halfByte_lowerHalf (v : Word) {i : Nat} (hi : i < 2) :
    halfByte (lowerHalf v) i = wordByte v i := by
  apply BitVec.eq_of_getLsbD_eq
  intro j hj
  rw [getLsbD_halfByte _ hj, getLsbD_wordByte _ hj, lowerHalf, BitVec.getLsbD_setWidth,
    decide_eq_true (by omega), Bool.true_and]

theorem inOrder_wordBytes (bigEndian : Bool) (v : Word) :
    inOrder bigEndian (wordBytes v) = inOrder bigEndian (halfBytes (firstHalf bigEndian v)) ++
      inOrder bigEndian (halfBytes (secondHalf bigEndian v)) := by
  have hu₀ := halfByte_upperHalf v (i := 0) (by decide)
  have hu₁ := halfByte_upperHalf v (i := 1) (by decide)
  have hl₀ := halfByte_lowerHalf v (i := 0) (by decide)
  have hl₁ := halfByte_lowerHalf v (i := 1) (by decide)
  cases bigEndian <;>
    simp [inOrder, wordBytes, halfBytes, firstHalf, secondHalf, hu₀, hu₁, hl₀, hl₁]

theorem holds_halves {xs : Array Byte} {a : Nat} {bigEndian : Bool} {v : Word}
    (h : Holds xs a (inOrder bigEndian (wordBytes v))) :
    Holds xs a (inOrder bigEndian (halfBytes (firstHalf bigEndian v))) ∧
      Holds xs (a + 2) (inOrder bigEndian (halfBytes (secondHalf bigEndian v))) := by
  rw [inOrder_wordBytes] at h
  have hright := h.right
  rw [inOrder_length] at hright
  exact ⟨h.left, hright⟩

theorem getElem?_wordBytes (bigEndian : Bool) (v : Word) {i : Nat} (hi : i < 4) :
    (inOrder bigEndian (wordBytes v))[i]? =
      some (if bigEndian then wordByte v (3 - i) else wordByte v i) := by
  cases bigEndian <;> match i, hi with
  | 0, _ => rfl
  | 1, _ => rfl
  | 2, _ => rfl
  | 3, _ => rfl

theorem getElem?_halfBytes (bigEndian : Bool) (v : Half) {i : Nat} (hi : i < 2) :
    (inOrder bigEndian (halfBytes v))[i]? =
      some (if bigEndian then halfByte v (1 - i) else halfByte v i) := by
  cases bigEndian <;> match i, hi with
  | 0, _ => rfl
  | 1, _ => rfl

/-! ## Reading a block back -/

section Reads

variable {mem : Memory} {a : Word}

theorem readByte_of_holds {bs : List Byte} (h : Holds mem.values a.toNat bs)
    (h32 : a.toNat + bs.length ≤ 2 ^ 32) {i : Nat} {b : Byte} (hb : bs[i]? = some b) (old : Byte) :
    memoryReadByte mem (a + BitVec.ofNat 32 i) old = .ok (0, b) := by
  obtain ⟨hi, rfl⟩ := List.getElem?_eq_some_iff.mp hb
  have hindex : (a + BitVec.ofNat 32 i).toNat = a.toNat + i := by
    rw [BitVec.toNat_add, BitVec.toNat_ofNat, Nat.add_mod_mod, Nat.mod_eq_of_lt (by omega)]
  exact memoryReadByte_eq (hindex ▸ h i hi) old

theorem readHalf_of_holds {v : Half}
    (h : Holds mem.values a.toNat (inOrder mem.isBigEndian (halfBytes v)))
    (h32 : a.toNat + 2 ≤ 2 ^ 32) (old : Half) : memoryReadHalf mem a old = .ok (0, v) := by
  cases hbe : mem.isBigEndian <;> rw [hbe] at h <;>
    rw [memoryReadHalf_eq h h32, hbe] <;> simp [halfOfBytes_halfByte]

theorem readWord_of_holds {v : Word}
    (h : Holds mem.values a.toNat (inOrder mem.isBigEndian (wordBytes v)))
    (h32 : a.toNat + 4 ≤ 2 ^ 32) (old : Word) : memoryReadWord mem a old = .ok (0, v) := by
  cases hbe : mem.isBigEndian <;> rw [hbe] at h <;>
    rw [memoryReadWord_eq h h32, hbe] <;> simp [wordOfBytes_wordByte]

theorem readHalf_swapEndian {v : Half}
    (h : Holds mem.values a.toNat (inOrder mem.isBigEndian (halfBytes v)))
    (h32 : a.toNat + 2 ≤ 2 ^ 32) (old : Half) :
    memoryReadHalf (swapEndian mem) a old = .ok (0, reverse2 v) := by
  cases hbe : mem.isBigEndian <;> rw [hbe] at h <;>
    rw [@memoryReadHalf_eq (swapEndian mem) _ _ _ h h32] <;>
    simp [swapEndian, hbe, halfOfBytes_reverse]

theorem readWord_swapEndian {v : Word}
    (h : Holds mem.values a.toNat (inOrder mem.isBigEndian (wordBytes v)))
    (h32 : a.toNat + 4 ≤ 2 ^ 32) (old : Word) :
    memoryReadWord (swapEndian mem) a old = .ok (0, reverse4 v) := by
  cases hbe : mem.isBigEndian <;> rw [hbe] at h <;>
    rw [@memoryReadWord_eq (swapEndian mem) _ _ _ _ _ h h32] <;>
    simp [swapEndian, hbe, wordOfBytes_reverse]

end Reads

/-! ## Writing in pieces -/

section Writes

variable {mem : Memory} {a : Word}

theorem writeBytes_eq (bs : List Byte) (h : a.toNat + bs.length ≤ mem.values.size)
    (h32 : a.toNat + bs.length ≤ 2 ^ 32) :
    writeBytes mem a bs = .ok { mem with values := writeBlock mem.values a.toNat bs } := by
  induction bs generalizing mem a with
  | nil => rfl
  | cons b bs ih =>
    rw [List.length_cons] at h h32
    rw [writeBytes, memoryWriteByte_eq (by omega), ok_bind]
    cases bs with
    | nil => rfl
    | cons c cs =>
      rw [List.length_cons] at h h32
      have ha : (a + 1).toNat = a.toNat + 1 := by bv_omega
      simp only
      rw [ih (by rw [size_writeBlock, ha, List.length_cons]; omega)
        (by rw [ha, List.length_cons]; omega), ha]
      rfl

theorem writeHalves_eq (first second : Half) (h : a.toNat + 4 ≤ mem.values.size)
    (h32 : a.toNat + 4 ≤ 2 ^ 32) : writeHalves mem a first second = .ok { mem with
      values := writeBlock mem.values a.toNat (inOrder mem.isBigEndian (halfBytes first) ++
        inOrder mem.isBigEndian (halfBytes second)) } := by
  have ha : (a + 2).toNat = a.toNat + 2 := by bv_omega
  rw [writeHalves, memoryWriteHalf_eq (by omega) (by omega), ok_bind]
  simp only
  rw [memoryWriteHalf_eq (by rw [size_writeBlock, ha]; omega) (by rw [ha]; omega), ok_bind,
    writeBlock_append, inOrder_length, ha]
  rfl

end Writes

/-! ## Coherence -/

section Coherence

variable {mem : Memory} {a : Word}

theorem memoryWriteWord_written (h : a.toNat + 4 ≤ mem.values.size) (h32 : a.toNat + 4 ≤ 2 ^ 32)
    (v : Word) : ∃ mem', memoryWriteWord mem a v = .ok (0, mem') ∧ WordWritten mem mem' a v := by
  refine ⟨_, memoryWriteWord_eq h h32 v, ?_⟩
  have hlen : (inOrder mem.isBigEndian (wordBytes v)).length = 4 := inOrder_length _ _
  have hword := holds_writeBlock mem.values a.toNat (inOrder mem.isBigEndian (wordBytes v))
    (by omega)
  obtain ⟨hfirst, hsecond⟩ := holds_halves hword
  have ha : (a + 2).toNat = a.toNat + 2 := by bv_omega
  constructor
  case readWord => exact readWord_of_holds hword h32
  case readByte =>
    intro i hi old
    exact readByte_of_holds hword (by omega) (getElem?_wordBytes _ v hi) old
  case readFirst => exact readHalf_of_holds hfirst (by omega)
  case readSecond => exact readHalf_of_holds (ha ▸ hsecond) (by omega)
  case byBytes => exact writeBytes_eq _ (by omega) (by omega)
  case byHalves => rw [writeHalves_eq _ _ h h32, inOrder_wordBytes]
  case opposite => exact readWord_swapEndian hword h32
  case outside =>
    intro i hi
    exact getElem?_writeBlock_outside _ _ _ (by omega)
  case size => exact size_writeBlock _ _ _
  case isBigEndian => rfl

theorem memoryWriteHalf_written (h : a.toNat + 2 ≤ mem.values.size) (h32 : a.toNat + 2 ≤ 2 ^ 32)
    (v : Half) : ∃ mem', memoryWriteHalf mem a v = .ok (0, mem') ∧ HalfWritten mem mem' a v := by
  refine ⟨_, memoryWriteHalf_eq h h32 v, ?_⟩
  have hlen : (inOrder mem.isBigEndian (halfBytes v)).length = 2 := inOrder_length _ _
  have hhalf := holds_writeBlock mem.values a.toNat (inOrder mem.isBigEndian (halfBytes v))
    (by omega)
  constructor
  case readHalf => exact readHalf_of_holds hhalf h32
  case readByte =>
    intro i hi old
    exact readByte_of_holds hhalf (by omega) (getElem?_halfBytes _ v hi) old
  case byBytes => exact writeBytes_eq _ (by omega) (by omega)
  case opposite => exact readHalf_swapEndian hhalf h32
  case outside =>
    intro i hi
    exact getElem?_writeBlock_outside _ _ _ (by omega)
  case size => exact size_writeBlock _ _ _
  case isBigEndian => rfl

/-- Words and halves written in a memory that fits the address space are read, split and
assembled in one order. -/
theorem memory_coherent (mem : Memory) (a : Word) (hsize : mem.values.size ≤ 2 ^ 32) :
    (a.toNat + 4 ≤ mem.values.size → ∀ v, ∃ mem', memoryWriteWord mem a v = .ok (0, mem') ∧
      WordWritten mem mem' a v) ∧
    (a.toNat + 2 ≤ mem.values.size → ∀ v, ∃ mem', memoryWriteHalf mem a v = .ok (0, mem') ∧
      HalfWritten mem mem' a v) :=
  ⟨fun h => memoryWriteWord_written h (by omega), fun h => memoryWriteHalf_written h (by omega)⟩

/-- The last word and the last half of a big-endian memory of six bytes. -/
theorem memory_coherent_last :
    (∃ mem', memoryWriteWord ⟨#[0, 0, 0, 0, 0, 0], true⟩ 2 0x12345678 = .ok (0, mem') ∧
      WordWritten ⟨#[0, 0, 0, 0, 0, 0], true⟩ mem' 2 0x12345678) ∧
    (∃ mem', memoryWriteHalf ⟨#[0, 0, 0, 0, 0, 0], true⟩ 4 0x1234 = .ok (0, mem') ∧
      HalfWritten ⟨#[0, 0, 0, 0, 0, 0], true⟩ mem' 4 0x1234) :=
  ⟨(memory_coherent ⟨#[0, 0, 0, 0, 0, 0], true⟩ 2 (by decide)).1 (by decide) _,
    (memory_coherent ⟨#[0, 0, 0, 0, 0, 0], true⟩ 4 (by decide)).2 (by decide) _⟩

end Coherence

end ArmSimulator.Storage
