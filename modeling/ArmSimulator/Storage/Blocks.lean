import ArmSimulator.Foundation.ByteBlock
import ArmSimulator.Machine.Memory
import ArmSimulator.Machine.Util

/-! # Memory accesses as byte blocks

Below the top of the address space each write stores one block, most significant
byte first in a big-endian memory and reversed in a little-endian one, and each
read joins the bytes of the block it finds.
-/

namespace ArmSimulator.Storage

open Machine Foundation.ByteBlock

/-- Byte `i` of a word, counted from the least significant. -/
def wordByte (v : Word) (i : Nat) : Byte := (v >>> (8 * i)).setWidth 8

def halfByte (v : Half) (i : Nat) : Byte := (v >>> (8 * i)).setWidth 8

/-- The bytes of a value from its lowest address up, given most significant first. -/
def inOrder (bigEndian : Bool) (bs : List Byte) : List Byte :=
  if bigEndian then bs else bs.reverse

def wordBytes (v : Word) : List Byte := [wordByte v 3, wordByte v 2, wordByte v 1, wordByte v 0]

def halfBytes (v : Half) : List Byte := [halfByte v 1, halfByte v 0]

@[simp] theorem inOrder_length (bigEndian : Bool) (bs : List Byte) :
    (inOrder bigEndian bs).length = bs.length := by
  cases bigEndian <;> simp [inOrder]

section Cells

variable {mem : Memory} {a : Word}

theorem load_eq {b : Byte} (h : mem.values[a.toNat]? = some b) : mem.load a = .ok b := by
  simp [Memory.load, h]

theorem load_of_lt (h : a.toNat < mem.values.size) : ∃ b, mem.load a = .ok b :=
  ⟨mem.values[a.toNat], load_eq (Array.getElem?_eq_getElem h)⟩

theorem store_eq (h : a.toNat < mem.values.size) (b : Byte) :
    mem.store a b = .ok { mem with values := mem.values.setIfInBounds a.toNat b } := by
  simp [Memory.store, h]

end Cells

/-! ## Joining and splitting -/

theorem getLsbD_wordOfBytes (b₃ b₂ b₁ b₀ : Byte) {i : Nat} (hi : i < 32) :
    (wordOfBytes b₃ b₂ b₁ b₀).getLsbD i =
      if i < 8 then b₀.getLsbD i else if i < 16 then b₁.getLsbD (i - 8)
      else if i < 24 then b₂.getLsbD (i - 16) else b₃.getLsbD (i - 24) := by
  have hb (b : Byte) {k : Nat} (h : 8 ≤ k) : b.getLsbD k = false := BitVec.getLsbD_of_ge b k h
  simp only [wordOfBytes, BitVec.getLsbD_or, BitVec.getLsbD_shiftLeft, BitVec.getLsbD_setWidth]
  split_ifs with h₀ h₁ h₂
  · simp [h₀, hi, show i < 16 by omega, show i < 24 by omega]
  · simp [h₀, h₁, hi, hb b₀ (k := i) (by omega), show i < 24 by omega, show i - 8 < 32 by omega]
  · simp [h₀, h₁, h₂, hi, hb b₀ (k := i) (by omega), hb b₁ (k := i - 8) (by omega),
      show i - 16 < 32 by omega]
  · simp [h₀, h₁, h₂, hi, hb b₀ (k := i) (by omega), hb b₁ (k := i - 8) (by omega),
      hb b₂ (k := i - 16) (by omega), show i - 24 < 32 by omega]

theorem getLsbD_halfOfBytes (b₁ b₀ : Byte) {i : Nat} (hi : i < 16) :
    (halfOfBytes b₁ b₀).getLsbD i = if i < 8 then b₀.getLsbD i else b₁.getLsbD (i - 8) := by
  simp only [halfOfBytes, BitVec.getLsbD_or, BitVec.getLsbD_shiftLeft, BitVec.getLsbD_setWidth]
  split_ifs with h
  · simp [h, hi]
  · simp [h, hi, BitVec.getLsbD_of_ge b₀ i (by omega), show i - 8 < 16 by omega]

theorem getLsbD_wordByte (v : Word) {k j : Nat} (hj : j < 8) :
    (wordByte v k).getLsbD j = v.getLsbD (8 * k + j) := by
  simp [wordByte, hj]

theorem getLsbD_halfByte (v : Half) {k j : Nat} (hj : j < 8) :
    (halfByte v k).getLsbD j = v.getLsbD (8 * k + j) := by
  simp [halfByte, hj]

theorem wordOfBytes_wordByte (v : Word) :
    wordOfBytes (wordByte v 3) (wordByte v 2) (wordByte v 1) (wordByte v 0) = v := by
  apply BitVec.eq_of_getLsbD_eq
  intro i hi
  rw [getLsbD_wordOfBytes _ _ _ _ hi]
  split_ifs <;> rw [getLsbD_wordByte v (by omega)] <;> congr 1 <;> omega

theorem halfOfBytes_halfByte (v : Half) : halfOfBytes (halfByte v 1) (halfByte v 0) = v := by
  apply BitVec.eq_of_getLsbD_eq
  intro i hi
  rw [getLsbD_halfOfBytes _ _ hi]
  split_ifs <;> rw [getLsbD_halfByte v (by omega)] <;> congr 1 <;> omega

theorem and_lowByte {w : Nat} (hw : 8 ≤ w) (x : BitVec w) :
    x &&& BitVec.ofNat w 0xFF = (x.setWidth 8).setWidth w := by
  have hpow : 2 ^ 8 ≤ 2 ^ w := Nat.pow_le_pow_right (by omega) hw
  have hmod : x.toNat % 2 ^ 8 < 2 ^ 8 := Nat.mod_lt _ (by omega)
  apply BitVec.eq_of_toNat_eq
  rw [BitVec.toNat_and, BitVec.toNat_ofNat, BitVec.toNat_setWidth, BitVec.toNat_setWidth,
    Nat.mod_eq_of_lt (by omega), Nat.mod_eq_of_lt (by omega)]
  exact Nat.and_two_pow_sub_one_eq_mod x.toNat 8

theorem wordOfBytes_reverse (v : Word) :
    wordOfBytes (wordByte v 0) (wordByte v 1) (wordByte v 2) (wordByte v 3) = reverse4 v := by
  have hmask (x : Word) : x &&& 0xFF = (x.setWidth 8).setWidth 32 := and_lowByte (by omega) x
  simp only [reverse4, hmask, wordOfBytes, wordByte, Nat.mul_zero, BitVec.ushiftRight_zero]

theorem halfOfBytes_reverse (v : Half) :
    halfOfBytes (halfByte v 0) (halfByte v 1) = reverse2 v := by
  have hmask (x : Half) : x &&& 0xFF = (x.setWidth 8).setWidth 16 := and_lowByte (by omega) x
  simp only [reverse2, hmask, halfOfBytes, halfByte, Nat.mul_zero, BitVec.ushiftRight_zero]

/-! ## The accessors below the top of the address space -/

section Accessors

variable {mem : Memory} {a : Word}

theorem not_rejected {last : Word} (h : last.toNat < mem.values.size) :
    ¬ (a < 0 ∨ memoryGetSize mem ≤ last.toNat) := by
  rintro (h₀ | h')
  · exact absurd h₀ (by simp)
  · exact absurd h (Nat.not_lt.mpr h')

theorem memoryReadByte_eq {b : Byte} (h : mem.values[a.toNat]? = some b) (v : Byte) :
    memoryReadByte mem a v = .ok (0, b) := by
  rw [memoryReadByte, if_neg (not_rejected (Array.getElem?_eq_some_iff.mp h).1), load_eq h]
  rfl

theorem memoryReadByte_past (h : mem.values.size ≤ a.toNat) (v : Byte) :
    memoryReadByte mem a v = .ok (-1, v) := if_pos (Or.inr h)

theorem memoryWriteByte_past (h : mem.values.size ≤ a.toNat) (v : Byte) :
    memoryWriteByte mem a v = .ok (-1, mem) := if_pos (Or.inr h)

theorem memoryReadHalf_eq {b c : Byte} (h : Holds mem.values a.toNat [b, c])
    (h32 : a.toNat + 2 ≤ 2 ^ 32) (v : Half) :
    memoryReadHalf mem a v =
      .ok (0, if mem.isBigEndian then halfOfBytes b c else halfOfBytes c b) := by
  have h₁ : (a + 1).toNat = a.toNat + 1 := by bv_omega
  have hb : mem.values[a.toNat]? = some b := h 0 (by simp)
  have hc : mem.values[(a + 1).toNat]? = some c := h₁ ▸ h 1 (by simp)
  rw [memoryReadHalf, if_neg (not_rejected (Array.getElem?_eq_some_iff.mp hc).1), load_eq hb,
    load_eq hc]
  cases mem.isBigEndian <;> rfl

theorem memoryReadWord_eq {b c d e : Byte} (h : Holds mem.values a.toNat [b, c, d, e])
    (h32 : a.toNat + 4 ≤ 2 ^ 32) (v : Word) :
    memoryReadWord mem a v =
      .ok (0, if mem.isBigEndian then wordOfBytes b c d e else wordOfBytes e d c b) := by
  have h₁ : (a + 1).toNat = a.toNat + 1 := by bv_omega
  have h₂ : (a + 2).toNat = a.toNat + 2 := by bv_omega
  have h₃ : (a + 3).toNat = a.toNat + 3 := by bv_omega
  have hb : mem.values[a.toNat]? = some b := h 0 (by simp)
  have hc : mem.values[(a + 1).toNat]? = some c := h₁ ▸ h 1 (by simp)
  have hd : mem.values[(a + 2).toNat]? = some d := h₂ ▸ h 2 (by simp)
  have he : mem.values[(a + 3).toNat]? = some e := h₃ ▸ h 3 (by simp)
  rw [memoryReadWord, if_neg (not_rejected (Array.getElem?_eq_some_iff.mp he).1), load_eq hb,
    load_eq hc, load_eq hd, load_eq he]
  cases mem.isBigEndian <;> rfl

theorem memoryWriteByte_eq (h : a.toNat < mem.values.size) (v : Byte) :
    memoryWriteByte mem a v =
      .ok (0, { mem with values := writeBlock mem.values a.toNat [v] }) := by
  rw [memoryWriteByte, if_neg (not_rejected h), store_eq h]
  rfl

theorem store_below {m : Memory} {b : Word} (last : Word) (hm : m.values.size = mem.values.size)
    (hb : b.toNat ≤ last.toNat) (hlast : last.toNat < mem.values.size) (x : Byte) :
    m.store b x = .ok { m with values := m.values.setIfInBounds b.toNat x } :=
  store_eq (by omega) x

theorem memoryWriteHalf_eq (h : a.toNat + 2 ≤ mem.values.size) (h32 : a.toNat + 2 ≤ 2 ^ 32)
    (v : Half) : memoryWriteHalf mem a v = .ok (0, { mem with
      values := writeBlock mem.values a.toNat (inOrder mem.isBigEndian (halfBytes v)) }) := by
  have h₁ : (a + 1).toNat = a.toNat + 1 := by bv_omega
  have hlast : (a + 1).toNat < mem.values.size := by omega
  rw [memoryWriteHalf, if_neg (not_rejected hlast)]
  cases hbe : mem.isBigEndian <;>
    simp only [Bool.false_eq_true, if_false, if_true, bind, Except.bind,
      store_below (a + 1) _ _ hlast, Array.size_setIfInBounds, h₁, Nat.le_refl,
      Nat.le_add_right, hbe] <;> rfl

theorem memoryWriteWord_eq (h : a.toNat + 4 ≤ mem.values.size) (h32 : a.toNat + 4 ≤ 2 ^ 32)
    (v : Word) : memoryWriteWord mem a v = .ok (0, { mem with
      values := writeBlock mem.values a.toNat (inOrder mem.isBigEndian (wordBytes v)) }) := by
  have h₁ : (a + 1).toNat = a.toNat + 1 := by bv_omega
  have h₂ : (a + 2).toNat = a.toNat + 2 := by bv_omega
  have h₃ : (a + 3).toNat = a.toNat + 3 := by bv_omega
  have hlast : (a + 3).toNat < mem.values.size := by omega
  rw [memoryWriteWord, if_neg (not_rejected hlast)]
  cases hbe : mem.isBigEndian
  -- the little-endian branch stores the highest address first
  · rw [← writeBlockDown_eq]
    simp only [Bool.false_eq_true, if_false, bind, Except.bind,
      store_below (a + 3) _ _ hlast, Array.size_setIfInBounds, h₁, h₂, h₃, Nat.le_refl,
      Nat.add_le_add_iff_left, Nat.le_add_right, Nat.reduceLeDiff, hbe]
    rfl
  · simp only [if_true, bind, Except.bind, store_below (a + 3) _ _ hlast,
      Array.size_setIfInBounds, h₁, h₂, h₃, Nat.le_refl, Nat.add_le_add_iff_left,
      Nat.le_add_right, Nat.reduceLeDiff, hbe]
    rfl

end Accessors

end ArmSimulator.Storage
