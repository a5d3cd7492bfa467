import ArmSimulator.Storage.Coherence

/-! # Consecutive words

A memory seen as words at the addresses of their first bytes. Writing a word
after the others extends a stored block, and each word of a block reads back.
-/

namespace ArmSimulator.Storage

open Machine Foundation.ByteBlock

/-- The word at an address, in the byte order of the memory; bytes past its end count as 0. -/
def wordAt (mem : Memory) (a : Nat) : Word :=
  let byte (i : Nat) : Byte := mem.values[a + i]?.getD 0
  if mem.isBigEndian then wordOfBytes (byte 0) (byte 1) (byte 2) (byte 3)
  else wordOfBytes (byte 3) (byte 2) (byte 1) (byte 0)

/-- The bytes of consecutive words. -/
def blockBytes (bigEndian : Bool) (ws : List Word) : List Byte :=
  ws.flatMap fun w => inOrder bigEndian (wordBytes w)

def storeWords (mem : Memory) (a : Nat) (ws : List Word) : Memory :=
  { mem with values := writeBlock mem.values a (blockBytes mem.isBigEndian ws) }

section Words

variable {mem : Memory} {a : Nat}

theorem length_blockBytes (bigEndian : Bool) (ws : List Word) :
    (blockBytes bigEndian ws).length = 4 * ws.length := by
  induction ws with
  | nil => rfl
  | cons w ws ih =>
    rw [blockBytes, List.flatMap_cons, List.length_append, inOrder_length, List.length_cons]
    change 4 + (blockBytes bigEndian ws).length = _
    omega

theorem size_storeWords (ws : List Word) :
    (storeWords mem a ws).values.size = mem.values.size :=
  size_writeBlock _ _ _

theorem getElem?_storeWords (ws : List Word) {i : Nat} (hi : i < a ∨ a + 4 * ws.length ≤ i) :
    (storeWords mem a ws).values[i]? = mem.values[i]? :=
  getElem?_writeBlock_outside _ _ _ (by rwa [length_blockBytes])

theorem storeWords_nil : storeWords mem a [] = mem := rfl

theorem storeWords_cons (w : Word) (ws : List Word) :
    storeWords mem a (w :: ws) = storeWords (storeWords mem a [w]) (a + 4) ws := by
  have hone : blockBytes mem.isBigEndian [w] = inOrder mem.isBigEndian (wordBytes w) :=
    List.append_nil _
  have hlen : (inOrder mem.isBigEndian (wordBytes w)).length = 4 := inOrder_length _ _
  have hsplit := writeBlock_append mem.values a (inOrder mem.isBigEndian (wordBytes w))
    (blockBytes mem.isBigEndian ws)
  rw [hlen] at hsplit
  rw [storeWords, storeWords, storeWords, hone]
  exact congrArg (fun values => { mem with values }) hsplit

theorem toNat_address (h : a < 2 ^ 32) : (BitVec.ofNat 32 a).toNat = a := by
  rw [BitVec.toNat_ofNat, Nat.mod_eq_of_lt h]

theorem memoryReadWord_wordAt (h : a + 4 ≤ mem.values.size) (h32 : a + 4 ≤ 2 ^ 32) (old : Word) :
    memoryReadWord mem (BitVec.ofNat 32 a) old = .ok (0, wordAt mem a) := by
  have ha := toNat_address (show a < 2 ^ 32 by omega)
  have hbyte (i : Nat) (hi : i < 4) : mem.values[a + i]? = some (mem.values[a + i]?.getD 0) := by
    rw [Array.getElem?_eq_getElem (by omega)]
    rfl
  rw [memoryReadWord_eq (b := mem.values[a + 0]?.getD 0) (c := mem.values[a + 1]?.getD 0)
    (d := mem.values[a + 2]?.getD 0) (e := mem.values[a + 3]?.getD 0) _ (by omega)]
  · rfl
  · rw [ha]
    intro k hk
    rcases k with _ | _ | _ | _ | k
    · exact hbyte 0 (by omega)
    · exact hbyte 1 (by omega)
    · exact hbyte 2 (by omega)
    · exact hbyte 3 (by omega)
    · exact absurd hk (by simp)

theorem memoryWriteWord_storeWords (h : a + 4 ≤ mem.values.size) (h32 : a + 4 ≤ 2 ^ 32)
    (w : Word) :
    memoryWriteWord mem (BitVec.ofNat 32 a) w = .ok (0, storeWords mem a [w]) := by
  have ha := toNat_address (show a < 2 ^ 32 by omega)
  have hone : blockBytes mem.isBigEndian [w] = inOrder mem.isBigEndian (wordBytes w) :=
    List.append_nil _
  rw [memoryWriteWord_eq (by omega) (by omega), ha, storeWords, hone]

theorem memoryReadWord_toNat {b : Word} (h : b.toNat + 4 ≤ mem.values.size)
    (h32 : b.toNat + 4 ≤ 2 ^ 32) (old : Word) :
    memoryReadWord mem b old = .ok (0, wordAt mem b.toNat) := by
  have hread := memoryReadWord_wordAt h h32 old
  rwa [BitVec.ofNat_toNat, BitVec.setWidth_eq] at hread

theorem memoryWriteWord_toNat {b : Word} (h : b.toNat + 4 ≤ mem.values.size)
    (h32 : b.toNat + 4 ≤ 2 ^ 32) (w : Word) :
    memoryWriteWord mem b w = .ok (0, storeWords mem b.toNat [w]) := by
  have hwrite := memoryWriteWord_storeWords h h32 w
  rwa [BitVec.ofNat_toNat, BitVec.setWidth_eq] at hwrite

theorem wordAt_congr {mem' : Memory} (horder : mem'.isBigEndian = mem.isBigEndian)
    (h : ∀ i < 4, mem'.values[a + i]? = mem.values[a + i]?) :
    wordAt mem' a = wordAt mem a := by
  simp only [wordAt, horder, h 0 (by omega), h 1 (by omega), h 2 (by omega), h 3 (by omega)]

theorem wordAt_of_holds {w : Word}
    (h : Holds mem.values a (inOrder mem.isBigEndian (wordBytes w))) : wordAt mem a = w := by
  have hlen : (inOrder mem.isBigEndian (wordBytes w)).length = 4 := inOrder_length _ _
  have hbyte (i : Nat) (hi : i < 4) : mem.values[a + i]?.getD 0 =
      if mem.isBigEndian then wordByte w (3 - i) else wordByte w i := by
    have hcell := h i (by omega)
    rw [← List.getElem?_eq_getElem, getElem?_wordBytes _ w hi] at hcell
    rw [hcell]
    rfl
  have hget := wordOfBytes_wordByte w
  rw [wordAt]
  simp only [hbyte 0 (by omega), hbyte 1 (by omega), hbyte 2 (by omega), hbyte 3 (by omega)]
  cases mem.isBigEndian <;> exact hget

theorem wordAt_storeWords (ws : List Word) (h : a + 4 * ws.length ≤ mem.values.size) {i : Nat}
    (hi : i < ws.length) : wordAt (storeWords mem a ws) (a + 4 * i) = ws[i] := by
  induction ws generalizing mem a i with
  | nil => simp at hi
  | cons w ws ih =>
    rw [List.length_cons] at h hi
    rw [storeWords_cons]
    cases i with
    | zero =>
      have hlen : (inOrder mem.isBigEndian (wordBytes w)).length = 4 := inOrder_length _ _
      have hholds : Holds (storeWords mem a [w]).values a
          (inOrder mem.isBigEndian (wordBytes w)) := by
        rw [storeWords, blockBytes, List.flatMap_singleton]
        exact holds_writeBlock _ _ _ (by omega)
      have hafter (j : Nat) (hj : j < 4) :
          (storeWords (storeWords mem a [w]) (a + 4) ws).values[a + j]? =
            (storeWords mem a [w]).values[a + j]? :=
        getElem?_storeWords ws (by omega)
      have hkeep : wordAt (storeWords (storeWords mem a [w]) (a + 4) ws) a =
          wordAt (storeWords mem a [w]) a := wordAt_congr rfl hafter
      change wordAt (storeWords (storeWords mem a [w]) (a + 4) ws) a = w
      rw [hkeep]
      exact wordAt_of_holds hholds
    | succ i =>
      rw [show a + 4 * (i + 1) = a + 4 + 4 * i by omega,
        ih (by rw [size_storeWords]; omega) (by omega)]
      rfl

end Words

end ArmSimulator.Storage
