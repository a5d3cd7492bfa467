import ArmSimulator.Debugger.MemoryAccess
import ArmSimulator.Debugger.RegisterBlock
import ArmSimulator.Storage.Everywhere

/-! # Registers and memory in one byte order

The text of a word gives its bytes in the order the build chooses for the memory,
whatever the order of the machine below. So eight digits stand for the same word in
a register and in the four cells that the word is stored in.
-/

namespace ArmSimulator.Debugger

open Machine Machine.Gdb Storage Foundation.ExceptRun Foundation.Numeral

/-! ## Digits -/

/-- A hexadecimal digit as `%02x` prints it. -/
def IsLowerHex (c : Byte) : Prop := char '0' ≤ c ∧ c ≤ char '9' ∨ char 'a' ≤ c ∧ c ≤ char 'f'

instance (c : Byte) : Decidable (IsLowerHex c) := inferInstanceAs (Decidable (_ ∨ _))

theorem hexChar_of_isLowerHex : ∀ c : Byte, IsLowerHex c → ∃ d < 16, hexChar d = c := by
  decide

theorem sprintf02x_digits : ∀ d < 16, ∀ e < 16,
    sprintf02x (BitVec.ofNat 8 (16 * d + e)) = [hexChar d, hexChar e] := by
  decide

theorem exists_sprintf02x {c d : Byte} (hc : IsLowerHex c) (hd : IsLowerHex d) :
    ∃ b, sprintf02x b = [c, d] := by
  obtain ⟨i, hi, rfl⟩ := hexChar_of_isLowerHex c hc
  obtain ⟨j, hj, rfl⟩ := hexChar_of_isLowerHex d hd
  exact ⟨_, sprintf02x_digits i hi j hj⟩

theorem exists_bytes : ∀ {n : ℕ} {s : List Byte}, s.length = 2 * n → (∀ c ∈ s, IsLowerHex c) →
    ∃ bs : List Byte, bs.length = n ∧ bs.flatMap sprintf02x = s
  | 0, s, hlen, _ => ⟨[], rfl, (List.eq_nil_of_length_eq_zero hlen).symm⟩
  | n + 1, [], hlen, _ => by simp at hlen
  | n + 1, [c], hlen, _ => by simp at hlen; omega
  | n + 1, c :: d :: s, hlen, hs => by
    obtain ⟨b, hb⟩ := exists_sprintf02x (hs c (by simp)) (hs d (by simp))
    obtain ⟨bs, hbs, rfl⟩ := exists_bytes (n := n) (s := s)
      (by rw [List.length_cons, List.length_cons] at hlen; omega)
      fun e he => hs e (by simp [he])
    exact ⟨b :: bs, by rw [List.length_cons, hbs], by rw [List.flatMap_cons, hb]; rfl⟩

/-! ## Bytes of a word -/

section Words

variable [ByteOrder]

/-- The bytes of a word in the order of its text and of the memory. -/
def shownBytes (v : Word) : List Byte := inOrder ByteOrder.bigEndianSimulator (wordBytes v)

/-- The byte order of the machine below makes no difference. -/
theorem map_integerByte (v : Word) : byteIndices.map (integerByte v) = shownBytes v := by
  have hup : indices 1 5 0 = [0, 1, 2, 3] := by decide
  have hdown : indices (-1) 5 3 = [3, 2, 1, 0] := by decide
  unfold byteIndices integerByte shownBytes inOrder
  rw [hup, hdown]
  cases ByteOrder.isBigEndian <;> cases ByteOrder.bigEndianSimulator <;> rfl

theorem wordText_eq (v : Word) : wordText v = (shownBytes v).flatMap sprintf02x := by
  rw [wordText, ← map_integerByte, List.flatMap_map]

theorem exists_shownBytes {bs : List Byte} (h : bs.length = 4) : ∃ v, shownBytes v = bs := by
  obtain ⟨b₃, b₂, b₁, b₀, rfl⟩ := List.length_eq_four.mp h
  unfold shownBytes inOrder
  split
  · exact ⟨wordOfBytes b₃ b₂ b₁ b₀, wordBytes_wordOfBytes b₃ b₂ b₁ b₀⟩
  · refine ⟨wordOfBytes b₀ b₁ b₂ b₃, ?_⟩
    rw [wordBytes_wordOfBytes]
    rfl

theorem exists_wordText {s : List Byte} (hlen : s.length = 8) (hs : ∀ c ∈ s, IsLowerHex c) :
    ∃ v, wordText v = s := by
  obtain ⟨bs, hbs, rfl⟩ := exists_bytes (n := 4) hlen hs
  obtain ⟨v, rfl⟩ := exists_shownBytes hbs
  exact ⟨v, wordText_eq v⟩

/-- Wherever `write_uint32` stores the word in the buffer, it stores these characters. -/
def Writes (v : Word) (s : List Byte) : Prop :=
  ∀ (packet : Packet) (position : ℕ), buffer ≤ position → position + 8 < maxPacketSize →
    ∃ packet', writeUint32 packet position v = .ok packet' ∧
      (packet'.cells.drop position).take 9 = s ++ [0]

theorem writes_wordText (v : Word) : Writes v (wordText v) := by
  intro packet position hbuffer hroom
  have hbuffer : 1 ≤ position := hbuffer
  obtain ⟨c, post, hcells⟩ := prefixed_nil packet
  have hsize := packet.size_eq
  rw [hcells, List.nil_append, List.length_cons] at hsize
  have hbefore : (post.take (position - 1)).length = position - 1 :=
    List.length_take_of_le (by omega)
  have hprefixed : Prefixed packet (post.take (position - 1)) :=
    ⟨c, post.drop (position - 1), by rw [hcells, List.take_append_drop]; rfl⟩
  obtain ⟨packet', hwrite, d, post', hholds⟩ := writeUint32_holds v hprefixed (by omega)
  have hposition : (d :: post.take (position - 1)).length = position := by
    rw [List.length_cons]
    omega
  rw [Nat.add_comm, ← List.length_cons (a := d), hposition] at hwrite
  refine ⟨packet', hwrite, ?_⟩
  rw [hholds, List.append_assoc, ← List.cons_append, List.drop_left' hposition, List.append_cons]
  exact List.take_left' (by rw [List.length_append, length_wordText]; rfl)

end Words

/-! ## Cells of the memory -/

/-- A block that is stored is read back, around the end of the addresses too. -/
theorem bytesRead_of_stored {mem : Memory} {bs : List Byte} {a : Word} (h : Stored mem a bs) :
    bytesRead mem bs.length a = bs := by
  induction bs generalizing a with
  | nil => rfl
  | cons b bs ih =>
    have hfirst : mem.values[a.toNat]? = some b := by
      simpa using h 0 (Nat.zero_lt_succ _)
    have hrest : Stored mem (a + 1) bs := by
      intro k hk
      have haddress : a + 1 + BitVec.ofNat 32 k = a + BitVec.ofNat 32 (k + 1) := by
        rw [BitVec.ofNat_add, BitVec.add_assoc, BitVec.add_comm (1 : Word)]
        rfl
      rw [haddress]
      exact h (k + 1) (Nat.succ_lt_succ hk)
    obtain ⟨hlt, rfl⟩ := Array.getElem?_eq_some_iff.mp hfirst
    rw [List.length_cons, bytesRead, dif_pos hlt, ih hrest]

theorem armWriteWord_stored {p : ArmCore} {a : Word}
    (h : a.toNat + 4 ≤ memoryGetSize p.mem) (v : Word) :
    ∃ p', armWriteWord p a v = .ok (0, p') ∧
      Stored p'.mem a (inOrder p.mem.isBigEndian (wordBytes v)) := by
  have hcells : a.toNat < p.mem.values.size ∧ (a + 1).toNat < p.mem.values.size ∧
      (a + 2).toNat < p.mem.values.size ∧ (a + 3).toNat < p.mem.values.size := by
    change a.toNat + 4 ≤ p.mem.values.size at h
    bv_omega
  have hadmitted : Admitted p.mem .word a := hcells.2.2.2
  have hreturns := (memoryWrite_returns_iff (n := .word) v (Q := fun _ => True)
    fun _ _ => trivial).mpr ((faults_word hadmitted).mp hcells)
  obtain ⟨⟨r, m⟩, hwrite, hanswers, -⟩ := hreturns
  obtain rfl : r = 0 := hanswers.zero hadmitted
  refine ⟨{ p with mem := m }, ?_, memoryWrite_stored hwrite⟩
  have hwrite : memoryWriteWord p.mem a v = .ok (0, m) := hwrite
  rw [armWriteWord, hwrite]
  rfl

/-! ## One order -/

/-- How the hexadecimal views of a word go together. -/
structure HexViews [ByteOrder] (gdb : GdbProtocolData) : Prop where
  readBack : ∀ v, ∃ s, s.length = 8 ∧ Writes v s ∧
    ∀ rest value, readUint32 (s ++ rest) value = .ok v
  writeBack : ∀ s : List Byte, s.length = 8 → (∀ c ∈ s, IsLowerHex c) →
    ∃ v, (∀ rest value, readUint32 (s ++ rest) value = .ok v) ∧ Writes v s
  memory : ∀ a v, a.toNat + 4 ≤ memoryGetSize gdb.arm.mem → ∃ s arm, Writes v s ∧
    armWriteWord gdb.arm a v = .ok (0, arm) ∧ ∀ text rest u, IsBlock a 4 text →
      RepliesWith { gdb with arm } (readMemory { gdb with arm } (text ++ 0 :: rest) u) s

/-- In a memory of the build's byte order, a word is shown like the cells it is in. -/
theorem hexViews_of_order [ByteOrder] {gdb : GdbProtocolData}
    (horder : gdb.arm.mem.isBigEndian = ByteOrder.bigEndianSimulator) : HexViews gdb where
  readBack v := ⟨wordText v, length_wordText v, writes_wordText v,
    readUint32_eq (givesWord_wordText v)⟩
  writeBack s hlen hs := by
    obtain ⟨v, rfl⟩ := exists_wordText hlen hs
    exact ⟨v, readUint32_eq (givesWord_wordText v), writes_wordText v⟩
  memory a v hrange := by
    obtain ⟨arm, hwrite, hstored⟩ := armWriteWord_stored hrange v
    rw [horder] at hstored
    have hbytes : bytesRead arm.mem 4 a = shownBytes v := by
      have hread := bytesRead_of_stored hstored
      rwa [inOrder_length] at hread
    refine ⟨_, arm, writes_wordText v, hwrite, fun text rest u htext => ?_⟩
    have hscan := htext.sscanfXX (c := 0) (by decide) rest u.address u.size
    obtain ⟨gdb', hread, hanswered⟩ := readMemory_answered { gdb with arm } hscan
      ((length_bytesRead _ _ _).trans (by decide))
    refine ⟨gdb', hread, hanswered.arm, ?_⟩
    rw [hanswered.written, wordText_eq, ← hbytes]
    rfl

theorem hexViews_four :
    @HexViews .x86 (session ⟨0, fun _ => 0, ⟨#[1, 2, 3, 4], true⟩⟩) :=
  @hexViews_of_order .x86 _ rfl

end ArmSimulator.Debugger
