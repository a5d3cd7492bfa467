import ArmSimulator.Debugger.Request
import ArmSimulator.Storage.Blocks

/-! # Memory through the debugger

A binary write carries its bytes escaped, a read answers in hexadecimal. The
write stops at the first address outside the memory and says so; the read stops
there and answers with what it has.
-/

namespace ArmSimulator.Debugger

open Machine Machine.Gdb Storage Foundation.ExceptRun Foundation.Numeral Foundation.ByteBlock

/-! ## Reading -/

/-- The bytes the loop of `read_memory` gets in `n` iterations at most. -/
def bytesRead (mem : Memory) : ℕ → Word → List Byte
  | 0, _ => []
  | n + 1, a =>
    if h : a.toNat < mem.values.size then mem.values[a.toNat] :: bytesRead mem n (a + 1) else []

/-- The bytes from an address to the end of the memory, at most `n`. -/
def bytesFrom (mem : Memory) (a : Word) (n : ℕ) : List Byte :=
  (mem.values.toList.drop a.toNat).take n

section Read

variable {mem : Memory}

theorem length_bytesRead (mem : Memory) (n : ℕ) : ∀ a, (bytesRead mem n a).length ≤ n := by
  induction n with
  | zero => exact fun _ => le_rfl
  | succ n ih =>
    intro a
    rw [bytesRead]
    split
    · exact Nat.succ_le_succ (ih (a + 1))
    · exact Nat.zero_le _

/-- Addresses do not wrap before the end of a memory that leaves one out. -/
theorem toNat_succ_address (hmem : mem.values.size < 2 ^ 32) {a : Word}
    (h : a.toNat < mem.values.size) : (a + 1).toNat = a.toNat + 1 := by
  rw [BitVec.toNat_add]
  exact Nat.mod_eq_of_lt (by change a.toNat + 1 < 2 ^ 32; omega)

theorem bytesRead_eq (hmem : mem.values.size < 2 ^ 32) (n : ℕ) :
    ∀ a, bytesRead mem n a = bytesFrom mem a n := by
  induction n with
  | zero => exact fun _ => (List.take_zero ..).symm
  | succ n ih =>
    intro a
    rw [bytesRead, bytesFrom]
    split
    · rename_i h
      rw [List.drop_eq_getElem_cons (by rwa [Array.length_toList]), List.take_succ_cons,
        Array.getElem_toList, ih, bytesFrom, toNat_succ_address hmem h]
    · rename_i h
      rw [List.drop_eq_nil_of_le (by rw [Array.length_toList]; omega), List.take_nil]

theorem readMemoryLoop_holds (mem : Memory) (n : ℕ) :
    ∀ {a : Word} {v : Byte} {packet : Packet} {s : List Byte}, Holds packet s →
      s.length + 2 * (bytesRead mem n a).length + 2 ≤ maxPacketSize → ∃ packet' position,
        readMemoryLoop mem n a v (packet, 1 + s.length) = .ok (packet', position) ∧
        Holds packet' (s ++ (bytesRead mem n a).flatMap sprintf02x) := by
  induction n with
  | zero =>
    intro a v packet s h _
    exact ⟨packet, _, rfl, by simpa [bytesRead] using h⟩
  | succ n ih =>
    intro a v packet s h hlen
    by_cases ha : a.toNat < mem.values.size
    · rw [bytesRead, dif_pos ha, List.length_cons] at hlen
      obtain ⟨p₁, h₁, hs₁⟩ := append_holds (t := sprintf02x mem.values[a.toNat]) h.prefixed (by
        rw [length_sprintf02x]
        omega)
      obtain ⟨packet', position, hloop, hholds⟩ :=
        ih (a := a + 1) (v := mem.values[a.toNat]) hs₁ (by
          rw [List.length_append, length_sprintf02x]
          omega)
      refine ⟨packet', position, ?_, ?_⟩
      · rw [readMemoryLoop, memoryReadByte_eq (Array.getElem?_eq_getElem ha), ok_bind]
        simp only [h₁, ok_bind, hloop]
        rfl
      · rwa [bytesRead, dif_pos ha, List.flatMap_cons, ← List.append_assoc]
    · refine ⟨packet, 1 + s.length, ?_, ?_⟩
      · rw [readMemoryLoop, memoryReadByte_past (by omega), ok_bind]
        rfl
      · rwa [bytesRead, dif_neg ha, List.flatMap_nil, List.append_nil]

theorem readMemory_answered (gdb : GdbProtocolData) {data : List Byte} {u : HandlerLocals}
    {a n : Word} (hscan : sscanfXX data u.address u.size = (a, n))
    (hn : (bytesRead gdb.arm.mem n.toNat a).length ≤ 509) :
    ∃ gdb', readMemory gdb data u = .ok gdb' ∧
      Answered gdb ((bytesRead gdb.arm.mem n.toNat a).flatMap sprintf02x) gdb' := by
  obtain ⟨p₁, h₁, hs₁⟩ := put_prefixed (t := []) (prefixed_nil gdb.packet) (by decide)
  obtain ⟨p₂, position, h₂, hs₂⟩ := readMemoryLoop_holds gdb.arm.mem n.toNat (a := a)
    (v := u.byte) hs₁ (by
    rw [List.nil_append, List.length_nil, maxPacketSize]
    omega)
  rw [List.nil_append, List.nil_append] at hs₂
  obtain ⟨gdb', hsend, hanswered⟩ := gdbSendBuffer_answered { gdb with packet := p₂ } hs₂
    (.flatMap fun b _ => isPayload_sprintf02x b)
    (by rw [length_flatMap_sprintf02x, maxPacketSize]; omega)
  refine ⟨gdb', ?_, hanswered.arm, hanswered.written, hanswered.held⟩
  have h₁ : gdb.packet.set buffer 0 = .ok p₁ := h₁
  have h₂ : readMemoryLoop gdb.arm.mem n.toNat a u.byte (p₁, buffer) = _ := h₂
  rw [readMemory, hscan]
  simp only [h₁, ok_bind, h₂, hsend]

end Read

/-! ## Writing -/

/-- An escaped form of a byte string: any byte may be escaped, and the three the
protocol uses itself must be. -/
inductive Encodes : List Byte → List Byte → Prop where
  | nil : Encodes [] []
  | plain {b : Byte} {bs enc : List Byte} (hb : b ≠ 0x23 ∧ b ≠ 0x24 ∧ b ≠ 0x7d)
      (h : Encodes bs enc) : Encodes (b :: bs) (b :: enc)
  | escaped (b : Byte) {bs enc : List Byte} (h : Encodes bs enc) :
      Encodes (b :: bs) (0x7d :: (b ^^^ 0x20) :: enc)

section Write

variable {mem : Memory}

theorem takeBinary_plain {b : Byte} (hb : b ≠ 0x7d) (content : List Byte) :
    takeBinary (b :: content) = .ok (b, content) := if_neg hb

theorem takeBinary_escaped (b : Byte) (content : List Byte) :
    takeBinary (0x7d :: (b ^^^ 0x20) :: content) = .ok (b, content) := by
  rw [takeBinary, if_pos rfl]
  simp only [BitVec.xor_assoc, BitVec.xor_self, BitVec.xor_zero]

theorem writeBinaryLoop_false (n : ℕ) (a : Word) (content : List Byte) :
    writeBinaryLoop n mem a content false = .ok (mem, false) := by
  cases n <;> rfl

theorem writeBinaryLoop_succ {b : Byte} {content rest : List Byte}
    (htake : takeBinary content = .ok (b, rest)) (n : ℕ) (a : Word) :
    writeBinaryLoop (n + 1) mem a content true =
      if a.toNat < mem.values.size then
        writeBinaryLoop n { mem with values := mem.values.setIfInBounds a.toNat b } (a + 1) rest
          true
      else .ok (mem, false) := by
  rw [writeBinaryLoop, if_pos rfl, htake, ok_bind]
  split_ifs with ha
  · simp only [memoryWriteByte_eq ha, ok_bind]
    rfl
  · simp only [memoryWriteByte_past (Nat.le_of_not_lt ha), ok_bind]
    exact writeBinaryLoop_false n _ _

/-- The memory once a block is stored as far as it goes, and whether all of it was. -/
def stored (mem : Memory) (a : Word) (bs : List Byte) : Memory × Bool :=
  ({ mem with values := writeBlock mem.values a.toNat bs },
    decide (a.toNat + bs.length ≤ mem.values.size))

theorem stored_cons (hmem : mem.values.size < 2 ^ 32) {a : Word} (ha : a.toNat ≤ mem.values.size)
    (b : Byte) (bs : List Byte) : stored mem a (b :: bs) =
      if a.toNat < mem.values.size then
        stored { mem with values := mem.values.setIfInBounds a.toNat b } (a + 1) bs
      else (mem, false) := by
  split_ifs with hlt
  · rw [stored, stored, toNat_succ_address hmem hlt, Array.size_setIfInBounds, writeBlock,
      List.length_cons, Nat.add_right_comm, Nat.add_assoc]
  · rw [stored, writeBlock_of_size_le _ _ (Nat.le_of_not_lt hlt), List.length_cons,
      decide_eq_false (by omega)]

theorem writeBinaryLoop_eq {bs enc : List Byte} (h : Encodes bs enc) (rest : List Byte) :
    ∀ {mem : Memory} {a : Word}, mem.values.size < 2 ^ 32 → a.toNat ≤ mem.values.size →
      writeBinaryLoop bs.length mem a (enc ++ rest) true = .ok (stored mem a bs) := by
  -- the two forms differ in how their byte is taken only
  have hcons {b : Byte} {bs content next : List Byte}
      (htake : takeBinary content = .ok (b, next))
      (ih : ∀ {mem : Memory} {a : Word}, mem.values.size < 2 ^ 32 → a.toNat ≤ mem.values.size →
        writeBinaryLoop bs.length mem a next true = .ok (stored mem a bs))
      {mem : Memory} {a : Word} (hmem : mem.values.size < 2 ^ 32)
      (ha : a.toNat ≤ mem.values.size) :
      writeBinaryLoop (b :: bs).length mem a content true = .ok (stored mem a (b :: bs)) := by
    rw [List.length_cons, writeBinaryLoop_succ htake, stored_cons hmem ha]
    split_ifs with hlt
    · refine ih (by rwa [Array.size_setIfInBounds]) ?_
      rw [toNat_succ_address hmem hlt, Array.size_setIfInBounds]
      exact hlt
    · rfl
  induction h with
  | nil =>
    intro mem a _ ha
    rw [stored, List.length_nil, decide_eq_true (by omega)]
    rfl
  | plain hb _ ih => exact fun hmem ha => hcons (takeBinary_plain hb.2.2 _) ih hmem ha
  | escaped b _ ih => exact fun hmem ha => hcons (takeBinary_escaped b _) ih hmem ha

end Write

/-! ## Requests -/

/-- The address and the size of a block as a request gives them. -/
def IsBlock (a n : Word) (text : List Byte) : Prop :=
  ∃ s t, Spells hexValue 16 s a.toNat ∧ Spells hexValue 16 t n.toNat ∧ text = s ++ char ',' :: t

theorem IsBlock.sscanfXX {a n : Word} {text : List Byte} (h : IsBlock a n text) {c : Byte}
    (hc : hexValue c = none ∧ c ≠ char 'x' ∧ c ≠ char 'X') (rest : List Byte) (u v : Word) :
    Machine.sscanfXX (text ++ c :: rest) u v = (a, n) := by
  obtain ⟨s, t, hs, ht, rfl⟩ := h
  rw [List.append_assoc, List.cons_append]
  exact sscanfXX_spells hs ht hc u v

theorem IsBlock.afterIndex {a n : Word} {text : List Byte} (h : IsBlock a n text)
    (content : List Byte) : Gdb.afterIndex (char ':') (text ++ char ':' :: content) = content := by
  obtain ⟨s, t, hs, ht, rfl⟩ := h
  have hdigit : ∀ b : Byte, (hexValue b).isSome → b ≠ char ':' ∧ b ≠ 0 := by decide
  rw [Gdb.afterIndex, index_append]
  · rfl
  · intro b hb
    rcases List.mem_append.mp hb with hb | hb
    · exact hdigit b (isSome_of_valueFrom hs.value b hb)
    · rcases List.mem_cons.mp hb with rfl | hb
      · decide
      · exact hdigit b (isSome_of_valueFrom ht.value b hb)

/-- The block is written as far as the memory goes, and nothing else changes. -/
structure Written (mem mem' : Memory) (a : ℕ) (bs : List Byte) : Prop where
  isBigEndian : mem'.isBigEndian = mem.isBigEndian
  size : mem'.values.size = mem.values.size
  inside : ∀ k (hk : k < bs.length), a + k < mem.values.size → mem'.values[a + k]? = some bs[k]
  outside : ∀ i, i < a ∨ a + bs.length ≤ i → mem'.values[i]? = mem.values[i]?

theorem written_stored (mem : Memory) (a : Word) (bs : List Byte) :
    Written mem (stored mem a bs).1 a.toNat bs where
  isBigEndian := rfl
  size := size_writeBlock _ _ _
  inside _ hk ha := getElem?_writeBlock_inside _ _ _ hk ha
  outside _ hi := getElem?_writeBlock_outside _ _ _ hi

def writeReply (mem : Memory) (a : Word) (bs : List Byte) : List Byte :=
  if a.toNat < memoryGetSize mem ∧ a.toNat + bs.length ≤ memoryGetSize mem then ascii "OK"
  else ascii "E02"

theorem writeMemoryBinary_answered (gdb : GdbProtocolData)
    (hmem : memoryGetSize gdb.arm.mem < 2 ^ 32) {a n : Word} {bs enc text : List Byte}
    (hn : n.toNat = bs.length) (htext : IsBlock a n text) (henc : Encodes bs enc)
    (rest : List Byte) (u : HandlerLocals) :
    ∃ gdb', writeMemoryBinary gdb (text ++ char ':' :: (enc ++ rest)) u = .ok gdb' ∧
      Answered { gdb with arm := { gdb.arm with mem := (stored gdb.arm.mem a bs).1 } }
        (writeReply gdb.arm.mem a bs) gdb' := by
  have hloop : writeBinaryLoop n.toNat gdb.arm.mem a (enc ++ rest)
      (decide (a.toNat < memoryGetSize gdb.arm.mem)) = .ok ((stored gdb.arm.mem a bs).1,
        decide (a.toNat < memoryGetSize gdb.arm.mem ∧
          a.toNat + bs.length ≤ memoryGetSize gdb.arm.mem)) := by
    by_cases ha : a.toNat < memoryGetSize gdb.arm.mem
    · rw [decide_eq_true ha, hn, writeBinaryLoop_eq henc rest hmem ha.le]
      simp only [ha, true_and]
      rfl
    · rw [decide_eq_false ha, writeBinaryLoop_false]
      simp only [ha, false_and, decide_false]
      rw [stored, writeBlock_of_size_le _ _ (Nat.le_of_not_lt ha)]
  obtain ⟨gdb', hsend, hanswered⟩ := gdbSendData_answered
    { gdb with arm := { gdb.arm with mem := (stored gdb.arm.mem a bs).1 } }
    (s := writeReply gdb.arm.mem a bs) (by unfold writeReply; split_ifs <;> decide)
    (by unfold writeReply; split_ifs <;> decide)
  refine ⟨gdb', ?_, hanswered⟩
  rw [writeMemoryBinary, htext.sscanfXX (by decide), htext.afterIndex, ← hsend]
  simp only [hloop, ok_bind, decide_eq_true_eq]
  unfold writeReply
  split_ifs <;> rfl

/-- What the requests for blocks of memory do. -/
structure MemoryAccess (gdb : GdbProtocolData) : Prop where
  write : ∀ (a n : Word) (bs enc text rest : List Byte) (u : HandlerLocals), n.toNat = bs.length →
    IsBlock a n text → Encodes bs enc →
    ∃ gdb', writeMemoryBinary gdb (text ++ char ':' :: (enc ++ rest)) u = .ok gdb' ∧
      gdb'.arm = { gdb.arm with mem := gdb'.arm.mem } ∧
      Written gdb.arm.mem gdb'.arm.mem a.toNat bs ∧
      gdb'.written = gdb.written ++ [frame (writeReply gdb.arm.mem a bs)]
  read : ∀ (a n : Word) (text rest : List Byte) (u : HandlerLocals), n.toNat ≤ 509 →
    IsBlock a n text →
    ∃ gdb', readMemory gdb (text ++ 0 :: rest) u = .ok gdb' ∧ gdb'.arm = gdb.arm ∧
      gdb'.written = gdb.written ++ [frame ((bytesFrom gdb.arm.mem a n.toNat).flatMap sprintf02x)]
  readBack : ∀ (a n : Word) (bs enc text text' rest rest' : List Byte) (u u' : HandlerLocals),
    n.toNat = bs.length → n.toNat ≤ 509 → a.toNat + n.toNat ≤ memoryGetSize gdb.arm.mem →
    IsBlock a n text → IsBlock a n text' → Encodes bs enc →
    ∃ gdb' gdb'', writeMemoryBinary gdb (text ++ char ':' :: (enc ++ rest)) u = .ok gdb' ∧
      readMemory gdb' (text' ++ 0 :: rest') u' = .ok gdb'' ∧
      gdb''.written = gdb'.written ++ [frame (bs.flatMap sprintf02x)]

/-- Binary writes and reads do what they should in every memory of less than
`2 ^ 32` bytes. -/
theorem memoryAccess_of_size {gdb : GdbProtocolData}
    (hmem : memoryGetSize gdb.arm.mem ≤ 2 ^ 32 - 1) : MemoryAccess gdb where
  write a n bs enc text rest u hn htext henc := by
    obtain ⟨gdb', hwrite, hanswered⟩ :=
      writeMemoryBinary_answered gdb (by omega) hn htext henc rest u
    have harm := hanswered.arm
    refine ⟨gdb', hwrite, ?_, ?_, hanswered.written⟩
    · rw [harm]
    · rw [harm]
      exact written_stored gdb.arm.mem a bs
  read a n text rest u hn htext := by
    obtain ⟨gdb', hread, hanswered⟩ :=
      readMemory_answered gdb (htext.sscanfXX (c := 0) (by decide) rest u.address u.size)
        ((length_bytesRead _ _ _).trans hn)
    refine ⟨gdb', hread, hanswered.arm, ?_⟩
    rw [← bytesRead_eq (by change memoryGetSize _ < _; omega)]
    exact hanswered.written
  readBack a n bs enc text text' rest rest' u u' hn h509 hrange htext htext' henc := by
    obtain ⟨gdb', hwrite, hanswered⟩ :=
      writeMemoryBinary_answered gdb (by omega) hn htext henc rest u
    obtain ⟨gdb'', hread, hanswered'⟩ := readMemory_answered gdb'
      (htext'.sscanfXX (c := 0) (by decide) rest' u'.address u'.size)
      ((length_bytesRead _ _ _).trans h509)
    have hmem' : gdb'.arm.mem = (stored gdb.arm.mem a bs).1 := congrArg ArmCore.mem hanswered.arm
    have hsize : gdb'.arm.mem.values.size = memoryGetSize gdb.arm.mem := by
      rw [hmem']
      exact size_writeBlock _ _ _
    have hbytes : bytesRead gdb'.arm.mem n.toNat a = bs := by
      rw [bytesRead_eq (by rw [hsize]; omega), hmem', hn]
      exact take_drop_writeBlock _ _ _ (hn ▸ hrange)
    refine ⟨gdb', gdb'', hwrite, hread, ?_⟩
    rw [hanswered'.written, hbytes]

theorem memoryAccess_four :
    MemoryAccess (session ⟨0, fun _ => 0, ⟨#[1, 2, 3, 4], true⟩⟩) :=
  memoryAccess_of_size (by decide)

end ArmSimulator.Debugger
