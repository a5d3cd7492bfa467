import ArmSimulator.Transfers.PlainOffset
import ArmSimulator.Transfers.Store

/-! # Loads of another width than the store

Words, halves and bytes share the memory. Every store in range is right in
either byte order, and a half is loaded as it was stored. The handler of a byte
load compares its unsigned result with -1 before it writes the register, which
never happens: the register keeps what it held.
-/

namespace ArmSimulator.Transfers

open Machine RegisterFile Storage Decoding Exceptions Foundation.ExceptRun Foundation.ByteBlock

/-! ## Stores of any width -/

section Stores

variable {mem : Memory} {a : Word} {n : Width}

/-- The memory with a value stored in its byte order. -/
def stored (mem : Memory) (a : Word) (n : Width) (v : n.Value) : Memory :=
  { mem with values := writeBlock mem.values a.toNat (inOrder mem.isBigEndian (valueBytes n v)) }

theorem memoryWrite_stored (h : a.toNat + n.bytes ≤ mem.values.size)
    (h32 : a.toNat + n.bytes ≤ 2 ^ 32) (v : n.Value) :
    memoryWrite n mem a v = .ok (0, stored mem a n v) := by
  cases n with
  | byte =>
    have hone : inOrder mem.isBigEndian (valueBytes .byte v) = [v] := by
      cases mem.isBigEndian <;> rfl
    rw [stored, hone]
    exact memoryWriteByte_eq h v
  | half => exact memoryWriteHalf_eq h h32 v
  | word => exact memoryWriteWord_eq h h32 v

theorem length_valueBytes (n : Width) (v : n.Value) : (valueBytes n v).length = n.bytes := by
  cases n <;> rfl

theorem holds_stored (h : a.toNat + n.bytes ≤ mem.values.size) (v : n.Value) :
    Holds (stored mem a n v).values a.toNat (inOrder mem.isBigEndian (valueBytes n v)) :=
  holds_writeBlock _ _ _ (by rwa [inOrder_length, length_valueBytes])

theorem storeValue_byte (x : Word) : storeValue .byte x = x.setWidth 8 := by
  have hmask : x &&& 0x00FF = (x.setWidth 8).setWidth 32 := and_lowByte (by omega) x
  rw [storeValue, hmask, BitVec.setWidth_setWidth_of_le _ (by omega), BitVec.setWidth_eq]

theorem storeValue_half (x : Word) : storeValue .half x = x.setWidth 16 := by
  apply BitVec.eq_of_getLsbD_eq
  intro i hi
  have hmask : ∀ i < 16, (0xFFFF : Word).getLsbD i = true := by decide
  rw [storeValue, BitVec.getLsbD_setWidth, BitVec.getLsbD_setWidth, BitVec.getLsbD_and, hmask i hi,
    Bool.and_true]

end Stores

/-! ## Instructions at their address -/

/-- An unconditional load or store is fetched, and its handler gets this target. -/
structure Performs [Host] (u : Locals) (q : Processor) (ins : Word) (t : Target) : Prop where
  read : memoryReadWord q.mem (pcAddress q) u.inst = .ok (0, ins)
  condition : condField ins = 0b1110
  dispatched : dispatch ins = .loadStore
  located : target u (fetched q).core ins = .ok t

/-- The width and the address of a load of a byte or a half. -/
def loadWidth (ins : Word) : Target → Option (Width × Word)
  | .wordByte a => if getBit ins 20 ≠ 0 ∧ getBit ins 22 ≠ 0 then some (.byte, a) else none
  | .miscellaneous a => if miscellaneousCode ins = 5 then some (.half, a) else none
  | _ => none

/-- What a load of the second width, this many bytes on, should find of a word stored with
the first width. -/
inductive Finds (bigEndian : Bool) (v : Word) : Width → Width → Nat → Word → Prop where
  | byteOfWord {i : Nat} (hi : i < 4) : Finds bigEndian v .word .byte i
      ((if bigEndian then wordByte v (3 - i) else wordByte v i).setWidth 32)
  | byte : Finds bigEndian v .byte .byte 0 ((v.setWidth 8).setWidth 32)
  | half : Finds bigEndian v .half .half 0 ((v.setWidth 16).setWidth 32)

/-- The bytes of the access may change, no others. -/
structure ChangesBytes (mem mem' : Memory) (a n : Nat) : Prop where
  outside : ∀ i, i < a ∨ a + n ≤ i → mem'.values[i]? = mem.values[i]?
  size : mem'.values.size = mem.values.size
  order : mem'.isBigEndian = mem.isBigEndian

section Step

variable [Host] {u : Locals} {q : Processor} {ins a : Word} {t : Target} {n : Width}

/-- A step that puts this value into the operand register. -/
def LoadsValue (u : Locals) (q : Processor) (ins value : Word) : Prop :=
  Returns (armStep u q.core) fun r =>
    r.1 = 0 ∧ r.2.reg (position q.file.mode (rd ins)) = value

theorem armStep_performs (h : Performs u q ins t) :
    armStep u q.core = (perform u (fetched q).core ins t >>= raiseResult) := by
  rw [armStep_run h.read (Or.inl h.condition), h.dispatched, Handler.run, armLoadStore_target,
    h.located, ok_bind]

theorem armStep_store (h : Performs u q ins t) (hwidth : storeWidth ins t = some (n, a))
    (hfit : a.toNat + n.bytes ≤ q.mem.values.size) (h32 : a.toNat + n.bytes ≤ 2 ^ 32) :
    armStep u q.core = .ok (0, { fetched q with
      mem := stored q.mem a n (storeValue n (operand q (rd ins))) }.core) := by
  have hread : armReadRegister (fetched q).core (getBits ins 15 12).toNat =
      .ok (operand q (rd ins)) := by
    rw [← register_fetched]
    exact (fetched q).armReadRegister_eq (rd ins)
  have hwrite : memoryWrite n (fetched q).core.mem a (storeValue n (operand q (rd ins))) = _ :=
    memoryWrite_stored hfit h32 _
  rw [armStep_performs h, perform_store hwidth, if_pos (conditionPassed_al h.condition), hread,
    ok_bind, storeAt, hwrite]
  cases n <;> rfl

theorem armStep_ldrb (h : Performs u q ins t) (hwidth : loadWidth ins t = some (.byte, a))
    {b : Byte} (hread : memoryReadByte q.mem a u.byte = .ok (0, b)) :
    armStep u q.core = .ok (0, (fetched q).core) := by
  cases t with
  | wordByte address =>
    rw [loadWidth] at hwidth
    split at hwidth
    · rename_i hbits
      rw [Option.some.injEq, Prod.mk.injEq] at hwidth
      obtain ⟨-, rfl⟩ := hwidth
      have hread : armReadByte (fetched q).core address u.byte = .ok (0, b) := hread
      rw [armStep_performs h, perform, executeInstrWordByte]
      simp only [hbits.1, hbits.2, decide_true, ne_eq, not_false_eq_true, if_true, hread, ok_bind]
      rfl
    · simp at hwidth
  | miscellaneous address =>
    rw [loadWidth] at hwidth
    split at hwidth <;> simp at hwidth
  | skipped => simp [loadWidth] at hwidth
  | undefined => simp [loadWidth] at hwidth

theorem armStep_ldrh (h : Performs u q ins t) (hwidth : loadWidth ins t = some (.half, a))
    {x : Half} (hread : memoryReadHalf q.mem a u.half = .ok (0, x)) :
    armStep u q.core = .ok (0, ((fetched q).write (rd ins) (x.setWidth 32)).core) := by
  cases t with
  | miscellaneous address =>
    rw [loadWidth] at hwidth
    split at hwidth
    · rename_i hcode
      rw [Option.some.injEq, Prod.mk.injEq] at hwidth
      obtain ⟨-, rfl⟩ := hwidth
      have hread : armReadHalf (fetched q).core address u.half = .ok (0, x) := hread
      have hwrite : armWriteRegister (fetched q).core (getBits ins 15 12).toNat (x.setWidth 32) =
          .ok ((fetched q).write (rd ins) (x.setWidth 32)).core :=
        (fetched q).armWriteRegister_eq (rd ins) _
      rw [miscellaneousCode] at hcode
      rw [armStep_performs h, perform, executeInstrMiscellaneous]
      simp only [hcode, hread, ok_bind, if_true, hwrite]
      rfl
    · simp at hwidth
  | wordByte address =>
    rw [loadWidth] at hwidth
    split at hwidth <;> simp at hwidth
  | skipped => simp [loadWidth] at hwidth
  | undefined => simp [loadWidth] at hwidth

theorem loadsValue_byte_iff (h : Performs u q ins t) (hwidth : loadWidth ins t = some (.byte, a))
    {b : Byte} (hread : memoryReadByte q.mem a u.byte = .ok (0, b)) (value : Word) :
    LoadsValue u q ins value ↔
      (fetched q).file.cells (position q.file.mode (rd ins)) = value := by
  rw [LoadsValue, armStep_ldrb h hwidth hread, returns_ok_iff, and_iff_right rfl]
  rfl

theorem loadsValue_half (h : Performs u q ins t) (hwidth : loadWidth ins t = some (.half, a))
    {x : Half} (hread : memoryReadHalf q.mem a u.half = .ok (0, x)) :
    LoadsValue u q ins (x.setWidth 32) := by
  rw [LoadsValue, armStep_ldrh h hwidth hread, returns_ok_iff]
  refine ⟨rfl, ((fetched q).write_cells (rd ins) (x.setWidth 32) _).trans (if_pos rfl)⟩

theorem loadsValue_stored_iff {mem : Memory} {v value : Word} {m : Width} {i : Nat}
    (hfit : a.toNat + n.bytes ≤ mem.values.size) (h32 : a.toNat + n.bytes ≤ 2 ^ 32)
    (hmem : q.mem = stored mem a n (storeValue n v)) (h : Performs u q ins t)
    (hwidth : loadWidth ins t = some (m, a + BitVec.ofNat 32 i))
    (hfinds : Finds mem.isBigEndian v n m i value) : LoadsValue u q ins value ↔
      m = .half ∨ (fetched q).file.cells (position q.file.mode (rd ins)) = value := by
  have hholds := holds_stored hfit (storeValue n v)
  rw [← hmem] at hholds
  cases hfinds with
  | byteOfWord hi =>
    have hread := readByte_of_holds hholds (by rwa [inOrder_length, length_valueBytes])
      (getElem?_wordBytes mem.isBigEndian v hi) u.byte
    rw [loadsValue_byte_iff h hwidth hread]
    simp
  | byte =>
    have hbyte : (inOrder mem.isBigEndian (valueBytes .byte (storeValue .byte v)))[0]? =
        some (v.setWidth 8) := by
      rw [storeValue_byte]
      cases mem.isBigEndian <;> rfl
    have hread := readByte_of_holds hholds (by rwa [inOrder_length, length_valueBytes])
      hbyte u.byte
    rw [loadsValue_byte_iff h hwidth hread]
    simp
  | half =>
    have horder : q.mem.isBigEndian = mem.isBigEndian := by rw [hmem]; rfl
    have hzero : a + BitVec.ofNat 32 0 = a := BitVec.add_zero a
    rw [storeValue_half, ← horder] at hholds
    have hread := readHalf_of_holds (a := a) hholds h32 u.half
    rw [hzero] at hwidth
    exact iff_of_true (loadsValue_half h hwidth hread) (Or.inl rfl)

/-- A store in range changes the bytes it should, and what it stored is found by exactly
the loads of halves and the loads of bytes that the register holds already. -/
theorem mixedWidth_iff (h : Performs u q ins t) (hwidth : storeWidth ins t = some (n, a))
    (hfit : a.toNat + n.bytes ≤ q.mem.values.size) (h32 : a.toNat + n.bytes ≤ 2 ^ 32) :
    ∃ q' : Processor, armStep u q.core = .ok (0, q'.core) ∧
      ChangesBytes q.mem q'.mem a.toNat n.bytes ∧
      ∀ (u₁ : Locals) (q₁ : Processor) (ins₁ : Word) (t₁ : Target) (m : Width) (i : Nat)
        (value : Word), q₁.mem = q'.mem → Performs u₁ q₁ ins₁ t₁ →
        loadWidth ins₁ t₁ = some (m, a + BitVec.ofNat 32 i) →
        Finds q.mem.isBigEndian (operand q (rd ins)) n m i value →
        (LoadsValue u₁ q₁ ins₁ value ↔ m = .half ∨
          (fetched q₁).file.cells (position q₁.file.mode (rd ins₁)) = value) := by
  refine ⟨_, armStep_store h hwidth hfit h32, ⟨fun i hi => ?_, ?_, rfl⟩, ?_⟩
  · exact getElem?_writeBlock_outside _ _ _ (by rwa [inOrder_length, length_valueBytes])
  · exact size_writeBlock _ _ _
  · intro u₁ q₁ ins₁ t₁ m i value hmem hload hwidth₁ hfinds
    exact loadsValue_stored_iff hfit h32 hmem hload hwidth₁ hfinds

end Step

/-- `strb r1, [r2]` and `ldrb r0, [r2]`, with `r1` the byte 0x41 and `r2` the address 8. -/
def byteProgram : Processor :=
  ((program .usr #[0x00, 0x10, 0xC2, 0xE5, 0x00, 0x00, 0xD2, 0xE5, 0, 0]).write 1 0x41).write 2 8

theorem performs_strb :
    @Performs Host.x86 ⟨0, 0, 0, 0, 0, 0⟩ byteProgram 0xE5C21000 (.wordByte 8) :=
  letI := Host.x86
  { read := by
      have hpc : pcAddress byteProgram = 0 := by decide
      rw [hpc]
      rfl
    condition := by decide
    dispatched := by decide
    located := by
      rw [target_constant (by decide) (by decide)]
      decide }

theorem mixedWidth_strb : ∃ q' : Processor,
    @armStep Host.x86 ⟨0, 0, 0, 0, 0, 0⟩ byteProgram.core = .ok (0, q'.core) ∧
      ChangesBytes byteProgram.mem q'.mem 8 1 ∧
      ∀ (u₁ : Locals) (q₁ : Processor) (ins₁ : Word) (t₁ : Target) (m : Width) (i : Nat)
        (value : Word), q₁.mem = q'.mem → @Performs Host.x86 u₁ q₁ ins₁ t₁ →
        loadWidth ins₁ t₁ = some (m, 8 + BitVec.ofNat 32 i) →
        Finds byteProgram.mem.isBigEndian (operand byteProgram (rd 0xE5C21000)) .byte m i value →
        (@LoadsValue Host.x86 u₁ q₁ ins₁ value ↔ m = .half ∨
          (fetched q₁).file.cells (position q₁.file.mode (rd ins₁)) = value) :=
  @mixedWidth_iff Host.x86 ⟨0, 0, 0, 0, 0, 0⟩ byteProgram 0xE5C21000 8 _ .byte performs_strb
    rfl (by decide) (by decide)

def byteStored : Processor :=
  { fetched byteProgram with mem := stored byteProgram.mem 8 .byte 0x41 }

theorem performs_ldrb :
    @Performs Host.x86 ⟨0, 0, 0, 0, 0, 0⟩ byteStored 0xE5D20000 (.wordByte 8) :=
  letI := Host.x86
  { read := by
      have hpc : pcAddress byteStored = 4 := by decide
      rw [hpc]
      rfl
    condition := by decide
    dispatched := by decide
    located := by
      rw [target_constant (by decide) (by decide)]
      decide }

/-- The byte that was stored is not loaded into `r0`. -/
theorem mixedWidth_lost : ¬ ∀ (_ : Host) (u u₁ : Locals) (q q' q₁ : Processor)
    (ins a ins₁ value : Word) (t t₁ : Target) (n m : Width) (i : Nat), Performs u q ins t →
    storeWidth ins t = some (n, a) → a.toNat + n.bytes ≤ q.mem.values.size →
    a.toNat + n.bytes ≤ 2 ^ 32 → armStep u q.core = .ok (0, q'.core) → q₁.mem = q'.mem →
    Performs u₁ q₁ ins₁ t₁ → loadWidth ins₁ t₁ = some (m, a + BitVec.ofNat 32 i) →
    Finds q.mem.isBigEndian (operand q (rd ins)) n m i value → LoadsValue u₁ q₁ ins₁ value := by
  intro h
  let host := Host.x86
  have hwidth : loadWidth 0xE5D20000 (.wordByte 8) = some (.byte, 8 + BitVec.ofNat 32 0) := rfl
  have hstep := armStep_store performs_strb (n := .byte) (a := 8) rfl (by decide) (by decide)
  have hread : memoryReadByte byteStored.mem (8 + BitVec.ofNat 32 0) 0 = .ok (0, 0x41) := rfl
  have hloads := h host _ _ byteProgram _ byteStored _ 8 _ _ _ _ .byte .byte 0 performs_strb rfl
    (by decide) (by decide) hstep rfl performs_ldrb hwidth .byte
  rw [loadsValue_byte_iff performs_ldrb hwidth hread] at hloads
  exact absurd hloads (by decide)

end ArmSimulator.Transfers
