import ArmSimulator.Debugger.Handling
import ArmSimulator.Foundation.Recording

/-! # The room for a memory reply

The functions that build a memory reply, once more with a record of the indices they
store at. The loop does not stop at the end of the packet: it stores two digits for each
byte it can read and their terminator, and the frame takes five places more.
-/

namespace ArmSimulator.Debugger

open Machine Machine.Gdb Storage Foundation.ExceptRun Foundation.Recording
  Foundation.Recording.Recorded

/-- A computation of the debugger with the indices it stores at. -/
abbrev Indexed (α : Type) := Recorded ℕ Stop α

/-! ## The functions with their indices -/

section Functions

variable {size : ℕ}

def setIndexed (a : CharArray size) (i : ℕ) (c : Byte) : Indexed (CharArray size) :=
  ⟨[i], a.set i c⟩

def putIndexed : CharArray size → ℕ → List Byte → Indexed (CharArray size)
  | a, i, [] => setIndexed a i 0
  | a, i, c :: s => do
    let a ← setIndexed a i c
    putIndexed a (i + 1) s

def appendIndexed (s : Packet × ℕ) (data : List Byte) : Indexed (Packet × ℕ) := do
  let packet ← putIndexed s.1 s.2 data
  return (packet, s.2 + data.length)

def readMemoryLoopIndexed (mem : Memory) : ℕ → Word → Byte → Packet × ℕ → Indexed (Packet × ℕ)
  | 0, _, _, s => lift (.ok s)
  | size + 1, address, value, s => do
    let (result, value) ← lift (memoryReadByte mem address value)
    if result ≠ -1 then
      let s ← appendIndexed s (sprintf02x value)
      readMemoryLoopIndexed mem size (address + 1) value s
    else return s

def gdbSendBufferIndexed (gdb : GdbProtocolData) : Indexed GdbProtocolData := do
  let packet ← setIndexed gdb.packet 0 (char '$')
  let (check, i) ← lift (checkSum (packet.cells.drop 1) 1 0)
  let packet ← setIndexed packet i (char '#')
  let i := i + 1
  let packet ← putIndexed packet i (sprintf02x check)
  let i := i + 2
  let packet ← setIndexed packet i 0
  return gdbTransmitPacket { gdb with packet, len := i }

def readMemoryIndexed (gdb : GdbProtocolData) (data : List Byte) (u : HandlerLocals) :
    Indexed GdbProtocolData := do
  let (address, size) := sscanfXX data u.address u.size
  let packet ← setIndexed gdb.packet buffer 0
  let (packet, _) ← readMemoryLoopIndexed gdb.arm.mem size.toNat address u.byte (packet, buffer)
  gdbSendBufferIndexed { gdb with packet }

end Functions

/-! ## Without the record -/

section Results

variable {size : ℕ}

theorem result_putIndexed (s : List Byte) :
    ∀ (a : CharArray size) (i : ℕ), (putIndexed a i s).result = a.put i s := by
  induction s with
  | nil => exact fun a i => rfl
  | cons c s ih =>
    intro a i
    rw [putIndexed, result_bind, CharArray.put]
    exact congrArg _ (funext fun a => ih a (i + 1))

theorem result_appendIndexed (s : Packet × ℕ) (data : List Byte) :
    (appendIndexed s data).result = append s data := by
  rw [appendIndexed, result_bind, result_putIndexed]
  rfl

theorem result_readMemoryLoopIndexed (mem : Memory) (n : ℕ) :
    ∀ (a : Word) (v : Byte) (s : Packet × ℕ),
      (readMemoryLoopIndexed mem n a v s).result = readMemoryLoop mem n a v s := by
  induction n with
  | zero => exact fun _ _ _ => rfl
  | succ n ih =>
    intro a v s
    rw [readMemoryLoopIndexed, result_bind, readMemoryLoop]
    refine congrArg _ (funext fun r => ?_)
    obtain ⟨result, value⟩ := r
    dsimp only
    split
    · rw [result_bind, result_appendIndexed]
      exact congrArg _ (funext fun s => ih _ _ s)
    · rfl

theorem result_gdbSendBufferIndexed (gdb : GdbProtocolData) :
    (gdbSendBufferIndexed gdb).result = gdbSendBuffer gdb := by
  simp only [gdbSendBufferIndexed, gdbSendBuffer, result_bind, result_putIndexed]
  rfl

/-- Without the record this is what handles the request. -/
theorem result_readMemoryIndexed (gdb : GdbProtocolData) (data : List Byte) (u : HandlerLocals) :
    (readMemoryIndexed gdb data u).result = readMemory gdb data u := by
  simp only [readMemoryIndexed, readMemory, result_bind, result_readMemoryLoopIndexed,
    result_gdbSendBufferIndexed]
  rfl

end Results

/-! ## Indices within the array -/

section Bounds

variable {size : ℕ}

theorem all_setIndexed_iff {a : CharArray size} {i : ℕ} {c : Byte} :
    All (· < size) (setIndexed a i c) ↔ i < size := by
  simp [All, setIndexed]

theorem set_returns {a : CharArray size} {i : ℕ} {c : Byte}
    (h : All (· < size) (setIndexed a i c)) : Returns (a.set i c) fun _ => True :=
  ⟨_, if_pos (all_setIndexed_iff.mp h), trivial⟩

theorem all_putIndexed_iff (s : List Byte) : ∀ {a : CharArray size} {i : ℕ},
    All (· < size) (putIndexed a i s) ↔ i + s.length < size := by
  induction s with
  | nil => exact all_setIndexed_iff
  | cons c s ih =>
    intro a i
    rw [putIndexed, all_bind_congr set_returns fun _ _ => ih, all_setIndexed_iff, List.length_cons]
    omega

theorem put_returns {s : List Byte} {a : CharArray size} {i : ℕ}
    (h : All (· < size) (putIndexed a i s)) : Returns (putIndexed a i s).result fun _ => True := by
  induction s generalizing a i with
  | nil => exact set_returns h
  | cons c s ih =>
    obtain ⟨hset, hrest⟩ := all_bind_iff.mp h
    obtain ⟨a', ha', -⟩ := set_returns hset
    rw [putIndexed, result_bind]
    exact Returns.bind ⟨a', ha', ha'⟩ fun a ha => ih (hrest a ha)

theorem all_appendIndexed_iff {s : Packet × ℕ} {data : List Byte} :
    All (· < maxPacketSize) (appendIndexed s data) ↔ s.2 + data.length < maxPacketSize := by
  rw [← all_putIndexed_iff data (a := s.1)]
  exact all_bind_iff.trans (and_iff_left fun _ _ => all_pure _)

theorem append_returns {s : Packet × ℕ} {data : List Byte}
    (h : All (· < maxPacketSize) (appendIndexed s data)) :
    Returns (appendIndexed s data).result fun _ => True := by
  rw [appendIndexed, result_bind]
  exact (put_returns (all_bind_iff.mp h).1).bind fun _ _ => returns_pure trivial

theorem append_position {s s' : Packet × ℕ} {data : List Byte}
    (h : (appendIndexed s data).result = .ok s') :
    s'.2 = s.2 + data.length ∧ s'.2 < maxPacketSize := by
  rw [result_appendIndexed] at h
  obtain ⟨packet, hput, h⟩ := bind_eq_ok.mp h
  cases h
  exact ⟨rfl, put_room packet hput⟩

theorem all_readMemoryLoopIndexed_iff (mem : Memory) (n : ℕ) :
    ∀ {a : Word} {v : Byte} {s : Packet × ℕ}, s.2 < maxPacketSize →
      (All (· < maxPacketSize) (readMemoryLoopIndexed mem n a v s) ↔
        s.2 + 2 * (bytesRead mem n a).length < maxPacketSize) := by
  induction n with
  | zero => exact fun hs => iff_of_true (all_lift _) hs
  | succ n ih =>
    intro a v s hs
    rw [readMemoryLoopIndexed, all_lift_bind_iff, bytesRead]
    by_cases ha : a.toNat < mem.values.size
    · rw [memoryReadByte_eq (Array.getElem?_eq_getElem ha), dif_pos ha, List.length_cons]
      simp only [Except.ok.injEq, forall_eq']
      have hrest : ∀ s', (appendIndexed s (sprintf02x mem.values[a.toNat])).result = .ok s' →
          (All (· < maxPacketSize) (readMemoryLoopIndexed mem n (a + 1) mem.values[a.toNat] s') ↔
            s.2 + 2 + 2 * (bytesRead mem n (a + 1)).length < maxPacketSize) := by
        intro s' hs'
        obtain ⟨hposition, hroom⟩ := append_position hs'
        rw [ih hroom, hposition, length_sprintf02x]
      rw [if_pos (by decide), all_bind_congr append_returns hrest, all_appendIndexed_iff,
        length_sprintf02x]
      omega
    · rw [memoryReadByte_past (by omega), dif_neg ha]
      simp only [Except.ok.injEq, forall_eq']
      exact iff_of_true (all_pure _) hs

theorem all_gdbSendBufferIndexed_iff {gdb : GdbProtocolData} {s : List Byte}
    (h : Holds gdb.packet s) (hs : ∀ c ∈ s, c ≠ 0) :
    All (· < maxPacketSize) (gdbSendBufferIndexed gdb) ↔ s.length + 5 ≤ maxPacketSize := by
  obtain ⟨p₁, post, h₁, -, hsum⟩ := checkSum_opened h hs
  have hend : ∀ p, All (· < maxPacketSize) (do
      let packet ← setIndexed p (1 + s.length + 1 + 2) 0
      return gdbTransmitPacket { gdb with packet, len := 1 + s.length + 1 + 2 }) ↔
      s.length + 5 ≤ maxPacketSize := by
    intro p
    refine (all_bind_iff.trans (and_iff_left fun _ _ => all_pure _)).trans ?_
    rw [all_setIndexed_iff]
    omega
  have hcheck : ∀ p, All (· < maxPacketSize) (do
      let packet ← putIndexed p (1 + s.length + 1) (sprintf02x (0 + s.sum))
      let packet ← setIndexed packet (1 + s.length + 1 + 2) 0
      return gdbTransmitPacket { gdb with packet, len := 1 + s.length + 1 + 2 }) ↔
      s.length + 5 ≤ maxPacketSize := by
    intro p
    refine (all_bind_congr put_returns fun p _ => hend p).trans ?_
    rw [all_putIndexed_iff, length_sprintf02x]
    omega
  refine (all_bind_congr (C := s.length + 5 ≤ maxPacketSize) set_returns fun p hp => ?_).trans ?_
  · obtain rfl : p₁ = p := Except.ok.inj (h₁.symm.trans hp)
    rw [hsum, all_lift_bind_iff]
    simp only [Except.ok.injEq, forall_eq']
    refine (all_bind_congr set_returns fun p _ => hcheck p).trans ?_
    rw [all_setIndexed_iff]
    omega
  · rw [all_setIndexed_iff]
    exact and_iff_right (by decide)

section Read

variable {packet : Packet} {mem : Memory} {a : Word} {v : Byte} {n : ℕ}

theorem readMemoryLoop_returns (h : Holds packet [])
    (hall : All (· < maxPacketSize) (readMemoryLoopIndexed mem n a v (packet, buffer))) :
    Returns (readMemoryLoopIndexed mem n a v (packet, buffer)).result fun _ => True := by
  have hroom : 1 + 2 * (bytesRead mem n a).length < maxPacketSize :=
    (all_readMemoryLoopIndexed_iff mem n (show buffer < maxPacketSize by decide)).mp hall
  obtain ⟨packet', position, hread, -⟩ := readMemoryLoop_holds mem n (a := a) (v := v) h
    (by rw [List.length_nil]; omega)
  rw [result_readMemoryLoopIndexed]
  exact ⟨_, hread, trivial⟩

theorem all_frame_iff {gdb : GdbProtocolData} {r : Packet × ℕ} (h : Holds packet [])
    (hr : (readMemoryLoopIndexed mem n a v (packet, buffer)).result = .ok r) :
    All (· < maxPacketSize) (gdbSendBufferIndexed { gdb with packet := r.1 }) ↔
      2 * (bytesRead mem n a).length + 5 ≤ maxPacketSize := by
  rw [result_readMemoryLoopIndexed] at hr
  have hholds := readMemoryLoop_ensures mem n h r hr
  rw [List.nil_append] at hholds
  rw [all_gdbSendBufferIndexed_iff hholds fun c hc =>
    (IsPayload.flatMap (fun b _ => isPayload_sprintf02x b) c hc).1, length_flatMap_sprintf02x]

end Read

/-- All indices are in the packet if the digits of the bytes fit into it with their frame. -/
theorem all_readMemoryIndexed_iff {gdb : GdbProtocolData} {data : List Byte} {u : HandlerLocals}
    {a n : Word} (hscan : sscanfXX data u.address u.size = (a, n)) :
    All (· < maxPacketSize) (readMemoryIndexed gdb data u) ↔
      (bytesRead gdb.arm.mem n.toNat a).length ≤ 509 := by
  obtain ⟨p₁, h₁, hs₁⟩ := put_prefixed (t := []) (prefixed_nil gdb.packet) (by decide)
  have h₁ : gdb.packet.set buffer 0 = .ok p₁ := h₁
  rw [readMemoryIndexed, hscan]
  dsimp only
  refine (all_bind_congr (C := (bytesRead gdb.arm.mem n.toNat a).length ≤ 509) set_returns
    fun p hp => ?_).trans ?_
  · obtain rfl : p₁ = p := Except.ok.inj (h₁.symm.trans hp)
    refine (all_bind_congr (readMemoryLoop_returns hs₁) fun r hr => all_frame_iff hs₁ hr).trans ?_
    rw [all_readMemoryLoopIndexed_iff _ _ (show buffer < maxPacketSize by decide), buffer,
      maxPacketSize]
    dsimp only
    omega
  · rw [all_setIndexed_iff]
    exact and_iff_right (by decide)

end Bounds

/-! ## Requests -/

/-- How many of `n` bytes from an address can be read: in a memory that fills the whole
address space the addresses go on at 0. -/
def readable (mem : Memory) (a n : ℕ) : ℕ :=
  if 2 ^ 32 ≤ memoryGetSize mem then n else min n (memoryGetSize mem - a)

theorem length_bytesRead_eq (mem : Memory) (a : Word) (n : ℕ) :
    (bytesRead mem n a).length = readable mem a.toNat n := by
  unfold readable memoryGetSize
  split_ifs with hfull
  · induction n generalizing a with
    | zero => rfl
    | succ n ih =>
      rw [bytesRead, dif_pos (lt_of_lt_of_le a.isLt hfull), List.length_cons, ih]
  · rw [bytesRead_eq (Nat.lt_of_not_le hfull), bytesFrom, List.length_take, List.length_drop,
      Array.length_toList]

/-- A memory reply stays in the packet exactly if no more than 509 bytes can be read. -/
theorem readMemory_inBounds_iff (gdb : GdbProtocolData) (data : List Byte) (u : HandlerLocals) :
    (readMemoryIndexed gdb data u).result = readMemory gdb data u ∧
      (All (· < maxPacketSize) (readMemoryIndexed gdb data u) ↔
        readable gdb.arm.mem (sscanfXX data u.address u.size).1.toNat
          (sscanfXX data u.address u.size).2.toNat ≤ 509) := by
  refine ⟨result_readMemoryIndexed gdb data u, ?_⟩
  have hscan : sscanfXX data u.address u.size =
      ((sscanfXX data u.address u.size).1, (sscanfXX data u.address u.size).2) := rfl
  rw [all_readMemoryIndexed_iff hscan, length_bytesRead_eq]

/-- `$m0,1fe#..` fits the size that is announced, and the reply needs 1025 places. -/
theorem readMemory_inBounds_fails : ¬ ∀ (gdb : GdbProtocolData) (a n : Word)
    (text rest : List Byte) (u : HandlerLocals), IsBlock a n text → text.length + 5 ≤ 0x400 →
    All (· < maxPacketSize) (readMemoryIndexed gdb (text ++ 0 :: rest) u) := by
  intro h
  have hblock : IsBlock 0 510 (ascii "0,1fe") :=
    ⟨ascii "0", ascii "1fe", ⟨by decide, by decide⟩, ⟨by decide, by decide⟩, rfl⟩
  obtain ⟨arm, hsize⟩ : ∃ arm : ArmCore, memoryGetSize arm.mem = 510 :=
    ⟨⟨0, fun _ => 0, ⟨Array.replicate 510 0, true⟩⟩, Array.size_replicate⟩
  have hall := h (session arm) 0 510 _ [] noLocals hblock (by decide)
  rw [all_readMemoryIndexed_iff (hblock.sscanfXX (by decide) [] _ _), length_bytesRead_eq] at hall
  have hread : readable arm.mem 0 510 = 510 := by
    rw [readable, hsize]
    rfl
  exact absurd (hread.symm.trans_le hall) (by decide)

end ArmSimulator.Debugger
