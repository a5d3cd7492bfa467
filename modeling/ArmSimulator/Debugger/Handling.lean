import ArmSimulator.Debugger.Framing
import ArmSimulator.Decoding.Halting

/-! # When the handlers return

A handler that returns has replied. What stops one is a register in a mode
without a row in the bank table, a register number that fails its assertion, a
reply that outgrows its buffer, a text that ends too early, or the step it takes.
-/

namespace ArmSimulator.Debugger

open Machine Machine.Gdb Storage Transfers Decoding Foundation.ExceptRun

theorem returns_lift_iff {α : Type} {x : Except Stop α} {P : α → Prop} :
    Returns (liftM x : Except Halt α) P ↔ Returns x P :=
  exists_congr fun _ => and_congr_left fun _ => lift_eq_ok

/-! ## Registers -/

section Registers

variable [ByteOrder] {gdb : GdbProtocolData} {data : List Byte}

theorem readGeneralRegisters_returns_iff :
    Returns (readGeneralRegisters gdb) (Replied gdb) ↔ Banked gdb.arm :=
  ⟨fun ⟨_, h, _⟩ => readGeneralRegisters_mode h, readGeneralRegisters_ok⟩

theorem readRegister_returns_iff : Returns (Gdb.readRegister gdb data) (Replied gdb) ↔
    (atoi data).toNat < 16 ∧ Banked gdb.arm :=
  ⟨fun ⟨_, h, _⟩ => readRegister_bounds h, fun h => readRegister_ok h.1 h.2⟩

end Registers

/-! ## Words of a request -/

/-- Four pairs of characters that are numbers. -/
def WordParsed (data : List Byte) : Prop := ∀ j < 4, (sscanf02x (data.drop (2 * j))).isSome

instance (data : List Byte) : Decidable (WordParsed data) :=
  inferInstanceAs (Decidable (∀ j < 4, _))

theorem sscanf02x_nil : sscanf02x [] = none := rfl

theorem ne_nil_of_parsed {data : List Byte} (h : (sscanf02x data).isSome) : data ≠ [] := by
  rintro rfl
  exact absurd h (by rw [sscanf02x_nil]; decide)

theorem WordParsed.drop_ne_nil {data : List Byte} (h : WordParsed data) :
    ∀ j < 4, data.drop (2 * j) ≠ [] := fun j hj => ne_nil_of_parsed (h j hj)

section Words

variable [ByteOrder] {gdb : GdbProtocolData} {data : List Byte} {u : HandlerLocals}

theorem writeGeneralRegisters_returns_iff (h : ∀ i < 42, WordParsed (data.drop (8 * i))) :
    Returns (writeGeneralRegisters gdb data u) (Replied gdb) ↔ Banked gdb.arm := by
  have hskip : (List.range (8 * 3 + 1)).forM (fun i => discard
      (readUint32 (data.drop (8 * (16 + i))) (u.value (16 + i)))) = .ok ⟨⟩ :=
    discard_readUint32 (fun i hi => (h (16 + i) (by omega)).drop_ne_nil)
      fun i => u.value (16 + i)
  constructor
  · rintro ⟨gdb', h, -⟩
    -- the first write
    obtain ⟨arm, harm, -⟩ := bind_eq_ok.mp h
    rw [show List.range 16 = 0 :: (List.range 16).tail by decide, List.foldlM_cons] at harm
    obtain ⟨arm₁, harm₁, -⟩ := bind_eq_ok.mp harm
    obtain ⟨value, -, hwrite⟩ := bind_eq_ok.mp harm₁
    exact armWriteRegister_mode (by omega) hwrite
  · intro hmode
    have hregs : Returns ((List.range 16).foldlM (fun arm i => do
        let value ← readUint32 (data.drop (8 * i)) (u.value i)
        armWriteRegister arm i value) gdb.arm) Banked := by
      refine returns_foldlM_mem _ (fun arm i hi harm => ?_) hmode
      have hlt := List.mem_range.mp hi
      refine (readUint32_returns (h i (by omega)).drop_ne_nil _).bind fun value _ => ?_
      exact (armWriteRegister_returns harm i value).mono fun _ hp => hp.1
    refine hregs.bind fun arm _ => ?_
    rw [hskip, ok_bind]
    refine (readUint32_returns (h 41 (by omega)).drop_ne_nil _).bind fun value _ => ?_
    exact gdbSendData_replies { gdb with arm := armWriteCpsr arm value } (by decide) (by decide)

theorem writeRegister_returns_iff (h : WordParsed (afterIndex (char '=') data)) :
    Returns (Gdb.writeRegister gdb data u) (Replied gdb) ↔
      (((sscanfX data).map Prod.fst).getD u.reg).toNat < 16 ∧ Banked gdb.arm := by
  unfold Gdb.writeRegister
  refine (readUint32_returns h.drop_ne_nil _).bind_iff fun value _ _ => ?_
  split_ifs with hreg
  · rw [and_iff_right hreg]
    constructor
    · rintro ⟨gdb', h, -⟩
      obtain ⟨arm, harm, -⟩ := bind_eq_ok.mp h
      exact armWriteRegister_mode (by omega) harm
    · intro hmode
      exact (armWriteRegister_returns hmode _ value).bind fun arm _ =>
        gdbSendData_replies { gdb with arm } (by decide) (by decide)
  · refine iff_of_false ?_ fun h => hreg h.1
    rintro ⟨gdb', h, -⟩
    cases h

end Words

/-! ## Reads of memory -/

section Buffers

variable {gdb : GdbProtocolData} {packet : Packet} {s t : List Byte}

theorem set_room {size i : ℕ} {a : CharArray size} (c : Byte) :
    Ensures (a.set i c) fun _ => i < size := by
  unfold CharArray.set
  split
  · rename_i h
    exact ensures_ok h
  · exact ensures_error _

theorem put_room {size : ℕ} : ∀ {s : List Byte} {a : CharArray size} {i : ℕ},
    Ensures (a.put i s) fun _ => i + s.length < size
  | [], _, _ => set_room 0
  | c :: s, _, i => ensures_bind fun _ => put_room.mono fun _ h => by
      rw [List.length_cons]
      omega

theorem append_ensures (h : Prefixed packet s) : Ensures (append (packet, 1 + s.length) t)
    fun r => r.2 = 1 + (s ++ t).length ∧ Holds r.1 (s ++ t) := by
  intro r hr
  have hroom := hr
  obtain ⟨packet', hput, -⟩ := bind_eq_ok.mp hroom
  have hlen : 1 + s.length + t.length < maxPacketSize := put_room _ hput
  obtain ⟨p₁, hp₁, hholds⟩ := append_holds (t := t) h (by omega)
  rw [hp₁, Except.ok.injEq] at hr
  exact hr ▸ ⟨rfl, hholds⟩

theorem gdbSendBuffer_room (gdb : GdbProtocolData) (h : Holds gdb.packet s)
    (hs : ∀ c ∈ s, c ≠ 0) :
    Ensures (gdbSendBuffer gdb) fun _ => s.length + 5 ≤ maxPacketSize := by
  obtain ⟨p₁, post, h₁, -, hsum⟩ := checkSum_opened h hs
  rw [gdbSendBuffer, h₁, ok_bind, hsum, ok_bind]
  refine ensures_bind fun p₂ => ensures_bind fun p₃ => ?_
  refine (set_room 0).bind fun p₄ hroom => ensures_pure ?_
  omega

theorem readMemoryLoop_ensures (mem : Memory) (n : ℕ) :
    ∀ {a : Word} {v : Byte} {packet : Packet} {s : List Byte}, Holds packet s →
      Ensures (readMemoryLoop mem n a v (packet, 1 + s.length))
        fun r => Holds r.1 (s ++ (bytesRead mem n a).flatMap sprintf02x) := by
  induction n with
  | zero =>
    intro a v packet s h
    exact ensures_ok (by simpa [bytesRead] using h)
  | succ n ih =>
    intro a v packet s h
    by_cases ha : a.toNat < mem.values.size
    · rw [readMemoryLoop, memoryReadByte_eq (Array.getElem?_eq_getElem ha), ok_bind, bytesRead,
        dif_pos ha, List.flatMap_cons, ← List.append_assoc]
      refine (append_ensures h.prefixed).bind fun r hr => ?_
      obtain ⟨packet', position⟩ := r
      obtain ⟨rfl, hholds⟩ := hr
      exact ih hholds
    · rw [readMemoryLoop, memoryReadByte_past (by omega), ok_bind, bytesRead, dif_neg ha,
        List.flatMap_nil, List.append_nil]
      exact ensures_ok h

theorem readMemory_returns_iff {data : List Byte} {u : HandlerLocals} {a n : Word}
    (hscan : sscanfXX data u.address u.size = (a, n)) :
    Returns (readMemory gdb data u) (Replied gdb) ↔
      (bytesRead gdb.arm.mem n.toNat a).length ≤ 509 := by
  constructor
  · rintro ⟨gdb', h, -⟩
    obtain ⟨p₁, h₁, hs₁⟩ := put_prefixed (t := []) (prefixed_nil gdb.packet) (by decide)
    have h₁ : gdb.packet.set buffer 0 = .ok p₁ := h₁
    rw [readMemory, hscan] at h
    simp only [h₁, ok_bind] at h
    obtain ⟨r, hr, hsend⟩ := bind_eq_ok.mp h
    have hholds := readMemoryLoop_ensures gdb.arm.mem n.toNat hs₁ r hr
    rw [List.nil_append, List.nil_append] at hholds
    have hroom := gdbSendBuffer_room { gdb with packet := r.1 } hholds
      (fun c hc => (IsPayload.flatMap (fun b _ => isPayload_sprintf02x b) c hc).1) _ hsend
    rw [length_flatMap_sprintf02x, maxPacketSize] at hroom
    omega
  · intro hlen
    obtain ⟨gdb', hread, hanswered⟩ := readMemory_answered gdb hscan hlen
    exact ⟨gdb', hread, hanswered.replied (.flatMap fun b _ => isPayload_sprintf02x b)⟩

end Buffers

/-! ## Writes of memory -/

/-- The text has a byte for each of `n` iterations of `write_memory_binary`. -/
def HasBytes : ℕ → List Byte → Prop
  | 0, _ => True
  | n + 1, content => Returns (takeBinary content) fun r => HasBytes n r.2

/-- The iterations for `n` bytes from an address in the memory or right behind it. -/
def loopTurns (mem : Memory) (n a : ℕ) : ℕ :=
  if 2 ^ 32 ≤ mem.values.size then n else min n (mem.values.size - a + 1)

/-- The iterations of `write_memory_binary`: it stops at the first byte that is rejected. -/
def writeTurns (mem : Memory) (n a : ℕ) : ℕ :=
  if a < mem.values.size then loopTurns mem n a else 0

section Binary

variable {gdb : GdbProtocolData} {mem : Memory} {a : Word}

theorem loopTurns_zero (mem : Memory) (a : ℕ) : loopTurns mem 0 a = 0 := by
  unfold loopTurns
  split <;> omega

theorem loopTurns_pos (mem : Memory) (n a : ℕ) : ∃ k, loopTurns mem (n + 1) a = k + 1 := by
  unfold loopTurns
  split
  · exact ⟨n, rfl⟩
  · exact ⟨min (n + 1) (mem.values.size - a + 1) - 1, by omega⟩

theorem loopTurns_outside (ha : ¬ a.toNat < mem.values.size) (n : ℕ) :
    loopTurns mem (n + 1) a.toNat = 1 := by
  have hlast := a.isLt
  unfold loopTurns
  split <;> omega

theorem loopTurns_succ (ha : a.toNat < mem.values.size) (n : ℕ) :
    loopTurns mem (n + 1) a.toNat = loopTurns mem n (a + 1).toNat + 1 := by
  unfold loopTurns
  split
  · rfl
  · rw [toNat_succ_address (by omega) ha]
    omega

theorem writeBinaryLoop_returns_iff (n : ℕ) : ∀ {mem : Memory} {a : Word} {content : List Byte},
    a.toNat ≤ mem.values.size →
    (Returns (writeBinaryLoop n mem a content true) (fun _ => True) ↔
      HasBytes (loopTurns mem n a.toNat) content) := by
  induction n with
  | zero =>
    intro mem a content _
    rw [loopTurns_zero]
    exact iff_of_true (returns_pure trivial) trivial
  | succ n ih =>
    intro mem a content ha
    cases htake : takeBinary content with
    | error stop =>
      obtain ⟨k, hk⟩ := loopTurns_pos mem n a.toNat
      rw [hk, HasBytes, htake, writeBinaryLoop, if_pos rfl, htake]
      exact iff_of_false (not_returns_error _) (not_returns_error _)
    | ok r =>
      obtain ⟨b, rest⟩ := r
      rw [writeBinaryLoop_succ htake]
      split_ifs with hlt
      · have hle : (a + 1).toNat ≤ mem.values.size := by
          rw [BitVec.toNat_add]
          exact (Nat.mod_le _ _).trans hlt
        have hsize : (mem.values.setIfInBounds a.toNat b).size = mem.values.size :=
          Array.size_setIfInBounds ..
        rw [loopTurns_succ hlt, HasBytes, htake, returns_ok_iff, ih (hle.trans_eq hsize.symm)]
        unfold loopTurns
        rw [hsize]
      · rw [loopTurns_outside hlt, HasBytes, htake]
        exact iff_of_true (returns_pure trivial) (returns_ok_iff.mpr trivial)

theorem writeMemoryBinary_returns_iff {data : List Byte} {u : HandlerLocals} {n : Word}
    (hscan : sscanfXX data u.address u.size = (a, n)) :
    Returns (writeMemoryBinary gdb data u) (Replied gdb) ↔
      HasBytes (writeTurns gdb.arm.mem n.toNat a.toNat) (afterIndex (char ':') data) := by
  have hreply (r : Memory × Bool) : Returns (if r.2
      then gdbSendData { gdb with arm := { gdb.arm with mem := r.1 } } (ascii "OK")
      else gdbSendData { gdb with arm := { gdb.arm with mem := r.1 } } (ascii "E02"))
      (Replied gdb) := by
    split
    · exact gdbSendData_replies { gdb with arm := { gdb.arm with mem := r.1 } } (by decide)
        (by decide)
    · exact gdbSendData_replies { gdb with arm := { gdb.arm with mem := r.1 } } (by decide)
        (by decide)
  have hloop : Returns (writeMemoryBinary gdb data u) (Replied gdb) ↔
      Returns (writeBinaryLoop n.toNat gdb.arm.mem a (afterIndex (char ':') data)
        (decide (a.toNat < memoryGetSize gdb.arm.mem))) fun _ => True := by
    rw [writeMemoryBinary, hscan]
    dsimp only
    rw [returns_bind_iff]
    exact returns_congr fun r _ => iff_true_intro (hreply r)
  rw [hloop, writeTurns]
  split_ifs with ha
  · rw [decide_eq_true (show a.toNat < memoryGetSize gdb.arm.mem from ha)]
    exact writeBinaryLoop_returns_iff n.toNat ha.le
  · rw [decide_eq_false (show ¬ a.toNat < memoryGetSize gdb.arm.mem from ha), writeBinaryLoop_false]
    exact iff_of_true (returns_pure trivial) trivial

end Binary

/-! ## The other handlers -/

section Others

variable {gdb : GdbProtocolData} {data : List Byte}

theorem setThread_returns_iff : Returns (setThread gdb data) (Replied gdb) ↔ data ≠ [] := by
  constructor
  · rintro h rfl
    exact not_returns_error _ h
  · exact fun h => setThread_replies gdb h

variable [Host] {u : HandlerLocals}

theorem step_returns_iff : Returns (Gdb.step gdb u) (Replied gdb) ↔
    Returns (armStep (u.steps 0) gdb.arm) fun _ => True := by
  rw [Gdb.step, returns_bind_iff]
  exact returns_congr fun r _ => iff_true_intro
    (gdbSendStopReason_replies { gdb with arm := r.2, targetException := r.1 })

theorem step_exit (h : ExecutesExit (u.steps 0) gdb.arm) : Gdb.step gdb u = .error (.exit 0) := by
  rw [Gdb.step, armStep_exit h]
  rfl

end Others

end ArmSimulator.Debugger
