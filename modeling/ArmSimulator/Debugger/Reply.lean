import ArmSimulator.Foundation.ExceptRun
import ArmSimulator.Machine.GdbProtocol

/-! # Building and sending a reply

The handlers write the payload of their reply piece by piece, each piece with a
terminator that the next one overwrites. The payload is then framed where it
stands and sent.
-/

namespace ArmSimulator.Debugger

open Machine Machine.Gdb Foundation.ExceptRun Foundation.Numeral

/-! ## Arrays of characters -/

section Arrays

variable {size : ℕ} {a : CharArray size} {pre post s : List Byte}

theorem set_eq {b : Byte} {i : ℕ} (c : Byte) (h : a.cells = pre ++ b :: post)
    (hi : i = pre.length) : ∃ a', a.set i c = .ok a' ∧ a'.cells = pre ++ c :: post := by
  subst hi
  have hlen : pre.length < size := by
    rw [← a.size_eq, h, List.length_append, List.length_cons]
    omega
  refine ⟨_, if_pos hlen, ?_⟩
  simp [h]

theorem put_eq : ∀ {s : List Byte} {a : CharArray size} {pre post : List Byte} {i : ℕ},
    a.cells = pre ++ post → i = pre.length → s.length < post.length →
    ∃ a' post', a.put i s = .ok a' ∧ a'.cells = pre ++ (s ++ 0 :: post')
  | _, _, _, [], _, _, _, hlen => absurd hlen (Nat.not_lt_zero _)
  | [], a, pre, b :: post, i, h, hi, _ => by
    obtain ⟨a', ha', hcells⟩ := set_eq 0 h hi
    exact ⟨a', post, ha', hcells⟩
  | c :: s, a, pre, b :: post, i, h, hi, hlen => by
    obtain ⟨a₁, ha₁, hcells⟩ := set_eq c h hi
    rw [List.append_cons] at hcells
    obtain ⟨a', post', ha', hcells'⟩ := put_eq (i := i + 1) hcells
      (by rw [List.length_append, hi]; rfl) (Nat.lt_of_succ_lt_succ hlen)
    refine ⟨a', post', ?_, ?_⟩
    · rw [CharArray.put, ha₁, ok_bind, ha']
    · rw [hcells', List.append_assoc, List.singleton_append, List.cons_append]

end Arrays

/-! ## The payload under construction -/

/-- The text from `packet[1]` on starts with `s`. -/
def Prefixed (packet : Packet) (s : List Byte) : Prop := ∃ c post, packet.cells = c :: (s ++ post)

/-- The string at `packet[1]` is `s`. -/
def Holds (packet : Packet) (s : List Byte) : Prop :=
  ∃ c post, packet.cells = c :: (s ++ 0 :: post)

theorem Holds.prefixed {packet : Packet} {s : List Byte} (h : Holds packet s) :
    Prefixed packet s := by
  obtain ⟨c, post, hcells⟩ := h
  exact ⟨c, 0 :: post, hcells⟩

theorem prefixed_nil (packet : Packet) : Prefixed packet [] := by
  cases h : packet.cells with
  | nil =>
    have hsize := packet.size_eq
    rw [h] at hsize
    exact absurd hsize (by decide)
  | cons c post => exact ⟨c, post, h⟩

variable {packet : Packet} {s t : List Byte}

theorem put_prefixed (h : Prefixed packet s) (hlen : s.length + t.length + 2 ≤ maxPacketSize) :
    ∃ packet', packet.put (1 + s.length) t = .ok packet' ∧ Holds packet' (s ++ t) := by
  obtain ⟨c, post, hcells⟩ := h
  have hsize := packet.size_eq
  rw [hcells, List.length_cons, List.length_append] at hsize
  rw [← List.cons_append] at hcells
  obtain ⟨packet', post', hput, hcells'⟩ := put_eq (s := t) (i := 1 + s.length) hcells
    (by rw [List.length_cons, Nat.add_comm]) (by omega)
  refine ⟨packet', hput, c, post', ?_⟩
  rw [hcells', List.cons_append, List.append_assoc]

/-- The step appends the text `t` to any payload it fits behind. -/
def Appends (step : Packet × ℕ → Except Stop (Packet × ℕ)) (t : List Byte) : Prop :=
  ∀ packet s, Prefixed packet s → s.length + t.length + 2 ≤ maxPacketSize →
    ∃ packet', step (packet, 1 + s.length) = .ok (packet', 1 + (s ++ t).length) ∧
      Prefixed packet' (s ++ t)

theorem append_holds (h : Prefixed packet s) (hlen : s.length + t.length + 2 ≤ maxPacketSize) :
    ∃ packet', append (packet, 1 + s.length) t = .ok (packet', 1 + (s ++ t).length) ∧
      Holds packet' (s ++ t) := by
  obtain ⟨packet', hput, hholds⟩ := put_prefixed h hlen
  refine ⟨packet', ?_, hholds⟩
  rw [append, hput, ok_bind, List.length_append, ← Nat.add_assoc]
  rfl

theorem appends_append (t : List Byte) : Appends (fun s => append s t) t := by
  intro packet s h hlen
  obtain ⟨packet', happend, hholds⟩ := append_holds h hlen
  exact ⟨packet', happend, hholds.prefixed⟩

theorem appends_foldlM {ι : Type} {step : Packet × ℕ → ι → Except Stop (Packet × ℕ)}
    {text : ι → List Byte} (is : List ι) (h : ∀ i ∈ is, Appends (fun s => step s i) (text i)) :
    Appends (fun s => is.foldlM step s) (is.flatMap text) := by
  induction is with
  | nil =>
    intro packet s hs _
    exact ⟨packet, by rw [List.flatMap_nil, List.append_nil]; rfl, by simpa using hs⟩
  | cons i is ih =>
    intro packet s hs hlen
    rw [List.flatMap_cons, List.length_append] at hlen
    obtain ⟨p₁, h₁, hs₁⟩ := h i List.mem_cons_self packet s hs (by omega)
    obtain ⟨p₂, h₂, hs₂⟩ := ih (fun j hj => h j (List.mem_cons_of_mem i hj)) p₁ _ hs₁ (by
      rw [List.length_append]
      omega)
    rw [List.append_assoc, ← List.flatMap_cons] at h₂ hs₂
    refine ⟨p₂, ?_, hs₂⟩
    have hstep : step (packet, 1 + s.length) i = _ := h₁
    change (step (packet, 1 + s.length) i >>= fun s => is.foldlM step s) = _
    rw [hstep, ok_bind]
    exact h₂

/-! ## Sending -/

/-- What goes over the line for a payload. -/
def frame (payload : List Byte) : List Byte :=
  char '$' :: (payload ++ char '#' :: sprintf02x payload.sum)

theorem length_frame (payload : List Byte) : (frame payload).length = payload.length + 4 := by
  rw [frame, List.length_cons, List.length_append, List.length_cons, length_sprintf02x]

/-- No terminator, and none of the two characters that frame a payload. -/
def IsPayload (s : List Byte) : Prop := ∀ c ∈ s, c ≠ 0 ∧ c ≠ char '$' ∧ c ≠ char '#'

instance (s : List Byte) : Decidable (IsPayload s) := inferInstanceAs (Decidable (∀ c ∈ s, _))

theorem checkSum_eq (hs : ∀ c ∈ s, c ≠ 0) (post : List Byte) : ∀ (i : ℕ) (check : Byte),
    checkSum (s ++ 0 :: post) i check = .ok (check + s.sum, i + s.length) := by
  induction s with
  | nil =>
    intro i check
    rw [List.nil_append, checkSum, if_pos rfl, List.sum_nil, add_zero]
    rfl
  | cons c s ih =>
    intro i check
    rw [List.cons_append, checkSum, if_neg (hs c List.mem_cons_self),
      ih fun d hd => hs d (List.mem_cons_of_mem c hd)]
    rw [List.sum_cons, List.length_cons, BitVec.add_assoc, Nat.add_assoc, Nat.add_comm 1]

/-- The reply with this payload has been sent and stands in the packet. -/
structure Answered (gdb : GdbProtocolData) (payload : List Byte) (gdb' : GdbProtocolData) :
    Prop where
  arm : gdb'.arm = gdb.arm
  written : gdb'.written = gdb.written ++ [frame payload]
  held : gdb'.packet.cells.take gdb'.len = frame payload

theorem checkSum_opened (h : Holds packet s) (hs : ∀ c ∈ s, c ≠ 0) :
    ∃ packet' post, packet.set 0 (char '$') = .ok packet' ∧
      packet'.cells = (char '$' :: s) ++ 0 :: post ∧
      checkSum (packet'.cells.drop 1) 1 0 = .ok (0 + s.sum, 1 + s.length) := by
  obtain ⟨c, post, hcells⟩ := h
  obtain ⟨p₁, h₁, hcells₁⟩ := set_eq (i := 0) (char '$')
    (show packet.cells = [] ++ c :: (s ++ 0 :: post) from hcells) rfl
  refine ⟨p₁, post, h₁, hcells₁, ?_⟩
  rw [hcells₁]
  exact checkSum_eq hs post 1 0

theorem gdbSendBuffer_answered (gdb : GdbProtocolData) (h : Holds gdb.packet s)
    (hs : IsPayload s) (hlen : s.length + 5 ≤ maxPacketSize) :
    ∃ gdb', gdbSendBuffer gdb = .ok gdb' ∧ Answered gdb s gdb' := by
  obtain ⟨p₁, post, h₁, hcells₁, hsum⟩ := checkSum_opened h fun c hc => (hs c hc).1
  have hsize := p₁.size_eq
  rw [hcells₁, List.length_append, List.length_cons, List.length_cons] at hsize
  obtain ⟨p₂, h₂, hcells₂⟩ := set_eq (i := 1 + s.length) (char '#') hcells₁
    (by rw [List.length_cons, Nat.add_comm])
  rw [List.append_cons] at hcells₂
  obtain ⟨p₃, post₃, h₃, hcells₃⟩ := put_eq (s := sprintf02x (0 + s.sum)) (i := 1 + s.length + 1)
    hcells₂ (by simp [Nat.add_comm]) (by rw [length_sprintf02x]; omega)
  rw [← List.append_assoc] at hcells₃
  obtain ⟨p₄, h₄, hcells₄⟩ := set_eq (i := 1 + s.length + 1 + 2) 0 hcells₃
    (by simp; omega)
  have hframe : p₄.cells = frame s ++ 0 :: post₃ := by
    rw [hcells₄]
    simp [frame]
  have hlen₄ : 1 + s.length + 1 + 2 = (frame s).length := by
    rw [length_frame]
    omega
  have hheld : p₄.cells.take (1 + s.length + 1 + 2) = frame s := by
    rw [hlen₄, hframe, List.take_left]
  refine ⟨gdbTransmitPacket { gdb with packet := p₄, len := 1 + s.length + 1 + 2 }, ?_, rfl, ?_,
    hheld⟩
  · rw [gdbSendBuffer, h₁, ok_bind, hsum, ok_bind]
    simp only [h₂, h₃, h₄, ok_bind]
    rfl
  · exact congrArg (gdb.written ++ [·]) hheld

theorem gdbSendData_answered (gdb : GdbProtocolData) (hs : IsPayload s)
    (hlen : s.length + 5 ≤ maxPacketSize) :
    ∃ gdb', gdbSendData gdb s = .ok gdb' ∧ Answered gdb s gdb' := by
  obtain ⟨packet, hput, hholds⟩ := put_prefixed (t := s) (prefixed_nil gdb.packet)
    (show 0 + s.length + 2 ≤ _ by omega)
  obtain ⟨gdb', hsend, hanswered⟩ := gdbSendBuffer_answered { gdb with packet } hholds hs hlen
  refine ⟨gdb', ?_, hanswered.arm, hanswered.written, hanswered.held⟩
  have hput : gdb.packet.put buffer s = .ok packet := hput
  rw [gdbSendData, hput, ok_bind, hsend]

end ArmSimulator.Debugger
