import Mathlib.Algebra.Order.Floor.Div
import ArmSimulator.Debugger.ReplyBound
import ArmSimulator.Debugger.Retransmission

/-! # The buffer for stray bytes

The scanner keeps stray bytes until another token comes, or until there is room for
their terminator only. Every time it gives them up it asks once for retransmission, so
a run of them costs one request for each 1023, the last before the token behind it.
-/

namespace ArmSimulator.Debugger

open Machine Machine.Gdb Foundation.ExceptRun Foundation.Recording Foundation.Recording.Recorded

/-! ## The functions with their indices -/

def handleErrorIndexed (data : ParserData) : Indexed ParserData :=
  if data.len ≠ 0 then do
    let buffer ← setIndexed data.buffer data.len 0
    return { gdb := gdbRequireRetransmission data.gdb, buffer, len := 0 }
  else return data

def addCharacterToErrorIndexed (data : ParserData) (c : Byte) : Indexed ParserData := do
  let data ← if maxErrorSize - 2 < data.len then handleErrorIndexed data else pure data
  let buffer ← setIndexed data.buffer data.len c
  return { data with buffer, len := data.len + 1 }

section Scanner

variable [Host] [ByteOrder]

/-- The rules, with the indices they store at in the buffer for stray bytes. -/
def scanIndexed (data : ParserData) : Token → Recorded ℕ Halt ParserData
  | .stray c => mapError .stopped (addCharacterToErrorIndexed data c)
  | t => do
    let data ← mapError .stopped (handleErrorIndexed data)
    lift (act data t)

end Scanner

/-! ## Without the record -/

theorem result_handleErrorIndexed (s : ParserData) :
    (handleErrorIndexed s).result = handleError s := by
  unfold handleErrorIndexed handleError
  split
  · rw [result_bind]
    rfl
  · rfl

theorem result_addCharacterToErrorIndexed (s : ParserData) (c : Byte) :
    (addCharacterToErrorIndexed s c).result = addCharacterToError s c := by
  unfold addCharacterToErrorIndexed addCharacterToError
  split
  · simp only [result_bind, result_handleErrorIndexed]
    rfl
  · simp only [result_bind]
    rfl

section Runs

variable [Host] [ByteOrder] {s s' : ParserData}

theorem result_scanIndexed (s : ParserData) (t : Token) : (scanIndexed s t).result = scan s t := by
  have hrule {t : Token} (ht : ¬ IsStray t) :
      (mapError .stopped (handleErrorIndexed s) >>= fun s => lift (act s t)).result =
        scan s t := by
    rw [result_bind, scan_eq ht, ← result_handleErrorIndexed]
    rfl
  cases t with
  | plus => exact hrule id
  | minus => exact hrule id
  | packet r => exact hrule id
  | stray c => exact congrArg (Except.mapError _) (result_addCharacterToErrorIndexed s c)
  | eof => exact hrule id

/-! ## Indices within the buffer -/

omit [Host] [ByteOrder] in
theorem all_handleErrorIndexed (h : s.len < maxErrorSize) :
    All (· < maxErrorSize) (handleErrorIndexed s) := by
  unfold handleErrorIndexed
  split
  · exact all_bind_iff.mpr ⟨all_setIndexed_iff.mpr h, fun _ _ => all_pure _⟩
  · exact all_pure s

omit [Host] [ByteOrder] in
theorem all_addCharacterToErrorIndexed (h : s.len < maxErrorSize) (c : Byte) :
    All (· < maxErrorSize) (addCharacterToErrorIndexed s c) := by
  have hstore {s : ParserData} (h : s.len < maxErrorSize) : All (· < maxErrorSize) (do
      let buffer ← setIndexed s.buffer s.len c
      return { s with buffer, len := s.len + 1 }) :=
    all_bind_iff.mpr ⟨all_setIndexed_iff.mpr h, fun _ _ => all_pure _⟩
  unfold addCharacterToErrorIndexed
  split
  · refine all_bind_iff.mpr ⟨all_handleErrorIndexed h, fun s₁ hs₁ => hstore ?_⟩
    obtain ⟨s₂, hs₂, hlen, -⟩ := handleError_ok h
    rw [result_handleErrorIndexed, hs₂, Except.ok.injEq] at hs₁
    rw [← hs₁, hlen]
    decide
  · exact hstore h

theorem all_scanIndexed (h : s.len < maxErrorSize) (t : Token) :
    All (· < maxErrorSize) (scanIndexed s t) := by
  have hrule {t : Token} : All (· < maxErrorSize)
      (mapError .stopped (handleErrorIndexed s) >>= fun s => lift (act s t)) :=
    all_bind_lift_iff.mpr (all_handleErrorIndexed h)
  cases t with
  | plus => exact hrule
  | minus => exact hrule
  | packet r => exact hrule
  | stray c => exact all_addCharacterToErrorIndexed h c
  | eof => exact hrule

/-! ## The length -/

theorem scan_len (h : s.len < maxErrorSize) (t : Token) :
    Ensures (scan s t) fun s' => s'.len < maxErrorSize ∧ (¬ IsStray t → s'.len = 0) := by
  by_cases ht : IsStray t
  · cases t with
    | stray c =>
      obtain ⟨s₁, hs₁, hkept⟩ := addCharacterToError_ok h c
      rw [scan, hs₁]
      refine ensures_ok ⟨?_, absurd ht⟩
      unfold maxErrorSize at *
      split_ifs at hkept <;> omega
    | _ => exact ht.elim
  · obtain ⟨s₁, hs₁, hlen, -⟩ := scan_act h ht
    rw [hs₁]
    refine (act_len s₁ t).mono fun s' hs' => ?_
    rw [hs', hlen]
    exact ⟨by decide, fun _ => rfl⟩

theorem run_len {arm : ArmCore} {contents : Packet} {errors : CharArray maxErrorSize}
    (tokens : List Token) :
    Ensures (tokens.foldlM scan (gdbScanner arm contents errors)) fun s =>
      s.len < maxErrorSize ∧ ((∀ t ∈ tokens.getLast?, ¬ IsStray t) → s.len = 0) := by
  have hstart : (gdbScanner arm contents errors).len < maxErrorSize :=
    show 0 < maxErrorSize by decide
  cases tokens using List.reverseRecOn with
  | nil => exact ensures_pure ⟨hstart, fun _ => rfl⟩
  | append_singleton tokens t =>
    rw [List.foldlM_append, List.getLast?_concat]
    have hrun : Ensures (tokens.foldlM scan (gdbScanner arm contents errors))
        fun s => s.len < maxErrorSize :=
      ensures_foldlM (fun s t hs => (scan_len hs t).mono fun _ => And.left) tokens hstart
    refine hrun.bind fun s hs => ?_
    rw [List.foldlM_cons]
    refine (scan_len hs t).bind fun s' hs' => ensures_pure ?_
    exact ⟨hs'.1, fun ht => hs'.2 (ht t rfl)⟩

/-! ## Requests for retransmission -/

/-- The state after `n` more requests for retransmission. -/
def asked (gdb : GdbProtocolData) (n : ℕ) : GdbProtocolData :=
  { gdb with written := gdb.written ++ List.replicate n (ascii "-") }

omit [Host] [ByteOrder] in
theorem gdbRequireRetransmission_asked (gdb : GdbProtocolData) (n : ℕ) :
    gdbRequireRetransmission (asked gdb n) = asked gdb (n + 1) := by
  rw [gdbRequireRetransmission, rioWriten, asked, asked, List.replicate_succ', List.append_assoc]

/-- What a run of `n` stray bytes costs. -/
def requests (n : ℕ) : ℕ := n ⌈/⌉ (maxErrorSize - 1)

omit [Host] [ByteOrder] in
theorem requests_eq (n : ℕ) : requests n = (n + 1022) / 1023 := by
  rw [requests, Nat.ceilDiv_eq_add_pred_div, maxErrorSize]
  omega

/-- `n` stray bytes in a row, the first of them in an empty buffer: all but one of the
requests they cost have been sent. -/
structure Kept (gdb : GdbProtocolData) (n : ℕ) (s : ParserData) : Prop where
  len : s.len = n - (maxErrorSize - 1) * (requests n - 1)
  gdb : s.gdb = asked gdb (requests n - 1)

variable {gdb : GdbProtocolData} {n : ℕ}

omit [Host] [ByteOrder] in
theorem Kept.bounds (h : Kept gdb n s) : s.len ≤ maxErrorSize - 1 ∧ (s.len = 0 ↔ n = 0) := by
  have hlen := h.len
  rw [requests_eq] at hlen
  unfold maxErrorSize at *
  omega

omit [Host] [ByteOrder] in
theorem kept_zero (h : s.len = 0) : Kept s.gdb 0 s where
  len := h
  gdb := by
    change s.gdb = { s.gdb with written := s.gdb.written ++ [] }
    rw [List.append_nil]

theorem Kept.stray (h : Kept gdb n s) (c : Byte) :
    Returns (scan s (.stray c)) (Kept gdb (n + 1)) := by
  have hle := h.bounds.1
  have hlen := h.len
  have hgdb := h.gdb
  obtain ⟨s', hs', hkept⟩ := addCharacterToError_ok (s := s) (by unfold maxErrorSize at *; omega) c
  refine ⟨s', lift_eq_ok.mpr hs', ?_⟩
  rw [requests_eq] at hlen hgdb
  unfold maxErrorSize at *
  split_ifs at hkept with hfull
  · have hmore : (n + 1 + 1022) / 1023 - 1 = (n + 1022) / 1023 - 1 + 1 := by omega
    refine ⟨?_, ?_⟩
    · rw [requests_eq, hkept.1]
      unfold maxErrorSize
      omega
    · rw [requests_eq, hkept.2, hgdb, gdbRequireRetransmission_asked, hmore]
  · have hsame : (n + 1 + 1022) / 1023 - 1 = (n + 1022) / 1023 - 1 := by omega
    refine ⟨?_, ?_⟩
    · rw [requests_eq, hkept.1, hsame]
      unfold maxErrorSize
      omega
    · rw [requests_eq, hkept.2, hgdb, hsame]

theorem Kept.strays (h : Kept gdb n s) (cs : List Byte) :
    Returns ((cs.map Token.stray).foldlM scan s) (Kept gdb (n + cs.length)) := by
  induction cs generalizing n s with
  | nil => exact returns_pure h
  | cons c cs ih =>
    rw [List.map_cons, List.foldlM_cons, List.length_cons, Nat.add_comm cs.length, ← Nat.add_assoc]
    exact (h.stray c).bind fun s' hs' => ih hs'

/-- The stray bytes `cs` and then `t`: they cost their requests, the last of them before the
rest of the rule for `t`, and nothing else. -/
def Complains (s : ParserData) (cs : List Byte) (t : Token) : Prop :=
  ∃ s', (cs.map Token.stray).foldlM scan s = .ok s' ∧
    s'.gdb = asked s.gdb (requests cs.length - 1) ∧
    ∃ s₁, scan s' t = act s₁ t ∧ s₁.len = 0 ∧ s₁.gdb = asked s.gdb (requests cs.length)

theorem complains_of_empty (h : s.len = 0) (cs : List Byte) {t : Token} (ht : ¬ IsStray t) :
    Complains s cs t := by
  obtain ⟨s', hs', hkept⟩ := (kept_zero h).strays cs
  rw [Nat.zero_add] at hkept
  have hbounds := hkept.bounds
  have hroom : s'.len < maxErrorSize := by
    unfold maxErrorSize at *
    omega
  obtain ⟨s₁, hs₁, hlen, hgdb⟩ := scan_act hroom ht
  refine ⟨s', hs', hkept.gdb, s₁, hs₁, hlen, hgdb.trans ?_⟩
  rw [complaint, hkept.gdb]
  split_ifs with hpending
  · have hlast : requests cs.length = requests cs.length - 1 + 1 := by
      rw [requests_eq]
      omega
    rw [hlast, ← gdbRequireRetransmission_asked]
    rfl
  · have hnone : requests cs.length = requests cs.length - 1 := by
      rw [requests_eq]
      omega
    rw [List.append_nil, ← hnone]

/-- In every run the buffer is kept within its bounds, and each run of stray bytes is
complained of. -/
theorem errorBuffer_run (arm : ArmCore) (contents : Packet) (errors : CharArray maxErrorSize)
    (tokens : List Token) :
    (tokens.foldlM scanIndexed (gdbScanner arm contents errors)).result =
        tokens.foldlM scan (gdbScanner arm contents errors) ∧
      All (· < maxErrorSize) (tokens.foldlM scanIndexed (gdbScanner arm contents errors)) ∧
      Ensures (tokens.foldlM scan (gdbScanner arm contents errors)) fun s =>
        s.len ≤ maxErrorSize - 1 ∧ ((∀ t ∈ tokens.getLast?, ¬ IsStray t) →
          ∀ cs t, ¬ IsStray t → Complains s cs t) := by
  have hstart : (gdbScanner arm contents errors).len < maxErrorSize :=
    show 0 < maxErrorSize by decide
  refine ⟨?_, all_foldlM (I := fun s => s.len < maxErrorSize) (fun s t hs => all_scanIndexed hs t)
    (fun s t hs => ?_) tokens hstart, (run_len tokens).mono fun s hs => ?_⟩
  · simp only [result_foldlM, result_scanIndexed]
  · rw [result_scanIndexed]
    exact (scan_len hs t).mono fun _ => And.left
  · exact ⟨Nat.le_pred_of_lt hs.1, fun hlast cs t ht => complains_of_empty (hs.2 hlast) cs ht⟩

end Runs

/-- Two requests for as many bytes as the buffer has places. -/
theorem errorBuffer_full : requests 1024 = 2 ∧
    @Complains .x86 .x86 newScanner (List.replicate 1024 (char 'x')) .minus := by
  refine ⟨requests_eq 1024, ?_⟩
  have hrun := (@errorBuffer_run .x86 .x86 ⟨0, fun _ => 0, ⟨#[], false⟩⟩ blankPacket
    ⟨List.replicate maxErrorSize 0, List.length_replicate⟩ []).2.2
  exact (hrun newScanner rfl).2 (by simp) _ _ id

end ArmSimulator.Debugger
