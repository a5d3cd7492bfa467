import ArmSimulator.Debugger.Reply
import ArmSimulator.Storage.Blocks

/-! # Words and bytes as text

A byte is two digits and a word eight, in an order of its bytes that both
directions share. What is written is read back, digits of either case are read,
and all of it may stand in a payload.
-/

namespace ArmSimulator.Debugger

open Machine Machine.Gdb Storage Foundation.ExceptRun Foundation.Numeral

theorem IsPayload.append {s t : List Byte} (hs : IsPayload s) (ht : IsPayload t) :
    IsPayload (s ++ t) := by
  intro c hc
  exact (List.mem_append.mp hc).elim (hs c) (ht c)

theorem IsPayload.flatMap {ι : Type} {is : List ι} {text : ι → List Byte}
    (h : ∀ i ∈ is, IsPayload (text i)) : IsPayload (is.flatMap text) := by
  intro c hc
  obtain ⟨i, hi, hc⟩ := List.mem_flatMap.mp hc
  exact h i hi c hc

/-! ## Bytes -/

theorem length_flatMap_sprintf02x (bs : List Byte) :
    (bs.flatMap sprintf02x).length = 2 * bs.length := by
  induction bs with
  | nil => rfl
  | cons b bs ih =>
    rw [List.flatMap_cons, List.length_append, length_sprintf02x, ih, List.length_cons]
    omega

theorem isPayload_hexChar :
    ∀ d < 16, hexChar d ≠ 0 ∧ hexChar d ≠ char '$' ∧ hexChar d ≠ char '#' := by
  decide

theorem isPayload_sprintf02x (b : Byte) : IsPayload (sprintf02x b) := by
  intro c hc
  obtain ⟨d, hd, rfl⟩ := mem_render (by omega) 2 hc
  exact isPayload_hexChar d hd

/-! ## Words -/

section Words

variable [ByteOrder]

/-- A word as it stands in a packet. -/
def wordText (v : Word) : List Byte := byteIndices.flatMap fun i => sprintf02x (integerByte v i)

theorem byteIndices_eq : byteIndices = [0, 1, 2, 3] ∨ byteIndices = [3, 2, 1, 0] := by
  unfold byteIndices
  split
  · exact Or.inl (by decide)
  · exact Or.inr (by decide)

theorem length_byteIndices : byteIndices.length = 4 := by
  rcases byteIndices_eq with h | h
  all_goals rw [h]; rfl

@[simp] theorem length_wordText (v : Word) : (wordText v).length = 8 := by
  rw [wordText, ← List.flatMap_map, length_flatMap_sprintf02x, List.length_map,
    length_byteIndices]

theorem isPayload_wordText (v : Word) : IsPayload (wordText v) :=
  .flatMap fun i _ => isPayload_sprintf02x (integerByte v i)

theorem writeUint32_holds {packet : Packet} {s : List Byte} (v : Word) (h : Prefixed packet s)
    (hlen : s.length + 10 ≤ maxPacketSize) : ∃ packet',
      writeUint32 packet (1 + s.length) v = .ok packet' ∧ Holds packet' (s ++ wordText v) := by
  obtain ⟨p₁, h₁, hs₁⟩ := appends_foldlM byteIndices
    (fun i _ => appends_append (sprintf02x (integerByte v i))) packet s h
    (show s.length + (wordText v).length + 2 ≤ _ by rw [length_wordText]; omega)
  have hs₁ : Prefixed p₁ (s ++ wordText v) := hs₁
  beta_reduce at h₁
  obtain ⟨p₂, h₂, hs₂⟩ := put_prefixed (t := []) hs₁ (by
    rw [List.length_append, length_wordText, List.length_nil]
    omega)
  rw [List.append_nil] at hs₂
  refine ⟨p₂, ?_, hs₂⟩
  change (byteIndices.foldlM (fun s i => append s (sprintf02x (integerByte v i)))
    (packet, 1 + s.length) >>= fun s => s.1.set s.2 0) = _
  rw [h₁, ok_bind]
  exact h₂

theorem appends_writeUint32 (v : Word) : Appends (fun s => do
    let packet ← writeUint32 s.1 s.2 v
    return (packet, s.2 + 8)) (wordText v) := by
  intro packet s hs hlen
  rw [length_wordText] at hlen
  obtain ⟨packet', hwrite, hholds⟩ := writeUint32_holds v hs hlen
  refine ⟨packet', ?_, hholds.prefixed⟩
  beta_reduce
  rw [hwrite, ok_bind, List.length_append, length_wordText, ← Nat.add_assoc]
  rfl

/-- Pairs of digits for bytes. -/
inductive HexBytes : List Byte → List Byte → Prop where
  | nil : HexBytes [] []
  | cons {c d b : Byte} {s bs : List Byte} (hb : Spells hexValue 16 [c, d] b.toNat)
      (h : HexBytes s bs) : HexBytes (c :: d :: s) (b :: bs)

omit [ByteOrder] in
theorem hexBytes_sprintf02x (bs : List Byte) : HexBytes (bs.flatMap sprintf02x) bs := by
  induction bs with
  | nil => exact .nil
  | cons b bs ih =>
    obtain ⟨c, d, hcd⟩ := List.length_eq_two.mp (length_sprintf02x b)
    have hb := spells_sprintf02x b
    rw [hcd] at hb
    rw [List.flatMap_cons, hcd]
    exact .cons hb ih

/-- The text gives a word, in digits of either case. -/
def GivesWord (s : List Byte) (v : Word) : Prop := HexBytes s (byteIndices.map (integerByte v))

theorem givesWord_wordText (v : Word) : GivesWord (wordText v) v := by
  rw [GivesWord, wordText, ← List.flatMap_map]
  exact hexBytes_sprintf02x _

theorem mem_byteIndices (i : Fin 4) : i ∈ byteIndices := by
  rcases byteIndices_eq with h | h
  all_goals
    rw [h]
    revert i
    decide

omit [ByteOrder] in
theorem readBytes_eq (f : Fin 4 → Byte) (rest : List Byte) : ∀ {is : List (Fin 4)} {s : List Byte},
    HexBytes s (is.map f) → ∀ (value : Word) (bytes : Fin 4 → Byte),
      readBytes is (s ++ rest) value bytes = .ok fun j => if j ∈ is then f j else bytes j
  | [], _, .nil, value, bytes => by simp [readBytes]
  | i :: is, _, .cons (c := c) (d := d) (s := s) hb h, value, bytes => by
    have hscan : (sscanf02x (c :: d :: (s ++ rest))).getD value = toUnsigned false (f i).toNat := by
      rw [sscanf02x_spells hb]
      rfl
    have hbyte : (toUnsigned false (f i).toNat).setWidth 8 = f i := by
      rw [toUnsigned_byte, BitVec.setWidth_setWidth_of_le _ (by omega), BitVec.setWidth_eq]
    rw [List.cons_append, List.cons_append, readBytes, if_neg (List.cons_ne_nil _ _), hscan]
    simp only [List.drop_succ_cons, List.drop_zero]
    rw [readBytes_eq f rest h, hbyte]
    congr 1
    funext j
    by_cases hj : j = i
    · subst hj
      simp
    · simp [hj]

theorem integerOf_integerByte (v : Word) : integerOf (integerByte v) = v := by
  unfold integerOf
  split_ifs with hbig
  · simpa [integerByte, hbig, wordByte] using wordOfBytes_wordByte v
  · simpa [integerByte, hbig, wordByte] using wordOfBytes_wordByte v

theorem readUint32_eq {s : List Byte} {v : Word} (h : GivesWord s v) (rest : List Byte)
    (value : Word) : readUint32 (s ++ rest) value = .ok v := by
  rw [readUint32, readBytes_eq _ rest h, ok_bind]
  simp only [mem_byteIndices, if_true]
  exact congrArg Except.ok (integerOf_integerByte v)

omit [ByteOrder] in
theorem HexBytes.length {s bs : List Byte} (h : HexBytes s bs) : s.length = 2 * bs.length := by
  induction h with
  | nil => rfl
  | cons _ _ ih =>
    rw [List.length_cons, List.length_cons, ih, List.length_cons]
    omega

theorem GivesWord.length {s : List Byte} {v : Word} (h : GivesWord s v) : s.length = 8 := by
  rw [HexBytes.length h, List.length_map, length_byteIndices]

omit [ByteOrder] in
theorem readBytes_returns : ∀ (is : List (Fin 4)) {data : List Byte} (value : Word)
    (bytes : Fin 4 → Byte), (∀ j < is.length, data.drop (2 * j) ≠ []) →
    Returns (readBytes is data value bytes) fun _ => True
  | [], _, _, _, _ => returns_pure trivial
  | i :: is, data, value, bytes, h => by
    have hne : data ≠ [] := h 0 (Nat.zero_lt_succ _)
    rw [readBytes, if_neg hne]
    refine readBytes_returns is _ _ fun j hj => ?_
    have hnext := h (j + 1) (Nat.succ_lt_succ hj)
    rwa [List.drop_drop, show 2 + 2 * j = 2 * (j + 1) by omega]

theorem readUint32_returns {data : List Byte} (h : ∀ j < 4, data.drop (2 * j) ≠ [])
    (value : Word) : Returns (readUint32 data value) fun _ => True := by
  have hbytes : Returns (readBytes byteIndices data value fun _ => 0) fun _ => True :=
    readBytes_returns byteIndices value _ fun j hj => h j (by rwa [length_byteIndices] at hj)
  exact hbytes.bind fun _ _ => returns_pure trivial

theorem discard_readUint32 {data : Nat → List Byte} {n : Nat}
    (h : ∀ i < n, ∀ j < 4, (data i).drop (2 * j) ≠ []) (value : Nat → Word) :
    (List.range n).forM (fun i => discard (readUint32 (data i) (value i))) = .ok ⟨⟩ := by
  refine forM_eq_ok fun i hi => ?_
  obtain ⟨w, hw, -⟩ := readUint32_returns (h i (List.mem_range.mp hi)) (value i)
  rw [hw]
  rfl

theorem GivesWord.unique {s : List Byte} {v w : Word} (hv : GivesWord s v) (hw : GivesWord s w) :
    v = w := by
  have h := readUint32_eq hv [] 0
  rw [readUint32_eq hw [] 0, Except.ok.injEq] at h
  exact h.symm

end Words

end ArmSimulator.Debugger
