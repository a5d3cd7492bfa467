import ArmSimulator.Debugger.RegisterBlock

/-! # Single registers through the debugger

The protocol writes register numbers in hexadecimal. A `P` request reads its
number so, but a `p` request reads it in decimal: from `a` on the digits are
none, and register 0 answers.
-/

namespace ArmSimulator.Debugger

open Machine Machine.Gdb RegisterFile Foundation.ExceptRun Foundation.Numeral

section Registers

variable [ByteOrder] {gdb : GdbProtocolData} {q : Processor}

/-- The register that a `p` request for `n` reads. -/
def selected (n : Fin 16) : Fin 16 := if n.val ≤ 9 then n else 0

theorem readRegister_replies (harm : gdb.arm = q.core) {n : Fin 16} {s : List Byte}
    (hs : Spells hexValue 16 s n.val) (rest : List Byte) :
    RepliesWith gdb (Gdb.readRegister gdb (s ++ 0 :: rest))
      (wordText (display q (selected n))) := by
  have hatoi : (atoi (s ++ 0 :: rest)).toNat = (selected n).val := by
    rw [atoi_spells hs n.isLt (by rintro _ ⟨⟩; decide), selected]
    split_ifs <;> rfl
  have hread : armReadRegister gdb.arm (selected n).val = .ok (q.register (selected n)) :=
    harm ▸ q.armReadRegister_eq (selected n)
  obtain ⟨gdb', hreply, hanswered⟩ := readRegister_answered hatoi (selected n).isLt hread
  have hdisplay : q.register (selected n) - (if (selected n).val = 15 then 4 else 0) =
      display q (selected n) := by
    simp only [display, Fin.ext_iff]
    rfl
  refine ⟨gdb', hreply, hanswered.arm, ?_⟩
  rw [← hdisplay]
  exact hanswered.written

theorem writeRegister_answered (gdb : GdbProtocolData) (harm : gdb.arm = q.core) {n : Fin 16}
    {v : Word} {s t : List Byte} (hs : Spells hexValue 16 s n.val) (ht : GivesWord t v)
    (rest : List Byte) (u : HandlerLocals) : ∃ gdb',
      Gdb.writeRegister gdb (s ++ char '=' :: (t ++ rest)) u = .ok gdb' ∧
      Answered { gdb with arm := (q.write n v).core } (ascii "OK") gdb' := by
  have hdigit : ∀ b : Byte, (hexValue b).isSome → b ≠ char '=' ∧ b ≠ 0 := by decide
  have hscan : sscanfX (s ++ char '=' :: (t ++ rest)) =
      some (BitVec.ofNat 32 n.val, char '=' :: (t ++ rest)) := by
    rw [sscanfX_spells hs (by rintro _ ⟨⟩; decide), toUnsigned, if_neg (by omega),
      if_neg (by decide)]
  have hreg : (BitVec.ofNat 32 n.val).toNat = n.val := by
    rw [BitVec.toNat_ofNat]
    omega
  have hcontent : afterIndex (char '=') (s ++ char '=' :: (t ++ rest)) = t ++ rest := by
    rw [afterIndex, index_append fun b hb => hdigit b (isSome_of_valueFrom hs.value b hb)]
    rfl
  obtain ⟨gdb', hsend, hanswered⟩ := gdbSendData_answered
    { gdb with arm := (q.write n v).core } (s := ascii "OK") (by decide) (by decide)
  refine ⟨gdb', ?_, hanswered⟩
  rw [Gdb.writeRegister, hscan]
  simp only [Option.map_some, Option.getD_some, hreg, hcontent, readUint32_eq ht rest, ok_bind,
    n.isLt, not_true_eq_false, if_false, harm, q.armWriteRegister_eq n v]
  exact hsend

omit [ByteOrder] in
theorem display_write (q : Processor) {n : Fin 16} (hn : n ≠ 15) (v : Word) (reg : Fin 16) :
    display (q.write n v) reg = if reg = n then v else display q reg := by
  have hmode : (q.write n v).file.mode = q.file.mode := rfl
  rw [display, Processor.register, hmode, Processor.write_cells]
  by_cases hreg : reg = n
  · subst hreg
    simp [hn]
  · rw [if_neg fun hpos => hreg (reg_eq_of_position hpos), if_neg hreg]
    rfl

/-- The reply to a request for a register is its field in the reply to `g`. -/
def FieldAgrees (gdb : GdbProtocolData) (n : Fin 16) (data : List Byte) : Prop :=
  ∃ single all, RepliesWith gdb (Gdb.readRegister gdb data) single ∧
    RepliesWith gdb (readGeneralRegisters gdb) all ∧ single = field n all

/-- After a write, requests for the register return its new value, and requests for
others what they returned before. -/
def WriteSeen (gdb : GdbProtocolData) (n : Fin 16) (v : Word) (data : List Byte)
    (u : HandlerLocals) : Prop :=
  ∃ gdb', Gdb.writeRegister gdb data u = .ok gdb' ∧
    (∀ s rest, Spells hexValue 16 s n.val → ∃ reply,
      RepliesWith gdb' (Gdb.readRegister gdb' (s ++ 0 :: rest)) reply ∧ GivesWord reply v) ∧
    ∀ m, m ≠ n → ∀ s rest, Spells hexValue 16 s m.val → ∃ reply,
      RepliesWith gdb (Gdb.readRegister gdb (s ++ 0 :: rest)) reply ∧
      RepliesWith gdb' (Gdb.readRegister gdb' (s ++ 0 :: rest)) reply

theorem wordText_inj {v w : Word} : wordText v = wordText w ↔ v = w :=
  ⟨fun h => (givesWord_wordText v).unique (h ▸ givesWord_wordText w), congrArg wordText⟩

theorem fieldAgrees_iff (harm : gdb.arm = q.core) {n : Fin 16} {s : List Byte}
    (hs : Spells hexValue 16 s n.val) (rest : List Byte) :
    FieldAgrees gdb n (s ++ 0 :: rest) ↔ n.val ≤ 9 ∨ display q n = display q 0 := by
  have hsingle := readRegister_replies harm hs rest
  obtain ⟨all, hall, hfield, -⟩ := readGeneralRegisters_replies harm
  have hiff : wordText (display q (selected n)) = field n all ↔
      n.val ≤ 9 ∨ display q n = display q 0 := by
    rw [hfield, wordText_inj, selected]
    split_ifs with h9
    · simp [h9]
    · simp [h9, eq_comm]
  rw [← hiff]
  constructor
  · rintro ⟨single₁, all₁, hsingle₁, hall₁, h⟩
    rwa [hsingle.unique hsingle₁, hall.unique hall₁]
  · exact fun h => ⟨_, all, hsingle, hall, h⟩

omit [ByteOrder] in
theorem display_write_selected (q : Processor) {n : Fin 16} (hn : n ≠ 15) (v : Word) :
    display (q.write n v) (selected n) = v ↔ n.val ≤ 9 ∨ display q 0 = v := by
  rw [display_write q hn, selected]
  by_cases h9 : n.val ≤ 9
  · simp [h9]
  · have hzero : ¬ 0 = n := by
      rintro rfl
      exact h9 (by decide)
    simp only [h9, if_false, hzero, false_or]

omit [ByteOrder] in
theorem display_write_others (q : Processor) {n : Fin 16} (hn : n ≠ 15) (v : Word) :
    (∀ m, m ≠ n → display (q.write n v) (selected m) = display q (selected m)) ↔
      n ≠ 0 ∨ v = display q 0 := by
  by_cases hzero : n = 0
  · subst hzero
    simp only [ne_eq, not_true_eq_false, false_or]
    constructor
    · intro h
      -- `p a` reads register 0
      have hten := h 10 (by decide)
      rwa [display_write q hn, show selected 10 = 0 from rfl, if_pos rfl] at hten
    · intro h m _
      rw [display_write q hn]
      split_ifs with hm
      · rw [hm, h]
      · rfl
  · simp only [ne_eq, hzero, not_false_eq_true, true_or, iff_true]
    intro m hm
    have hne : selected m ≠ n := by
      rw [selected]
      split_ifs
      · exact hm
      · exact fun h => hzero h.symm
    rw [display_write q hn, if_neg hne]

theorem writeSeen_iff (harm : gdb.arm = q.core) {n : Fin 16} (hn : n ≠ 15) {v : Word}
    {s t : List Byte} (hs : Spells hexValue 16 s n.val) (ht : GivesWord t v) (rest : List Byte)
    (u : HandlerLocals) : WriteSeen gdb n v (s ++ char '=' :: (t ++ rest)) u ↔
      (n.val ≤ 9 ∨ display q 0 = v) ∧ (n ≠ 0 ∨ v = display q 0) := by
  obtain ⟨gdb', hwrite, hanswered⟩ := writeRegister_answered gdb harm hs ht rest u
  have hbefore {m : Fin 16} {s : List Byte} (hs : Spells hexValue 16 s m.val) (rest : List Byte) :=
    readRegister_replies harm hs rest
  have hafter {m : Fin 16} {s : List Byte} (hs : Spells hexValue 16 s m.val) (rest : List Byte) :
      RepliesWith gdb' (Gdb.readRegister gdb' (s ++ 0 :: rest))
        (wordText (display (q.write n v) (selected m))) :=
    readRegister_replies hanswered.arm hs rest
  rw [← display_write_selected q hn, ← display_write_others q hn]
  constructor
  · rintro ⟨gdb₁, hwrite₁, hself, hothers⟩
    rw [hwrite, Except.ok.injEq] at hwrite₁
    subst hwrite₁
    refine ⟨?_, fun m hm => ?_⟩
    · obtain ⟨reply, hreply, hgives⟩ := hself s [] hs
      rw [← (hafter hs []).unique hreply] at hgives
      exact (givesWord_wordText _).unique hgives
    · have hm' : Spells hexValue 16 (render hexChar 16 1 m.val) m.val :=
        spells_render (by omega) hexValue_hexChar (by omega) m.isLt
      obtain ⟨reply, h₁, h₂⟩ := hothers m hm _ [] hm'
      rw [← wordText_inj, (hafter hm' []).unique h₂, (hbefore hm' []).unique h₁]
  · rintro ⟨hself, hothers⟩
    refine ⟨gdb', hwrite, fun s rest hs => ⟨_, hafter hs rest, ?_⟩,
      fun m hm s rest hs => ⟨_, hbefore hs rest, ?_⟩⟩
    · rw [hself]
      exact givesWord_wordText v
    · rw [← hothers m hm]
      exact hafter hs rest

/-- The views of a register agree exactly for the numbers below ten, unless values
coincide: a request for any other register reads register 0. -/
theorem registerViews_iff (harm : gdb.arm = q.core) {n : Fin 16} {s : List Byte}
    (hs : Spells hexValue 16 s n.val) :
    (∀ rest, FieldAgrees gdb n (s ++ 0 :: rest) ↔ n.val ≤ 9 ∨ display q n = display q 0) ∧
    (n ≠ 15 → ∀ v t rest u, GivesWord t v →
      (WriteSeen gdb n v (s ++ char '=' :: (t ++ rest)) u ↔
        (n.val ≤ 9 ∨ display q 0 = v) ∧ (n ≠ 0 ∨ v = display q 0))) :=
  ⟨fieldAgrees_iff harm hs, fun hn _ _ rest u ht => writeSeen_iff harm hn hs ht rest u⟩

end Registers

/-- Register 5 of a machine with all registers zero. -/
theorem registerViews_five :
    (∀ rest, @FieldAgrees .x86 (session (board .usr).core) 5 (ascii "5" ++ 0 :: rest) ↔
      5 ≤ 9 ∨ display (board .usr) 5 = display (board .usr) 0) ∧
    ((5 : Fin 16) ≠ 15 → ∀ v t rest u, @GivesWord .x86 t v →
      (@WriteSeen .x86 (session (board .usr).core) 5 v (ascii "5" ++ char '=' :: (t ++ rest)) u ↔
        (5 ≤ 9 ∨ display (board .usr) 0 = v) ∧ ((5 : Fin 16) ≠ 0 ∨ v = display (board .usr) 0))) :=
  letI := ByteOrder.x86
  registerViews_iff (q := board .usr) (n := 5) rfl ⟨by decide, by decide⟩

/-- With 1 in register 10, `pa` answers 0. -/
theorem registerViews_ten : ¬ ∀ (_ : ByteOrder) (gdb : GdbProtocolData) (q : Processor)
    (n : Fin 16) (s rest : List Byte), gdb.arm = q.core → Spells hexValue 16 s n.val →
      FieldAgrees gdb n (s ++ 0 :: rest) := by
  intro h
  let order := ByteOrder.x86
  let q := (board .usr).write 10 1
  have hs : Spells hexValue 16 (ascii "a") (10 : Fin 16).val := ⟨by decide, by decide⟩
  have hagrees := h order (session q.core) q 10 (ascii "a") [] rfl hs
  rw [fieldAgrees_iff (q := q) rfl hs, display_write _ (by decide), display_write _ (by decide)]
    at hagrees
  exact absurd hagrees (by decide)

end ArmSimulator.Debugger
