import ArmSimulator.Architecture.Refinement

/-! # Code in memory

A stored word is executed where the program counter points at it. With this and the rules for
steps the counting loop of the first example program ends for every counter, wherever its code
lies, and the simulator that runs it exits.
-/

namespace ArmSimulator.Architecture

open Machine RegisterFile Storage Decoding Exceptions Debugger Shifting Foundation.StepLogic
  Foundation.ExceptRun

/-- The words lie in memory from this address on. -/
structure Stored (mem : Memory) (a : Word) (ws : List Word) : Prop where
  size : a.toNat + 4 * ws.length ≤ mem.values.size
  width : a.toNat + 4 * ws.length ≤ 2 ^ 32
  words : ∀ i w, ws[i]? = some w → wordAt mem (a.toNat + 4 * i) = w

theorem stored_storeWords {mem : Memory} {a : Word} {ws : List Word}
    (hsize : a.toNat + 4 * ws.length ≤ mem.values.size)
    (hwidth : a.toNat + 4 * ws.length ≤ 2 ^ 32) : Stored (storeWords mem a.toNat ws) a ws where
  size := by rwa [size_storeWords]
  width := hwidth
  words i w hi := by
    obtain ⟨hlt, rfl⟩ := List.getElem?_eq_some_iff.mp hi
    exact wordAt_storeWords ws hsize hlt

section Stored

variable {s : State} {a w : Word} {ws : List Word} {i : ℕ}

theorem Stored.fetch (h : Stored s.mem a ws) (hi : ws[i]? = some w)
    (hpc : s.pc = a + BitVec.ofNat 32 (4 * i)) : s.fetch = some w := by
  have hlt : i < ws.length := (List.getElem?_eq_some_iff.mp hi).1
  have hsize := h.size
  have hwidth := h.width
  have hpc' : s.pc.toNat = a.toNat + 4 * i := by
    rw [hpc, BitVec.toNat_add, BitVec.toNat_ofNat]
    omega
  rw [State.fetch, hpc', if_pos ⟨by omega, by push_cast; omega, by push_cast; omega⟩,
    h.words i w hi]

theorem Stored.step (h : Stored s.mem a ws) (hi : ws[i]? = some w)
    (hpc : s.pc = a + BitVec.ofNat 32 (4 * i)) {c : Condition} {instruction : Instruction}
    (hdecode : decode w = some (c, instruction)) :
    s.step = if c.holds s.n s.z then s.execute instruction else some s.next := by
  rw [State.step, h.fetch hi hpc, Option.bind_eq_bind, Option.bind_some, hdecode]
  rfl

end Stored

/-! ## The first example -/

/-- `decr: subs r0, r0, #1` and `mov pc, lr`, `main: mov r0, #5`, `loop: bl decr` and
`bne loop`, and `swi 0x123456` -/
def example1 : List Word :=
  [0xE2500001, 0xE1A0F00E, 0xE3A00005, 0xEBFFFFFB, 0x1AFFFFFD, 0xEF123456]

theorem decode_decr :
    decode 0xE2500001 = some (.al, .compute .sub true 0 0 (.constant 1)) := by decide

theorem decode_return :
    decode 0xE1A0F00E = some (.al, .compute .mov false 15 0 (.register 14 .lsl 0)) := by decide

theorem decode_main :
    decode 0xE3A00005 = some (.al, .compute .mov false 0 0 (.constant 5)) := by decide

theorem decode_call : decode 0xEBFFFFFB = some (.al, .branch true (-5)) := by decide

theorem decode_repeat : decode 0x1AFFFFFD = some (.ne, .branch false (-3)) := by decide

/-- At an offset in the code, with only `r0` and `lr` changed. -/
structure Counting (s₀ : State) (a offset : Word) (s : State) : Prop where
  pc : s.pc = a + offset
  mem : s.mem = s₀.mem
  others : ∀ r : Fin 15, r ≠ 0 → r ≠ 14 → s.registers r = s₀.registers r

section Counting

variable {s₀ s : State} {a : Word}

theorem Counting.step {offset w : Word} {i : ℕ} (h : Counting s₀ a offset s)
    (hcode : Stored s₀.mem a example1) (hi : example1[i]? = some w)
    (hoffset : offset = BitVec.ofNat 32 (4 * i)) {c : Condition} {instruction : Instruction}
    (hdecode : decode w = some (c, instruction)) :
    s.step = if c.holds s.n s.z then s.execute instruction else some s.next :=
  (h.mem.symm ▸ hcode : Stored s.mem a example1).step hi (hoffset ▸ h.pc) hdecode

theorem step_main (hcode : Stored s₀.mem a example1) (h : Counting s₀ a 8 s) :
    ∃ t, s.step = some t ∧ Counting s₀ a 12 t := by
  refine ⟨s.next.set 0 5, (h.step hcode (i := 2) rfl rfl decode_main).trans rfl, ?_, h.mem,
    fun r hr₀ hr₁₄ => ?_⟩
  · change s.pc + 4 = a + 12
    rw [h.pc, BitVec.add_assoc]
    rfl
  · exact (Function.update_of_ne hr₀ _ _).trans (h.others r hr₀ hr₁₄)

theorem step_call (hcode : Stored s₀.mem a example1) (h : Counting s₀ a 12 s) :
    ∃ t, s.step = some t ∧ Counting s₀ a 0 t ∧ t.registers 14 = a + 16 ∧
      t.registers 0 = s.registers 0 := by
  refine ⟨s.branch true (-5), (h.step hcode (i := 3) rfl rfl decode_call).trans rfl,
    ⟨?_, h.mem, fun r hr₀ hr₁₄ => ?_⟩, ?_, ?_⟩
  · change s.pc + 8 + BitVec.ofInt 32 (4 * -5) = a + 0
    rw [h.pc, BitVec.add_assoc, BitVec.add_assoc]
    rfl
  · exact (Function.update_of_ne hr₁₄ _ _).trans (h.others r hr₀ hr₁₄)
  · refine (Function.update_self (14 : Fin 15) (s.pc + 4) s.registers).trans ?_
    rw [h.pc, BitVec.add_assoc]
    rfl
  · exact Function.update_of_ne (show (0 : Fin 15) ≠ 14 by decide) (s.pc + 4) s.registers

theorem step_decr (hcode : Stored s₀.mem a example1) (h : Counting s₀ a 0 s) :
    ∃ t, s.step = some t ∧ Counting s₀ a 4 t ∧ t.registers 14 = s.registers 14 ∧
      t.registers 0 = s.registers 0 - 1 ∧ t.z = decide (s.registers 0 - 1 = 0) := by
  refine ⟨(s.next.setFlags (s.registers 0 - 1)).set 0 (s.registers 0 - 1),
    (h.step hcode (i := 0) rfl rfl decode_decr).trans rfl,
    ⟨?_, h.mem, fun r hr₀ hr₁₄ => ?_⟩, ?_, ?_, rfl⟩
  · change s.pc + 4 = a + 4
    rw [h.pc, BitVec.add_assoc]
    rfl
  · exact (Function.update_of_ne hr₀ _ _).trans (h.others r hr₀ hr₁₄)
  · exact Function.update_of_ne (show (14 : Fin 15) ≠ 0 by decide) (s.registers 0 - 1)
      s.registers
  · exact Function.update_self (0 : Fin 15) (s.registers 0 - 1) s.registers

theorem step_return (hcode : Stored s₀.mem a example1) (ha : 4 ∣ a.toNat)
    (h : Counting s₀ a 4 s) (hlr : s.registers 14 = a + 16) :
    ∃ t, s.step = some t ∧ Counting s₀ a 16 t ∧ t.registers 0 = s.registers 0 ∧ t.z = s.z := by
  have hv : places .lsl (s.read 14) 0 = a + 16 := (BitVec.shiftLeft_zero _).trans hlr
  have hdvd : 4 ∣ (a + 16).toNat := by
    have hsixteen : (16 : Word).toNat = 16 := rfl
    rw [BitVec.toNat_add, hsixteen]
    omega
  have hexec : s.execute (.compute .mov false 15 0 (.register 14 .lsl 0)) =
      some (s.next.set 15 (a + 16)) := by
    change (if 15 = (15 : Fin 16) ∧ ¬ 4 ∣ (places .lsl (s.read 14) 0).toNat then none
      else some (s.next.set 15 (places .lsl (s.read 14) 0))) = _
    rw [hv, if_neg fun hne => hne.2 hdvd]
  exact ⟨_, (h.step hcode (i := 1) rfl rfl decode_return).trans hexec, ⟨rfl, h.mem, h.others⟩, rfl,
    rfl⟩

theorem step_repeat (hcode : Stored s₀.mem a example1) (h : Counting s₀ a 16 s) :
    ∃ t, s.step = some t ∧ Counting s₀ a (if s.z then 20 else 12) t ∧
      t.registers 0 = s.registers 0 := by
  have hstep := h.step hcode (i := 4) rfl rfl decode_repeat
  by_cases hz : s.z = true
  · have hne : ¬ Condition.ne.holds s.n s.z = true := by
      rw [hz]
      exact Bool.false_ne_true
    rw [if_neg hne] at hstep
    refine ⟨_, hstep, ⟨?_, h.mem, h.others⟩, rfl⟩
    change s.pc + 4 = _
    rw [if_pos hz, h.pc, BitVec.add_assoc]
    rfl
  · have hne : Condition.ne.holds s.n s.z = true := by
      rw [eq_false_of_ne_true hz]
      rfl
    rw [if_pos hne, State.execute, State.branch_false] at hstep
    refine ⟨_, hstep, ⟨?_, h.mem, h.others⟩, rfl⟩
    change s.pc + 8 + BitVec.ofInt 32 (4 * -3) = _
    rw [if_neg hz, h.pc, BitVec.add_assoc, BitVec.add_assoc]
    rfl

theorem loop_turn (hcode : Stored s₀.mem a example1) (ha : 4 ∣ a.toNat) (h : Counting s₀ a 12 s) :
    Eventually State.step (fun t => (Counting s₀ a 20 t ∧ t.registers 0 = 0) ∨
      Counting s₀ a 12 t ∧ (t.registers 0 - 1).toNat < (s.registers 0 - 1).toNat) s := by
  obtain ⟨s₁, hcall, h₁, hlr₁, hcount₁⟩ := step_call hcode h
  obtain ⟨s₂, hdecr, h₂, hlr₂, hcount₂, hz₂⟩ := step_decr hcode h₁
  obtain ⟨s₃, hreturn, h₃, hcount₃, hz₃⟩ := step_return hcode ha h₂ (hlr₂.trans hlr₁)
  obtain ⟨s₄, hrepeat, h₄, hcount₄⟩ := step_repeat hcode h₃
  refine .next hcall (.next hdecr (.next hreturn (.next hrepeat (.now ?_))))
  have hcount : s₄.registers 0 = s.registers 0 - 1 := by
    rw [hcount₄, hcount₃, hcount₂, hcount₁]
  rw [hz₃, hz₂, hcount₁] at h₄
  by_cases hzero : s.registers 0 - 1 = 0
  · rw [hzero] at h₄
    exact Or.inl ⟨h₄, hcount.trans hzero⟩
  · rw [decide_eq_false hzero] at h₄
    refine Or.inr ⟨h₄, ?_⟩
    rw [hcount]
    bv_omega

/-- The loop ends for every counter; 0 stands for 2^32 turns. -/
theorem loop_ends (hcode : Stored s₀.mem a example1) (ha : 4 ∣ a.toNat)
    (h : Counting s₀ a 12 s) :
    Eventually State.step (fun t => Counting s₀ a 20 t ∧ t.registers 0 = 0) s :=
  .loop (fun t => (t.registers 0 - 1).toNat) (fun _ => loop_turn hcode ha) h

theorem example1_ends (hcode : Stored s.mem a example1) (ha : 4 ∣ a.toNat)
    (hpc : s.pc = a + 8 ∨ s.pc = a + 12) :
    Eventually State.step (fun t => Counting s a 20 t ∧ t.registers 0 = 0) s := by
  rcases hpc with hmain | hloop
  · obtain ⟨t, hstep, ht⟩ := step_main hcode ⟨hmain, rfl, fun _ _ _ => rfl⟩
    exact .next hstep (loop_ends hcode ha ht)
  · exact loop_ends hcode ha ⟨hloop, rfl, fun _ _ _ => rfl⟩

end Counting

/-! ## On the simulator -/

/-- The simulator ends at the semihosting call of the examples. -/
theorem armStep_exit [Host] {q : Processor} (u : Locals)
    (hread : memoryReadWord q.mem (pcAddress q) u.inst = .ok (0, 0xEF123456)) :
    armStep u q.core = .error (.exit 0) := by
  have hdispatch : dispatch 0xEF123456 = .coprocessorOthersSwi := by decide
  rw [armStep_run hread (Or.inl (by decide)), hdispatch]
  rfl

/-- The example in a memory of its size, at `main`. -/
def example1Processor : Processor :=
  { (program .usr #[]).write 15 8 with
    mem := storeWords ⟨Array.replicate 24 0, false⟩ (0 : Word).toNat example1 }

end ArmSimulator.Architecture
