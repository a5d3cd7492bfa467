import ArmSimulator.Exceptions.Step

/-! # Masked interrupts

An entry sets the mask bits, but nothing reads them: a masked interrupt is
taken like any other. It goes unnoticed only in a state that is already the
result of its own entry, over any interleaving of steps and interrupts.
-/

namespace ArmSimulator.Exceptions

open Machine RegisterFile Foundation.ExceptRun

/-- A step of the simulator or a byte from `irq_listener`. -/
inductive Event where
  | step (u : Locals)
  | irq (b : Byte)

def happen [Host] (p : ArmCore) : Event → Except Stop ArmCore
  | .step u => Prod.snd <$> armStep u p
  | .irq b => irqListener p b

/-- The status masks the interrupt, by its bit I or its bit F. -/
def Masked (p : ArmCore) : Kind → Prop
  | .interrupt => getBit (armReadCpsr p) 7 ≠ 0
  | .fastInterrupt => getBit (armReadCpsr p) 6 ≠ 0
  | _ => False

/-- The byte changes no register, no status and no memory. -/
def Ignored (p : ArmCore) (b : Byte) : Prop :=
  ∃ p', irqListener p b = .ok p' ∧ p'.reg = p.reg ∧ p'.mem = p.mem

/-- A masked interrupt that arrives is ignored. -/
def Respects (p : ArmCore) : Event → Prop
  | .step _ => True
  | .irq b => ∀ k : Kind, b = k.number → Masked p k → Ignored p b

/-- The state an entry to `k` would produce again. -/
structure Settled (p : ArmCore) (k : Kind) : Prop where
  mode : getMode p.reg = k.mode.bits
  arm : getBit (readCpsr p.reg) 5 = 0
  littleEndian : getBit (readCpsr p.reg) 9 = 0
  masked : getBit (readCpsr p.reg) 7 = 1
  fastMasked : k.count = 3 → getBit (readCpsr p.reg) 6 = 1
  pc : p.reg 15 = k.vector
  lr : p.reg (position k.mode 14) = k.link k.vector
  saved : p.reg 0 = readCpsr p.reg

/-- A masked interrupt only arrives where it has nothing to change. -/
def Harmless (p : ArmCore) : Event → Prop
  | .step _ => True
  | .irq b => ∀ k : Kind, b = k.number → Masked p k → Settled p k

theorem kind_of_masked {p : ArmCore} {k : Kind} (h : Masked p k) : k.needSpsr := by
  cases k <;> first | rfl | exact h.elim

theorem entryCpsr_eq_iff (cpsr : Word) (k : Kind) :
    (entryStatus cpsr k).value = cpsr ↔ (getBits cpsr 4 0).toNat = k.mode.bits ∧
      getBit cpsr 5 = 0 ∧ getBit cpsr 9 = 0 ∧ getBit cpsr 7 = 1 ∧
      (k.count = 3 → getBit cpsr 6 = 1) := by
  have hbits := toNat_modeBits k.mode
  have hlt := k.mode.bits_range.2
  have hbit {i : Nat} (hi : i < 32) : (entryStatus cpsr k).value.getLsbD i = _ :=
    getLsbD_entryCpsr cpsr (BitVec.ofNat 32 k.mode.bits) k.count (by omega) hi
  simp only [getBit_eq_zero, getBit_eq_one]
  constructor
  · intro h
    refine ⟨?_, ?_, ?_, ?_, fun hc => ?_⟩
    · rw [← h]
      exact (entryStatus cpsr k).mode_eq
    · rw [← h, hbit (by omega)]
      rfl
    · rw [← h, hbit (by omega)]
      rfl
    · rw [← h, hbit (by omega)]
      rfl
    · rw [← h, hbit (by omega)]
      simp [hc]
  · rintro ⟨hmode, h5, h9, h7, h6⟩
    apply BitVec.eq_of_getLsbD_eq
    intro i hi
    have hfield : getBits cpsr 4 0 = BitVec.ofNat 32 k.mode.bits :=
      BitVec.eq_of_toNat_eq (by rw [hmode, hbits])
    rw [hbit hi]
    split_ifs with hlow hclear hset
    · rw [← hfield, getLsbD_getBits, Nat.zero_add, decide_eq_true (by omega), Bool.true_and]
    · rcases hclear with rfl | rfl
      · exact h5.symm
      · exact h9.symm
    · rcases hset with rfl | ⟨rfl, hc⟩
      · exact h7.symm
      · exact (h6 hc).symm
    · rfl

theorem enter_eq_iff (q : Processor) {k : Kind} (hk : k.needSpsr) :
    (enter q k).file.cells = q.file.cells ↔ Settled q.core k := by
  have hstatus := entryCpsr_eq_iff (readCpsr q.file.cells) k
  constructor
  · intro h
    have hpc : q.file.cells 15 = k.vector := by rw [← h, enter_pc]
    have hcpsr := enter_cpsr q k
    rw [h] at hcpsr
    obtain ⟨hmode, h5, h9, h7, h6⟩ := hstatus.mp hcpsr.symm
    have hlr := enter_lr q k
    rw [h, hpc] at hlr
    have hsaved := enter_saved q k hk
    rw [h] at hsaved
    exact ⟨hmode, h5, h9, h7, h6, hpc, hlr, hsaved⟩
  · rintro ⟨hmode, h5, h9, h7, h6, hpc, hlr, hsaved⟩
    have hkind : q.file.mode = k.mode := Mode.bits_injective (q.file.mode_eq.symm.trans hmode)
    have hsp : q.register 13 = q.file.cells (position k.mode 13) := by
      rw [Processor.register, hkind]
      rfl
    funext l
    rw [enter_cells, hstatus.mpr ⟨hmode, h5, h9, h7, h6⟩, hsp]
    split_ifs with h15 h0 h14 h13 h16
    · rw [h15]
      exact hpc.symm
    · rw [h0.1]
      exact hsaved.symm
    · rw [h14, show q.file.cells 15 = k.vector from hpc]
      exact hlr.symm
    · rw [h13]
    · rw [h16]
      rfl
    · rfl

theorem ignored_iff {p : ArmCore} {k : Kind} (hk : k.needSpsr) :
    Ignored p k.number ↔ Settled p k := by
  constructor
  · rintro ⟨p', hp', hreg, hmem⟩
    have hmode : getMode p'.reg = k.mode.bits := armException_mode p k p' hp'
    rw [hreg] at hmode
    obtain ⟨q, rfl⟩ := Processor.exists_core p hmode
    rw [irqListener, armException_enter, Except.ok.injEq] at hp'
    subst hp'
    exact (enter_eq_iff q hk).mp hreg
  · intro h
    obtain ⟨q, rfl⟩ := Processor.exists_core p h.mode
    exact ⟨_, armException_enter q k, (enter_eq_iff q hk).mpr h, enter_mem q k⟩

theorem respects_iff (p : ArmCore) (e : Event) : Respects p e ↔ Harmless p e := by
  cases e with
  | step u => rfl
  | irq b =>
    refine forall_congr' fun k => ⟨fun h hb hm => ?_, fun h hb hm => ?_⟩
    · exact (ignored_iff (kind_of_masked hm)).mp (hb ▸ h hb hm)
    · exact hb ▸ (ignored_iff (kind_of_masked hm)).mpr (h hb hm)

/-! ## Runs of the simulator -/

/-- What `arm_create` returns, `registers` being what `malloc` left in the array. -/
def created (registers : Registers) (mem : Memory) : Processor :=
  { enter ⟨0, ⟨registersCreate registers, .usr, by
      rw [getMode, registersCreate, readCpsr_writeCpsr, getBits_setBits _ (by omega) (by omega)
        (by decide)]
      rfl⟩, mem⟩ .reset with cycleCount := 0 }

theorem armCreate_eq (registers : Registers) (mem : Memory) :
    armCreate registers mem = .ok (created registers mem).core := by
  rw [armCreate]
  exact congrArg (· >>= fun p => pure { p with cycleCount := 0 }) (armException_enter
    ⟨0, ⟨registersCreate registers, .usr, _⟩, mem⟩ .reset)

/-- From reset, over every interleaving of steps and interrupts, masking is respected
exactly when each masked interrupt finds the state its own entry leaves. -/
theorem masking_iff [Host] (registers : Registers) (mem : Memory) (es : List Event) :
    Along happen Respects (created registers mem).core es ↔
      Along happen Harmless (created registers mem).core es :=
  along_congr respects_iff es

/-- The first interrupt after reset is masked, and taken. -/
theorem masking_ignored : ¬ ∀ (host : Host) (registers : Registers) (mem : Memory) (p : ArmCore),
    armCreate registers mem = .ok p →
      ∀ es : List Event, @Along _ _ _ (@happen host) Respects p es := by
  intro h
  have hrun := h Host.x86 (fun _ => 0) ⟨#[], false⟩ _ (armCreate_eq _ _) [.irq 6]
  have hmasked : Masked (created (fun _ => 0) ⟨#[], false⟩).core .interrupt := by
    change getBit (readCpsr (created (fun _ => 0) ⟨#[], false⟩).file.cells) 7 ≠ 0
    decide
  have hsettled := (respects_iff _ _).mp hrun.1 .interrupt rfl hmasked
  exact absurd hsettled.mode (by decide)

end ArmSimulator.Exceptions
