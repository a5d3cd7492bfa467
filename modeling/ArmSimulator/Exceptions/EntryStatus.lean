import ArmSimulator.Exceptions.Return

/-! # The status and the address an exception entry leaves

The entry computes its status first and then writes registers of the entered
mode into the array that holds the status and the program counter too. None of
these writes reaches either of them: the status is the old one with the fields
of the exception replaced, and the next fetch is from the exception's vector.
-/

namespace ArmSimulator.Exceptions

open Machine RegisterFile Foundation.ExceptRun

theorem Kind.count_eq_three (k : Kind) : k.count = 3 ↔ k = .reset ∨ k = .fastInterrupt := by
  cases k <;> simp [count]

/-- The status an entry to `k` makes of another. -/
structure EntryBits (k : Kind) (cpsr cpsr' : Word) : Prop where
  mode : (getBits cpsr' 4 0).toNat = k.mode.bits
  thumb : getBit cpsr' 5 = 0
  bigEndian : getBit cpsr' 9 = 0
  masked : getBit cpsr' 7 = 1
  fastMasked : getBit cpsr' 6 = if k = .reset ∨ k = .fastInterrupt then 1 else getBit cpsr 6
  others : ∀ i, 5 ≤ i → i < 32 → i ∉ [5, 6, 7, 9] → getBit cpsr' i = getBit cpsr i

theorem getBit_eq_getBit_iff (x y : Word) (i : Nat) :
    getBit x i = getBit y i ↔ x.getLsbD i = y.getLsbD i := by
  rw [getBit_eq, getBit_eq]
  cases x.getLsbD i <;> cases y.getLsbD i <;> simp

theorem entryStatus_bits (cpsr : Word) (k : Kind) :
    EntryBits k cpsr (entryStatus cpsr k).value := by
  have hbits := toNat_modeBits k.mode
  have hlt := k.mode.bits_range.2
  have hbit {i : Nat} (hi : i < 32) : (entryStatus cpsr k).value.getLsbD i = _ :=
    getLsbD_entryCpsr cpsr (BitVec.ofNat 32 k.mode.bits) k.count (by omega) hi
  refine ⟨(entryStatus cpsr k).mode_eq, ?_, ?_, ?_, ?_, fun i hlow hi hne => ?_⟩
  · rw [getBit_eq_zero, hbit (by omega)]
    rfl
  · rw [getBit_eq_zero, hbit (by omega)]
    rfl
  · rw [getBit_eq_one, hbit (by omega)]
    rfl
  · split_ifs with hfast
    · rw [getBit_eq_one, hbit (by omega)]
      simp [k.count_eq_three.mpr hfast]
    · rw [getBit_eq_getBit_iff, hbit (by omega)]
      simp [mt k.count_eq_three.mp hfast]
  · simp only [List.mem_cons, List.not_mem_nil, or_false, not_or] at hne
    rw [getBit_eq_getBit_iff, hbit hi, if_neg (by omega), if_neg (by omega), if_neg (by omega)]

/-- The status, the next fetch, the memory and the cycles after an entry to `k`. -/
structure Entered (k : Kind) (p p' : ArmCore) : Prop where
  status : EntryBits k (armReadCpsr p) (armReadCpsr p')
  next : fetchAddress p' = .ok k.vector
  memory : p'.mem = p.mem
  cycles : p'.cycleCount = p.cycleCount

theorem enter_cycleCount (q : Processor) (k : Kind) : (enter q k).cycleCount = q.cycleCount := by
  simp only [enter, enterWith]
  split <;> rfl

theorem enter_entered (q : Processor) (k : Kind) : Entered k q.core (enter q k).core where
  status := by
    have hstatus : armReadCpsr (enter q k).core = (entryStatus (armReadCpsr q.core) k).value :=
      enter_cpsr q k
    rw [hstatus]
    exact entryStatus_bits _ k
  next := by rw [fetchAddress_core, pcAddress_enter]
  memory := enter_mem q k
  cycles := enter_cycleCount q k

theorem exists_kind {b : Byte} (h : 1 ≤ b.toNat ∧ b.toNat ≤ 7) : ∃ k : Kind, b = k.number := by
  have hkinds : ∀ b : Byte, 1 ≤ b.toNat ∧ b.toNat ≤ 7 → b = Kind.reset.number ∨
      b = Kind.undefinedInstruction.number ∨ b = Kind.softwareInterrupt.number ∨
      b = Kind.prefetchAbort.number ∨ b = Kind.dataAbort.number ∨ b = Kind.interrupt.number ∨
      b = Kind.fastInterrupt.number := by decide
  grind

/-- From any state in a valid mode an exception number is entered, and any other is ignored. -/
theorem armException_status (q : Processor) (b : Byte) :
    if 1 ≤ b.toNat ∧ b.toNat ≤ 7 then
      ∃ k : Kind, b = k.number ∧ Returns (armException q.core b) (Entered k q.core)
    else armException q.core b = .ok q.core := by
  split_ifs with h
  · obtain ⟨k, rfl⟩ := exists_kind h
    exact ⟨k, rfl, _, armException_enter q k, enter_entered q k⟩
  · exact armException_ignored _ fun k hk => h (by subst hk; cases k <;> decide)

end ArmSimulator.Exceptions
