import ArmSimulator.Transfers.PlainOffset

/-! # The loops of block transfers

Both loops visit the listed registers in increasing order at consecutive words;
the load takes the program counter apart at the end. The number of registers is
counted bit by bit in a byte, which sixteen registers do not overflow.
-/

namespace ArmSimulator.Transfers

open Machine RegisterFile Storage Exceptions Foundation.ExceptRun

def named (ins : Word) (reg : Fin 16) : Bool := getBit (getBits ins 15 0) reg ≠ 0

/-- The listed registers in increasing order. -/
def listed (ins : Word) : List (Fin 16) := (List.finRange 16).filter (named ins)

/-! ## The number of registers -/

theorem nbSetBitsLoop_eq (n : Nat) (nb : Half) (count : Byte) (h : count.toNat + n < 256)
    (hnb : nb.toNat < 2 ^ n) : (nbSetBitsLoop n nb count).toNat =
      count.toNat + (List.range n).countP nb.getLsbD := by
  induction n generalizing nb count with
  | zero => rfl
  | succ n ih =>
    have hshift (i : Nat) : (nb >>> 1).getLsbD i = nb.getLsbD (i + 1) := by
      rw [BitVec.getLsbD_ushiftRight, Nat.add_comm]
    have hrange : (List.range (n + 1)).countP nb.getLsbD =
        (List.range n).countP (nb >>> 1).getLsbD + if nb.getLsbD 0 then 1 else 0 := by
      rw [List.range_succ_eq_map, List.countP_cons, List.countP_map]
      congr 2
      exact funext fun i => (hshift i).symm
    have hlow : (nb % 2).toNat = if nb.getLsbD 0 then 1 else 0 := by
      have htwo : (2 : Half).toNat = 2 := rfl
      rw [BitVec.toNat_umod, htwo, BitVec.getLsbD, Nat.testBit_zero]
      rcases Nat.mod_two_eq_zero_or_one nb.toNat with hm | hm <;> rw [hm] <;> rfl
    rw [nbSetBitsLoop]
    by_cases hzero : nb = 0
    · have hnone (i : Nat) : (0 : Half).getLsbD i = false := BitVec.getLsbD_zero
      subst hzero
      rw [if_pos rfl, List.countP_eq_zero.mpr fun i _ => Bool.eq_false_iff.mp (hnone i),
        Nat.add_zero]
    · have hcount : (count + (nb % 2).setWidth 8).toNat = count.toNat + (nb % 2).toNat := by
        rw [BitVec.toNat_add, BitVec.toNat_setWidth, hlow]
        split <;> omega
      have hle : (nb % 2).toNat ≤ 1 := by
        rw [hlow]
        split <;> omega
      rw [if_neg hzero, ih _ _ (by omega) (by
        rw [BitVec.toNat_ushiftRight, Nat.shiftRight_eq_div_pow]; omega), hcount, hlow, hrange]
      omega

theorem nbSetBits_eq (ins : Word) :
    (nbSetBits ((getBits ins 15 0).setWidth 16)).toNat = (listed ins).length := by
  have hrange : List.range 16 = (List.finRange 16).map Fin.val := by decide
  have hbit (reg : Fin 16) : ((getBits ins 15 0).setWidth 16).getLsbD reg = named ins reg := by
    rw [BitVec.getLsbD_setWidth, decide_eq_true reg.isLt, Bool.true_and, named, Bool.eq_iff_iff,
      decide_eq_true_eq, getBit_ne_zero]
  rw [nbSetBits, nbSetBitsLoop_eq _ _ _ (by decide) (BitVec.isLt _), hrange, List.countP_map,
    listed, ← List.countP_eq_length_filter]
  refine (Nat.zero_add _).trans ?_
  exact congrArg (fun p => List.countP p (List.finRange 16)) (funext hbit)

theorem length_listed (ins : Word) : (listed ins).length ≤ 16 :=
  List.length_filter_le _ _

section Loops

variable (ins : Word)

def loadWords (q : Processor) (a : Nat) : List (Fin 16) → Processor
  | [] => q
  | reg :: regs => loadWords (load q reg (wordAt q.mem a)) (a + 4) regs

theorem foldlM_listed {f : MultipleState → Fin 16 → Except Stop MultipleState}
    (h : ∀ s reg, named ins reg = false → f s reg = .ok s) (regs : List (Fin 16))
    (s : MultipleState) : regs.foldlM f s = (regs.filter (named ins)).foldlM f s := by
  have hstep : f = fun s reg => if named ins reg then f s reg else pure s := by
    funext s reg
    cases hnamed : named ins reg
    · exact h s reg hnamed
    · rfl
  rw [List.foldlM_filter, ← hstep]

/-- One iteration of a load: the program counter has its own after the loop. -/
def ldmVisit (registers : Word) (s : MultipleState) (reg : Fin 16) : Except Stop MultipleState :=
  if reg = 15 then ldmPc registers s else ldmStep registers s reg

theorem ldm_listed (s : MultipleState) :
    ((List.range 15).foldlM (ldmStep (getBits ins 15 0)) s >>= ldmPc (getBits ins 15 0)) =
      (listed ins).foldlM (ldmVisit (getBits ins 15 0)) s := by
  let general : List (Fin 16) := (List.finRange 15).map Fin.castSucc
  have hrange : List.range 15 = general.map Fin.val := by decide
  have hall : List.finRange 16 = general ++ [15] := by decide
  have hgeneral : ∀ reg ∈ general, reg ≠ 15 := by decide
  have hidle (s : MultipleState) (reg : Fin 16) (hreg : named ins reg = false) :
      ldmVisit (getBits ins 15 0) s reg = .ok s := by
    unfold ldmVisit
    split
    · rename_i hpc
      exact if_neg fun hstep => of_decide_eq_false hreg (hpc ▸ hstep.1)
    · exact if_neg fun hstep => of_decide_eq_false hreg hstep.2
  have hloop : general.foldlM (fun s (reg : Fin 16) => ldmStep (getBits ins 15 0) s reg) s =
      general.foldlM (ldmVisit (getBits ins 15 0)) s :=
    foldlM_congr general (fun s reg hreg => (if_neg (hgeneral reg hreg)).symm) s
  rw [listed, ← foldlM_listed ins hidle, hall, List.foldlM_append, ← hloop, hrange,
    List.foldlM_map]
  refine congrArg _ (funext fun s => ?_)
  rw [List.foldlM_cons, ldmVisit, if_pos rfl]
  exact (bind_pure _).symm

theorem stm_listed (s : MultipleState) :
    (List.range 16).foldlM (stmStep (getBits ins 15 0)) s =
      (listed ins).foldlM (fun s (reg : Fin 16) => stmStep (getBits ins 15 0) s reg) s := by
  have hrange : List.range 16 = (List.finRange 16).map Fin.val := by decide
  have hidle (s : MultipleState) (reg : Fin 16) (hreg : named ins reg = false) :
      stmStep (getBits ins 15 0) s reg = .ok s :=
    if_neg fun hstep => of_decide_eq_false hreg hstep.2
  rw [hrange, List.foldlM_map, foldlM_listed ins hidle, listed]

/-- One iteration of the instruction's loop. -/
def blockVisit (s : MultipleState) (reg : Fin 16) : Except Stop MultipleState :=
  if getBit ins 20 ≠ 0 then ldmVisit (getBits ins 15 0) s reg
  else stmStep (getBits ins 15 0) s reg

theorem blockVisit_load {ins : Word} (hl : getBit ins 20 ≠ 0) :
    blockVisit ins = ldmVisit (getBits ins 15 0) :=
  funext fun _ => funext fun _ => if_pos hl

theorem blockVisit_store {ins : Word} (hl : getBit ins 20 = 0) :
    blockVisit ins = fun s (reg : Fin 16) => stmStep (getBits ins 15 0) s reg :=
  funext fun _ => funext fun _ => if_neg (not_not.mpr hl)

theorem executeInstrMultiple_listed (u : Locals) (p : ArmCore) (start stop : Word) :
    executeInstrMultiple u p ins start stop =
      (listed ins).foldlM (blockVisit ins) ⟨p, 0, start, u.word⟩ >>= fun s =>
        if stop = s.address - 4 then pure (s.res, s.proc) else .error .assertion := by
  unfold executeInstrMultiple
  dsimp only
  split
  · rename_i hl
    rw [← bind_assoc, ldm_listed, blockVisit_load hl]
  · rename_i hl
    rw [stm_listed, blockVisit_store (not_not.mp hl)]

theorem toNat_next {b : Word} {n : Nat} (h : b.toNat + 4 * (n + 1) ≤ 2 ^ 32) (hn : n ≠ 0) :
    (b + 4).toNat = b.toNat + 4 := by
  have hfour : (4 : Word).toNat = 4 := rfl
  rw [BitVec.toNat_add, hfour, Nat.mod_eq_of_lt (by omega)]

theorem add_words (b : Word) (n : Nat) :
    b + 4 + BitVec.ofNat 32 (4 * n) = b + BitVec.ofNat 32 (4 * (n + 1)) := by
  bv_omega

theorem store_cons (q : Processor) (a : Nat) (w : Word) (ws : List Word) :
    store q a (w :: ws) = store (store q a [w]) (a + 4) ws :=
  congrArg (fun mem => { q with mem }) (storeWords_cons w ws)

theorem stmStep_eq {reg : Fin 16} (hnamed : named ins reg) {q : Processor} {b : Word}
    (h : b.toNat + 4 ≤ q.mem.values.size) (h32 : b.toNat + 4 ≤ 2 ^ 32) (w : Word) :
    stmStep (getBits ins 15 0) ⟨q.core, 0, b, w⟩ reg =
      .ok ⟨(store q b.toNat [q.register reg]).core, 0, b + 4, w⟩ := by
  have hbit : getBit (getBits ins 15 0) reg ≠ 0 := of_decide_eq_true hnamed
  rw [stmStep, if_pos ⟨rfl, hbit⟩]
  change (armReadRegister q.core reg >>= _) = _
  rw [q.armReadRegister_eq, ok_bind, armWriteWord]
  change ((memoryWriteWord q.mem b _ >>= _) >>= _) = _
  rw [memoryWriteWord_toNat h h32]
  rfl

theorem stm_run (regs : List (Fin 16)) (hnamed : ∀ reg ∈ regs, named ins reg) (q : Processor)
    (b w : Word) (h : regs ≠ [] → b.toNat + 4 * regs.length ≤ q.mem.values.size)
    (h32 : regs ≠ [] → b.toNat + 4 * regs.length ≤ 2 ^ 32) :
    regs.foldlM (fun s (reg : Fin 16) => stmStep (getBits ins 15 0) s reg) ⟨q.core, 0, b, w⟩ =
      .ok ⟨(store q b.toNat (regs.map q.register)).core, 0,
        b + BitVec.ofNat 32 (4 * regs.length), w⟩ := by
  induction regs generalizing q b with
  | nil =>
    have hzero : b + BitVec.ofNat 32 0 = b := BitVec.add_zero b
    rw [List.foldlM_nil, List.map_nil, store, storeWords_nil, List.length_nil, Nat.mul_zero, hzero]
    rfl
  | cons reg regs ih =>
    have hfits := h (List.cons_ne_nil _ _)
    have hfits32 := h32 (List.cons_ne_nil _ _)
    rw [List.length_cons] at hfits hfits32
    have hstep := stmStep_eq ins (hnamed reg List.mem_cons_self) (q := q) (b := b) (by omega)
      (by omega) w
    have hnext : regs ≠ [] → (b + 4).toNat = b.toNat + 4 := fun hne =>
      toNat_next hfits32 (mt List.length_eq_zero_iff.mp hne)
    have hrest := ih (fun r hr => hnamed r (List.mem_cons_of_mem reg hr))
      (store q b.toNat [q.register reg]) (b + 4)
      (fun hne => by rw [hnext hne, store, size_storeWords]; omega)
      (fun hne => by rw [hnext hne]; omega)
    have hmem : store (store q b.toNat [q.register reg]) (b + 4).toNat (regs.map q.register) =
        store q b.toNat ((reg :: regs).map q.register) := by
      by_cases hnil : regs = []
      · subst hnil
        rfl
      · rw [hnext hnil]
        exact (store_cons q b.toNat _ _).symm
    rw [List.foldlM_cons, hstep, ok_bind, hrest, add_words]
    change Except.ok (MultipleState.mk (store (store q b.toNat [q.register reg]) (b + 4).toNat
      (regs.map q.register)).core _ _ _) = _
    rw [hmem]
    rfl

theorem ldmVisit_eq {reg : Fin 16} (hnamed : named ins reg) {q : Processor} {b : Word}
    (h : b.toNat + 4 ≤ q.mem.values.size) (h32 : b.toNat + 4 ≤ 2 ^ 32) (w : Word) :
    ldmVisit (getBits ins 15 0) ⟨q.core, 0, b, w⟩ reg =
      .ok ⟨(load q reg (wordAt q.mem b.toNat)).core, 0, b + 4, wordAt q.mem b.toNat⟩ := by
  have hread : memoryReadWord q.mem b w = _ := memoryReadWord_toNat h h32 w
  have hbit : getBit (getBits ins 15 0) reg ≠ 0 := of_decide_eq_true hnamed
  unfold ldmVisit
  split
  · rename_i hpc
    subst hpc
    rw [ldmPc, if_pos ⟨hbit, rfl⟩, armReadWord]
    change (memoryReadWord q.mem b w >>= _) = _
    rw [hread, ok_bind, load, if_pos rfl]
    change (armWriteRegister (q.withFile (q.file.writeStatus
      (thumbStatus q.file (wordAt q.mem b.toNat)))).core 15 _ >>= _) = _
    rw [Processor.armWriteRegister_pc]
    rfl
  · rename_i hreg
    rw [ldmStep, if_pos ⟨rfl, hbit⟩, armReadWord]
    change (memoryReadWord q.mem b w >>= _) = _
    rw [hread, ok_bind]
    change (armWriteRegister q.core reg _ >>= _) = _
    rw [Processor.armWriteRegister_eq, load, if_neg hreg]
    rfl

theorem ldm_run (regs : List (Fin 16)) (hnamed : ∀ reg ∈ regs, named ins reg) (q : Processor)
    (b w : Word) (h : regs ≠ [] → b.toNat + 4 * regs.length ≤ q.mem.values.size)
    (h32 : regs ≠ [] → b.toNat + 4 * regs.length ≤ 2 ^ 32) : ∃ w',
    regs.foldlM (ldmVisit (getBits ins 15 0)) ⟨q.core, 0, b, w⟩ =
      .ok ⟨(loadWords q b.toNat regs).core, 0, b + BitVec.ofNat 32 (4 * regs.length), w'⟩ := by
  induction regs generalizing q b w with
  | nil =>
    have hzero : b + BitVec.ofNat 32 0 = b := BitVec.add_zero b
    refine ⟨w, ?_⟩
    rw [List.foldlM_nil, loadWords, List.length_nil, Nat.mul_zero, hzero]
    rfl
  | cons reg regs ih =>
    have hfits := h (List.cons_ne_nil _ _)
    have hfits32 := h32 (List.cons_ne_nil _ _)
    rw [List.length_cons] at hfits hfits32
    have hstep := ldmVisit_eq ins (hnamed reg List.mem_cons_self) (q := q) (b := b) (by omega)
      (by omega) w
    have hnext : regs ≠ [] → (b + 4).toNat = b.toNat + 4 := fun hne =>
      toNat_next hfits32 (mt List.length_eq_zero_iff.mp hne)
    obtain ⟨w', hrest⟩ := ih (fun r hr => hnamed r (List.mem_cons_of_mem reg hr))
      (load q reg (wordAt q.mem b.toNat)) (b + 4) (wordAt q.mem b.toNat)
      (fun hne => by rw [hnext hne, load_mem]; omega) (fun hne => by rw [hnext hne]; omega)
    have hloaded : loadWords (load q reg (wordAt q.mem b.toNat)) (b + 4).toNat regs =
        loadWords q b.toNat (reg :: regs) := by
      by_cases hnil : regs = []
      · subst hnil
        rfl
      · rw [hnext hnil, loadWords]
    refine ⟨w', ?_⟩
    rw [List.foldlM_cons, hstep, ok_bind, hrest, add_words, hloaded]
    rfl

theorem loadWords_mem (q : Processor) (a : Nat) (regs : List (Fin 16)) :
    (loadWords q a regs).mem = q.mem := by
  induction regs generalizing q a with
  | nil => rfl
  | cons reg regs ih => rw [loadWords, ih, load_mem]

theorem named_of_mem {reg : Fin 16} (h : reg ∈ listed ins) : named ins reg :=
  (List.mem_filter.mp h).2

end Loops

end ArmSimulator.Transfers
