import ArmSimulator.Footprint.Accesses
import ArmSimulator.Transfers.Completion

/-! # Instructions on memories in another form

The handlers reach memory through the accesses that can be read off the state they start
in. Where these fit, a handler does the same on the other form of the memory, whether it
returns or not.
-/

namespace ArmSimulator.Footprint

open Machine Storage Transfers Decoding Exceptions Foundation.ExceptRun

/-- The accesses, each made if the one before it was let pass, fit. -/
def AllFit (fits : Width → Word → Prop) (mem : Memory) : List (Width × Word) → Prop
  | [] => True
  | (n, a) :: rest => Admitted mem n a → fits n a ∧ AllFit fits mem rest

/-- The processor with its memory in another form. -/
def recode (f : Memory → Memory) (p : ArmCore) : ArmCore := { p with mem := f p.mem }

variable {f : Memory → Memory} {fits : Width → Word → Prop} {p : ArmCore} {a : Word}

theorem allFit_one {mem : Memory} {n : Width} :
    AllFit fits mem [(n, a)] ↔ (Admitted mem n a → fits n a) := by
  rw [AllFit, AllFit, and_true]

theorem allFit_two {mem : Memory} {n m : Width} {b : Word} : AllFit fits mem [(n, a), (m, b)] ↔
    (Admitted mem n a → fits n a ∧ (Admitted mem m b → fits m b)) := by
  rw [AllFit, allFit_one]

theorem allFit_congr {mem mem' : Memory} (hsize : mem'.values.size = mem.values.size)
    (l : List (Width × Word)) : AllFit fits mem' l ↔ AllFit fits mem l := by
  induction l with
  | nil => rfl
  | cons access l ih =>
    obtain ⟨n, a⟩ := access
    rw [AllFit, AllFit, admitted_congr hsize, ih]

/-! ## Accessors -/

theorem armWriteRegister_recode (reg : Nat) (value : Word) :
    armWriteRegister (recode f p) reg value = recode f <$> armWriteRegister p reg value := by
  change (writeRegister p.reg reg value >>= _) = recode f <$> (writeRegister p.reg reg value >>= _)
  exact bind_map_same fun _ _ => rfl

theorem armWriteSpsr_recode (value : Word) :
    armWriteSpsr (recode f p) value = recode f <$> armWriteSpsr p value := by
  change (writeSpsr p.reg value >>= _) = recode f <$> (writeSpsr p.reg value >>= _)
  exact bind_map_same fun _ _ => rfl

theorem armWriteRegister_mem (reg : Nat) (value : Word) :
    Ensures (armWriteRegister p reg value) fun p' => p'.mem = p.mem :=
  ensures_bind fun _ => ensures_pure rfl

theorem armWriteWord_answers (value : Word) : Ensures (armWriteWord p a value) fun r =>
    Answers p.mem .word a r.1 ∧ r.2.mem.values.size = p.mem.values.size :=
  fun _ h => by
    obtain ⟨⟨r, mem⟩, hwrite, h⟩ := bind_eq_ok.mp h
    rw [pure_eq_ok] at h
    subst h
    exact ⟨(memoryWrite_boundTested (n := .word) value).answers _ hwrite,
      memoryWrite_size (n := .word) value _ hwrite⟩

theorem armReadWord_answers (value : Word) :
    Ensures (armReadWord p a value) fun r => Answers p.mem .word a r.1 :=
  (memoryRead_boundTested (n := .word) value).answers

section Accessors

variable (hf : Recoding f fits)

include hf

theorem armReadByte_recode (h : Admitted p.mem .byte a → fits .byte a) (value : Byte) :
    armReadByte (recode f p) a value = armReadByte p a value :=
  hf.read (n := .byte) h value

theorem armReadHalf_recode (h : Admitted p.mem .half a → fits .half a) (value : Half) :
    armReadHalf (recode f p) a value = armReadHalf p a value :=
  hf.read (n := .half) h value

theorem armReadWord_recode (h : Admitted p.mem .word a → fits .word a) (value : Word) :
    armReadWord (recode f p) a value = armReadWord p a value :=
  hf.read (n := .word) h value

theorem armWriteByte_recode (h : Admitted p.mem .byte a → fits .byte a) (value : Byte) :
    armWriteByte (recode f p) a value = Prod.map id (recode f) <$> armWriteByte p a value :=
  bind_map_congr (hf.write (n := .byte) h value) fun _ _ => rfl

theorem armWriteHalf_recode (h : Admitted p.mem .half a → fits .half a) (value : Half) :
    armWriteHalf (recode f p) a value = Prod.map id (recode f) <$> armWriteHalf p a value :=
  bind_map_congr (hf.write (n := .half) h value) fun _ _ => rfl

theorem armWriteWord_recode (h : Admitted p.mem .word a → fits .word a) (value : Word) :
    armWriteWord (recode f p) a value = Prod.map id (recode f) <$> armWriteWord p a value :=
  bind_map_congr (hf.write (n := .word) h value) fun _ _ => rfl

end Accessors

/-! ## Loads and stores -/

theorem handlerResult_recode (x : Except Stop (Byte × ArmCore)) :
    handlerResult <$> Prod.map id (recode f) <$> x =
      Prod.map id (recode f) <$> handlerResult <$> x := by
  cases x <;> rfl

section Target

variable (hf : Recoding f fits)

include hf

theorem executeInstrMiscellaneous_recode (u : Locals) (ins : Word)
    (h : AllFit fits p.mem (accesses p ins (.miscellaneous a))) :
    executeInstrMiscellaneous u (recode f p) ins a =
      Prod.map id (recode f) <$> executeInstrMiscellaneous u p ins a := by
  unfold accesses at h
  unfold executeInstrMiscellaneous
  simp only [miscellaneousCode] at h ⊢
  generalize ((getBit ins 20 <<< 2) + (getBit ins 6 <<< 1) + getBit ins 5).toNat = code at h ⊢
  have hwrite (p : ArmCore) (b : Byte) (reg : Nat) (value : Word) :
      (armWriteRegister (recode f p) reg value >>= fun p => pure (b, p)) =
        Prod.map id (recode f) <$> (armWriteRegister p reg value >>= fun p => pure (b, p)) :=
    bind_map_congr (armWriteRegister_recode _ _) fun _ _ => rfl
  split
  · split
    · rename_i hpass
      rw [if_pos (show conditionPassed p ins from hpass)] at h ⊢
      refine bind_map_same fun value _ => ?_
      exact bind_map_congr (armWriteHalf_recode hf (allFit_one.mp h) _) fun _ _ => rfl
    · rename_i hfail
      rw [if_neg (show ¬ conditionPassed p ins from hfail)]
      rfl
  · split
    · rfl
    · rename_i hfits
      change AllFit fits p.mem (if _ then [] else _) at h
      rw [if_neg hfits, allFit_two] at h
      rw [armReadWord_recode hf fun hin => (h hin).1]
      refine bind_map_same fun r hr => ?_
      split
      · rename_i hzero
        have hsecond := (h ((armReadWord_answers _ r hr).zero_iff.mp hzero)).2
        refine bind_map_congr (armWriteRegister_recode _ _) fun p' hp' => ?_
        rw [← armWriteRegister_mem _ _ p' hp'] at hsecond
        rw [armReadWord_recode hf hsecond]
        refine bind_map_same fun r _ => ?_
        split
        · rfl
        · exact hwrite p' 0 _ _
      · rfl
  · split
    · rfl
    · rename_i hfits
      change AllFit fits p.mem (if _ then [] else _) at h
      rw [if_neg hfits, allFit_two] at h
      refine bind_map_same fun value _ => ?_
      refine bind_map_congr (armWriteWord_recode hf (fun hin => (h hin).1) value) fun r hr => ?_
      obtain ⟨hanswers, hsize⟩ := armWriteWord_answers value r hr
      change (if r.1 = 0 then _ else _) = Prod.map id (recode f) <$> (if r.1 = 0 then _ else _)
      split
      · rename_i hzero
        have hsecond := (h (hanswers.zero_iff.mp hzero)).2
        rw [← admitted_congr hsize] at hsecond
        refine bind_map_same fun value _ => ?_
        exact bind_map_congr (armWriteWord_recode hf hsecond value) fun _ _ => rfl
      · rfl
  · rw [armReadHalf_recode hf (allFit_one.mp h)]
    refine bind_map_same fun r _ => ?_
    split
    · exact hwrite p _ _ _
    · rfl
  · rfl

theorem executeLdr_recode (u : Locals) (rd : Nat) (h : Admitted p.mem .word a → fits .word a) :
    executeLdr u (recode f p) rd a = Prod.map id (recode f) <$> executeLdr u p rd a := by
  unfold executeLdr
  rw [armReadWord_recode hf h]
  refine bind_map_same fun r _ => ?_
  dsimp only
  split
  · exact bind_map_congr (armWriteRegister_recode (p := armWriteCpsr p _) _ _) fun _ _ => rfl
  · exact bind_map_congr (armWriteRegister_recode _ _) fun _ _ => rfl

theorem executeInstrWordByte_recode (u : Locals) (ins : Word)
    (h : AllFit fits p.mem (accesses p ins (.wordByte a))) :
    executeInstrWordByte u (recode f p) ins a =
      Prod.map id (recode f) <$> executeInstrWordByte u p ins a := by
  unfold accesses at h
  unfold executeInstrWordByte
  simp only [decide_eq_true_eq] at h ⊢
  have hpass : conditionPassed (recode f p) ins = conditionPassed p ins := rfl
  rw [hpass]
  split
  · rename_i hl
    rw [if_pos (Or.inl hl)] at h
    split
    · rename_i hb
      rw [if_pos hb] at h
      rw [armReadByte_recode hf (allFit_one.mp h)]
      refine bind_map_same fun r _ => ?_
      split
      · exact bind_map_congr (armWriteRegister_recode _ _) fun _ _ => rfl
      · rfl
    · rename_i hb
      rw [if_neg hb] at h
      exact executeLdr_recode hf u _ (allFit_one.mp h)
  · split
    · rename_i hb
      split
      · rename_i hpass
        rw [if_pos (Or.inr hpass), if_pos hb] at h
        refine bind_map_same fun value _ => ?_
        exact bind_map_congr (armWriteByte_recode hf (allFit_one.mp h) _) fun _ _ => rfl
      · rfl
    · rename_i hb
      split
      · rename_i hpass
        rw [if_pos (Or.inr hpass), if_neg hb] at h
        refine bind_map_same fun value _ => ?_
        exact bind_map_congr (armWriteWord_recode hf (allFit_one.mp h) _) fun _ _ => rfl
      · rfl

variable [Host]

omit hf in
theorem target_recode (u : Locals) (ins : Word) : target u (recode f p) ins = target u p ins := rfl

theorem armLoadStore_recode (u : Locals) (ins : Word)
    (h : ∀ t, target u p ins = .ok t → AllFit fits p.mem (accesses p ins t)) :
    armLoadStore u (recode f p) ins = Prod.map id (recode f) <$> armLoadStore u p ins := by
  rw [armLoadStore_target, armLoadStore_target, target_recode]
  refine bind_map_same fun t ht => ?_
  cases t with
  | miscellaneous a =>
    rw [perform, perform, executeInstrMiscellaneous_recode hf u ins (h _ ht), handlerResult_recode]
  | wordByte a =>
    rw [perform, perform, executeInstrWordByte_recode hf u ins (h _ ht), handlerResult_recode]
  | skipped => rfl
  | undefined => rfl

end Target

/-! ## Block transfers -/

def wordsFrom : Word → Nat → List (Width × Word)
  | _, 0 => []
  | a, n + 1 => (.word, a) :: wordsFrom (a + 4) n

/-- The state of a block loop with the memory in another form. -/
def recodeState (f : Memory → Memory) (m : MultipleState) : MultipleState :=
  { m with proc := recode f m.proc }

section Block

variable {m : MultipleState} {ins : Word} {reg : Fin 16}

/-- What an iteration leaves for the next one. -/
structure Visit (m m' : MultipleState) : Prop where
  size : m'.proc.mem.values.size = m.proc.mem.values.size
  res : m'.res = 0 → m.res = 0 ∧ m'.address = m.address + 4 ∧ Admitted m.proc.mem .word m.address

theorem stmStep_visit {registers : Word} {i : Nat} (hreg : getBit registers i ≠ 0) :
    Ensures (stmStep registers m i) (Visit m) := by
  unfold stmStep
  split
  · rename_i hvisit
    refine ensures_bind fun value => (armWriteWord_answers value).bind fun r hr => ?_
    exact ensures_ok ⟨hr.2, fun hres => ⟨hvisit.1, rfl, (toUint8_iff hr.1).mp hres⟩⟩
  · rename_i hidle
    exact ensures_ok ⟨rfl, fun hres => absurd ⟨hres, hreg⟩ hidle⟩

theorem ldmVisit_visit {registers : Word} (hreg : getBit registers reg ≠ 0) :
    Ensures (ldmVisit registers m reg) (Visit m) := by
  unfold ldmVisit ldmPc ldmStep
  split
  · rename_i hpc
    subst hpc
    split
    · rename_i hvisit
      refine (armReadWord_answers _).bind fun r hr => ?_
      refine (armWriteRegister_mem _ _).bind fun p' hp' => ensures_ok ⟨?_, fun hres =>
        ⟨hvisit.2, rfl, (toUint8_iff hr).mp hres⟩⟩
      exact congrArg (fun mem => mem.values.size) hp'
    · rename_i hidle
      exact ensures_ok ⟨rfl, fun hres => absurd ⟨hreg, hres⟩ hidle⟩
  · split
    · rename_i hvisit
      refine (armReadWord_answers _).bind fun r hr => ?_
      dsimp only
      split
      · refine (armWriteRegister_mem _ _).bind fun p' hp' => ensures_ok ⟨?_, fun hres =>
          ⟨hvisit.1, rfl, (toUint8_iff hr).mp hres⟩⟩
        exact congrArg (fun mem => mem.values.size) hp'
      · exact ensures_ok ⟨rfl, fun hres => ⟨hvisit.1, rfl, (toUint8_iff hr).mp hres⟩⟩
    · rename_i hidle
      exact ensures_ok ⟨rfl, fun hres => absurd ⟨hres, hreg⟩ hidle⟩

theorem blockVisit_visit (hnamed : named ins reg) : Ensures (blockVisit ins m reg) (Visit m) := by
  have hreg : getBit (getBits ins 15 0) reg ≠ 0 := of_decide_eq_true hnamed
  unfold blockVisit
  split
  · exact ldmVisit_visit hreg
  · exact stmStep_visit hreg

variable (hf : Recoding f fits)

include hf

theorem stmStep_recode (registers : Word) (i : Nat)
    (h : m.res = 0 → Admitted m.proc.mem .word m.address → fits .word m.address) :
    stmStep registers (recodeState f m) i = recodeState f <$> stmStep registers m i := by
  by_cases hvisit : m.res = 0 ∧ getBit registers i ≠ 0
  · have hvisit' : (recodeState f m).res = 0 ∧ getBit registers i ≠ 0 := hvisit
    rw [stmStep, stmStep, if_pos hvisit, if_pos hvisit']
    refine bind_map_same fun value _ => ?_
    exact bind_map_congr (armWriteWord_recode hf (h hvisit.1) value) fun _ _ => rfl
  · have hvisit' : ¬ ((recodeState f m).res = 0 ∧ getBit registers i ≠ 0) := hvisit
    rw [stmStep, stmStep, if_neg hvisit, if_neg hvisit']
    rfl

theorem ldmStep_recode (registers : Word) (i : Nat)
    (h : m.res = 0 → Admitted m.proc.mem .word m.address → fits .word m.address) :
    ldmStep registers (recodeState f m) i = recodeState f <$> ldmStep registers m i := by
  by_cases hvisit : m.res = 0 ∧ getBit registers i ≠ 0
  · have hvisit' : (recodeState f m).res = 0 ∧ getBit registers i ≠ 0 := hvisit
    have hread : armReadWord (recode f m.proc) m.address m.word =
        armReadWord m.proc m.address m.word := armReadWord_recode hf (h hvisit.1) m.word
    rw [ldmStep, ldmStep, if_pos hvisit, if_pos hvisit']
    change armReadWord (recode f m.proc) m.address m.word >>= _ = _
    rw [hread]
    refine bind_map_same fun r _ => ?_
    dsimp only
    split
    · exact bind_map_congr (armWriteRegister_recode _ _) fun _ _ => rfl
    · rfl
  · have hvisit' : ¬ ((recodeState f m).res = 0 ∧ getBit registers i ≠ 0) := hvisit
    rw [ldmStep, ldmStep, if_neg hvisit, if_neg hvisit']
    rfl

theorem ldmPc_recode (registers : Word)
    (h : m.res = 0 → Admitted m.proc.mem .word m.address → fits .word m.address) :
    ldmPc registers (recodeState f m) = recodeState f <$> ldmPc registers m := by
  by_cases hvisit : getBit registers 15 ≠ 0 ∧ m.res = 0
  · have hvisit' : getBit registers 15 ≠ 0 ∧ (recodeState f m).res = 0 := hvisit
    have hread : armReadWord (recode f m.proc) m.address m.word =
        armReadWord m.proc m.address m.word := armReadWord_recode hf (h hvisit.2) m.word
    rw [ldmPc, ldmPc, if_pos hvisit, if_pos hvisit']
    change armReadWord (recode f m.proc) m.address m.word >>= _ = _
    rw [hread]
    refine bind_map_same fun r _ => ?_
    exact bind_map_congr (armWriteRegister_recode (p := armWriteCpsr m.proc _) _ _) fun _ _ => rfl
  · have hvisit' : ¬ (getBit registers 15 ≠ 0 ∧ (recodeState f m).res = 0) := hvisit
    rw [ldmPc, ldmPc, if_neg hvisit, if_neg hvisit']
    rfl

theorem blockVisit_recode
    (h : m.res = 0 → Admitted m.proc.mem .word m.address → fits .word m.address) :
    blockVisit ins (recodeState f m) reg = recodeState f <$> blockVisit ins m reg := by
  unfold blockVisit ldmVisit
  split
  · split
    · exact ldmPc_recode hf _ h
    · exact ldmStep_recode hf _ _ h
  · exact stmStep_recode hf _ _ h

theorem block_recode {regs : List (Fin 16)} (hnamed : ∀ reg ∈ regs, named ins reg)
    (h : m.res = 0 → AllFit fits m.proc.mem (wordsFrom m.address regs.length)) :
    regs.foldlM (blockVisit ins) (recodeState f m) =
      recodeState f <$> regs.foldlM (blockVisit ins) m := by
  induction regs generalizing m with
  | nil => rfl
  | cons reg regs ih =>
    obtain ⟨hreg, hregs⟩ := List.forall_mem_cons.mp hnamed
    rw [List.foldlM_cons, List.foldlM_cons]
    refine bind_map_congr (blockVisit_recode hf fun hres hin => (h hres hin).1) fun m' hm' => ?_
    have hvisit := blockVisit_visit hreg m' hm'
    refine ih hregs fun hres => ?_
    obtain ⟨hbefore, haddress, hin⟩ := hvisit.res hres
    rw [haddress, allFit_congr hvisit.size]
    exact (h hbefore hin).2

theorem executeInstrMultiple_recode (u : Locals) (start stop : Word)
    (h : AllFit fits p.mem (wordsFrom start (listed ins).length)) :
    executeInstrMultiple u (recode f p) ins start stop =
      Prod.map id (recode f) <$> executeInstrMultiple u p ins start stop := by
  rw [executeInstrMultiple_listed, executeInstrMultiple_listed]
  refine bind_map_congr (block_recode hf (m := ⟨p, 0, start, u.word⟩) (fun reg => named_of_mem ins)
    fun _ => h) fun m _ => ?_
  change (if stop = m.address - 4 then _ else _) =
    Prod.map id (recode f) <$> (if stop = m.address - 4 then _ else _)
  split <;> rfl

theorem armLoadStoreMultiple_recode (u : Locals)
    (h : ∀ base, armReadRegister p (getBits ins 19 16).toNat = .ok base → AllFit fits p.mem
      (wordsFrom (addrmodeLoadStoreMultiple p ins base).1 (listed ins).length)) :
    armLoadStoreMultiple u (recode f p) ins =
      Prod.map id (recode f) <$> armLoadStoreMultiple u p ins := by
  unfold armLoadStoreMultiple
  refine bind_map_same fun base hbase => ?_
  have hspared := h base hbase
  have hmode : addrmodeLoadStoreMultiple (recode f p) ins base =
      addrmodeLoadStoreMultiple p ins base := rfl
  rw [hmode]
  generalize addrmodeLoadStoreMultiple p ins base = r at hspared ⊢
  dsimp only
  rw [executeInstrMultiple_recode hf u _ _ hspared, handlerResult_recode]

end Block

end ArmSimulator.Footprint
