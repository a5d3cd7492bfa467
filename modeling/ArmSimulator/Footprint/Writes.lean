import ArmSimulator.DataProcessing.Effect
import ArmSimulator.Decoding.Outcome
import ArmSimulator.Footprint.Accesses

/-! # What every write keeps

All that a step does to the processor it does through the writes of registers, of the two
status words and of memory. A relation between processors that is kept by each of them is
kept by every instruction and by every exception.
-/

namespace ArmSimulator.Footprint

open Machine Storage Transfers Conditions Decoding DataProcessing Exceptions
  Foundation.ExceptRun

/-- A preorder that each write keeps. -/
structure Kept (R : ArmCore → ArmCore → Prop) : Prop where
  refl : ∀ p, R p p
  trans : ∀ {p q r}, R p q → R q r → R p r
  register : ∀ p reg value, Ensures (armWriteRegister p reg value) (R p)
  status : ∀ p value, R p (armWriteCpsr p value)
  savedStatus : ∀ p value, Ensures (armWriteSpsr p value) (R p)
  memory : ∀ p n a v, Ensures (memoryWrite n p.mem a v) fun r => R p { p with mem := r.2 }

namespace Kept

variable {R : ArmCore → ArmCore → Prop} {p q : ArmCore}

section Accessors

variable (hR : Kept R) (h : R p q)

include hR h

theorem writeRegister (reg : Nat) (value : Word) : Ensures (armWriteRegister q reg value) (R p) :=
  (hR.register q reg value).mono fun _ hq => hR.trans h hq

theorem writeSpsr (value : Word) : Ensures (armWriteSpsr q value) (R p) :=
  (hR.savedStatus q value).mono fun _ hq => hR.trans h hq

theorem writeCpsr (value : Word) : R p (armWriteCpsr q value) := hR.trans h (hR.status q value)

theorem writeByte (a : Word) (value : Byte) :
    Ensures (armWriteByte q a value) fun r => R p r.2 :=
  (hR.memory q .byte a value).bind fun _ hq => ensures_pure (hR.trans h hq)

theorem writeHalf (a : Word) (value : Half) :
    Ensures (armWriteHalf q a value) fun r => R p r.2 :=
  (hR.memory q .half a value).bind fun _ hq => ensures_pure (hR.trans h hq)

theorem writeWord (a : Word) (value : Word) :
    Ensures (armWriteWord q a value) fun r => R p r.2 :=
  (hR.memory q .word a value).bind fun _ hq => ensures_pure (hR.trans h hq)

end Accessors

/-! ## Loads and stores -/

section Transfers

variable (hR : Kept R) (u : Locals) (p : ArmCore) (ins : Word)

include hR

theorem miscellaneousTransfer (a : Word) :
    Ensures (executeInstrMiscellaneous u p ins a) fun r => R p r.2 := by
  have hrefl := hR.refl p
  unfold executeInstrMiscellaneous
  simp only
  split
  · split
    · exact ensures_bind fun _ => (hR.writeHalf hrefl _ _).bind fun _ h => ensures_pure h
    · exact ensures_pure hrefl
  · split
    · exact ensures_pure hrefl
    · refine ensures_bind fun r => ?_
      split
      · refine (hR.writeRegister hrefl _ _).bind fun q hq => ensures_bind fun r => ?_
        split
        · exact ensures_pure hq
        · exact (hR.writeRegister hq _ _).bind fun _ h => ensures_pure h
      · exact ensures_pure hrefl
  · split
    · exact ensures_pure hrefl
    · refine ensures_bind fun _ => (hR.writeWord hrefl _ _).bind fun r hr => ?_
      split
      · exact ensures_bind fun _ => (hR.writeWord hr _ _).bind fun _ h => ensures_pure h
      · exact ensures_pure hr
  · refine ensures_bind fun r => ?_
    split
    · exact (hR.writeRegister hrefl _ _).bind fun _ h => ensures_pure h
    · exact ensures_pure hrefl
  · exact ensures_pure hrefl

theorem wordByteTransfer (a : Word) :
    Ensures (executeInstrWordByte u p ins a) fun r => R p r.2 := by
  have hrefl := hR.refl p
  unfold executeInstrWordByte executeLdr
  simp only
  split
  · split
    · refine ensures_bind fun r => ?_
      split
      · exact (hR.writeRegister hrefl _ _).bind fun _ h => ensures_pure h
      · exact ensures_pure hrefl
    · refine ensures_bind fun r => ?_
      split
      · exact (hR.writeRegister (hR.writeCpsr hrefl _) _ _).bind fun _ h => ensures_pure h
      · exact (hR.writeRegister hrefl _ _).bind fun _ h => ensures_pure h
  · split
    · split
      · exact ensures_bind fun _ => (hR.writeByte hrefl _ _).bind fun _ h => ensures_pure h
      · exact ensures_pure hrefl
    · split
      · exact ensures_bind fun _ => (hR.writeWord hrefl _ _).bind fun _ h => ensures_pure h
      · exact ensures_pure hrefl

theorem loadStore [Host] : Ensures (armLoadStore u p ins) fun r => R p r.2 := by
  rw [armLoadStore_target]
  refine ensures_bind fun t => ?_
  cases t with
  | miscellaneous a => exact Ensures.map ((hR.miscellaneousTransfer u p ins a).mono fun _ h => h)
  | wordByte a => exact Ensures.map ((hR.wordByteTransfer u p ins a).mono fun _ h => h)
  | skipped => exact ensures_ok (hR.refl p)
  | undefined => exact ensures_ok (hR.refl p)

theorem storeStep (registers : Word) (m : MultipleState) (i : Nat) (h : R p m.proc) :
    Ensures (stmStep registers m i) fun m' => R p m'.proc := by
  unfold stmStep
  split
  · exact ensures_bind fun _ => (hR.writeWord h _ _).bind fun _ hs => ensures_pure hs
  · exact ensures_ok h

theorem loadStep (registers : Word) (m : MultipleState) (i : Nat) (h : R p m.proc) :
    Ensures (ldmStep registers m i) fun m' => R p m'.proc := by
  unfold ldmStep
  simp only
  split
  · refine ensures_bind fun r => ?_
    split
    · exact (hR.writeRegister h _ _).bind fun _ hs => ensures_pure hs
    · exact ensures_pure h
  · exact ensures_ok h

theorem loadPc (registers : Word) (m : MultipleState) (h : R p m.proc) :
    Ensures (ldmPc registers m) fun m' => R p m'.proc := by
  unfold ldmPc
  split
  · refine ensures_bind fun r => ?_
    exact (hR.writeRegister (hR.writeCpsr h _) _ _).bind fun _ hs => ensures_pure hs
  · exact ensures_ok h

theorem loadStoreMultiple : Ensures (armLoadStoreMultiple u p ins) fun r => R p r.2 := by
  have hend (stop : Word) (m : MultipleState) (h : R p m.proc) :
      Ensures (if stop = m.address - 4 then pure (m.res, m.proc) else .error .assertion :
        Except Stop (Byte × ArmCore)) fun r => R p r.2 := by
    split
    · exact ensures_pure h
    · exact ensures_error _
  refine ensures_bind fun base => Ensures.map ?_
  unfold executeInstrMultiple
  simp only
  split
  · refine (ensures_foldlM (hR.loadStep p _) _ (hR.refl p)).bind fun m hm => ?_
    exact (hR.loadPc p _ m hm).bind (hend _)
  · exact (ensures_foldlM (hR.storeStep p _) _ (hR.refl p)).bind (hend _)

end Transfers

/-! ## The other instructions -/

section Others

variable (hR : Kept R) (p : ArmCore) (ins : Word)

include hR

theorem branch : Ensures (armBranch p ins) fun r => R p r.2 := by
  have hjump (q : ArmCore) (h : R p q) (f : Word → Word) : Ensures (do
      let pc ← armReadRegister q 15
      let q ← armWriteRegister q 15 (f pc)
      return ((0 : Int), q)) fun r => R p r.2 :=
    ensures_bind fun _ => (hR.writeRegister h _ _).bind fun _ h' => ensures_pure h'
  unfold armBranch
  simp only
  split
  · exact ensures_bind fun _ =>
      (hR.writeRegister (hR.refl p) _ _).bind fun q h => hjump q h _
  · exact hjump p (hR.refl p) _

theorem coprocessorOthersSwi : Ensures (armCoprocessorOthersSwi p ins) fun r => R p r.2 := by
  unfold armCoprocessorOthersSwi
  split_ifs
  · exact ensures_error _
  · exact ensures_ok (hR.refl p)
  · exact ensures_ok (hR.refl p)

theorem inst (opcode rd : Nat) (valueRn operand : Word) (updateCPSR : Bool) :
    Ensures (executeInst opcode p rd valueRn operand updateCPSR) fun r => R p r.2 := by
  cases halu : aluOf opcode (armReadCpsr p) valueRn operand with
  | none =>
    unfold aluOf at halu
    unfold executeInst
    simp only [halu]
    exact ensures_pure (hR.refl p)
  | some r =>
    have hwrite :
        Ensures (if IsTest opcode then pure p else armWriteRegister p rd r.res) (R p) := by
      split
      · exact ensures_pure (hR.refl p)
      · exact hR.register p rd r.res
    rw [executeInst_eq halu]
    refine hwrite.bind fun q hq => ?_
    unfold updateStatus
    split_ifs
    · exact ensures_bind fun spsr => ensures_pure (hR.writeCpsr hq spsr)
    · exact ensures_pure hq
    · exact ensures_pure (hR.writeCpsr hq _)
    · exact ensures_pure hq

theorem psr (value : Byte) (saved : Bool) : Ensures (writePsr p ins value saved) (R p) := by
  unfold writePsr
  cases saved
  · exact ensures_pure (hR.status p _)
  · exact ensures_bind fun psr => hR.savedStatus p _

variable [Host]

theorem miscellaneous : Ensures (armMiscellaneous p ins) fun r => R p r.2 := by
  unfold armMiscellaneous
  simp only
  split
  · split
    · exact (hR.psr p ins _ _).bind fun _ h => ensures_pure h
    · exact ensures_bind fun _ => (hR.psr p ins _ _).bind fun _ h => ensures_pure h
  · have hwrite (rd : Nat) (value : Word) : Ensures (do
        let p ← armWriteRegister p rd value
        return ((0 : Int), p)) fun r => R p r.2 :=
      (hR.register p rd value).bind fun _ h => ensures_pure h
    split
    · exact ensures_bind fun value => hwrite _ value
    · exact hwrite _ _

theorem dataProcessingShift : Ensures (armDataProcessingShift p ins) fun r => R p r.2 :=
  ensures_bind fun _ => ensures_bind fun _ => ensures_bind fun _ => hR.inst p _ _ _ _ _

theorem dataProcessingImmediateMsr :
    Ensures (armDataProcessingImmediateMsr p ins) fun r => R p r.2 :=
  ensures_bind fun _ => hR.inst p _ _ _ _ _

/-- What every write keeps every instruction keeps. -/
theorem run (u : Locals) : Ensures ((dispatch ins).run u p ins) fun r => R p r.2 := by
  cases dispatch ins with
  | loadStore => exact hR.loadStore u p ins
  | loadStoreMultiple => exact hR.loadStoreMultiple u p ins
  | miscellaneous => exact hR.miscellaneous p ins
  | dataProcessingShift => exact hR.dataProcessingShift p ins
  | dataProcessingImmediateMsr => exact hR.dataProcessingImmediateMsr p ins
  | branch => exact hR.branch p ins
  | coprocessorOthersSwi => exact hR.coprocessorOthersSwi p ins
  | coprocessorLoadStore => exact ensures_ok (hR.refl p)

end Others

/-! ## Exceptions and steps -/

section Steps

variable (hR : Kept R)

include hR

theorem entry (p : ArmCore) (needSpsr : Bool) (bits : Word) (count : Nat) (state : ReturnState)
    (vector : Word) : Ensures (execute_ p needSpsr bits count state vector) (R p) := by
  unfold execute_
  refine ensures_bind fun sp => ensures_bind fun pc => ?_
  refine (hR.writeRegister (hR.status p _) _ _).bind fun q hq => ?_
  refine (hR.writeRegister hq _ _).bind fun q hq => ?_
  split
  · exact (hR.writeSpsr hq _).bind fun q hq => hR.writeRegister hq _ _
  · exact hR.writeRegister hq _ _

theorem exception (p : ArmCore) (exception : Byte) :
    Ensures (armException p exception) (R p) := by
  unfold armException
  split <;> first | exact hR.entry p _ _ _ _ _ | exact ensures_ok (hR.refl p)

theorem raise (r : Int × ArmCore) (h : R p r.2) :
    Ensures (raiseResult r) fun r' => R p r'.2 := by
  unfold raiseResult
  split
  · exact (hR.exception r.2 _).bind fun q hq => ensures_pure (hR.trans h hq)
  · exact ensures_ok h

/-- The fetch counts the cycle; what is done after it is kept. -/
theorem step [Host] (u : Locals) (p : ArmCore) : Ensures (armStep u p) fun r =>
    R { p with cycleCount := p.cycleCount + 1 } r.2 := by
  have hfetch : Ensures (armFetch p u.inst) fun r =>
      R { p with cycleCount := p.cycleCount + 1 } r.2.2 :=
    ensures_bind fun _ => ensures_bind fun _ =>
      (hR.register { p with cycleCount := p.cycleCount + 1 } _ _).bind fun _ h => ensures_pure h
  rw [armStep_eq]
  refine hfetch.bind fun r hr => ?_
  split
  · exact hR.raise _ hr
  · refine Ensures.bind (P := fun r' => R { p with cycleCount := p.cycleCount + 1 } r'.2) ?_
      fun r' hr' => hR.raise _ hr'
    unfold executeFetched
    split_ifs
    · exact ensures_ok hr
    · exact ensures_ok hr
    · rw [executeClass_dispatch]
      exact (hR.run r.2.2 r.2.1 u).mono fun _ h => hR.trans hr h

end Steps

end Kept

/-! ## The frame of the machine -/

/-- The cycles counted, the size of the memory and its byte order are the same. -/
structure Steady (p q : ArmCore) : Prop where
  cycleCount : q.cycleCount = p.cycleCount
  size : q.mem.values.size = p.mem.values.size
  isBigEndian : q.mem.isBigEndian = p.mem.isBigEndian

theorem memoryWrite_isBigEndian (mem : Memory) (n : Width) (a : Word) (v : n.Value) :
    Ensures (memoryWrite n mem a v) fun r => r.2.isBigEndian = mem.isBigEndian := by
  obtain ⟨cs, -, hwrite⟩ := memoryWrite_eq_storeAll mem a n v
  rw [hwrite]
  split
  · exact ensures_ok rfl
  · intro r hr
    obtain ⟨m, hm, hr⟩ := bind_eq_ok.mp hr
    rw [Except.ok.injEq] at hr
    exact hr ▸ storeAll_order hm

theorem steady_kept : Kept Steady where
  refl _ := ⟨rfl, rfl, rfl⟩
  trans h h' := ⟨h'.cycleCount.trans h.cycleCount, h'.size.trans h.size,
    h'.isBigEndian.trans h.isBigEndian⟩
  register _ _ _ := ensures_bind fun _ => ensures_pure ⟨rfl, rfl, rfl⟩
  status _ _ := ⟨rfl, rfl, rfl⟩
  savedStatus _ _ := ensures_bind fun _ => ensures_pure ⟨rfl, rfl, rfl⟩
  memory p n a v r hr := ⟨rfl, memoryWrite_size v r hr, memoryWrite_isBigEndian p.mem n a v r hr⟩

end ArmSimulator.Footprint
