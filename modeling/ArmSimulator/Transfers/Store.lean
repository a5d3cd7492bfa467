import ArmSimulator.Storage.Rewrite
import ArmSimulator.Transfers.Target

/-! # Stores

A store handler asks `condition_passed`, reads its register and writes memory.
The -1 of a rejected word or half becomes the 255 that the step returns, the
result of a byte is dropped. So making a store differs from dropping it unless
the memory already holds the bytes.
-/

namespace ArmSimulator.Transfers

open Machine Storage Foundation.ExceptRun

/-- The register a load or store names as its operand. -/
def rd (ins : Word) : Fin 16 := ⟨(getBits ins 15 12).toNat, toNat_getBits_lt ins (by omega)⟩

/-- The base register, the first operand of a data-processing instruction. -/
def rn (ins : Word) : Fin 16 := ⟨(getBits ins 19 16).toNat, toNat_getBits_lt ins (by omega)⟩

/-- The register of the offset or the second operand. -/
def rm (ins : Word) : Fin 16 := ⟨(getBits ins 3 0).toNat, toNat_getBits_lt ins (by omega)⟩

def storeValue : (n : Width) → Word → n.Value
  | .byte, x => (x &&& 0x00FF).setWidth 8
  | .half, x => (x &&& 0xFFFF).setWidth 16
  | .word, x => x

/-- The width and the address of the store that `condition_passed` decides on. -/
def storeWidth (ins : Word) : Target → Option (Width × Word)
  | .wordByte address =>
    if getBit ins 20 ≠ 0 then none
    else some (if getBit ins 22 ≠ 0 then .byte else .word, address)
  | .miscellaneous address =>
    if ((getBit ins 20 <<< 2) + (getBit ins 6 <<< 1) + getBit ins 5).toNat = 1 then
      some (.half, address)
    else none
  | _ => none

/-- The store itself; the result of a byte store is dropped. -/
def storeAt (p : ArmCore) (n : Width) (address value : Word) : Except Stop (Int × ArmCore) := do
  let (res, mem) ← memoryWrite n p.mem address (storeValue n value)
  return (if n = .byte then 0 else (toUint8 res).toNat, { p with mem })

variable {u : Locals} {p : ArmCore} {ins : Word} {t : Target}

theorem map_store {reg : Nat} {n : Width} {a : Word} {f : Word → Except Stop (Byte × ArmCore)}
    (hf : ∀ x, handlerResult <$> f x = storeAt p n a x) :
    handlerResult <$> (armReadRegister p reg >>= f) = armReadRegister p reg >>= storeAt p n a := by
  rw [map_bind]
  exact congrArg _ (funext hf)

theorem perform_store {n : Width} {a : Word} (h : storeWidth ins t = some (n, a)) :
    perform u p ins t = if conditionPassed p ins then
      armReadRegister p (getBits ins 15 12).toNat >>= storeAt p n a else .ok (0, p) := by
  cases t with
  | wordByte address =>
    rw [storeWidth] at h
    split at h
    · simp at h
    · rename_i hl
      rw [Option.some.injEq, Prod.mk.injEq] at h
      obtain ⟨rfl, rfl⟩ := h
      simp only [perform, executeInstrWordByte, hl, decide_false, Bool.false_eq_true, if_false,
        decide_eq_true_eq]
      by_cases hb : getBit ins 22 ≠ 0
      · rw [if_pos hb, if_pos hb]
        cases conditionPassed p ins
        · rfl
        · exact map_store fun x => by
            rw [armWriteByte, storeAt, memoryWrite, storeValue]
            cases memoryWriteByte p.mem address _ <;> rfl
      · rw [if_neg hb, if_neg hb]
        cases conditionPassed p ins
        · rfl
        · exact map_store fun x => by
            rw [armWriteWord, storeAt, memoryWrite, storeValue]
            cases memoryWriteWord p.mem address _ <;> rfl
  | miscellaneous address =>
    rw [storeWidth] at h
    split at h
    · rename_i hcode
      rw [Option.some.injEq, Prod.mk.injEq] at h
      obtain ⟨rfl, rfl⟩ := h
      simp only [perform, executeInstrMiscellaneous, hcode]
      cases conditionPassed p ins
      · rfl
      · exact map_store fun x => by
          rw [armWriteHalf, storeAt, memoryWrite, storeValue]
          cases memoryWriteHalf p.mem address _ <;> rfl
    · simp at h
  | skipped => simp [storeWidth] at h
  | undefined => simp [storeWidth] at h

/-! ## When a dropped store shows -/

/-- A store of `v` would change the memory, or be rejected with a result that is kept. -/
def Shows (mem : Memory) (n : Width) (a : Word) (v : n.Value) : Prop :=
  (n = .byte → a.toNat < mem.values.size) ∧
    ¬ Stored mem a (inOrder mem.isBigEndian (valueBytes n v))

theorem raiseResult_memory {r : Int} (hr : r = 0 ∨ r = -1) (p : ArmCore) :
    raiseResult ((toUint8 r).toNat, p) = .ok (if r = 0 then 0 else 255, p) := by
  rcases hr with rfl | rfl <;> rfl

theorem storeAt_invisible_iff (p : ArmCore) (n : Width) (a x : Word) :
    (storeAt p n a x >>= raiseResult) = .ok (0, p) ↔ ¬ Shows p.mem n a (storeValue n x) := by
  have hself : memoryWrite n p.mem a (storeValue n x) = .ok (0, p.mem) ↔
      Stored p.mem a (inOrder p.mem.isBigEndian (valueBytes n (storeValue n x))) :=
    memoryWrite_self_iff n _
  have htest : BoundTested p.mem a n p.mem (memoryWrite n p.mem a (storeValue n x)) :=
    memoryWrite_boundTested _
  rw [Shows, ← hself, storeAt]
  rcases Nat.lt_or_ge (lastByte a n).toNat p.mem.values.size with hlast | hlast
  · have hbyte : n = .byte → a.toNat < p.mem.values.size := fun h => by subst h; exact hlast
    rw [and_iff_right hbyte, not_not]
    cases hwrite : memoryWrite n p.mem a (storeValue n x) with
    | error e => simp [bind, Except.bind]
    | ok r =>
      obtain ⟨r, mem⟩ := r
      obtain rfl := htest.passed hlast r mem hwrite
      have hraise : raiseResult (if n = .byte then 0 else (toUint8 0).toNat, { p with mem }) =
          .ok (0, { p with mem }) := by
        split <;> rfl
      have hcore : ({ p with mem } : ArmCore) = p ↔ mem = p.mem :=
        ⟨fun h => congrArg ArmCore.mem h, fun h => by rw [h]⟩
      change raiseResult (if n = .byte then 0 else (toUint8 0).toNat, { p with mem }) = _ ↔ _
      rw [hraise, Except.ok.injEq, Prod.mk.injEq, hcore, Except.ok.injEq, Prod.mk.injEq]
  · rw [htest.rejected hlast]
    change raiseResult (if n = .byte then 0 else (toUint8 (-1)).toNat, p) = _ ↔ _
    by_cases hn : n = .byte
    · subst hn
      have hreject : ¬ a.toNat < p.mem.values.size := Nat.not_lt.mpr hlast
      exact iff_of_true rfl fun hshows => hreject (hshows.1 rfl)
    · rw [if_neg hn, raiseResult_memory (.inr rfl)]
      simp [hn]

end ArmSimulator.Transfers
