import ArmSimulator.Machine.Host

/-! # Simulated memory (`memory.c`)

The accessors return `0` or `-1` with the out-parameter, which keeps its old value
on failure. Addresses are 32 bits wide, so `address + 1` and `address + 3` wrap
both in the bound test and in the indices; an index past the block is `wild`.
-/

namespace ArmSimulator.Machine

structure Memory where
  values : Array Byte
  isBigEndian : Bool
  deriving DecidableEq, Repr

def memoryGetSize (mem : Memory) : Nat := mem.values.size

namespace Memory

/-- `mem->values[address]` as a value -/
def load (mem : Memory) (address : Word) : Except Stop Byte :=
  match mem.values[address.toNat]? with
  | some b => .ok b
  | none => .error .wild

/-- `mem->values[address] = value` -/
def store (mem : Memory) (address : Word) (value : Byte) : Except Stop Memory :=
  if address.toNat < mem.values.size then
    .ok { mem with values := mem.values.setIfInBounds address.toNat value }
  else .error .wild

end Memory

def memoryReadByte (mem : Memory) (address : Word) (value : Byte) : Except Stop (Int × Byte) :=
  if address < 0 ∨ memoryGetSize mem ≤ address.toNat then .ok (-1, value)
  else do
    let value ← mem.load address
    return (0, value)

/-- `b₁ << 8`, then `| b₀`, in a `uint16_t` -/
def halfOfBytes (b₁ b₀ : Byte) : Half := (b₁.setWidth 16 <<< 8) ||| b₀.setWidth 16

def memoryReadHalf (mem : Memory) (address : Word) (value : Half) : Except Stop (Int × Half) :=
  if address < 0 ∨ memoryGetSize mem ≤ (address + 1).toNat then .ok (-1, value)
  else if mem.isBigEndian then do
    let b₁ ← mem.load address
    let b₀ ← mem.load (address + 1)
    return (0, halfOfBytes b₁ b₀)
  else do
    let b₁ ← mem.load (address + 1)
    let b₀ ← mem.load address
    return (0, halfOfBytes b₁ b₀)

/-- `b₃ << 24 | b₂ << 16 | b₁ << 8 | b₀` -/
def wordOfBytes (b₃ b₂ b₁ b₀ : Byte) : Word :=
  (b₃.setWidth 32 <<< 24) ||| (b₂.setWidth 32 <<< 16) ||| (b₁.setWidth 32 <<< 8) ||| b₀.setWidth 32

def memoryReadWord (mem : Memory) (address : Word) (value : Word) : Except Stop (Int × Word) :=
  if address < 0 ∨ memoryGetSize mem ≤ (address + 3).toNat then .ok (-1, value)
  else if mem.isBigEndian then do
    let b₃ ← mem.load address
    let b₂ ← mem.load (address + 1)
    let b₁ ← mem.load (address + 2)
    let b₀ ← mem.load (address + 3)
    return (0, wordOfBytes b₃ b₂ b₁ b₀)
  else do
    let b₃ ← mem.load (address + 3)
    let b₂ ← mem.load (address + 2)
    let b₁ ← mem.load (address + 1)
    let b₀ ← mem.load address
    return (0, wordOfBytes b₃ b₂ b₁ b₀)

def memoryWriteByte (mem : Memory) (address : Word) (value : Byte) : Except Stop (Int × Memory) :=
  if address < 0 ∨ memoryGetSize mem ≤ address.toNat then .ok (-1, mem)
  else do
    let mem ← mem.store address value
    return (0, mem)

def memoryWriteHalf (mem : Memory) (address : Word) (value : Half) : Except Stop (Int × Memory) :=
  if address < 0 ∨ memoryGetSize mem ≤ (address + 1).toNat then .ok (-1, mem)
  else if mem.isBigEndian then do
    let mem ← mem.store address ((value >>> 8).setWidth 8)
    let mem ← mem.store (address + 1) (value.setWidth 8)
    return (0, mem)
  else do
    let mem ← mem.store address (value.setWidth 8)
    let mem ← mem.store (address + 1) ((value >>> 8).setWidth 8)
    return (0, mem)

def memoryWriteWord (mem : Memory) (address : Word) (value : Word) : Except Stop (Int × Memory) :=
  if address < 0 ∨ memoryGetSize mem ≤ (address + 3).toNat then .ok (-1, mem)
  else if mem.isBigEndian then do
    let mem ← mem.store address ((value >>> 24).setWidth 8)
    let mem ← mem.store (address + 1) ((value >>> 16).setWidth 8)
    let mem ← mem.store (address + 2) ((value >>> 8).setWidth 8)
    let mem ← mem.store (address + 3) (value.setWidth 8)
    return (0, mem)
  else do
    let mem ← mem.store (address + 3) ((value >>> 24).setWidth 8)
    let mem ← mem.store (address + 2) ((value >>> 16).setWidth 8)
    let mem ← mem.store (address + 1) ((value >>> 8).setWidth 8)
    let mem ← mem.store address (value.setWidth 8)
    return (0, mem)

end ArmSimulator.Machine
