import Ia32.Error
import Ia32.Width

/-!
# Flat memory

A memory is a block of bytes at the addresses from zero up to its size. Addresses have
thirty-two bits and wrap around. Above the block nothing is stored: a read there gives zero
and a write there is dropped. Accesses of several bytes are little-endian and go one byte
at a time in ascending order of address.
-/

namespace Ia32

theorem add_ofNat_zero (address : UInt32) : address + UInt32.ofNat 0 = address :=
  UInt32.add_zero address

/-- The address some bytes behind the next one. -/
theorem add_one_add_ofNat (address : UInt32) (count : Nat) :
    address + 1 + UInt32.ofNat count = address + UInt32.ofNat (count + 1) := by
  rw [Nat.add_comm count, UInt32.ofNat_add, ← UInt32.add_assoc]
  rfl

/-- The bytes of a flat address space. -/
structure Memory where
  bytes : Array UInt8
  deriving DecidableEq

namespace Memory

/-- The largest number of bytes in a block. -/
def maxSize : Nat := 0x7FFFFFFFFFFFFFFF

/-- A block of zeros. -/
def zeros (size : Nat) : Memory :=
  { bytes := Array.replicate size 0 }

/-- A cleared memory of the given size, unless a block cannot be so large. -/
def zeroed (size : UInt64) : Except Fault Memory :=
  if size.toNat ≤ maxSize then .ok (zeros size.toNat) else .error .capacityOverflow

def size (memory : Memory) : Nat :=
  memory.bytes.size

/-- Whether an address lies inside the block. -/
def Maps (memory : Memory) (address : UInt32) : Prop :=
  address.toNat < memory.size

instance (memory : Memory) (address : UInt32) : Decidable (memory.Maps address) :=
  inferInstanceAs (Decidable (address.toNat < memory.size))

/-- The byte at an address; zero above the block. -/
def readByte (memory : Memory) (address : UInt32) : UInt8 :=
  memory.bytes.getD address.toNat 0

/-- Store a byte at an address; above the block nothing happens. -/
def writeByte (memory : Memory) (address : UInt32) (value : UInt8) : Memory :=
  { bytes := memory.bytes.setIfInBounds address.toNat value }

/-- The bytes at `count` consecutive addresses. -/
def readBytes (memory : Memory) (address : UInt32) : (count : Nat) → List UInt8
  | 0 => []
  | count + 1 => memory.readByte address :: memory.readBytes (address + 1) count

/-- Store bytes at consecutive addresses. -/
def writeBytes (memory : Memory) (address : UInt32) : List UInt8 → Memory
  | [] => memory
  | value :: values => (memory.writeByte address value).writeBytes (address + 1) values

/-- The little-endian number at an address. -/
def read (memory : Memory) (address : UInt32) (width : Width) : UInt32 :=
  UInt32.ofNat (LittleEndian.ofBytes (memory.readBytes address width.bytes))

/-- Store the low part of a number, little-endian. -/
def write (memory : Memory) (address : UInt32) (width : Width) (value : UInt32) : Memory :=
  memory.writeBytes address (LittleEndian.toBytes width.bytes value.toNat)

/-- Copy an image into the block as a whole. An image that does not fit is refused, and
addresses do not wrap. -/
def load (memory : Memory) (address : UInt32) (image : Array UInt8) : Except LoadError Memory :=
  let start := address.toNat
  let stop := start + image.size
  if stop ≤ memory.size then
    .ok { bytes := memory.bytes.extract 0 start ++ image ++ memory.bytes.extract stop }
  else
    .error { length := image.size, address := address, size := memory.size }

@[simp] theorem size_zeros (size : Nat) : (zeros size).size = size := by
  simp [Memory.size, zeros]

@[simp] theorem size_writeByte (memory : Memory) (address : UInt32) (value : UInt8) :
    (memory.writeByte address value).size = memory.size := by
  simp [Memory.size, writeByte]

@[simp] theorem size_writeBytes (memory : Memory) (address : UInt32) (values : List UInt8) :
    (memory.writeBytes address values).size = memory.size := by
  induction values generalizing memory address with
  | nil => rfl
  | cons value values ih => simp [writeBytes, ih]

@[simp] theorem size_write (memory : Memory) (address : UInt32) (width : Width)
    (value : UInt32) : (memory.write address width value).size = memory.size :=
  memory.size_writeBytes _ _

@[simp] theorem maps_writeByte (memory : Memory) (address other : UInt32) (value : UInt8) :
    (memory.writeByte address value).Maps other ↔ memory.Maps other := by
  simp [Maps]

theorem readByte_of_not_maps {memory : Memory} {address : UInt32}
    (unmapped : ¬memory.Maps address) : memory.readByte address = 0 := by
  simp only [Maps, Memory.size, Nat.not_lt] at unmapped
  simp [readByte, unmapped]

theorem writeByte_of_not_maps {memory : Memory} {address : UInt32}
    (unmapped : ¬memory.Maps address) (value : UInt8) :
    memory.writeByte address value = memory := by
  simp only [Maps, Memory.size, Nat.not_lt] at unmapped
  simp [writeByte, Array.setIfInBounds, Nat.not_lt.mpr unmapped]

@[simp] theorem readByte_writeByte (memory : Memory) (address other : UInt32) (value : UInt8) :
    (memory.writeByte address value).readByte other =
      if other = address ∧ memory.Maps address then value else memory.readByte other := by
  simp only [readByte, writeByte, Maps, Memory.size, Array.getD_eq_getD_getElem?,
    Array.getElem?_setIfInBounds, ← UInt32.toNat_inj]
  by_cases same : other.toNat = address.toNat
  · by_cases inside : address.toNat < memory.bytes.size <;> simp [same, inside]
  · have different : ¬address.toNat = other.toNat := fun equal => same equal.symm
    simp [same, different]

end Memory

end Ia32
