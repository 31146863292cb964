import Pickling.Failure
import Pickling.Buffer.Growth
/-!
A byte buffer whose capacity is accounted for: it changes only by the growth rule, and a growth that
the limit or the memory refuses is a failure that leaves the buffer as it was.
-/
namespace Pickling

/-- The memory that buffers live in, as far as they can tell: which capacities it grants. -/
class Memory where
  grants : UInt64 → Bool

/-- Bytes and the room that they may grow into. -/
structure Buffer where
  bytes : ByteArray
  /-- How many bytes the buffer can hold without growing. -/
  capacity : UInt64
  growth : Growth

def constantBytes (count : Nat) (byte : UInt8) : ByteArray := ⟨Array.replicate count byte⟩

@[simp] theorem size_constantBytes (count : Nat) (byte : UInt8) :
    (constantBytes count byte).size = count :=
  Array.size_replicate

namespace Buffer

def size (buffer : Buffer) : Nat := buffer.bytes.size

def empty (growth : Growth) : Buffer := ⟨.empty, 0, growth⟩

instance : Inhabited Buffer := ⟨empty .standard⟩

/-- An empty buffer with room for `count` bytes, or for all that the limit allows. -/
def withCapacity (count : Nat) (growth : Growth) : Buffer :=
  ⟨.empty, (growth.capacity? 0 count).getD growth.limit, growth⟩

def zeroed (count capacity : Nat) (growth : Growth) : Buffer :=
  { withCapacity (max capacity count) growth with bytes := constantBytes count 0 }

def ofBytes (bytes : ByteArray) (growth : Growth) : Buffer :=
  { withCapacity bytes.size growth with bytes }

def copy (buffer : Buffer) : Buffer := ofBytes buffer.bytes buffer.growth

/-- Takes the capacity that the rule gives for `required` bytes, if the memory grants it. -/
def grow [Memory] (buffer : Buffer) (required : Nat) : Except Failure Buffer :=
  match buffer.growth.capacity? buffer.capacity required with
  | none => .error (.allocationFailure (saturated required))
  | some capacity =>
    if Memory.grants capacity then .ok { buffer with capacity }
    else .error (.allocationFailure capacity.toNat)

def reserve [Memory] (buffer : Buffer) (count : Nat) : Except Failure Buffer :=
  let required := buffer.size + count
  if required ≤ buffer.capacity.toNat then .ok buffer else buffer.grow required

def ofCapacity [Memory] (count : Nat) (growth : Growth) : Except Failure Buffer :=
  (empty growth).reserve count

def extend [Memory] (buffer : Buffer) (bytes : ByteArray) : Except Failure Buffer := do
  let buffer ← buffer.reserve bytes.size
  return { buffer with bytes := buffer.bytes ++ bytes }

/-- Appends `count` zeros, and tells the range they fill. -/
def extendZeroed [Memory] (buffer : Buffer) (count : Nat) :
    Except Failure (Buffer × Nat × Nat) := do
  let buffer ← buffer.reserve count
  return ({ buffer with bytes := buffer.bytes ++ constantBytes count 0 },
    buffer.size, buffer.size + count)

/-- Keeps at most the first `count` bytes, and all of the capacity. -/
def truncate (buffer : Buffer) (count : Nat) : Buffer :=
  { buffer with bytes := buffer.bytes.extract 0 count }

def clear (buffer : Buffer) : Buffer := buffer.truncate 0

@[simp] theorem size_truncate (buffer : Buffer) (count : Nat) :
    (buffer.truncate count).size = min count buffer.size := by
  simp [truncate, size]

/-- Stores the bytes over those from `start` on; they must not reach past the end. -/
def overwrite (buffer : Buffer) (start : Nat) (bytes : ByteArray) : Buffer :=
  { buffer with bytes := bytes.copySlice 0 buffer.bytes start bytes.size }

theorem bytes_overwrite (buffer : Buffer) (start : Nat) (bytes : ByteArray) :
    (buffer.overwrite start bytes).bytes = buffer.bytes.extract 0 start ++ bytes ++
      buffer.bytes.extract (start + bytes.size) buffer.size := by
  simp [overwrite, size, ByteArray.copySlice_eq_append, ByteArray.size_data]

theorem size_overwrite {buffer : Buffer} {start : Nat} {bytes : ByteArray}
    (h : start + bytes.size ≤ buffer.size) : (buffer.overwrite start bytes).size = buffer.size := by
  simp only [size] at h ⊢
  rw [bytes_overwrite]
  simp [size]
  omega

def get? (buffer : Buffer) (index : Nat) : Option UInt8 :=
  if h : index < buffer.bytes.size then some buffer.bytes[index] else none

def set? (buffer : Buffer) (index : Nat) (byte : UInt8) : Option Buffer :=
  if h : index < buffer.bytes.size then some { buffer with bytes := buffer.bytes.set index byte h }
  else none

def fill? (buffer : Buffer) (start stop : Nat) (byte : UInt8) : Option Buffer :=
  if start ≤ stop ∧ stop ≤ buffer.size then
    some (buffer.overwrite start (constantBytes (stop - start) byte))
  else none

def describe (buffer : Buffer) : String :=
  Text.openRecord "PickleBuffer"
    [("values", Text.byteSequence buffer.bytes), ("len", toString buffer.size),
      ("cap", toString buffer.capacity.toNat), ("internal_cap", toString buffer.capacity.toNat)]

end Buffer

end Pickling
