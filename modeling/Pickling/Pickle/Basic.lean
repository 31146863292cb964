import Pickling.Buffer.Basic
import Pickling.Pickle.Options
import Pickling.Pickle.View
/-!
A pickle that can grow: a buffer that starts with the header and holds the payload behind it.
Appending a segment is the one way in which a payload grows; a failed append changes nothing.
-/
namespace Pickling

structure Pickle where
  /-- The header and the payload it describes. -/
  buffer : Buffer

namespace Pickle

def bytes (pickle : Pickle) : ByteArray := pickle.buffer.bytes

def size (pickle : Pickle) : Nat := pickle.buffer.size

def payloadSize (pickle : Pickle) : Nat := pickle.size - headerSize

def payload (pickle : Pickle) : ByteArray := pickle.bytes.extract headerSize pickle.size

/-- Bytes that the pickle can hold without growing, the header included. -/
def capacity (pickle : Pickle) : UInt64 := pickle.buffer.capacity

def header (pickle : Pickle) : Header := ⟨UInt32.ofNat pickle.payloadSize⟩

def view (pickle : Pickle) : View := ⟨pickle.bytes, pickle.header⟩

/-- Pickles are equal when their bytes are, whatever their capacities. -/
instance : BEq Pickle := ⟨fun a b => a.bytes == b.bytes⟩

def setHeader (pickle : Pickle) (payloadSize : Nat) : Pickle :=
  ⟨pickle.buffer.overwrite 0 (Header.mk (UInt32.ofNat payloadSize)).bytes⟩

/-- Drops all of the payload but its first bytes; the capacity stays. -/
def truncate (pickle : Pickle) (payloadSize : Nat) : Pickle :=
  setHeader ⟨pickle.buffer.truncate (headerSize + payloadSize)⟩ payloadSize

/-! Making pickles -/

/-- An empty pickle with room for a payload of so many bytes, as far as the format allows them. -/
def withCapacity (count : Nat) : Pickle :=
  ⟨.zeroed headerSize (min (headerSize + count) Growth.pickle.limit.toNat) .pickle⟩

/-- An empty pickle with the room that the standard options ask for. -/
def empty : Pickle := withCapacity Options.standard.initialCapacity.toNat

instance : Inhabited Pickle := ⟨empty⟩

def ofOptions [Memory] (options : Options) : Except Failure Pickle := do
  let growth ← options.growth
  let wanted := headerSize + options.initialCapacity.toNat
  if wanted ≤ largestWord then
    let buffer ← Buffer.ofCapacity (min wanted growth.limit.toNat) growth
    return ⟨← buffer.extend (default : Header).bytes⟩
  else throw (.allocationFailure largestWord)

/-- A pickle of its own with the payload of the view, padded to whole words. -/
def ofView (view : View) : Pickle :=
  let payload := view.payload.extract 0 maxPayloadSize
  let payloadSize := segmentEnd payload.size
  let size := headerSize + payloadSize
  let buffer := (Buffer.zeroed size size .pickle).overwrite headerSize payload
  setHeader ⟨buffer⟩ payloadSize

def ofBytes (bytes : ByteArray) : Pickle := ofView (.ofBytes bytes)

def copy (pickle : Pickle) : Pickle := ⟨pickle.buffer.copy⟩

/-! Changing pickles -/

def reserve [Memory] (pickle : Pickle) (count : Nat) : Except Failure Pickle :=
  match segmentEnd? count with
  | none => .error (.allocationFailure largestWord)
  | some count => (pickle.buffer.reserve count).map Pickle.mk

def clear (pickle : Pickle) : Pickle := pickle.truncate 0

def append [Memory] (pickle : Pickle) (bytes : ByteArray) : Except Failure Pickle := do
  let start := segmentEnd pickle.payloadSize
  match (segmentEnd? (start + bytes.size)).filter (· ≤ maxPayloadSize) with
  | none => throw (.allocationFailure (saturated (headerSize + start + bytes.size)))
  | some payloadSize =>
    let (buffer, _) ← pickle.buffer.extendZeroed (headerSize + payloadSize - pickle.size)
    let written := buffer.overwrite (headerSize + start) bytes
    let padded := written.overwrite (headerSize + start + bytes.size)
      (constantBytes (segmentPadding bytes.size) 0)
    return setHeader ⟨padded⟩ payloadSize

def describe (pickle : Pickle) : String :=
  Text.record "Pickle"
    [("payload_size", toString pickle.payloadSize),
      ("capacity", toString pickle.capacity.toNat),
      ("payload", Text.byteSequence pickle.payload)]

end Pickle

end Pickling
