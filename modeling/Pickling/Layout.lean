import Pickling.Word.Alignment
import Pickling.Word.LittleEndian
import Pickling.Text.Record
/-!
The layout of a pickle: a header of four bytes that holds the length of the payload, then the
payload, a row of segments. Each segment starts at a multiple of four bytes, and zeros fill the
rest of its last word.
-/
namespace Pickling

def headerSize : Nat := 4

/-- Segments start at multiples of this many bytes. -/
def segmentAlignment : UInt64 := 4

/-- The longest payload made of whole words that a header can describe. -/
def maxPayloadSize : Nat := 0xfffffffc

/-- The most bytes that a pickle takes, its header included. -/
def maxSize : Nat := headerSize + maxPayloadSize

/-- The end of a segment of `count` bytes, for a count that leaves room in the word. -/
def segmentEnd (count : Nat) : Nat := (Alignment.up count.toUInt64 segmentAlignment).toNat

def segmentEnd? (count : Nat) : Option Nat :=
  if count < UInt64.size then (Alignment.up? count.toUInt64 segmentAlignment).map (·.toNat)
  else none

def segmentPadding (count : Nat) : Nat := (Alignment.padding count.toUInt64 segmentAlignment).toNat

structure Header where
  /-- The length of the payload, its padding included. -/
  payloadSize : UInt32
deriving DecidableEq

namespace Header

instance : Inhabited Header := ⟨⟨0⟩⟩

def bytes (header : Header) : ByteArray := LittleEndian.encode headerSize header.payloadSize.toNat

/-- The header that starts the bytes, if they are long enough for one. -/
def ofBytes? (bytes : ByteArray) : Option Header :=
  if headerSize ≤ bytes.size then
    some ⟨UInt32.ofNat (LittleEndian.decode (bytes.extract 0 headerSize))⟩
  else none

def describe (header : Header) : String :=
  Text.record "PickleHeader" [("payload_size", toString header.payloadSize.toNat)]

end Header

end Pickling
