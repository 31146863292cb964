import Pickling.Layout
/-!
Serialized bytes looked at as a pickle. Nothing is checked: a header that claims too much shows
what is there, and bytes too short for a header show an empty payload.
-/
namespace Pickling

structure View where
  /-- The header and the visible part of the payload. -/
  bytes : ByteArray
  /-- The header as it was found. -/
  header : Header

namespace View

/-- The view of all that belongs to the pickle with which the bytes begin. -/
def ofBytes (bytes : ByteArray) : View :=
  match Header.ofBytes? bytes with
  | none => ⟨.empty, default⟩
  | some header =>
    let available := bytes.size - headerSize
    ⟨bytes.extract 0 (headerSize + min header.payloadSize.toNat available), header⟩

def payload (view : View) : ByteArray := view.bytes.extract headerSize view.bytes.size

def payloadSize (view : View) : Nat := view.payload.size

/-- The length of a header and of the visible payload. -/
def size (view : View) : Nat := headerSize + view.payloadSize

def describe (view : View) : String :=
  Text.record "PickleRef"
    [("header", view.header.describe), ("payload", Text.byteSequence view.payload)]

end View

end Pickling
