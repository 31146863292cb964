import Pickling.Pickle.Basic
/-!
A place in a payload, up to which it has been read.
-/
namespace Pickling

structure Cursor where
  payload : ByteArray
  /-- Bytes that have been read, padding included. -/
  position : Nat

namespace Cursor

def ofPayload (payload : ByteArray) : Cursor := ⟨payload, 0⟩

/-- The start of what a view shows of a payload. -/
def ofView (view : View) : Cursor := ofPayload view.payload

/-- Serialized bytes from behind their header on. -/
def ofBytes (bytes : ByteArray) : Cursor := ofView (.ofBytes bytes)

def ofPickle (pickle : Pickle) : Cursor := ofPayload pickle.payload

def remaining (cursor : Cursor) : Nat := cursor.payload.size - cursor.position

def isValid (cursor : Cursor) : Bool := cursor.position < cursor.payload.size

def remainingBytes (cursor : Cursor) : ByteArray :=
  cursor.payload.extract cursor.position cursor.payload.size

def describe (cursor : Cursor) : String :=
  Text.record "PickleReader"
    [("payload", Text.byteSequence cursor.payload), ("pos", toString cursor.position)]

end Cursor

end Pickling
