import Pickling.Shape.Basic
/-!
Reading values. A collection is made of as many items as its number says, one after the other.
-/
namespace Pickling

/-- An empty sequence. Vectors and rings take room for the items that can come. -/
def Storage.start (storage : Storage) (room : Nat) : Array α :=
  match storage with
  | .vector | .ring => Array.emptyWithCapacity room
  | .chain => #[]

@[simp] theorem Storage.start_eq (storage : Storage) (room : Nat) :
    (storage.start room : Array α) = #[] := by
  cases storage <;> rfl

namespace Shape

variable {κ : Type} [Vocabulary κ]

/-- Reads a value piece by piece; the cursor stays behind what was read before a failure. -/
def decode : (shape : Shape κ) → Reader shape.Value
  | bool => Reader.bool
  | number kind => BitVec.ofNat _ <$> Reader.number kind.onWire
  | char => Reader.char
  | text => Reader.text
  | wide => Reader.wide
  | path => Reader.path
  | sequence storage item => do
    let (count, room) ← Reader.count
    Reader.gather item.decode Array.push count (storage.start room)
  | set arrangement item => do
    let (count, _) ← Reader.count
    Reader.gather item.decode (item.insert arrangement) count []
  | map arrangement key value => do
    let (count, _) ← Reader.count
    let entry := do return (← key.decode, ← value.decode)
    Reader.gather entry (key.assign value arrangement) count []
  | single member => member.decode
  | cons member rest => do return (← member.decode, ← rest.decode)
  | boxed content => content.decode
  | record name => Vocabulary.decode name

/-- Reads a value as a whole or not at all. -/
def read (shape : Shape κ) : Reader shape.Value := Reader.atomically shape.decode

/-- Reads a value into a variable, which keeps its value on failure. -/
def readInto (shape : Shape κ) (old : shape.Value) (cursor : Cursor) :
    shape.Value × EStateM.Result Failure Cursor Unit :=
  match shape.read cursor with
  | .ok value after => (value, .ok () after)
  | .error failure after => (old, .error failure after)

end Shape

end Pickling
