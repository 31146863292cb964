import Pickling.Shape.Basic
/-!
Writing values. A collection is the number of its items and then the items; a tuple is its members.
-/
namespace Pickling

namespace Shape

variable {κ : Type} [Vocabulary κ] [Memory]

/-- Writes a value piece by piece; what was written before a failure stays. -/
def encode : (shape : Shape κ) → shape.Value → Writer Unit
  | bool => Writer.bool
  | number kind => fun bits => Writer.number kind.size (BitVec.toNat bits)
  | char => fun c => Writer.number 4 (Char.toNat c)
  | text => Writer.text
  | wide => Writer.wide
  | path => Writer.path
  | sequence _ item => fun items => do
    Writer.length (Array.size items)
    (Array.toList items).forM item.encode
  | set _ item => fun items => do
    Writer.length (List.length items)
    List.forM items item.encode
  | map _ key value => fun entries => do
    Writer.length (List.length entries)
    List.forM entries fun entry => do
      key.encode entry.1
      value.encode entry.2
  | single member => member.encode
  | cons member rest => fun members => do
    member.encode members.1
    rest.encode members.2
  | boxed content => content.encode
  | record name => Vocabulary.encode name

/-- Writes a value as a whole or not at all. -/
def write (shape : Shape κ) (value : shape.Value) : Writer Unit :=
  Writer.atomically (shape.encode value)

end Shape

end Pickling
