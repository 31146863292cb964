import Pickling.Shape.Reading
import Pickling.Shape.Writing
/-!
Records with codecs of their own, as a client of the library writes them: one that writes its
members one by one, one that refuses some values after it has written them, two that go on after
such a refusal, and one that tries a longer form before a shorter.
-/
namespace Pickling

namespace BuiltIn

def u32 : BuiltIn := .number .u32

def samples : BuiltIn := .sequence .vector (.number .f32)

def named : BuiltIn := .cons u32 (.single .text)

end BuiltIn

namespace Sample

structure Entry where
  id : BitVec 32
  name : String
  samples : Array (BitVec 32)
  active : Bool

namespace Entry

def encode [Memory] (entry : Entry) : Writer Unit := do
  BuiltIn.u32.write entry.id
  (Shape.text : BuiltIn).write entry.name
  BuiltIn.samples.write entry.samples
  (Shape.bool : BuiltIn).write entry.active

def decode : Reader Entry := do
  let id ← BuiltIn.u32.read
  let name ← (Shape.text : BuiltIn).read
  let samples ← BuiltIn.samples.read
  let active ← (Shape.bool : BuiltIn).read
  return ⟨id, name, samples, active⟩

def order (a b : Entry) : Ordering :=
  (BuiltIn.u32.order a.id b.id).then <|
    ((Shape.text : BuiltIn).order a.name b.name).then <|
      (BuiltIn.samples.order a.samples b.samples).then <|
        (Shape.bool : BuiltIn).order a.active b.active

end Entry

structure Poison where
  number : BitVec 32

namespace Poison

def condition : String := "x % 2 == 0"

/-- Writes the number before it is looked at. -/
def encode [Memory] (poison : Poison) : Writer Unit := do
  Writer.plain (.number .u32) poison.number
  if poison.number.toNat % 2 = 0 then return
  else throw (.unmetArgument "poison" condition)

/-- Leaves the number behind before it is looked at. -/
def decode : Reader Poison := do
  let number ← Reader.plain (.number .u32)
  if BitVec.toNat number % 2 = 0 then return ⟨number⟩
  else throw (.unmetFormat "poison" condition)

def order (a b : Poison) : Ordering := BuiltIn.u32.order a.number b.number

end Poison

/-- Gives up where the payload ends, and otherwise goes on with the position instead of a number. -/
def orPosition (read : Reader Poison) (afterwards : Reader Unit) : Reader (BitVec 32) :=
  tryCatch (return (← read).number) fun failure => do
    if failure.isTruncated then throw failure
    let position := (← get).position
    afterwards
    return BitVec.ofNat 32 position

def leniently (write : Writer Unit) : Writer Unit := tryCatch write fun _ => return

/-- Numbers; of those that are refused, what was written stays. -/
structure Leak where
  numbers : Array (BitVec 32)

namespace Leak

def encode [Memory] (leak : Leak) : Writer Unit := do
  Writer.length leak.numbers.size
  leak.numbers.toList.forM fun number => leniently (Poison.encode ⟨number⟩)

def decode : Reader Leak := do
  let count ← Reader.length
  let numbers ← Reader.gather (orPosition Poison.decode (return)) Array.push count #[]
  return ⟨numbers⟩

end Leak

/-- Numbers; those that are refused are taken back. -/
structure Retry where
  numbers : Array (BitVec 32)

namespace Retry

def encode [Memory] (retry : Retry) : Writer Unit := do
  Writer.length retry.numbers.size
  retry.numbers.toList.forM fun number => leniently (Writer.atomically (Poison.encode ⟨number⟩))

def decode : Reader Retry := do
  let count ← Reader.length
  let item := orPosition (Reader.atomically Poison.decode) (Reader.skip 4)
  let numbers ← Reader.gather item Array.push count #[]
  return ⟨numbers⟩

end Retry

structure Either where
  number : BitVec 32
  name : Option String

namespace Either

def encode [Memory] (either : Either) : Writer Unit := do
  BuiltIn.u32.encode either.number
  match either.name with
  | some name => Writer.text name
  | none => return

def decode : Reader Either :=
  tryCatch (do
    let (number, name) ← BuiltIn.named.read
    return ⟨number, some name⟩)
    fun _ => return ⟨← BuiltIn.u32.read, none⟩

def order (a b : Either) : Ordering :=
  (BuiltIn.u32.order a.number b.number).then <|
    a.name.toList.compareLex (Shape.text : BuiltIn).order b.name.toList

end Either

inductive Record where
  | entry
  | poison
  | leak
  | retry
  | either
deriving DecidableEq

instance : Vocabulary Record where
  Value
    | .entry => Entry
    | .poison => Poison
    | .leak => Leak
    | .retry => Retry
    | .either => Either
  order
    | .entry => Entry.order
    | .poison => Poison.order
    | .leak => fun a b => BuiltIn.samples.order a.numbers b.numbers
    | .retry => fun a b => BuiltIn.samples.order a.numbers b.numbers
    | .either => Either.order
  encode
    | .entry => Entry.encode
    | .poison => Poison.encode
    | .leak => Leak.encode
    | .retry => Retry.encode
    | .either => Either.encode
  decode
    | .entry => Entry.decode
    | .poison => Poison.decode
    | .leak => Leak.decode
    | .retry => Retry.decode
    | .either => Either.decode

end Sample

end Pickling
