import Pickling.Pickle.Basic
import Pickling.Text.Wide
import Pickling.Value.Path
import Pickling.Value.Plain
/-!
Ways to write to a pickle. Everything is written by segments; what takes several of them can be made
atomic, and then leaves the pickle as it was if one fails.
-/
namespace Pickling

/-- A way to write. What it did before it failed stays, unless it says otherwise. -/
abbrev Writer := EStateM Failure Pickle

namespace Writer

/-- A change of the pickle that may fail as a whole. -/
def ofChange (change : Pickle → Except Failure Pickle) : Writer Unit := fun pickle =>
  match change pickle with
  | .ok changed => .ok () changed
  | .error failure => .error failure pickle

/-- On failure the payload is cut back to its former length. Room that was won stays. -/
def atomically (write : Writer α) : Writer α := fun pickle =>
  match write pickle with
  | .ok value written => .ok value written
  | .error failure written => .error failure (written.truncate pickle.payloadSize)

/-- The longest length that the format can write. -/
def maxLength : Nat := 0x7fffffff

variable [Memory]

def reserve (count : Nat) : Writer Unit := ofChange (·.reserve count)

def segment (bytes : ByteArray) : Writer Unit := ofChange (·.append bytes)

def plain (kind : Plain) (value : kind.Value) : Writer Unit := segment (kind.encode value)

def number (size n : Nat) : Writer Unit := segment (LittleEndian.encode size n)

def bool (value : Bool) : Writer Unit := number 1 value.toNat

def length (count : Nat) : Writer Unit :=
  if count ≤ maxLength then number 4 count else throw (.lengthOverflow "length" count 1)

def counted (count : Nat) (bytes : ByteArray) : Writer Unit := do
  length count
  segment bytes

def data (bytes : ByteArray) : Writer Unit := atomically (counted bytes.size bytes)

def wide (text : Wide) : Writer Unit := atomically (counted text.units.length text.bytes)

def text (value : String) : Writer Unit := counted value.utf8ByteSize value.toUTF8

/-- A path, which has to be a text. -/
def path (value : Path) : Writer Unit :=
  match String.fromUTF8? value.spelling with
  | some spelling => text spelling
  | none => throw (.invalidArgument "path" "path is not valid UTF-8")

end Writer

end Pickling
