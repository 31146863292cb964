import Pickling.Cursor.Basic
import Pickling.Text.Utf8
import Pickling.Text.Wide
import Pickling.Value.Path
import Pickling.Value.Plain
/-!
Ways to read on from a cursor. Everything is read by segments; what takes several of them can be
made atomic, and then leaves the cursor where it was if one fails.
-/
namespace Pickling

/-- A way to read. Where it stood when it failed is where it stays, unless it says otherwise. -/
abbrev Reader := EStateM Failure Cursor

namespace Reader

/-- On failure the cursor goes back to where it was. -/
def atomically (read : Reader α) : Reader α := fun cursor =>
  match read cursor with
  | .ok value after => .ok value after
  | .error failure after => .error failure { after with position := cursor.position }

/-- The next bytes, with their padding left behind as far as it is there. The name of the element is
for the failure. -/
def take (count : Nat) (element : String) : Reader ByteArray := fun cursor =>
  if cursor.remaining < count then
    .error (.truncatedRead element count cursor.remaining) cursor
  else
    let advance := min ((segmentEnd? count).getD largestWord) cursor.remaining
    .ok (cursor.payload.extract cursor.position (cursor.position + count))
      { cursor with position := cursor.position + advance }

def bytes (count : Nat) : Reader ByteArray := take count "bytes"

def skip (count : Nat) : Reader Unit := discard (take count "skipped bytes")

def plain (kind : Plain) : Reader kind.Value := kind.decode <$> take kind.size kind.name

def number (kind : Number) : Reader Nat := LittleEndian.decode <$> take kind.size kind.name

def bool : Reader Bool := atomically do
  match ← number .u8 with
  | 0 => return false
  | 1 => return true
  | value => throw (.invalidFormat "bool" s!"unexpected value {value}")

/-- A number of elements, which is no negative number of 32 bits. -/
def length : Reader Nat := atomically do
  let count ← number .i32
  if count < 0x80000000 then return count
  else throw (.unmetFormat "length" "length >= 0")

def counted (elementSize : Nat) (element : String) : Reader ByteArray := do
  let count ← length
  if count * elementSize ≤ largestWord then take (count * elementSize) element
  else throw (.lengthOverflow element count elementSize)

def data : Reader ByteArray := atomically (counted 1 "data")

def text : Reader String := atomically do
  match Text.Utf8.decode (← counted 1 "string") with
  | .ok value => return value
  | .error fault => throw (.invalidFormat "string" fault.message)

def wide : Reader Wide := atomically (Wide.ofBytes <$> counted 2 "wide string")

/-- A character, not atomically. -/
def char : Reader Char := do
  let code ← number .u32
  if h : code.isValidChar then return Char.ofNatAux code h
  else throw (.invalidFormat "char" ("invalid scalar 0x" ++ Text.hexadecimal code))

def path : Reader Path := (⟨·.toUTF8⟩) <$> text

/-- A number of elements, and how many of them the rest of the payload can hold at most: each takes
a word of its own. -/
def count : Reader (Nat × Nat) := do
  let count ← length
  return (count, min count ((← get).remaining / segmentAlignment.toNat))

def gather (item : Reader α) (put : β → α → β) : Nat → β → Reader β
  | 0, collection => return collection
  | count + 1, collection => do gather item put count (put collection (← item))

end Reader

end Pickling
