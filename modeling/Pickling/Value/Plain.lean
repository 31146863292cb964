import Pickling.Value.Number
import Pickling.Word.LittleEndian
/-!
Plain data: values that are no more than their bytes, and so are written in one segment. Every byte
string of the right length is a value.
-/
namespace Pickling

inductive Plain where
  | number (kind : Number)
  | u128
  | i128
  | array (element : Plain) (count : Nat)
deriving DecidableEq

namespace Plain

def size : Plain → Nat
  | .number kind => kind.size
  | .u128 | .i128 => 16
  | .array element count => element.size * count

def name : Plain → String
  | .number kind => kind.name
  | .u128 => "u128"
  | .i128 => "i128"
  | .array element count => s!"[{element.name}; {count}]"

def Value : Plain → Type
  | .number kind => kind.Bits
  | .u128 | .i128 => BitVec 128
  | .array element count => Vector element.Value count

/-- The bytes of a value; the elements of an array follow one another. -/
def toList : (plain : Plain) → plain.Value → List UInt8
  | .number kind, bits => LittleEndian.digits kind.size (BitVec.toNat bits)
  | .u128, bits => LittleEndian.digits 16 (BitVec.toNat bits)
  | .i128, bits => LittleEndian.digits 16 (BitVec.toNat bits)
  | .array element _, values => (Vector.toList values).flatMap element.toList

/-- The value with the given bytes. -/
def ofList : (plain : Plain) → List UInt8 → plain.Value
  | .number _, bytes => BitVec.ofNat _ (LittleEndian.value bytes)
  | .u128, bytes => BitVec.ofNat 128 (LittleEndian.value bytes)
  | .i128, bytes => BitVec.ofNat 128 (LittleEndian.value bytes)
  | .array element _, bytes =>
    Vector.ofFn fun i => element.ofList ((bytes.drop (element.size * i)).take element.size)

def encode (plain : Plain) (value : plain.Value) : ByteArray := (plain.toList value).toByteArray

def decode (plain : Plain) (bytes : ByteArray) : plain.Value := plain.ofList bytes.data.toList

end Plain

end Pickling
