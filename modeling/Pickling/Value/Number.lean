/-!
The kinds of numbers that a pickle knows, and their values as bits. Floating-point numbers are
copied bit by bit, so nothing here depends on what their bits mean.
-/
namespace Pickling

inductive Number where
  | u8 | i8 | u16 | i16 | u32 | i32 | u64 | i64
  /-- Counts of the size of a machine word. -/
  | word
  /-- Differences of the size of a machine word. -/
  | signedWord
  | f32 | f64
deriving DecidableEq

namespace Number

def size : Number → Nat
  | .u8 | .i8 => 1
  | .u16 | .i16 => 2
  | .u32 | .i32 | .f32 => 4
  | .u64 | .i64 | .word | .signedWord | .f64 => 8

def name : Number → String
  | .u8 => "u8"
  | .i8 => "i8"
  | .u16 => "u16"
  | .i16 => "i16"
  | .u32 => "u32"
  | .i32 => "i32"
  | .u64 => "u64"
  | .i64 => "i64"
  | .word => "usize"
  | .signedWord => "isize"
  | .f32 => "f32"
  | .f64 => "f64"

/-- The kind under which a value of this kind is written, so that machines of all widths agree. -/
def onWire : Number → Number
  | .word => .u64
  | .signedWord => .i64
  | kind => kind

/-- Whether the order of the kind knows negative numbers. -/
def isSigned : Number → Bool
  | .i8 | .i16 | .i32 | .i64 | .signedWord => true
  | _ => false

abbrev Bits (kind : Number) : Type := BitVec (8 * kind.size)

/-- The order of the numbers, for kinds that have one. -/
def order (kind : Number) (a b : kind.Bits) : Ordering :=
  if kind.isSigned then compare a.toInt b.toInt else compare a.toNat b.toNat

end Number

end Pickling
