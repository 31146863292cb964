import Pickling.Failure
import Pickling.Word.LittleEndian
/-!
Text in units of sixteen bits. Units need not spell characters: a surrogate without its partner
spells none, and each way of reading the units says what becomes of it.
-/
namespace Pickling

structure Wide where
  units : List UInt16
deriving DecidableEq

namespace Wide

instance : Inhabited Wide := ⟨⟨[]⟩⟩

def isHighSurrogate (u : UInt16) : Bool := 0xd800 ≤ u && u < 0xdc00

def isLowSurrogate (u : UInt16) : Bool := 0xdc00 ≤ u && u < 0xe000

def ofChar (c : Char) : List UInt16 :=
  if c.toNat < 0x10000 then [UInt16.ofNat c.toNat]
  else [UInt16.ofNat (0xd800 + (c.toNat - 0x10000) / 0x400),
    UInt16.ofNat (0xdc00 + (c.toNat - 0x10000) % 0x400)]

def ofString (text : String) : Wide := ⟨text.toList.flatMap ofChar⟩

/-- The character that one unit spells alone. -/
def single (u : UInt16) : Option Char :=
  if isHighSurrogate u || isLowSurrogate u then none else some (Char.ofNat u.toNat)

/-- The character that a high and a low surrogate spell together. -/
def paired (high low : UInt16) : Char :=
  Char.ofNat (0x10000 + (high.toNat - 0xd800) * 0x400 + (low.toNat - 0xdc00))

/-- The characters that the units spell, with none for each surrogate without its partner. -/
def scan : List UInt16 → List (Option Char)
  | [] => []
  | [u] => [single u]
  | u :: v :: rest =>
    if isHighSurrogate u && isLowSurrogate v then some (paired u v) :: scan rest
    else single u :: scan (v :: rest)

/-- The text up to the end, unless a unit spells nothing. -/
def strict : List (Option Char) → String → Option String
  | [], text => some text
  | some c :: rest, text => strict rest (text.push c)
  | none :: _, _ => none

def replacement : Char := '\ufffd'

def toText (wide : Wide) : Except Failure String :=
  match strict (scan wide.units) "" with
  | some text => .ok text
  | none => .error (.invalidFormat "wide string" "invalid utf-16: lone surrogate found")

/-- The text with a replacement for each unit that spells nothing. -/
def toTextLossy (wide : Wide) : String :=
  String.ofList ((scan wide.units).map (·.getD replacement))

def display (wide : Wide) : String :=
  (scan wide.units).foldl (fun text c => text.push (c.getD replacement)) ""

def order (a b : Wide) : Ordering := a.units.compareLex compare b.units

def describe (wide : Wide) : String :=
  Text.wrapped "WideString" (Text.sequence (wide.units.map fun u => toString u.toNat))

def bytes (wide : Wide) : ByteArray :=
  (wide.units.flatMap fun u => LittleEndian.digits 2 u.toNat).toByteArray

/-- The units that pairs of bytes spell; an odd last byte is dropped. -/
def unitsOf : List UInt8 → List UInt16
  | low :: high :: rest => UInt16.ofNat (LittleEndian.value [low, high]) :: unitsOf rest
  | _ => []

def ofBytes (bytes : ByteArray) : Wide := ⟨unitsOf bytes.data.toList⟩

end Wide

end Pickling
