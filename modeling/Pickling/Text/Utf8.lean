/-!
Bytes as text in UTF-8. Bytes that spell no text are refused with the place of the first fault: how
many bytes are good, and how many of the next are bad because no text could go on like this. Where
the bytes only end too early, none is bad.
-/
namespace Pickling.Text.Utf8

/-- Where bytes stop being text, and why. -/
inductive Fault where
  /-- After `index` good bytes, the next `count` start no character. -/
  | malformed (count index : Nat)
  /-- After `index` good bytes, a character lacks its end. -/
  | unfinished (index : Nat)
deriving DecidableEq

def Fault.message : Fault → String
  | .malformed count index => s!"invalid utf-8 sequence of {count} bytes from index {index}"
  | .unfinished index => s!"incomplete utf-8 byte sequence from index {index}"

def isTail (b : UInt8) : Bool := 0x80 ≤ b && b ≤ 0xbf

/-- Whether `b` can follow the first byte `a` of a longer character: no longer form than needed, no
surrogates, and no character above U+10FFFF. -/
def isSecond (a b : UInt8) : Bool :=
  if a = 0xe0 then 0xa0 ≤ b && b ≤ 0xbf
  else if a = 0xed then 0x80 ≤ b && b ≤ 0x9f
  else if a = 0xf0 then 0x90 ≤ b && b ≤ 0xbf
  else if a = 0xf4 then 0x80 ≤ b && b ≤ 0x8f
  else isTail b

/-- How many bytes a character has that starts with `a`; none starts with the bytes of length 0. -/
def length (a : UInt8) : Nat :=
  if a < 0x80 then 1
  else if a < 0xc2 then 0
  else if a < 0xe0 then 2
  else if a < 0xf0 then 3
  else if a < 0xf5 then 4
  else 0

/-- The first fault from `index` on; where there is none, the text ends too early at its end. -/
def firstFault (index : Nat) : List UInt8 → Fault
  | [] => .unfinished index
  | a :: rest =>
    match length a, rest with
    | 0, _ => .malformed 1 index
    | 1, rest => firstFault (index + 1) rest
    | _, [] => .unfinished index
    | 2, b :: rest => if isTail b then firstFault (index + 2) rest else .malformed 1 index
    | 3, b :: rest =>
      if isSecond a b then
        match rest with
        | [] => .unfinished index
        | c :: rest => if isTail c then firstFault (index + 3) rest else .malformed 2 index
      else .malformed 1 index
    | _, b :: rest =>
      if isSecond a b then
        match rest with
        | [] => .unfinished index
        | [c] => if isTail c then .unfinished index else .malformed 2 index
        | c :: d :: rest =>
          if isTail c then
            if isTail d then firstFault (index + 4) rest else .malformed 3 index
          else .malformed 2 index
      else .malformed 1 index

def decode (bytes : ByteArray) : Except Fault String :=
  if h : bytes.IsValidUTF8 then .ok (String.fromUTF8 bytes h)
  else .error (firstFault 0 bytes.data.toList)

@[simp] theorem decode_toUTF8 (text : String) : decode text.toUTF8 = .ok text :=
  dif_pos text.isValidUTF8

theorem toUTF8_of_decode {bytes : ByteArray} {text : String} (h : decode bytes = .ok text) :
    text.toUTF8 = bytes := by
  unfold decode at h
  split at h
  · cases h
    rfl
  · cases h

end Pickling.Text.Utf8
