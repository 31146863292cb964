import Pickling.Text.Hidden
/-!
Text between double quotes: quotes and backslashes are escaped, the common blanks have letters, and
what cannot be seen is written as its code point in hexadecimal.
-/
namespace Pickling.Text

/-- Hexadecimal digits in lower case, without leading zeros. -/
def hexadecimal (n : Nat) : String := String.ofList (Nat.toDigits 16 n)

def quotedChar (c : Char) : String :=
  if c = '\x00' then "\\0"
  else if c = '\t' then "\\t"
  else if c = '\r' then "\\r"
  else if c = '\n' then "\\n"
  else if c = '\x5c' then "\\\\"
  else if c = '\x22' then "\\\""
  else if isHidden c then "\\u\x7b" ++ hexadecimal c.toNat ++ "\x7d"
  else c.toString

def quoted (text : String) : String :=
  "\"" ++ String.join (text.toList.map quotedChar) ++ "\""

end Pickling.Text
