/-!
The text of a value for diagnostics: a record is its name and its fields between braces, a sequence
its items between brackets.
-/
namespace Pickling.Text

def sequence (items : List String) : String :=
  "[" ++ ", ".intercalate items ++ "]"

def byteSequence (bytes : ByteArray) : String :=
  sequence (bytes.data.toList.map fun byte => toString byte.toNat)

def fieldList (fields : List (String × String)) : String :=
  ", ".intercalate (fields.map fun (name, value) => name ++ ": " ++ value)

def record (name : String) (fields : List (String × String)) : String :=
  name ++ " \x7b " ++ fieldList fields ++ " \x7d"

/-- A record that has more fields than it shows. -/
def openRecord (name : String) (fields : List (String × String)) : String :=
  name ++ " \x7b " ++ fieldList fields ++ ", .. \x7d"

/-- A value under the name of its only wrapper. -/
def wrapped (name value : String) : String :=
  name ++ "(" ++ value ++ ")"

end Pickling.Text
