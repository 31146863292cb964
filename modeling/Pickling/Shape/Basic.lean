import Pickling.Cursor.Reading
import Pickling.Pickle.Writing
import Pickling.Value.Arrangement
/-!
The kinds of values that are written and read as wholes: basic values, collections, tuples and
boxes, nested to any depth, and records that a client of the library adds with codecs of its own.
-/
namespace Pickling

class Vocabulary (κ : Type) where
  Value : κ → Type
  order : (record : κ) → Value record → Value record → Ordering
  encode : [Memory] → (record : κ) → Value record → Writer Unit
  decode : (record : κ) → Reader (Value record)

instance : Vocabulary Empty where
  Value := Empty.elim
  order record := record.elim
  encode record := record.elim
  decode record := record.elim

/-- How the items of a sequence are kept. It makes no difference to what can be read back. -/
inductive Storage where
  | vector
  | ring
  | chain
deriving DecidableEq

inductive Shape (κ : Type) where
  | bool
  | number (kind : Number)
  | char
  | text
  | wide
  | path
  | sequence (storage : Storage) (item : Shape κ)
  | set (arrangement : Arrangement) (item : Shape κ)
  | map (arrangement : Arrangement) (key value : Shape κ)
  /-- A tuple of one member. -/
  | single (member : Shape κ)
  /-- A tuple with one more member in front. -/
  | cons (member rest : Shape κ)
  | boxed (content : Shape κ)
  | record (name : κ)
deriving DecidableEq

/-- Shapes without records. -/
abbrev BuiltIn := Shape Empty

namespace Shape

variable {κ : Type} [Vocabulary κ]

/-- Sets and maps are lists of what they hold, in the order of their iteration. -/
def Value : Shape κ → Type
  | bool => Bool
  | number kind => kind.Bits
  | char => Char
  | text => String
  | wide => Wide
  | path => Path
  | sequence _ item => Array item.Value
  | set _ item => List item.Value
  | map _ key value => List (key.Value × value.Value)
  | single member => member.Value
  | cons member rest => member.Value × rest.Value
  | boxed content => content.Value
  | record name => Vocabulary.Value name

/-- The order of values: lexicographic for whatever has parts, by bytes for texts and by components
for paths. -/
def order : (shape : Shape κ) → shape.Value → shape.Value → Ordering
  | bool => fun a b => compare (Bool.toNat a) (Bool.toNat b)
  | number kind => kind.order
  | char => fun a b => compare (Char.toNat a) (Char.toNat b)
  | text => fun a b =>
    (String.toUTF8 a).data.toList.compareLex compare (String.toUTF8 b).data.toList
  | wide => Wide.order
  | path => Path.order
  | sequence _ item => fun a b => (Array.toList a).compareLex item.order (Array.toList b)
  | set _ item => List.compareLex item.order
  | map _ key value =>
    List.compareLex fun a b => (key.order a.1 b.1).then (value.order a.2 b.2)
  | single member => member.order
  | cons member rest => fun a b => (member.order a.1 b.1).then (rest.order a.2 b.2)
  | boxed content => content.order
  | record name => Vocabulary.order name

/-- Puts an element into a set, where an equal element stays. -/
def insert (item : Shape κ) (arrangement : Arrangement) (set : List item.Value) (x : item.Value) :
    List item.Value :=
  arrangement.insert item.order (fun old _ => old) x set

/-- Puts a value under a key into a map, where an equal key stays and its value goes. -/
def assign (key value : Shape κ) (arrangement : Arrangement)
    (map : List (key.Value × value.Value)) (entry : key.Value × value.Value) :
    List (key.Value × value.Value) :=
  arrangement.insert (fun a b => key.order a.1 b.1) (fun old new => (old.1, new.2)) entry map

end Shape

end Pickling
