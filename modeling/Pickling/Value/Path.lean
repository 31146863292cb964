/-!
Paths of files. A path is kept as it is spelled; two paths are the same place, for all that can be
told from their spellings, when their components are equal.
-/
namespace Pickling

structure Path where
  /-- Any bytes, also such as are no text. -/
  spelling : ByteArray

namespace Path

/-- A step on the way that a path describes. -/
inductive Component where
  | root
  /-- The directory from which a path starts that says so. -/
  | current
  | parent
  | name (bytes : List UInt8)
deriving DecidableEq

/-- What lies between the slashes. -/
def pieces : List UInt8 → List (List UInt8)
  | [] => [[]]
  | byte :: rest =>
    if byte = 0x2f then [] :: pieces rest
    else
      match pieces rest with
      | [] => [[byte]]
      | piece :: others => (byte :: piece) :: others

/-- The step that a piece asks for; nothing between slashes and a single dot ask for none. -/
def step? (piece : List UInt8) : Option Component :=
  if piece = [] ∨ piece = [0x2e] then none
  else if piece = [0x2e, 0x2e] then some .parent
  else some (.name piece)

/-- Where a path starts: at the root, if it begins with a slash. -/
def start? (first : List UInt8) (rest : List (List UInt8)) : Option Component :=
  if first = [] ∧ rest ≠ [] then some .root
  else if first = [0x2e] then some .current
  else step? first

def components (path : Path) : List Component :=
  match pieces path.spelling.data.toList with
  | [] => []
  | first :: rest => (start? first rest).toList ++ rest.filterMap step?

def Component.rank : Component → Nat
  | .root => 0
  | .current => 1
  | .parent => 2
  | .name _ => 3

/-- The root comes first, names last and by their bytes. -/
def Component.order : Component → Component → Ordering
  | .name a, .name b => a.compareLex compare b
  | a, b => compare a.rank b.rank

def order (a b : Path) : Ordering := a.components.compareLex Component.order b.components

end Path

end Pickling
