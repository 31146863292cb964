/-!
Collections that hold at most one of equal elements, as lists. A sorted collection stays ascending,
a hashed one keeps the order in which its elements came; what happens to an element that meets its
equal is left to the caller.
-/
namespace Pickling

/-- How a collection keeps its elements. -/
inductive Arrangement where
  | sorted
  | hashed
deriving DecidableEq

namespace Arrangement

/-- Puts `x` into a collection. An equal element stays where it is and becomes `merge` of the two,
the old one first. -/
def insert (arrangement : Arrangement) (order : α → α → Ordering) (merge : α → α → α) (x : α) :
    List α → List α
  | [] => [x]
  | y :: rest =>
    match order x y, arrangement with
    | .eq, _ => merge y x :: rest
    | .lt, .sorted => x :: y :: rest
    | _, _ => y :: insert arrangement order merge x rest

/-- The collection of the elements of a list, put in one after the other. -/
def ofList (arrangement : Arrangement) (order : α → α → Ordering) (merge : α → α → α)
    (xs : List α) : List α :=
  xs.foldl (fun collection x => arrangement.insert order merge x collection) []

end Arrangement

end Pickling
