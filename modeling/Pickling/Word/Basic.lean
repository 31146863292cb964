/-!
Numbers that have to fit into a machine word. Lengths are natural numbers; where one has to be told
as a word, it is cut to the largest.
-/
namespace Pickling

def largestWord : Nat := UInt64.size - 1

/-- A number, or the largest word if it is larger than any. -/
def saturated (n : Nat) : Nat := min n largestWord

end Pickling
