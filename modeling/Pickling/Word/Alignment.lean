/-!
Rounding machine words to multiples of a power of two by masks.

Every function takes the number first and the alignment second, and means what its comment says for
an alignment that is a power of two. The arithmetic wraps at the width of the word, as it does in a
build for release; `up` alone takes a sum that can leave the word unnoticed, and `upStrict` is what a
build for debugging makes of it.
-/
namespace Pickling.Alignment

/-- The least multiple of `a` from `n` on, for an `n` that leaves room for it in the word. -/
def up (n a : UInt64) : UInt64 := (n + a - 1) &&& ~~~(a - 1)

/-- `up` in a build for debugging, which stops at an alignment that is no power of two and at a sum that
leaves the word. It adds the alignment before it takes one away, so it stops one number too early. -/
def upStrict (n a : UInt64) : Option UInt64 :=
  if a.toNat.isPowerOfTwo ∧ n.toNat + a.toNat < UInt64.size then some (up n a) else none

/-- The least multiple of `a` from `n` on, if a word can hold it. -/
def up? (n a : UInt64) : Option UInt64 :=
  if n.toNat + (a - 1).toNat < UInt64.size then some ((n + (a - 1)) &&& ~~~(a - 1)) else none

/-- The greatest multiple of `a` up to `n`. -/
def down (n a : UInt64) : UInt64 := n &&& ~~~(a - 1)

/-- Whether `n` is a multiple of `a`. -/
def isAligned (n a : UInt64) : Bool := n &&& (a - 1) == 0

/-- How many units after `n` the next multiple of `a` lies. -/
def padding (n a : UInt64) : UInt64 := -n &&& (a - 1)

end Pickling.Alignment
