import Pickling.Text.Record
import Pickling.Word.Alignment
import Pickling.Word.Basic
/-!
How the capacity of a buffer grows: in whole units, at least twofold, and never past a limit.
-/
namespace Pickling

structure Growth where
  /-- Capacity is handed out in multiples of this many bytes. -/
  unit : UInt64
  /-- No capacity is larger, whether a multiple of the unit or not. -/
  limit : UInt64
  unit_isPowerOfTwo : unit.toNat.isPowerOfTwo

namespace Growth

def defaultUnit : UInt64 := 64

theorem defaultUnit_isPowerOfTwo : defaultUnit.toNat.isPowerOfTwo := ⟨6, rfl⟩

/-- The default unit, and for the limit all that one object may fill of the address space. -/
def standard : Growth := ⟨defaultUnit, 0x7fffffffffffffff, defaultUnit_isPowerOfTwo⟩

instance : Inhabited Growth := ⟨standard⟩

def ofUnit? (unit limit : UInt64) : Option Growth :=
  if h : unit.toNat.isPowerOfTwo then some ⟨unit, limit, h⟩ else none

def double (capacity : UInt64) : UInt64 := UInt64.ofNat (saturated (2 * capacity.toNat))

/-- The capacity to grow to from `current` so that `required` bytes fit; none if the limit forbids
them. Where rounding up to the unit leaves the word, the largest multiple of the unit stands in. -/
def next? (growth : Growth) (current required : UInt64) : Option UInt64 :=
  if required > growth.limit then none
  else
    let target := max (double current) required
    let largest := Alignment.down (UInt64.ofNat largestWord) growth.unit
    let rounded := (Alignment.up? target growth.unit).getD largest
    some (max (min rounded growth.limit) required)

/-- The same for any number of bytes; no limit allows more than the largest word. -/
def capacity? (growth : Growth) (current : UInt64) (required : Nat) : Option UInt64 :=
  if required < UInt64.size then growth.next? current (UInt64.ofNat required) else none

def describe (growth : Growth) : String :=
  Text.record "GrowthPolicy"
    [("allocation_unit", toString growth.unit.toNat), ("max_capacity", toString growth.limit.toNat)]

end Growth

end Pickling
