import Pickling.Failure
import Pickling.Layout
import Pickling.Buffer.Growth
/-!
What may be chosen when a pickle is made, and which choices make sense.
-/
namespace Pickling

structure Options where
  /-- Payload bytes to make room for at once. -/
  initialCapacity : UInt64
  /-- Capacity grows in multiples of this many bytes. -/
  allocationUnit : UInt64
  /-- No buffer is larger, its header included. -/
  maxCapacity : UInt64
deriving DecidableEq

namespace Options

/-- One unit of room, the header included, and no limit but that of the format. -/
def standard : Options :=
  ⟨Growth.defaultUnit - headerSize.toUInt64, Growth.defaultUnit, maxSize.toUInt64⟩

instance : Inhabited Options := ⟨standard⟩

/-- The growth rule that the options ask for, within what a header can describe. The unit is looked
at before the limit. -/
def growth (options : Options) : Except Failure Growth :=
  if h : options.allocationUnit.toNat.isPowerOfTwo then
    if headerSize.toUInt64 ≤ options.maxCapacity then
      .ok ⟨options.allocationUnit, min options.maxCapacity maxSize.toUInt64, h⟩
    else .error (.unmetArgument "max_capacity" "self.max_capacity >= HEADER_SIZE")
  else .error (.unmetArgument "allocation_unit" "self.allocation_unit.is_power_of_two()")

def describe (options : Options) : String :=
  Text.record "PickleOptions"
    [("initial_capacity", toString options.initialCapacity.toNat),
      ("allocation_unit", toString options.allocationUnit.toNat),
      ("max_capacity", toString options.maxCapacity.toNat)]

end Options

/-- The growth rule of a pickle for which nobody chose another. -/
def Growth.pickle : Growth := ⟨defaultUnit, maxSize.toUInt64, defaultUnit_isPowerOfTwo⟩

end Pickling
