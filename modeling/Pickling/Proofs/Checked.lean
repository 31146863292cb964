import Pickling.Buffer.Basic
import Pickling.Layout
/-!
Arithmetic that gives nothing where a machine would have to stop: a number that leaves its word, a
range that leaves its bytes, a condition that does not hold. Where all of it gives something, it
gives what numbers without bounds give.
-/
namespace Pickling.Checked

def sub (m n : Nat) : Option Nat := if n ≤ m then some (m - n) else none

def add (m n : Nat) : Option Nat := if m + n ≤ largestWord then some (m + n) else none

/-- A number in the 32 bits of a header. -/
def narrow (n : Nat) : Option UInt32 := if n < UInt32.size then some (UInt32.ofNat n) else none

def slice (bytes : ByteArray) (start stop : Nat) : Option ByteArray :=
  if start ≤ stop ∧ stop ≤ bytes.size then some (bytes.extract start stop) else none

/-- Stores the bytes over a range, which they have to fill. -/
def store (buffer : Buffer) (start stop : Nat) (bytes : ByteArray) : Option Buffer :=
  if stop ≤ buffer.size ∧ start + bytes.size = stop then some (buffer.overwrite start bytes)
  else none

variable {m n : Nat}

theorem sub_of_le (h : n ≤ m) : sub m n = some (m - n) := if_pos h

theorem add_of_le (h : m + n ≤ largestWord) : add m n = some (m + n) := if_pos h

theorem narrow_of_lt (h : n < UInt32.size) : narrow n = some (UInt32.ofNat n) := if_pos h

theorem slice_of_le {bytes : ByteArray} {start stop : Nat} (hle : start ≤ stop)
    (hstop : stop ≤ bytes.size) : slice bytes start stop = some (bytes.extract start stop) :=
  if_pos ⟨hle, hstop⟩

theorem store_of_le {buffer : Buffer} {start stop : Nat} {bytes : ByteArray}
    (hstop : stop ≤ buffer.size) (hfill : start + bytes.size = stop) :
    store buffer start stop bytes = some (buffer.overwrite start bytes) :=
  if_pos ⟨hstop, hfill⟩

end Pickling.Checked
