import Mathlib.Algebra.Group.Nat.Defs
import Pickling.Word.LittleEndian
/-!
What numbers and their bytes are to each other. Main statement: a number that is written and read
back loses what does not fit into the bytes, and nothing else (`decode_encode`).
-/
namespace Pickling.LittleEndian

theorem value_lt (bytes : List UInt8) : value bytes < 256 ^ bytes.length := by
  induction bytes with
  | nil => simp [value]
  | cons byte rest ih =>
    have := byte.toNat_lt
    simp only [value, List.length_cons, Nat.pow_succ]
    omega

theorem value_digits (count n : Nat) : value (digits count n) = n % 256 ^ count := by
  induction count generalizing n with
  | zero => simp [digits, value, Nat.mod_one]
  | succ count ih =>
    rw [digits, value, ih, UInt8.toNat_ofNat', Nat.pow_succ 256, Nat.mul_comm (256 ^ count),
      Nat.mod_mul]

theorem decode_encode (count n : Nat) : decode (encode count n) = n % 256 ^ count := by
  simp [decode, encode, value_digits]

end Pickling.LittleEndian
