/-!
Numbers as bytes, the least significant byte first.
-/
namespace Pickling.LittleEndian

/-- The `count` lowest digits of a number to the base 256, the lowest first. -/
def digits : (count : Nat) → Nat → List UInt8
  | 0, _ => []
  | count + 1, n => UInt8.ofNat n :: digits count (n / 256)

/-- The number whose digits to the base 256 these are. -/
def value : List UInt8 → Nat
  | [] => 0
  | byte :: rest => byte.toNat + 256 * value rest

@[simp] theorem length_digits (count n : Nat) : (digits count n).length = count := by
  induction count generalizing n with
  | zero => rfl
  | succ count ih => simp [digits, ih]

theorem digits_value (bytes : List UInt8) : digits bytes.length (value bytes) = bytes := by
  induction bytes with
  | nil => rfl
  | cons byte rest ih =>
    have hlt := byte.toNat_lt
    have hdiv : (byte.toNat + 256 * value rest) / 256 = value rest := by omega
    simp only [List.length_cons, digits, value, hdiv, ih]
    congr 1
    apply UInt8.toNat_inj.1
    simp only [UInt8.toNat_ofNat']
    omega

def encode (count n : Nat) : ByteArray := (digits count n).toByteArray

def decode (bytes : ByteArray) : Nat := value bytes.data.toList

@[simp] theorem size_encode (count n : Nat) : (encode count n).size = count := by
  simp [encode]

end Pickling.LittleEndian
