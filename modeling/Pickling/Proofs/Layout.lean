import Mathlib.Data.Nat.Bitwise
import Pickling.Buffer.Basic
import Pickling.Layout
import Pickling.Proofs.Alignment
import Pickling.Proofs.Digits
/-!
The layout of segments in numbers without bounds. Main statements: the rounding of lengths in
machine words is the rounding of numbers, wherever the word can hold it (`segmentEnd_eq`,
`segmentEnd?_eq`, `segmentPadding_eq`), and a header is read as it was written
(`Header.ofBytes?_of_extract`).
-/
namespace Pickling

/-- The length of a segment of `count` bytes with its padding. -/
def paddedSize (count : Nat) : Nat := (count + 3) / 4 * 4

theorem le_paddedSize (count : Nat) : count ≤ paddedSize count := by
  simp only [paddedSize]
  omega

theorem dvd_paddedSize (count : Nat) : 4 ∣ paddedSize count := Nat.dvd_mul_left _ _

theorem paddedSize_add {start : Nat} (h : 4 ∣ start) (count : Nat) :
    paddedSize (start + count) = start + paddedSize count := by
  simp only [paddedSize]
  omega

theorem paddedSize_of_dvd {count : Nat} (h : 4 ∣ count) : paddedSize count = count :=
  paddedSize_add h 0

theorem paddedSize_le_maxPayloadSize {count : Nat} (h : count ≤ maxPayloadSize) :
    paddedSize count ≤ maxPayloadSize := by
  simp only [paddedSize, maxPayloadSize] at *
  omega

theorem toNat_segmentAlignment : segmentAlignment.toNat = 2 ^ 2 := rfl

theorem toNat_toUInt64 {count : Nat} (h : count < UInt64.size) : count.toUInt64.toNat = count :=
  UInt64.toNat_ofNat_of_lt' h

theorem segmentEnd_eq {count : Nat} (h : count + 3 < UInt64.size) :
    segmentEnd count = paddedSize count := by
  have hword : count.toUInt64.toNat = count := toNat_toUInt64 (by omega)
  rw [segmentEnd, Alignment.toNat_up toNat_segmentAlignment (by rw [hword]; exact h), hword]
  rfl

theorem segmentEnd?_eq (count : Nat) :
    segmentEnd? count = if count + 3 < UInt64.size then some (paddedSize count) else none := by
  by_cases hlt : count < UInt64.size
  · have hword := toNat_toUInt64 hlt
    rw [segmentEnd?, if_pos hlt, Alignment.up?_eq toNat_segmentAlignment, hword]
    by_cases h : count + 3 < UInt64.size
    · rw [if_pos h, if_pos (show count + (2 ^ 2 - 1) < UInt64.size from h), ← segmentEnd_eq h]
      rfl
    · rw [if_neg h, if_neg (show ¬ count + (2 ^ 2 - 1) < UInt64.size from h)]
      rfl
  · rw [segmentEnd?, if_neg hlt, if_neg (by omega)]

/-- Where no word can tell the end of a segment, it lies behind everything that words can number. -/
theorem min_segmentEnd? {limit : Nat} (h : limit ≤ largestWord) (count : Nat) :
    min ((segmentEnd? count).getD largestWord) limit = min (paddedSize count) limit := by
  have hlarge : UInt64.size = largestWord + 1 := rfl
  have hwhole : UInt64.size = 4 * 2 ^ 62 := rfl
  rw [segmentEnd?_eq]
  split_ifs with hend
  · rfl
  · simp only [Option.getD_none, paddedSize]
    omega

theorem segmentPadding_eq {count : Nat} (h : count < UInt64.size) :
    segmentPadding count = paddedSize count - count := by
  rw [segmentPadding, Alignment.toNat_padding toNat_segmentAlignment, toNat_toUInt64 h]
  rw [UInt64.size] at h
  simp only [paddedSize]
  omega

/-- The bytes of a segment and the zeros behind them. -/
def padded (bytes : ByteArray) : ByteArray :=
  bytes ++ constantBytes (paddedSize bytes.size - bytes.size) 0

@[simp] theorem size_padded (bytes : ByteArray) : (padded bytes).size = paddedSize bytes.size := by
  have hle := le_paddedSize bytes.size
  simp only [padded, ByteArray.size_append, size_constantBytes]
  omega

theorem padded_of_dvd {bytes : ByteArray} (h : 4 ∣ bytes.size) : padded bytes = bytes := by
  rw [padded, paddedSize_of_dvd h, Nat.sub_self]
  exact ByteArray.append_empty

def layout : List ByteArray → ByteArray
  | [] => .empty
  | bytes :: rest => padded bytes ++ layout rest

theorem layout_append (first second : List ByteArray) :
    layout (first ++ second) = layout first ++ layout second := by
  induction first with
  | nil => simp [layout]
  | cons bytes rest ih => simp [layout, ih, ByteArray.append_assoc]

namespace Header

@[simp] theorem size_bytes (header : Header) : header.bytes.size = headerSize :=
  LittleEndian.size_encode _ _

theorem ofBytes?_of_extract {bytes : ByteArray} {header : Header}
    (h : bytes.extract 0 headerSize = header.bytes) : ofBytes? bytes = some header := by
  have hsize := congrArg ByteArray.size h
  rw [ByteArray.size_extract, size_bytes] at hsize
  have hle : headerSize ≤ bytes.size := by omega
  have hlt : header.payloadSize.toNat < 256 ^ headerSize := header.payloadSize.toNat_lt
  rw [ofBytes?, if_pos hle, h, Header.bytes, LittleEndian.decode_encode, Nat.mod_eq_of_lt hlt,
    UInt32.ofNat_toNat]

end Header

end Pickling
