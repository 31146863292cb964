import Mathlib.Data.Nat.Bitwise
import Pickling.Proofs.Layout
import Pickling.Pickle.View
/-!
What a view shows. Main statement: behind the header, as many bytes as it claims and as there are
(`View.payload_of_some`).
-/
namespace Pickling

theorem extract_congr_right {bytes : ByteArray} {i j k : Nat}
    (h : min (j - i) (bytes.size - i) = min (k - i) (bytes.size - i)) :
    bytes.extract i j = bytes.extract i k := by
  apply ByteArray.ext
  rw [ByteArray.data_extract, ByteArray.data_extract]
  exact Array.extract_eq_extract_right.2 h

theorem extract_of_size_le {bytes : ByteArray} {count : Nat} (h : bytes.size ≤ count) :
    bytes.extract 0 count = bytes := by
  rw [extract_congr_right (k := bytes.size) (by omega), ByteArray.extract_zero_size]

namespace View

variable {bytes : ByteArray} {header : Header}

theorem payload_of_none (h : Header.ofBytes? bytes = none) : (ofBytes bytes).payload = .empty := by
  rw [ofBytes, h]
  rfl

theorem payload_of_some (h : Header.ofBytes? bytes = some header) :
    (ofBytes bytes).payload = bytes.extract headerSize (headerSize + header.payloadSize.toNat) := by
  have hle : headerSize ≤ bytes.size := by
    refine Nat.le_of_not_lt fun hlt => ?_
    rw [Header.ofBytes?, if_neg (Nat.not_le.2 hlt)] at h
    cases h
  rw [ofBytes, h]
  simp only [payload]
  rw [ByteArray.extract_extract, ByteArray.size_extract, Nat.zero_add]
  refine extract_congr_right ?_
  omega

/-- Of bytes that are no longer than the header says, all are shown. -/
theorem payload_ofBytes_append {body : ByteArray} (h : body.size ≤ header.payloadSize.toNat) :
    (ofBytes (header.bytes ++ body)).payload = body := by
  have hstored : (header.bytes ++ body).extract 0 headerSize = header.bytes :=
    ByteArray.extract_append_eq_left (Header.size_bytes header).symm
  have hsize := Header.size_bytes header
  rw [payload_of_some (Header.ofBytes?_of_extract hstored),
    extract_congr_right (k := header.bytes.size + body.size)]
  · exact ByteArray.extract_append_eq_right hsize.symm rfl
  · rw [ByteArray.size_append, hsize]
    omega

end View

end Pickling
