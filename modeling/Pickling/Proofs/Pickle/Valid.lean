import Mathlib.Data.Nat.Bitwise
import Pickling.Pickle.Basic
import Pickling.Proofs.Growth
import Pickling.Proofs.Layout
/-!
What is true of a pickle at all times: a header that describes the payload, a payload of whole words,
and a capacity that the growth rule admits. A valid pickle is told by its payload, its capacity and
its growth rule, and every operation is told here by what it does to these three.
-/
namespace Pickling

theorem constantBytes_add (m n : Nat) (byte : UInt8) :
    constantBytes (m + n) byte = constantBytes m byte ++ constantBytes n byte := by
  apply ByteArray.ext
  simp [constantBytes, Array.replicate_append_replicate]

theorem extract_zero_append (front back : ByteArray) (count : Nat) :
    (front ++ back).extract 0 (front.size + count) = front ++ back.extract 0 count := by
  have hback := ByteArray.extract_append_size_add (a := front) (b := back) (i := 0) (j := count)
  rw [ByteArray.extract_eq_extract_append_extract front.size (Nat.zero_le _) (Nat.le_add_right _ _),
    ByteArray.extract_append_eq_left rfl, ← hback, Nat.add_zero]

namespace Buffer

/-- Bytes that are stored over as many others take their place. -/
theorem bytes_overwrite_append {buffer : Buffer} {before old after new : ByteArray}
    (h : buffer.bytes = before ++ (old ++ after)) (hsize : old.size = new.size) :
    (buffer.overwrite before.size new).bytes = before ++ (new ++ after) := by
  rw [bytes_overwrite, size, h, ByteArray.extract_append_eq_left rfl, ← hsize,
    ByteArray.append_assoc, ← ByteArray.append_assoc (a := before) (b := old),
    ByteArray.extract_append_eq_right (by simp) (by simp [Nat.add_assoc])]

/-- A segment that is stored over zeros, and then the zeros behind it. -/
theorem overwrite_padded {buffer : Buffer} {before bytes : ByteArray}
    (h : buffer.bytes = before ++ constantBytes (paddedSize bytes.size) 0) :
    (buffer.overwrite before.size bytes).overwrite (before.size + bytes.size)
        (constantBytes (paddedSize bytes.size - bytes.size) 0) =
      { buffer with bytes := before ++ padded bytes } := by
  have hroom : buffer.bytes = before ++ (constantBytes bytes.size 0 ++
      constantBytes (paddedSize bytes.size - bytes.size) 0) := by
    rw [h, ← constantBytes_add, Nat.add_sub_cancel' (le_paddedSize _)]
  have hstored := bytes_overwrite_append hroom (size_constantBytes _ _)
  have hbehind : before ++ (bytes ++ constantBytes (paddedSize bytes.size - bytes.size) 0) =
      before ++ bytes ++ (constantBytes (paddedSize bytes.size - bytes.size) 0 ++ .empty) := by
    rw [ByteArray.append_empty, ByteArray.append_assoc]
  have hpadded := bytes_overwrite_append (hstored.trans hbehind) rfl
  rw [ByteArray.append_empty, ByteArray.size_append, ByteArray.append_assoc, ← padded] at hpadded
  exact congrArg (Buffer.mk · buffer.capacity buffer.growth) hpadded

end Buffer

namespace Pickle

def limit (pickle : Pickle) : Nat := pickle.buffer.growth.limit.toNat

/-- The pickle of a payload. -/
def holding (payload : ByteArray) (capacity : UInt64) (growth : Growth) : Pickle :=
  ⟨(Header.mk (UInt32.ofNat payload.size)).bytes ++ payload, capacity, growth⟩

structure Valid (pickle : Pickle) : Prop where
  bytes_eq : pickle.bytes = pickle.header.bytes ++ pickle.payload
  aligned : 4 ∣ pickle.payload.size
  size_le : headerSize + pickle.payload.size ≤ pickle.capacity.toNat
  admits : pickle.buffer.growth.Admits pickle.capacity
  limit_le : pickle.limit ≤ maxSize

theorem setHeader_eq {buffer : Buffer} {old payload : ByteArray} {count : Nat}
    (h : buffer.bytes = old ++ payload) (hold : old.size = headerSize) (hcount : count = payload.size) :
    setHeader ⟨buffer⟩ count = holding payload buffer.capacity buffer.growth := by
  have hbytes : buffer.bytes = .empty ++ (old ++ payload) := by rw [ByteArray.empty_append, h]
  have hstored := Buffer.bytes_overwrite_append hbytes
    (hold.trans (Header.size_bytes ⟨UInt32.ofNat count⟩).symm)
  rw [ByteArray.empty_append] at hstored
  rw [holding, ← hcount, ← hstored]
  rfl

section Holding

variable (payload : ByteArray) (capacity : UInt64) (growth : Growth)

@[simp] theorem size_holding :
    (holding payload capacity growth).size = headerSize + payload.size := by
  simp [holding, size, Buffer.size]

@[simp] theorem payloadSize_holding :
    (holding payload capacity growth).payloadSize = payload.size := by
  simp [payloadSize]

@[simp] theorem payload_holding : (holding payload capacity growth).payload = payload := by
  rw [Pickle.payload, size_holding, holding, bytes,
    ByteArray.extract_append_eq_right (by simp) (by simp)]

@[simp] theorem capacity_holding : (holding payload capacity growth).capacity = capacity := rfl

@[simp] theorem limit_holding : (holding payload capacity growth).limit = growth.limit.toNat := rfl

theorem bytes_holding : (holding payload capacity growth).bytes =
    (Header.mk (UInt32.ofNat payload.size)).bytes ++ payload := rfl

variable {payload capacity growth}

theorem valid_holding (haligned : 4 ∣ payload.size)
    (hsize : headerSize + payload.size ≤ capacity.toNat) (hadmits : growth.Admits capacity)
    (hlimit : growth.limit.toNat ≤ maxSize) : (holding payload capacity growth).Valid where
  bytes_eq := by rw [header, payloadSize_holding, payload_holding, bytes_holding]
  aligned := by rwa [payload_holding]
  size_le := by rwa [payload_holding]
  admits := hadmits
  limit_le := hlimit

end Holding

namespace Valid

variable {pickle : Pickle}

theorem size_eq (h : pickle.Valid) : pickle.size = headerSize + pickle.payload.size := by
  have hsize := congrArg ByteArray.size h.bytes_eq
  rwa [ByteArray.size_append, Header.size_bytes] at hsize

theorem payloadSize_eq (h : pickle.Valid) : pickle.payloadSize = pickle.payload.size := by
  rw [payloadSize, h.size_eq, Nat.add_sub_cancel_left]

theorem bytes_told (h : pickle.Valid) :
    pickle.bytes = (Header.mk (UInt32.ofNat pickle.payload.size)).bytes ++ pickle.payload := by
  rw [← h.payloadSize_eq]
  exact h.bytes_eq

theorem eq_holding_of_bytes (h : pickle.Valid) {other : Pickle} (hbytes : other.bytes = pickle.bytes) :
    other = holding pickle.payload other.capacity other.buffer.growth := by
  rw [holding, ← h.bytes_told, ← hbytes]
  rfl

theorem size_le_limit (h : pickle.Valid) : headerSize + pickle.payload.size ≤ pickle.limit :=
  h.size_le.trans h.admits.le_limit

theorem size_lt (h : pickle.Valid) : pickle.payload.size ≤ maxPayloadSize := by
  have hle := h.size_le_limit.trans h.limit_le
  rw [maxSize] at hle
  omega

theorem extract_header (h : pickle.Valid) :
    pickle.bytes.extract 0 headerSize = pickle.header.bytes := by
  rw [h.bytes_eq, ByteArray.extract_append_eq_left (Header.size_bytes _).symm]

theorem ofBytes?_bytes (h : pickle.Valid) : Header.ofBytes? pickle.bytes = some pickle.header :=
  Header.ofBytes?_of_extract h.extract_header

theorem toNat_header (h : pickle.Valid) :
    pickle.header.payloadSize.toNat = pickle.payload.size := by
  rw [header, h.payloadSize_eq]
  exact UInt32.toNat_ofNat_of_lt' (Nat.lt_of_le_of_lt h.size_lt (by decide))

theorem reserve_ok [Memory] (h : pickle.Valid) {count : Nat} {reserved : Buffer}
    (hok : pickle.buffer.reserve count = .ok reserved) :
    ∃ capacity, reserved = { pickle.buffer with capacity } ∧
      pickle.size + count ≤ capacity.toNat ∧ pickle.capacity.toNat ≤ capacity.toNat ∧
      pickle.buffer.growth.Admits capacity :=
  Buffer.reserve_admits (h.limit_le.trans (by decide)) h.admits hok

theorem truncate_eq (h : pickle.Valid) {count : Nat} (hle : count ≤ pickle.payload.size) :
    pickle.truncate count =
      holding (pickle.payload.extract 0 count) pickle.capacity pickle.buffer.growth := by
  have hsize : (pickle.payload.extract 0 count).size = count := by
    rw [ByteArray.size_extract]
    omega
  have hbytes : (pickle.buffer.truncate (headerSize + count)).bytes =
      pickle.header.bytes ++ pickle.payload.extract 0 count := by
    change pickle.bytes.extract 0 (headerSize + count) = _
    rw [h.bytes_eq, ← Header.size_bytes pickle.header, extract_zero_append]
  exact setHeader_eq hbytes (Header.size_bytes _) hsize.symm

theorem valid_truncate (h : pickle.Valid) {count : Nat} (hle : count ≤ pickle.payload.size)
    (haligned : 4 ∣ count) : (pickle.truncate count).Valid := by
  have hsize : (pickle.payload.extract 0 count).size = count := by
    rw [ByteArray.size_extract]
    omega
  have hcap := h.size_le
  rw [h.truncate_eq hle]
  exact valid_holding (by rwa [hsize]) (by rw [hsize]; omega) h.admits h.limit_le

end Valid

theorem store_segment {pickle : Pickle} (h : pickle.Valid) (bytes : ByteArray) (capacity : UInt64) :
    setHeader
      ⟨(Buffer.overwrite
          ⟨pickle.bytes ++ constantBytes (paddedSize bytes.size) 0, capacity, pickle.buffer.growth⟩
          pickle.size bytes).overwrite (pickle.size + bytes.size)
        (constantBytes (paddedSize bytes.size - bytes.size) 0)⟩
      (pickle.payload.size + paddedSize bytes.size) =
    holding (pickle.payload ++ padded bytes) capacity pickle.buffer.growth := by
  have hstored := @Buffer.overwrite_padded ⟨pickle.bytes ++ constantBytes (paddedSize bytes.size) 0,
    capacity, pickle.buffer.growth⟩ pickle.bytes bytes rfl
  have hwritten : pickle.bytes ++ padded bytes =
      pickle.header.bytes ++ (pickle.payload ++ padded bytes) := by
    rw [← ByteArray.append_assoc, ← h.bytes_eq]
  refine (congrArg (setHeader ⟨·⟩ _) hstored).trans ?_
  exact setHeader_eq hwritten (Header.size_bytes pickle.header)
    (by rw [ByteArray.size_append, size_padded])

/-- The payload that a segment leads to, if a header can tell its length. -/
theorem segmentEnd?_filter {start count : Nat} (haligned : 4 ∣ start) :
    (segmentEnd? (start + count)).filter (· ≤ maxPayloadSize) =
      if start + paddedSize count ≤ maxPayloadSize then some (start + paddedSize count)
      else none := by
  have hword : maxPayloadSize + 7 < UInt64.size := by decide
  have hle := le_paddedSize count
  rw [segmentEnd?_eq, paddedSize_add haligned]
  split
  · simp [Option.filter_some]
  · rw [if_neg (by omega), Option.filter_none]

/-- An append fails where a header cannot tell the length, or where there is no room; otherwise the
segment stands behind the payload. -/
theorem append_eq [Memory] {pickle : Pickle} (h : pickle.Valid) (bytes : ByteArray) :
    pickle.append bytes =
      if pickle.payload.size + paddedSize bytes.size ≤ maxPayloadSize then
        (pickle.buffer.reserve (paddedSize bytes.size)).map fun reserved =>
          holding (pickle.payload ++ padded bytes) reserved.capacity pickle.buffer.growth
      else .error (.allocationFailure
        (saturated (headerSize + pickle.payload.size + bytes.size))) := by
  have hword : maxPayloadSize + 7 < UInt64.size := by decide
  have hle := le_paddedSize bytes.size
  have hpayload := h.size_lt
  have hstart : segmentEnd pickle.payloadSize = pickle.payload.size := by
    rw [h.payloadSize_eq, segmentEnd_eq (by omega), paddedSize_of_dvd h.aligned]
  rw [append, hstart, segmentEnd?_filter h.aligned]
  by_cases hfits : pickle.payload.size + paddedSize bytes.size ≤ maxPayloadSize
  · have hcount : headerSize + (pickle.payload.size + paddedSize bytes.size) - pickle.size =
        paddedSize bytes.size := by
      rw [h.size_eq]
      omega
    rw [if_pos hfits, if_pos hfits]
    simp only [hcount, Buffer.extendZeroed, segmentPadding_eq (show bytes.size < UInt64.size by omega)]
    cases hr : pickle.buffer.reserve (paddedSize bytes.size) with
    | error failure => rfl
    | ok reserved =>
        obtain ⟨capacity, rfl, -⟩ := h.reserve_ok hr
        have hstored := store_segment h bytes capacity
        rw [h.size_eq] at hstored
        exact congrArg Except.ok hstored
  · rw [if_neg hfits, if_neg hfits]
    rfl

namespace Valid

variable [Memory] {pickle changed : Pickle} {bytes : ByteArray} {count : Nat} {failure : Failure}

theorem append_ok (h : pickle.Valid) (hok : pickle.append bytes = .ok changed) :
    ∃ capacity, changed = holding (pickle.payload ++ padded bytes) capacity pickle.buffer.growth ∧
      changed.Valid ∧ pickle.capacity.toNat ≤ capacity.toNat := by
  rw [append_eq h] at hok
  split at hok
  · obtain ⟨reserved, hreserved, rfl⟩ := exists_of_map_eq_ok hok
    obtain ⟨capacity, rfl, hroom, hgrown, hadmits⟩ := h.reserve_ok hreserved
    have hsize : (pickle.payload ++ padded bytes).size =
        pickle.payload.size + paddedSize bytes.size := by
      rw [ByteArray.size_append, size_padded]
    rw [h.size_eq, Nat.add_assoc, ← hsize] at hroom
    have haligned : 4 ∣ (pickle.payload ++ padded bytes).size := by
      rw [hsize]
      exact Nat.dvd_add h.aligned (dvd_paddedSize _)
    exact ⟨capacity, rfl, valid_holding haligned hroom hadmits h.limit_le, hgrown⟩
  · cases hok

theorem reserve_count_ok (h : pickle.Valid) (hok : pickle.reserve count = .ok changed) :
    ∃ capacity, changed = holding pickle.payload capacity pickle.buffer.growth ∧
      changed.Valid ∧ pickle.capacity.toNat ≤ capacity.toNat := by
  rw [reserve] at hok
  split at hok
  · cases hok
  · obtain ⟨reserved, hreserved, rfl⟩ := exists_of_map_eq_ok hok
    obtain ⟨capacity, rfl, hroom, hgrown, hadmits⟩ := h.reserve_ok hreserved
    have hsame := @eq_holding_of_bytes pickle h ⟨{ pickle.buffer with capacity }⟩ rfl
    rw [h.size_eq] at hroom
    refine ⟨capacity, hsame, ?_, hgrown⟩
    rw [hsame]
    exact valid_holding h.aligned (Nat.le_of_add_right_le hroom) hadmits h.limit_le

end Valid

end Pickle

end Pickling
