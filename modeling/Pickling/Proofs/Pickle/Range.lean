import Mathlib.Data.Nat.Bitwise
import Pickling.Proofs.Checked
import Pickling.Proofs.Pickle.Reachable
import Pickling.Proofs.Pickle.View
/-!
The arithmetic of writing never leaves its range. Each change of a pickle is given once more in the
order and with the arithmetic of a machine, where a number that leaves its word, a range that leaves
the buffer or a broken assertion gives nothing. Main statements: on a valid pickle these changes give
what the unbounded ones do (`Pickle.Valid.inRange`), and so does the making of a pickle from a view
(`Pickle.ofView?_eq`).
-/
namespace Pickling

def Checked.segmentEnd (count : Nat) : Option Nat :=
  if count < UInt64.size then
    (Alignment.upStrict count.toUInt64 segmentAlignment).map UInt64.toNat
  else none

theorem Checked.segmentEnd_of_le {count : Nat} (h : count + 4 ≤ largestWord) :
    segmentEnd count = some (Pickling.segmentEnd count) := by
  have hword : largestWord + 1 = UInt64.size := rfl
  have hlt : count < UInt64.size := by omega
  have hsum : count.toUInt64.toNat + segmentAlignment.toNat < UInt64.size := by
    rw [toNat_toUInt64 hlt, toNat_segmentAlignment]
    omega
  rw [segmentEnd, if_pos hlt, Alignment.upStrict, if_pos ⟨⟨2, rfl⟩, hsum⟩]
  rfl

namespace Pickle

def payloadSize? (pickle : Pickle) : Option Nat := Checked.sub pickle.size headerSize

/-- `Pickle.setHeader` with what it asserts of the length. -/
def setHeader? (pickle : Pickle) (payloadSize : Nat) : Option Pickle := do
  guard (payloadSize ≤ maxPayloadSize)
  guard (Alignment.isAligned payloadSize.toUInt64 segmentAlignment)
  let told ← Checked.narrow payloadSize
  let buffer ← Checked.store pickle.buffer 0 headerSize (Header.mk told).bytes
  return ⟨buffer⟩

def truncate? (pickle : Pickle) (payloadSize : Nat) : Option Pickle := do
  let size ← Checked.add headerSize payloadSize
  setHeader? ⟨pickle.buffer.truncate size⟩ payloadSize

/-- Makes room for a segment of zeros and tells where it starts, or why there is no room. -/
def beginSegment? [Memory] (pickle : Pickle) (count : Nat) :
    Option (Except Failure (Pickle × Nat)) := do
  let start ← Checked.segmentEnd (← pickle.payloadSize?)
  match (segmentEnd? (start + count)).filter (· ≤ maxPayloadSize) with
  | none => return .error (.allocationFailure (saturated (headerSize + start + count)))
  | some payloadSize => do
    let more ← Checked.sub (← Checked.add headerSize payloadSize) pickle.size
    match pickle.buffer.extendZeroed more with
    | .error failure => return .error failure
    | .ok (buffer, _) => do
      let grown ← setHeader? ⟨buffer⟩ payloadSize
      return .ok (grown, ← Checked.add headerSize start)

/-- Stores the bytes of a segment and then the zeros behind them. -/
def fillSegment? (pickle : Pickle) (start : Nat) (bytes : ByteArray) : Option Pickle := do
  let stop ← Checked.add start bytes.size
  let written ← Checked.store pickle.buffer start stop bytes
  let padding := segmentPadding bytes.size
  let last ← Checked.add stop padding
  let padded ← Checked.store written stop last (constantBytes padding 0)
  return ⟨padded⟩

/-- `Pickle.append` in the order and the arithmetic of a machine: the header comes first. -/
def append? [Memory] (pickle : Pickle) (bytes : ByteArray) : Option (Except Failure Pickle) := do
  match ← pickle.beginSegment? bytes.size with
  | .error failure => return .error failure
  | .ok (grown, start) => return .ok (← grown.fillSegment? start bytes)

def ofView? (view : View) : Option Pickle := do
  let payload ← Checked.slice view.payload 0 (min view.payload.size maxPayloadSize)
  let size ← Checked.add headerSize (← Checked.segmentEnd payload.size)
  let buffer := Buffer.zeroed size size .pickle
  guard (size ≤ buffer.capacity.toNat)
  let stop ← Checked.add headerSize payload.size
  let stored ← Checked.store buffer headerSize stop payload
  setHeader? ⟨stored⟩ (← Checked.sub size headerSize)

variable {pickle : Pickle} {count : Nat}

theorem setHeader?_eq (hsize : headerSize ≤ pickle.size) (hle : count ≤ maxPayloadSize)
    (haligned : 4 ∣ count) : pickle.setHeader? count = some (pickle.setHeader count) := by
  have hword : maxPayloadSize < UInt64.size := by decide
  have hmask : Alignment.isAligned count.toUInt64 segmentAlignment = true := by
    rw [Alignment.isAligned_iff toNat_segmentAlignment, toNat_toUInt64 (by omega)]
    exact haligned
  have hnarrow : count < UInt32.size := Nat.lt_of_le_of_lt hle (by decide)
  have hstore : Checked.store pickle.buffer 0 headerSize (Header.mk (UInt32.ofNat count)).bytes =
      some (pickle.buffer.overwrite 0 (Header.mk (UInt32.ofNat count)).bytes) :=
    Checked.store_of_le hsize (by rw [Header.size_bytes, Nat.zero_add])
  simp [setHeader?, setHeader, hle, hmask, Checked.narrow_of_lt hnarrow, hstore]

namespace Valid

theorem payloadSize?_eq (h : pickle.Valid) : pickle.payloadSize? = some pickle.payloadSize := by
  have hsize := h.size_eq
  exact Checked.sub_of_le (by omega)

theorem truncate?_eq (h : pickle.Valid) (hle : count ≤ pickle.payload.size) (haligned : 4 ∣ count) :
    pickle.truncate? count = some (pickle.truncate count) := by
  have hlt := h.size_lt
  have hword : headerSize + maxPayloadSize ≤ largestWord := by decide
  have hadd : Checked.add headerSize count = some (headerSize + count) :=
    Checked.add_of_le (by omega)
  have hsize : headerSize ≤ (Pickle.mk (pickle.buffer.truncate (headerSize + count))).size := by
    have hkept := h.size_eq
    simp only [size, Buffer.size_truncate] at hkept ⊢
    omega
  simp [truncate?, truncate, hadd, setHeader?_eq hsize (hle.trans hlt) haligned]

end Valid

/-- A segment that takes the place of zeros behind a payload. The header told their length before. -/
theorem overwrite_holding (payload bytes : ByteArray) (capacity : UInt64) (growth : Growth) :
    ((holding (payload ++ constantBytes (paddedSize bytes.size) 0) capacity growth).buffer.overwrite
        (headerSize + payload.size) bytes).overwrite (headerSize + payload.size + bytes.size)
          (constantBytes (paddedSize bytes.size - bytes.size) 0) =
      (holding (payload ++ padded bytes) capacity growth).buffer := by
  have hsizes : (payload ++ constantBytes (paddedSize bytes.size) 0).size =
      (payload ++ padded bytes).size := by
    rw [ByteArray.size_append, ByteArray.size_append, size_constantBytes, size_padded]
  rw [holding, holding, hsizes]
  generalize hheader : (Header.mk (UInt32.ofNat (payload ++ padded bytes).size)).bytes = header
  have hsize : header.size = headerSize := hheader ▸ Header.size_bytes _
  have hstored := @Buffer.overwrite_padded
    ⟨header ++ (payload ++ constantBytes (paddedSize bytes.size) 0), capacity, growth⟩
    (header ++ payload) bytes ByteArray.append_assoc.symm
  rwa [ByteArray.size_append, hsize, ByteArray.append_assoc] at hstored

theorem fillSegment?_eq {payload bytes : ByteArray} {capacity : UInt64} {growth : Growth}
    (hle : payload.size + paddedSize bytes.size ≤ maxPayloadSize) :
    (holding (payload ++ constantBytes (paddedSize bytes.size) 0) capacity growth).fillSegment?
        (headerSize + payload.size) bytes =
      some (holding (payload ++ padded bytes) capacity growth) := by
  have hword : headerSize + maxPayloadSize ≤ largestWord := by decide
  have hlarge : largestWord < UInt64.size := by decide
  have hpadded := le_paddedSize bytes.size
  have hpadding : segmentPadding bytes.size = paddedSize bytes.size - bytes.size :=
    segmentPadding_eq (by omega)
  have hroom : (holding (payload ++ constantBytes (paddedSize bytes.size) 0) capacity
      growth).buffer.size = headerSize + (payload.size + paddedSize bytes.size) := by
    have hsize := size_holding (payload ++ constantBytes (paddedSize bytes.size) 0) capacity growth
    rwa [ByteArray.size_append, size_constantBytes] at hsize
  have hresult := overwrite_holding payload bytes capacity growth
  generalize holding (payload ++ constantBytes (paddedSize bytes.size) 0) capacity growth = zeroed
    at hroom hresult ⊢
  have hstop : Checked.add (headerSize + payload.size) bytes.size =
      some (headerSize + payload.size + bytes.size) := Checked.add_of_le (by omega)
  have hfirst : Checked.store zeroed.buffer (headerSize + payload.size)
      (headerSize + payload.size + bytes.size) bytes =
        some (zeroed.buffer.overwrite (headerSize + payload.size) bytes) :=
    Checked.store_of_le (by omega) rfl
  have hlast : Checked.add (headerSize + payload.size + bytes.size)
      (paddedSize bytes.size - bytes.size) = some (headerSize + payload.size + bytes.size +
        (paddedSize bytes.size - bytes.size)) := Checked.add_of_le (by omega)
  have hbehind : headerSize + payload.size + bytes.size + (paddedSize bytes.size - bytes.size) ≤
      (zeroed.buffer.overwrite (headerSize + payload.size) bytes).size := by
    rw [Buffer.size_overwrite (by omega), hroom]
    omega
  have hsecond := Checked.store_of_le hbehind
    (congrArg (headerSize + payload.size + bytes.size + ·) (size_constantBytes _ 0))
  rw [hresult] at hsecond
  simp [fillSegment?, hpadding, hstop, hfirst, hlast, hsecond]

namespace Valid

/-- The header is set when there are zeros already, and none of the segment. -/
theorem setHeader?_zeros (h : pickle.Valid)
    (hfits : pickle.payload.size + paddedSize count ≤ maxPayloadSize) (capacity : UInt64) :
    setHeader? ⟨pickle.bytes ++ constantBytes (paddedSize count) 0, capacity, pickle.buffer.growth⟩
        (pickle.payload.size + paddedSize count) =
      some (holding (pickle.payload ++ constantBytes (paddedSize count) 0) capacity
        pickle.buffer.growth) := by
  have hroom : headerSize ≤
      (Pickle.mk ⟨pickle.bytes ++ constantBytes (paddedSize count) 0, capacity,
        pickle.buffer.growth⟩).size := by
    have hkept : pickle.bytes.size = _ := h.size_eq
    simp only [size, Buffer.size, ByteArray.size_append]
    omega
  rw [setHeader?_eq hroom hfits (Nat.dvd_add h.aligned (dvd_paddedSize _))]
  refine congrArg some (setHeader_eq ?_ (Header.size_bytes pickle.header) (by simp))
  rw [h.bytes_eq, ByteArray.append_assoc]

theorem beginSegment?_eq [Memory] (h : pickle.Valid) (count : Nat) :
    pickle.beginSegment? count = some
      (if pickle.payload.size + paddedSize count ≤ maxPayloadSize then
        (pickle.buffer.reserve (paddedSize count)).map fun reserved =>
          (holding (pickle.payload ++ constantBytes (paddedSize count) 0) reserved.capacity
            pickle.buffer.growth, headerSize + pickle.payload.size)
      else .error (.allocationFailure (saturated (headerSize + pickle.payload.size + count)))) := by
  have hword : headerSize + maxPayloadSize + 4 ≤ largestWord := by decide
  have hlarge : largestWord < UInt64.size := by decide
  have hpayload := h.size_lt
  have hstart : Checked.segmentEnd pickle.payload.size = some pickle.payload.size := by
    rw [Checked.segmentEnd_of_le (by omega), segmentEnd_eq (by omega), paddedSize_of_dvd h.aligned]
  have hsegment := @segmentEnd?_filter _ count h.aligned
  by_cases hfits : pickle.payload.size + paddedSize count ≤ maxPayloadSize
  · have hsize : Checked.add headerSize (pickle.payload.size + paddedSize count) =
        some (headerSize + (pickle.payload.size + paddedSize count)) :=
      Checked.add_of_le (by omega)
    have hmore : Checked.sub (headerSize + (pickle.payload.size + paddedSize count)) pickle.size =
        some (paddedSize count) := by
      have hgrowth : headerSize + (pickle.payload.size + paddedSize count) - pickle.size =
          paddedSize count := by
        rw [h.size_eq]
        omega
      rw [Checked.sub_of_le (by rw [h.size_eq]; omega), hgrowth]
    have hbehind : Checked.add headerSize pickle.payload.size =
        some (headerSize + pickle.payload.size) := Checked.add_of_le (by omega)
    rw [if_pos hfits] at hsegment
    simp only [beginSegment?, h.payloadSize?_eq, h.payloadSize_eq, hstart, hsegment, hsize, hmore,
      Option.bind_eq_bind, Option.bind_some, Buffer.extendZeroed, if_pos hfits]
    cases hreserve : pickle.buffer.reserve (paddedSize count) with
    | error failure => rfl
    | ok reserved =>
        obtain ⟨capacity, rfl, -⟩ := h.reserve_ok hreserve
        -- the header already counts the segment, of which there are only zeros so far
        have hgrown := h.setHeader?_zeros hfits capacity
        simp only [bytes] at hgrown
        simp only [bind, Except.bind, pure, Except.pure, Except.map, Option.bind, hgrown, hbehind]
  · rw [if_neg hfits] at hsegment
    simp [beginSegment?, h.payloadSize?_eq, h.payloadSize_eq, hstart, hsegment, if_neg hfits]

theorem append?_eq [Memory] (h : pickle.Valid) (bytes : ByteArray) :
    pickle.append? bytes = some (pickle.append bytes) := by
  rw [append?, h.beginSegment?_eq, append_eq h]
  by_cases hfits : pickle.payload.size + paddedSize bytes.size ≤ maxPayloadSize
  · rw [if_pos hfits, if_pos hfits]
    cases pickle.buffer.reserve (paddedSize bytes.size) with
    | error failure => rfl
    | ok reserved =>
        have hfilled := @fillSegment?_eq pickle.payload bytes reserved.capacity
          pickle.buffer.growth hfits
        simp [Except.map, hfilled]
  · rw [if_neg hfits, if_neg hfits]
    rfl

end Valid

theorem store_setHeader?_eq {buffer : Buffer} {payload : ByteArray}
    (hsize : buffer.size = headerSize + paddedSize payload.size)
    (hle : paddedSize payload.size ≤ maxPayloadSize) :
    ((Checked.store buffer headerSize (headerSize + payload.size) payload).bind fun stored =>
        setHeader? ⟨stored⟩ (paddedSize payload.size)) =
      some (setHeader ⟨buffer.overwrite headerSize payload⟩ (paddedSize payload.size)) := by
  have hpadded := le_paddedSize payload.size
  have hstore : Checked.store buffer headerSize (headerSize + payload.size) payload =
      some (buffer.overwrite headerSize payload) := Checked.store_of_le (by omega) rfl
  have hstored : (Pickle.mk (buffer.overwrite headerSize payload)).size =
      headerSize + paddedSize payload.size :=
    (Buffer.size_overwrite (by omega)).trans hsize
  rw [hstore, Option.bind_some]
  exact setHeader?_eq (Nat.le_of_add_right_le hstored.ge) hle (dvd_paddedSize _)

theorem ofView?_eq (view : View) : ofView? view = some (ofView view) := by
  have hword : headerSize + maxPayloadSize + 4 ≤ largestWord := by decide
  have hlimit : Growth.pickle.limit.toNat = headerSize + maxPayloadSize := rfl
  have hvisible : view.payload.extract 0 (min view.payload.size maxPayloadSize) =
      view.payload.extract 0 maxPayloadSize := extract_congr_right (by omega)
  have hslice := Checked.slice_of_le (Nat.zero_le _)
    (Nat.min_le_left view.payload.size maxPayloadSize)
  rw [hvisible] at hslice
  have hle := size_visible view
  have hend := segmentEnd_visible view
  rw [ofView?, hslice, ofView]
  -- of what is visible only the size matters from here on
  generalize view.payload.extract 0 maxPayloadSize = payload at hle hend ⊢
  have hfits := paddedSize_le_maxPayloadSize hle
  have hrounded : Checked.segmentEnd payload.size = some (paddedSize payload.size) :=
    (Checked.segmentEnd_of_le (by omega)).trans (congrArg some hend)
  have hsize : Checked.add headerSize (paddedSize payload.size) =
      some (headerSize + paddedSize payload.size) := Checked.add_of_le (by omega)
  have hstop : Checked.add headerSize payload.size = some (headerSize + payload.size) :=
    Checked.add_of_le (by omega)
  have hback : Checked.sub (headerSize + paddedSize payload.size) headerSize =
      some (paddedSize payload.size) := by
    rw [Checked.sub_of_le (by omega), Nat.add_sub_cancel_left]
  have hroom : headerSize + paddedSize payload.size ≤
      (Buffer.zeroed (headerSize + paddedSize payload.size)
        (headerSize + paddedSize payload.size) .pickle).capacity.toNat := by
    refine Nat.le_trans ?_ (@Buffer.room_withCapacity .pickle (by decide) _).2
    omega
  have hzeroed : (Buffer.zeroed (headerSize + paddedSize payload.size)
      (headerSize + paddedSize payload.size) .pickle).size = headerSize + paddedSize payload.size :=
    size_constantBytes _ _
  have hstored := store_setHeader?_eq hzeroed hfits
  simp [hrounded, hend, hsize, hstop, hback, hroom, hstored]

end Pickle

/-- Every change that the library makes to a pickle gives something in the arithmetic of a machine, which
is what it gives without bounds. -/
structure Pickle.InRange (pickle : Pickle) : Prop where
  payloadSize : pickle.payloadSize? = some pickle.payloadSize
  append : ∀ [Memory] (bytes : ByteArray), pickle.append? bytes = some (pickle.append bytes)
  truncate : ∀ {count : Nat}, count ≤ pickle.payloadSize → 4 ∣ count →
    pickle.truncate? count = some (pickle.truncate count)
  /-- What has been written since can be taken back, all of it or what is left of it. -/
  rollback : ∀ {α : Type} (write : Writer α), write.ByMethods →
    (write.after pickle).truncate? pickle.payloadSize =
      some ((write.after pickle).truncate pickle.payloadSize)

theorem Pickle.Valid.inRange {pickle : Pickle} (h : pickle.Valid) : pickle.InRange where
  payloadSize := h.payloadSize?_eq
  append := h.append?_eq
  truncate hle haligned := h.truncate?_eq (hle.trans_eq h.payloadSize_eq) haligned
  rollback write hwrite := by
    have hext := hwrite.extending pickle h
    rw [h.payloadSize_eq]
    exact hext.valid.truncate?_eq hext.payload_size_le h.aligned

end Pickling
