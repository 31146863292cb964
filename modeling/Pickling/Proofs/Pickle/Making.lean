import Mathlib.Data.Nat.Bitwise
import Pickling.Proofs.Pickle.Valid
/-!
Every pickle that can be made is valid, and holds what it should: nothing, or the payload it was made
from with its last word filled up with zeros.
-/
namespace Pickling

/-- Room for a new buffer, under a limit that leaves half of the address space. -/
theorem Buffer.room_withCapacity {growth : Growth} (hlimit : growth.limit.toNat ≤ 2 ^ 63)
    (count : Nat) : growth.Admits (withCapacity count growth).capacity ∧
      min count growth.limit.toNat ≤ (withCapacity count growth).capacity.toNat := by
  obtain ⟨hcount, hle⟩ := le_withCapacity count growth
  exact ⟨admits_withCapacity count (hle.trans hlimit), hcount⟩

namespace Pickle

variable {pickle : Pickle}

theorem zeros_eq_header : constantBytes headerSize 0 = (Header.mk (UInt32.ofNat 0)).bytes := by
  decide

theorem withCapacity_eq (count : Nat) :
    withCapacity count = holding .empty (withCapacity count).capacity .pickle := by
  rw [withCapacity, Buffer.zeroed, zeros_eq_header, holding, ByteArray.append_empty]
  rfl

theorem valid_withCapacity (count : Nat) : (withCapacity count).Valid := by
  obtain ⟨hadmits, hle⟩ := @Buffer.room_withCapacity .pickle (by decide)
    (max (min (headerSize + count) Growth.pickle.limit.toNat) headerSize)
  have hheader : headerSize ≤ Growth.pickle.limit.toNat := by decide
  rw [withCapacity_eq]
  refine valid_holding ⟨0, rfl⟩ ?_ hadmits (by decide)
  refine Nat.le_trans ?_ hle
  rw [ByteArray.size_empty]
  omega

theorem size_visible (view : View) :
    (view.payload.extract 0 maxPayloadSize).size ≤ maxPayloadSize := by
  rw [ByteArray.size_extract]
  omega

theorem segmentEnd_visible (view : View) :
    segmentEnd (view.payload.extract 0 maxPayloadSize).size =
      paddedSize (view.payload.extract 0 maxPayloadSize).size := by
  have hword : maxPayloadSize + 3 < UInt64.size := by decide
  have hle := size_visible view
  exact segmentEnd_eq (by omega)

/-- A payload that is stored over zeros, with the header before it. -/
theorem store_payload {buffer : Buffer} {payload : ByteArray}
    (h : buffer.bytes = constantBytes (headerSize + paddedSize payload.size) 0) :
    setHeader ⟨buffer.overwrite headerSize payload⟩ (paddedSize payload.size) =
      holding (padded payload) buffer.capacity buffer.growth := by
  have hzeros : buffer.bytes = constantBytes headerSize 0 ++ (constantBytes payload.size 0 ++
      constantBytes (paddedSize payload.size - payload.size) 0) := by
    rw [h, ← constantBytes_add, ← constantBytes_add, Nat.add_sub_cancel' (le_paddedSize _)]
  have hstored := Buffer.bytes_overwrite_append hzeros (size_constantBytes payload.size 0)
  rw [size_constantBytes] at hstored
  exact setHeader_eq hstored (size_constantBytes headerSize 0) (size_padded payload).symm

theorem ofView_eq (view : View) :
    ofView view = holding (padded (view.payload.extract 0 maxPayloadSize)) (ofView view).capacity
      .pickle := by
  rw [ofView, segmentEnd_visible view]
  exact store_payload rfl

theorem valid_ofView (view : View) : (ofView view).Valid := by
  have hle := size_visible view
  have hend := segmentEnd_visible view
  have hlt := paddedSize_le_maxPayloadSize hle
  obtain ⟨hadmits, hcap⟩ := @Buffer.room_withCapacity .pickle (by decide)
    (max (headerSize + segmentEnd (view.payload.extract 0 maxPayloadSize).size)
      (headerSize + segmentEnd (view.payload.extract 0 maxPayloadSize).size))
  have hlimit : Growth.pickle.limit.toNat = headerSize + maxPayloadSize := rfl
  rw [ofView_eq]
  refine valid_holding ?_ (Nat.le_trans ?_ hcap) hadmits (by decide)
  · rw [size_padded]
    exact dvd_paddedSize _
  · rw [size_padded, hlimit, hend]
    omega

theorem Valid.copy_eq (h : pickle.Valid) :
    pickle.copy = holding pickle.payload pickle.copy.capacity pickle.buffer.growth :=
  h.eq_holding_of_bytes rfl

theorem Valid.valid_copy (h : pickle.Valid) : pickle.copy.Valid := by
  obtain ⟨hadmits, hle⟩ := @Buffer.room_withCapacity pickle.buffer.growth
    (h.limit_le.trans (by decide)) pickle.bytes.size
  have hsize : pickle.bytes.size = headerSize + pickle.payload.size := h.size_eq
  have hlimit : _ ≤ pickle.buffer.growth.limit.toNat := h.size_le_limit
  rw [h.copy_eq]
  refine valid_holding h.aligned (Nat.le_trans ?_ hle) hadmits h.limit_le
  omega

/-- The growth rule of options is within what a header can describe, and leaves room for one. -/
theorem limit_of_growth {options : Options} {growth : Growth} (h : options.growth = .ok growth) :
    headerSize ≤ growth.limit.toNat ∧ growth.limit.toNat ≤ maxSize ∧
      growth.limit.toNat = min options.maxCapacity.toNat maxSize := by
  have hmax : maxSize.toUInt64.toNat = maxSize := rfl
  have hheader : headerSize.toUInt64.toNat = headerSize := rfl
  have hle : headerSize ≤ maxSize := by decide
  rw [Options.growth] at h
  split at h
  · split at h
    · rename_i hmaximum
      rw [UInt64.le_iff_toNat_le, hheader] at hmaximum
      rw [← Except.ok.inj h]
      change _ ≤ (min options.maxCapacity maxSize.toUInt64).toNat ∧
        (min options.maxCapacity maxSize.toUInt64).toNat ≤ _ ∧ _ = _
      rw [UInt64.toNat_min, hmax]
      omega
    · cases h
  · cases h

variable [Memory] {options : Options}

theorem ofOptions_ok (h : ofOptions options = .ok pickle) :
    ∃ growth, options.growth = .ok growth ∧
      headerSize + options.initialCapacity.toNat ≤ largestWord ∧
      pickle = holding .empty pickle.capacity growth ∧ pickle.Valid := by
  rw [ofOptions] at h
  obtain ⟨growth, hgrowth, h⟩ := exists_of_bind_eq_ok h
  obtain ⟨-, hmax, -⟩ := limit_of_growth hgrowth
  have hlimit : growth.limit.toNat ≤ 2 ^ 63 := hmax.trans (by decide)
  have hempty : growth.Admits 0 := ⟨Nat.zero_le _, .inl ⟨0, rfl⟩⟩
  dsimp only at h
  split at h
  · rename_i hwanted
    obtain ⟨buffer, hbuffer, h⟩ := exists_of_bind_eq_ok h
    obtain ⟨room, rfl, -, -, hadmits⟩ := Buffer.reserve_admits hlimit hempty hbuffer
    obtain ⟨extended, hextended, h⟩ := exists_of_bind_eq_ok h
    obtain ⟨reserved, hreserved, hextended⟩ := exists_of_bind_eq_ok hextended
    obtain ⟨capacity, rfl, hroom, -, hadmits⟩ := Buffer.reserve_admits hlimit hadmits hreserved
    have hpickle : pickle = holding .empty capacity growth := by
      rw [← Except.ok.inj h, ← Except.ok.inj hextended]
      rfl
    refine ⟨growth, hgrowth, hwanted, by rw [hpickle, capacity_holding], ?_⟩
    rw [hpickle]
    exact valid_holding ⟨0, rfl⟩ hroom hadmits hmax
  · cases h

theorem ofOptions_error {failure : Failure} (h : ofOptions options = .error failure) :
    options.growth = .error failure ∨ ∃ growth, options.growth = .ok growth ∧
      (largestWord < headerSize + options.initialCapacity.toNat ∧
          failure = .allocationFailure largestWord ∨
        headerSize + options.initialCapacity.toNat ≤ largestWord ∧
          ¬ Memory.GrantsUpTo growth.limit.toNat) := by
  rw [ofOptions] at h
  rcases error_or_of_bind_eq_error h with h | ⟨growth, hgrowth, h⟩
  · exact .inl h
  · obtain ⟨hheader, -⟩ := limit_of_growth hgrowth
    refine .inr ⟨growth, hgrowth, ?_⟩
    dsimp only at h
    split at h
    · rename_i hle
      refine .inr ⟨hle, ?_⟩
      rcases error_or_of_bind_eq_error h with hbuffer | ⟨buffer, hbuffer, h⟩
      · rcases Buffer.reserve_error hbuffer with ⟨hlt, -⟩ | ⟨-, hmemory⟩
        · have hmin : growth.limit.toNat < 0 + min _ growth.limit.toNat := hlt
          omega
        · exact hmemory
      · obtain ⟨room, rfl, -⟩ := Buffer.reserve_ok hbuffer
        rcases error_or_of_bind_eq_error h with hextend | ⟨extended, -, h⟩
        · rcases error_or_of_bind_eq_error hextend with hreserve | ⟨reserved, -, h⟩
          · rcases Buffer.reserve_error hreserve with ⟨hlt, -⟩ | ⟨-, hmemory⟩
            · have hmin : growth.limit.toNat < headerSize := hlt
              omega
            · exact hmemory
          · cases h
        · cases h
    · rename_i hlt
      exact .inl ⟨Nat.lt_of_not_le hlt, (Except.error.inj h).symm⟩

end Pickle

end Pickling
