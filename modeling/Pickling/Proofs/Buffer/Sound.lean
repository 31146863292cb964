import Mathlib.Data.Nat.Bitwise
import Pickling.Proofs.Checked
import Pickling.Proofs.Growth
/-!
A buffer by itself, whatever is kept in it. Its bytes are told as a list, its room by what the growth
rule and the address space allow. Main statements: a buffer that has been made has sound room
(`Buffer.sound_of_withCapacity`), and more room is sound room that has grown at least twofold if it
has grown at all (`Buffer.Sound.reserve`).
-/
namespace Pickling

/-- The most bytes that one object may fill of the address space. -/
def largestObject : Nat := 0x7fffffffffffffff

/-- The memory grants no more than an object may fill. What it refuses of that is its own affair. -/
def Memory.Bounded (memory : Memory) : Prop :=
  ∀ capacity : UInt64, memory.grants capacity = true → capacity.toNat ≤ largestObject

namespace Buffer

def contents (buffer : Buffer) : List UInt8 := buffer.bytes.data.toList

/-- The room of a buffer holds its bytes, and is such as the rule admits and an object may fill. -/
structure Sound (buffer : Buffer) : Prop where
  size_le : buffer.size ≤ buffer.capacity.toNat
  admits : buffer.growth.Admits buffer.capacity
  capacity_le : buffer.capacity.toNat ≤ largestObject

/-- What may become of the room of a buffer: it stays, or grows to twice of what it was at least,
unless that is more than the limit allows. -/
structure Grows (before after : Buffer) : Prop where
  growth_eq : after.growth = before.growth
  capacity_le : before.capacity.toNat ≤ after.capacity.toNat
  twofold : after.capacity ≠ before.capacity →
    min (2 * before.capacity.toNat) before.growth.limit.toNat ≤ after.capacity.toNat

variable {buffer changed : Buffer}

theorem grows_of_same (hgrowth : changed.growth = buffer.growth)
    (hcapacity : changed.capacity = buffer.capacity) : buffer.Grows changed :=
  ⟨hgrowth, hcapacity ▸ le_rfl, fun hne => absurd hcapacity hne⟩

theorem Grows.refl (buffer : Buffer) : buffer.Grows buffer := grows_of_same rfl rfl

theorem Grows.trans {last : Buffer} (first : buffer.Grows changed) (second : changed.Grows last) :
    buffer.Grows last := by
  have hfirst := first.capacity_le
  have hsecond := second.capacity_le
  refine ⟨second.growth_eq.trans first.growth_eq, hfirst.trans hsecond, fun hne => ?_⟩
  by_cases hsame : changed.capacity = buffer.capacity
  · have htwofold := second.twofold fun heq => hne (heq.trans hsame)
    rwa [hsame, first.growth_eq] at htwofold
  · exact (first.twofold hsame).trans hsecond

theorem length_contents (buffer : Buffer) : buffer.contents.length = buffer.size := rfl

theorem Sound.of_same (h : buffer.Sound) (hgrowth : changed.growth = buffer.growth)
    (hcapacity : changed.capacity = buffer.capacity) (hsize : changed.size ≤ buffer.size) :
    changed.Sound := by
  refine ⟨?_, ?_, ?_⟩
  · rw [hcapacity]
    exact hsize.trans h.size_le
  · rw [hgrowth, hcapacity]
    exact h.admits
  · rw [hcapacity]
    exact h.capacity_le

/-! Bytes as lists -/

theorem contents_constantBytes (count : Nat) (byte : UInt8) :
    (constantBytes count byte).data.toList = List.replicate count byte :=
  Array.toList_replicate

theorem contents_truncate (buffer : Buffer) (count : Nat) :
    (buffer.truncate count).contents = buffer.contents.take count := by
  simp [truncate, contents, ByteArray.data_extract]

theorem contents_overwrite (buffer : Buffer) (start : Nat) (bytes : ByteArray) :
    (buffer.overwrite start bytes).contents = buffer.contents.take start ++ bytes.data.toList ++
      buffer.contents.drop (start + bytes.size) := by
  have hrest : (buffer.bytes.extract (start + bytes.size) buffer.size).data.toList =
      buffer.contents.drop (start + bytes.size) := by
    rw [ByteArray.data_extract, Array.toList_extract, List.extract_eq_take_drop]
    exact List.take_of_length_le (by simp [size])
  rw [contents, bytes_overwrite, ByteArray.toList_data_append, ByteArray.toList_data_append, hrest]
  simp [contents, ByteArray.data_extract]

theorem set?_eq_some {index : Nat} {byte : UInt8} (h : buffer.set? index byte = some changed) :
    changed.growth = buffer.growth ∧ changed.capacity = buffer.capacity ∧
      changed.contents = buffer.contents.set index byte := by
  rw [set?] at h
  split at h
  · cases h
    exact ⟨rfl, rfl, by simp [contents, ByteArray.set]⟩
  · cases h

theorem fill?_eq_some {start stop : Nat} {byte : UInt8}
    (h : buffer.fill? start stop byte = some changed) :
    start ≤ stop ∧ stop ≤ buffer.size ∧
      changed = buffer.overwrite start (constantBytes (stop - start) byte) := by
  rw [fill?] at h
  split at h
  · rename_i hrange
    exact ⟨hrange.1, hrange.2, (Option.some.inj h).symm⟩
  · cases h

/-! Room -/

theorem sound_of_withCapacity {count : Nat} {growth : Growth} {bytes : ByteArray}
    (hbytes : bytes.size ≤ count) (hlimit : bytes.size ≤ growth.limit.toNat)
    (hcapacity : (withCapacity count growth).capacity.toNat ≤ largestObject) :
    Sound { withCapacity count growth with bytes } := by
  obtain ⟨hroom, -⟩ := le_withCapacity count growth
  refine ⟨?_, admits_withCapacity count (hcapacity.trans (by decide)), hcapacity⟩
  change bytes.size ≤ (withCapacity count growth).capacity.toNat
  omega

/-- Room that has been found for more bytes is sound, even when they have come. -/
theorem Sound.reserve [memory : Memory] (h : buffer.Sound) (hmemory : memory.Bounded) {count : Nat}
    {reserved : Buffer} (hok : buffer.reserve count = .ok reserved) :
    ∃ capacity, reserved = { buffer with capacity } ∧
      ∀ bytes : ByteArray, bytes.size ≤ buffer.size + count →
        Sound ⟨bytes, capacity, buffer.growth⟩ ∧ buffer.Grows ⟨bytes, capacity, buffer.growth⟩ := by
  obtain ⟨capacity, heq, hroom, rfl | ⟨hlt, hsome, hgrants⟩⟩ := reserve_ok hok
  · refine ⟨_, heq, fun bytes hbytes => ⟨⟨hbytes.trans hroom, h.admits, h.capacity_le⟩, ?_⟩⟩
    exact grows_of_same rfl rfl
  · have hcapacity := hmemory capacity hgrants
    have hlower : capacity.toNat < 2 ^ 63 := Nat.lt_of_le_of_lt hcapacity (by decide)
    have hadmits := Growth.admits_of_capacity? hlower.le hsome
    have htwofold := Growth.twofold_of_capacity? hlower hsome
    refine ⟨capacity, heq, fun bytes hbytes => ⟨⟨hbytes.trans hroom, hadmits, hcapacity⟩, ?_⟩⟩
    exact ⟨rfl, (hlt.trans_le hroom).le, fun _ => htwofold⟩

end Buffer

end Pickling
