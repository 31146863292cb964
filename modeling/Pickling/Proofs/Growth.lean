import Pickling.Buffer.Basic
import Pickling.Proofs.Buffer.Capacity
/-!
Which capacities the growth rule gives, and what making room does to a buffer. Main statements: the
rule gives a capacity exactly for what the limit allows, and one between the request and the limit
(`Growth.capacity?_eq_none_iff`, `Growth.toNat_of_capacity?`); making room touches nothing but the
capacity, and fails only where the limit or the memory refuses (`Buffer.reserve_ok`,
`Buffer.reserve_error`).
-/
namespace Pickling

/-- The memory grants every capacity up to the limit. -/
def Memory.GrantsUpTo [Memory] (limit : Nat) : Prop :=
  ∀ capacity : UInt64, capacity.toNat ≤ limit → Memory.grants capacity = true

@[reducible] def Memory.ample : Memory := ⟨fun _ => true⟩

@[reducible] def Memory.upTo (limit : UInt64) : Memory := ⟨fun capacity => capacity ≤ limit⟩

section Results

variable {ε α β : Type} {result : Except ε α}

theorem exists_of_map_eq_ok {f : α → β} {b : β} (h : result.map f = .ok b) :
    ∃ a, result = .ok a ∧ f a = b := by
  cases result with
  | error failure => cases h
  | ok a => exact ⟨a, rfl, Except.ok.inj h⟩

theorem exists_of_bind_eq_ok {next : α → Except ε β} {b : β} (h : result >>= next = .ok b) :
    ∃ a, result = .ok a ∧ next a = .ok b := by
  cases result with
  | error failure => cases h
  | ok a => exact ⟨a, rfl, h⟩

theorem error_or_of_bind_eq_error {next : α → Except ε β} {failure : ε}
    (h : result >>= next = .error failure) :
    result = .error failure ∨ ∃ a, result = .ok a ∧ next a = .error failure := by
  cases result with
  | error failure =>
      cases h
      exact .inl rfl
  | ok a => exact .inr ⟨a, rfl, h⟩

end Results

namespace Growth

variable {growth : Growth} {current capacity : UInt64} {required : Nat}

/-- Capacities within the limit that are whole units, or all that the limit allows. -/
structure Admits (growth : Growth) (capacity : UInt64) : Prop where
  le_limit : capacity.toNat ≤ growth.limit.toNat
  whole : growth.unit.toNat ∣ capacity.toNat ∨ capacity = growth.limit

/-- The last multiple of a unit that a word can hold lies in the upper half of the address space. -/
theorem half_le_last (growth : Growth) : 2 ^ 63 ≤ UInt64.size - growth.unit.toNat := by
  obtain ⟨k, hk⟩ := growth.unit_isPowerOfTwo
  have hunit : 2 ^ k ≤ 2 ^ 63 :=
    Nat.pow_le_pow_right (by decide) (Nat.le_of_lt_succ (Alignment.exponent_lt hk))
  have hsize : UInt64.size = 2 ^ 63 + 2 ^ 63 := rfl
  omega

/-- A capacity in the lower half of the address space is twice the former one, or all there can be. -/
theorem twofold_of_next? {required : UInt64} (hcapacity : capacity.toNat < 2 ^ 63)
    (h : growth.next? current required = some capacity) :
    min (2 * current.toNat) growth.limit.toNat ≤ capacity.toNat := by
  obtain ⟨reached, hleast⟩ := growth.exists_isLeast (max (2 * current.toNat) required.toNat)
  obtain ⟨-, hreached⟩ := hleast.1
  have heq := toNat_next? h hleast
  have hlast := growth.half_le_last
  omega

theorem admits_of_next? {required : UInt64} (hcapacity : capacity.toNat ≤ 2 ^ 63)
    (h : growth.next? current required = some capacity) : growth.Admits capacity := by
  obtain ⟨hle, hcap⟩ := toNat_of_next? h
  exact ⟨hcap, whole_of_next? h (hle.trans (hcapacity.trans growth.half_le_last))⟩

theorem capacity?_eq_none_iff :
    growth.capacity? current required = none ↔ growth.limit.toNat < required := by
  have hlimit := growth.limit.toNat_lt
  rw [capacity?]
  split
  · rename_i h
    rw [next?_eq_none_iff, UInt64.toNat_ofNat_of_lt' h]
  · rename_i h
    exact iff_of_true rfl (hlimit.trans_le (Nat.le_of_not_lt h))

theorem toNat_of_capacity? (h : growth.capacity? current required = some capacity) :
    required ≤ capacity.toNat ∧ capacity.toNat ≤ growth.limit.toNat := by
  rw [capacity?] at h
  split at h
  · rename_i hlt
    have hbounds := toNat_of_next? h
    rwa [UInt64.toNat_ofNat_of_lt' hlt] at hbounds
  · cases h

theorem admits_of_capacity? (hcapacity : capacity.toNat ≤ 2 ^ 63)
    (h : growth.capacity? current required = some capacity) : growth.Admits capacity := by
  rw [capacity?] at h
  split at h
  · exact admits_of_next? hcapacity h
  · cases h

theorem twofold_of_capacity? (hcapacity : capacity.toNat < 2 ^ 63)
    (h : growth.capacity? current required = some capacity) :
    min (2 * current.toNat) growth.limit.toNat ≤ capacity.toNat := by
  rw [capacity?] at h
  split at h
  · exact twofold_of_next? hcapacity h
  · cases h

end Growth

namespace Buffer

theorem le_withCapacity (count : Nat) (growth : Growth) :
    min count growth.limit.toNat ≤ (withCapacity count growth).capacity.toNat ∧
      (withCapacity count growth).capacity.toNat ≤ growth.limit.toNat := by
  rw [withCapacity]
  cases h : growth.capacity? 0 count with
  | none => exact ⟨Nat.min_le_right _ _, le_rfl⟩
  | some capacity =>
      obtain ⟨hcount, hlimit⟩ := growth.toNat_of_capacity? h
      exact ⟨(Nat.min_le_left _ _).trans hcount, hlimit⟩

theorem admits_withCapacity {growth : Growth} (count : Nat)
    (hcapacity : (withCapacity count growth).capacity.toNat ≤ 2 ^ 63) :
    growth.Admits (withCapacity count growth).capacity := by
  rw [withCapacity] at hcapacity ⊢
  cases h : growth.capacity? 0 count with
  | none => exact ⟨le_rfl, .inr rfl⟩
  | some capacity =>
      rw [h] at hcapacity
      exact growth.admits_of_capacity? hcapacity h

variable [Memory] {buffer : Buffer} {count : Nat}

theorem reserve_of_le (h : buffer.size + count ≤ buffer.capacity.toNat) :
    buffer.reserve count = .ok buffer :=
  if_pos h

theorem reserve_of_granted {capacity : UInt64} (hlt : buffer.capacity.toNat < buffer.size + count)
    (h : buffer.growth.capacity? buffer.capacity (buffer.size + count) = some capacity)
    (hgrants : Memory.grants capacity = true) :
    buffer.reserve count = .ok { buffer with capacity } := by
  rw [reserve, if_neg (Nat.not_le.2 hlt), grow, h]
  exact if_pos hgrants

/-- Room that was there already changes nothing, and other room is the capacity of the rule, which the
memory has granted. -/
theorem reserve_ok {reserved : Buffer} (h : buffer.reserve count = .ok reserved) :
    ∃ capacity, reserved = { buffer with capacity } ∧ buffer.size + count ≤ capacity.toNat ∧
      (capacity = buffer.capacity ∨ buffer.capacity.toNat < buffer.size + count ∧
        buffer.growth.capacity? buffer.capacity (buffer.size + count) = some capacity ∧
        Memory.grants capacity = true) := by
  rw [reserve] at h
  split at h
  · rename_i hle
    exact ⟨buffer.capacity, (Except.ok.inj h).symm, hle, .inl rfl⟩
  · rename_i hlt
    rw [grow] at h
    split at h
    · cases h
    · rename_i capacity hsome
      split at h
      · rename_i hgrants
        exact ⟨capacity, (Except.ok.inj h).symm, (Growth.toNat_of_capacity? hsome).1,
          .inr ⟨Nat.lt_of_not_le hlt, hsome, hgrants⟩⟩
      · cases h

theorem reserve_admits {reserved : Buffer} (hlimit : buffer.growth.limit.toNat ≤ 2 ^ 63)
    (hadmits : buffer.growth.Admits buffer.capacity) (h : buffer.reserve count = .ok reserved) :
    ∃ capacity, reserved = { buffer with capacity } ∧ buffer.size + count ≤ capacity.toNat ∧
      buffer.capacity.toNat ≤ capacity.toNat ∧ buffer.growth.Admits capacity := by
  obtain ⟨capacity, heq, hle, rfl | ⟨hlt, hsome, -⟩⟩ := reserve_ok h
  · exact ⟨_, heq, hle, le_rfl, hadmits⟩
  · have hcapacity := (Growth.toNat_of_capacity? hsome).2.trans hlimit
    exact ⟨capacity, heq, hle, (hlt.trans_le hle).le, Growth.admits_of_capacity? hcapacity hsome⟩

/-- Room is refused by the limit, or else by the memory. -/
theorem reserve_error {failure : Failure} (h : buffer.reserve count = .error failure) :
    buffer.growth.limit.toNat < buffer.size + count ∧
      failure = .allocationFailure (saturated (buffer.size + count)) ∨
    buffer.size + count ≤ buffer.growth.limit.toNat ∧
      ¬ Memory.GrantsUpTo buffer.growth.limit.toNat := by
  rw [reserve] at h
  split at h
  · cases h
  · rw [grow] at h
    split at h
    · rename_i hnone
      exact .inl ⟨Growth.capacity?_eq_none_iff.1 hnone, (Except.error.inj h).symm⟩
    · rename_i capacity hsome
      obtain ⟨hrequired, hlimit⟩ := Growth.toNat_of_capacity? hsome
      split at h
      · cases h
      · rename_i hrefused
        exact .inr ⟨hrequired.trans hlimit, fun hgrants => hrefused (hgrants capacity hlimit)⟩

end Buffer

end Pickling
