import Mathlib.Data.Nat.Bitwise
import Pickling.Word.Alignment
/-!
What the masks do to numbers, for an alignment that is a power of two. Main statements: clearing the
low bits rounds down (`toNat_down`), and the masked sum rounds up as long as it stays in the word
(`toNat_up`, `up?_eq`).
-/
namespace Pickling.Alignment

variable {n a : UInt64} {k : Nat}

theorem toNat_sub_one (ha : a.toNat = 2 ^ k) : (a - 1).toNat = 2 ^ k - 1 := by
  have hle : (1 : UInt64) ≤ a := by
    rw [UInt64.le_iff_toNat_le, ha]
    exact Nat.one_le_two_pow
  rw [UInt64.toNat_sub_of_le _ _ hle, ha]
  rfl

theorem exponent_lt (ha : a.toNat = 2 ^ k) : k < 64 := by
  have hlt := a.toNat_lt
  rw [ha] at hlt
  exact (Nat.pow_lt_pow_iff_right (by decide)).1 hlt

theorem toNat_down (ha : a.toNat = 2 ^ k) : (down n a).toNat = n.toNat / 2 ^ k * 2 ^ k := by
  have hbound : 2 ^ k - 1 < 2 ^ 64 := toNat_sub_one ha ▸ (a - 1).toNat_lt
  have hmask (i : Nat) :
      (UInt64.size - 1 - (2 ^ k - 1)).testBit i = (decide (i < 64) && !decide (i < k)) := by
    rw [← Nat.testBit_two_pow_sub_one k i, ← Nat.testBit_two_pow_sub_succ hbound]
    exact congrArg (Nat.testBit · i) (by rw [Nat.sub_sub, Nat.add_comm])
  rw [down, ← Nat.shiftRight_eq_div_pow, ← Nat.shiftLeft_eq]
  apply Nat.eq_of_testBit_eq
  intro i
  rw [UInt64.toNat_and, UInt64.toNat_not, toNat_sub_one ha, Nat.testBit_and, Nat.testBit_shiftLeft,
    Nat.testBit_shiftRight, hmask]
  by_cases hi : i < k
  · simp [hi]
  · have hadd : k + (i - k) = i := by omega
    rw [hadd]
    by_cases hw : i < 64
    · simp [hi, hw, Nat.le_of_not_lt hi]
    · have hhigh : n.toNat.testBit i = false :=
        Nat.testBit_lt_two_pow (n.toNat_lt.trans_le (Nat.pow_le_pow_right (by decide) (by omega)))
      simp [hhigh]

theorem up_eq_down : up n a = down (n + (a - 1)) a := by
  rw [up, down, UInt64.sub_eq_add_neg (n + a), UInt64.add_assoc, ← UInt64.sub_eq_add_neg]

theorem toNat_up (ha : a.toNat = 2 ^ k) (h : n.toNat + (2 ^ k - 1) < UInt64.size) :
    (up n a).toNat = (n.toNat + (2 ^ k - 1)) / 2 ^ k * 2 ^ k := by
  have hsum : (n + (a - 1)).toNat = n.toNat + (2 ^ k - 1) := by
    rw [UInt64.toNat_add, toNat_sub_one ha]
    exact Nat.mod_eq_of_lt h
  rw [up_eq_down, toNat_down ha, hsum]

theorem up?_eq (ha : a.toNat = 2 ^ k) :
    up? n a = if n.toNat + (2 ^ k - 1) < UInt64.size then some (up n a) else none := by
  rw [up?, toNat_sub_one ha, up_eq_down]
  rfl

example : up? 0xfffffffffffffffc 4 = some 0xfffffffffffffffc ∧
    up 0xfffffffffffffffc 4 = 0xfffffffffffffffc ∧ upStrict 0xfffffffffffffffc 4 = none := by decide

/-- The negative of a word is the word's distance from the next multiple of all powers. -/
theorem toNat_padding (ha : a.toNat = 2 ^ k) :
    (padding n a).toNat = (2 ^ 64 - n.toNat) % 2 ^ k := by
  rw [padding, UInt64.toNat_and, toNat_sub_one ha, Nat.and_two_pow_sub_one_eq_mod, UInt64.toNat_neg]
  exact Nat.mod_mod_of_dvd _ (Nat.pow_dvd_pow 2 (exponent_lt ha).le)

theorem isAligned_iff (ha : a.toNat = 2 ^ k) : isAligned n a = true ↔ 2 ^ k ∣ n.toNat := by
  have hmask : (n &&& (a - 1)).toNat = n.toNat % 2 ^ k := by
    rw [UInt64.toNat_and, toNat_sub_one ha, Nat.and_two_pow_sub_one_eq_mod]
  rw [isAligned, beq_iff_eq, ← UInt64.toNat_inj, hmask, UInt64.toNat_zero, Nat.dvd_iff_mod_eq_zero]

end Pickling.Alignment
