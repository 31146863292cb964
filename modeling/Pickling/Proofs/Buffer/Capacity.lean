import Pickling.Buffer.Growth
import Pickling.Proofs.Rounding
/-!
The growth rule in numbers without bounds. Main statement: the next capacity is what holds twice the
current one and what is asked, in whole units and within the limit; where no word holds that many units,
the last of them stands in (`Growth.next_exact`).
-/
namespace Pickling

namespace Growth

open Pickling.Alignment

variable {growth : Growth} {current required target capacity : UInt64} {reached : Nat}

theorem next?_eq_none_iff :
    growth.next? current required = none ↔ growth.limit.toNat < required.toNat := by
  rw [next?, ← UInt64.lt_iff_toNat_lt]
  split
  · rename_i h
    exact iff_of_true rfl h
  · rename_i h
    exact iff_of_false (by simp) h

theorem toNat_of_next? (h : growth.next? current required = some capacity) :
    required.toNat ≤ capacity.toNat ∧ capacity.toNat ≤ growth.limit.toNat := by
  have hle : required.toNat ≤ growth.limit.toNat := by
    refine Nat.le_of_not_lt fun hlt => ?_
    rw [next?_eq_none_iff.2 hlt] at h
    cases h
  rw [next?, if_neg (fun hlt => Nat.not_lt.2 hle (UInt64.lt_iff_toNat_lt.1 hlt))] at h
  rw [← Option.some.inj h, UInt64.toNat_max, UInt64.toNat_min]
  omega

def rounded (growth : Growth) (target : UInt64) : UInt64 :=
  (Alignment.up? target growth.unit).getD (Alignment.down (UInt64.ofNat largestWord) growth.unit)

/-- No multiple of the unit that a word can hold is larger than the last, which stands in for those that
no word can hold. -/
theorem toNat_rounded (h : IsLeast (multiplesFrom growth.unit.toNat target.toNat) reached) :
    (growth.rounded target).toNat = min reached (UInt64.size - growth.unit.toNat) := by
  obtain ⟨k, hk⟩ := growth.unit_isPowerOfTwo
  have hsize : UInt64.size = largestWord + 1 := rfl
  have hpos : 0 < growth.unit.toNat := hk ▸ Nat.two_pow_pos k
  have hup := map_up? hk h
  rw [rounded]
  cases hsome : up? target growth.unit with
  | some capacity =>
      rw [hsome] at hup
      obtain ⟨hfits, heq⟩ := Option.ite_none_right_eq_some.1 hup.symm
      have hlast := le_size_sub hk h.1.1 hfits
      rw [Option.getD_some, ← Option.some.inj heq, Nat.min_eq_left hlast]
  | none =>
      rw [hsome] at hup
      have hfits : ¬ reached ≤ largestWord := by
        intro hle
        rw [if_pos hle] at hup
        cases hup
      have hdown : (down (UInt64.ofNat largestWord) growth.unit).toNat =
          UInt64.size - growth.unit.toNat := by
        have hword : (UInt64.ofNat largestWord).toNat = largestWord := rfl
        refine (isGreatest_down hk).unique (isGreatest_multiplesTo ?_ ?_ ?_)
        · exact Nat.dvd_sub (dvd_size hk) dvd_rfl
        · omega
        · have hlt : growth.unit.toNat < UInt64.size := growth.unit.toNat_lt
          omega
      rw [Option.getD_none, hdown]
      omega

theorem toNat_double (current : UInt64) :
    (double current).toNat = min (2 * current.toNat) largestWord :=
  UInt64.toNat_ofNat_of_lt' (Nat.lt_of_le_of_lt (Nat.min_le_right _ _) (by decide))

/-- Twice a current capacity that is too large to be doubled is rounded as the largest word is. -/
theorem toNat_rounded_target
    (h : IsLeast (multiplesFrom growth.unit.toNat (max (2 * current.toNat) required.toNat)) reached) :
    (growth.rounded (max (double current) required)).toNat =
      min reached (UInt64.size - growth.unit.toNat) := by
  obtain ⟨k, hk⟩ := growth.unit_isPowerOfTwo
  have hsize : UInt64.size = largestWord + 1 := rfl
  have htarget : (max (double current) required).toNat =
      max (min (2 * current.toNat) largestWord) required.toNat := by
    rw [UInt64.toNat_max, toNat_double]
  by_cases hword : 2 * current.toNat ≤ largestWord
  · rw [Nat.min_eq_left hword] at htarget
    rw [← htarget] at h
    exact toNat_rounded h
  · -- the word and the number are rounded apart, but both beyond the last multiple
    have hleast := isLeast_add_padding (n := max (double current) required) hk
    have hpos : 0 < growth.unit.toNat := hk ▸ Nat.two_pow_pos k
    obtain ⟨-, hreached⟩ := h.1
    rw [toNat_rounded hleast, htarget]
    omega

theorem toNat_next? (h : growth.next? current required = some capacity)
    (hleast : IsLeast (multiplesFrom growth.unit.toNat (max (2 * current.toNat) required.toNat))
      reached) :
    capacity.toNat = max (min (min reached (UInt64.size - growth.unit.toNat)) growth.limit.toNat)
      required.toNat := by
  have hle : ¬ growth.limit < required := by
    intro hlt
    rw [next?, if_pos hlt] at h
    cases h
  rw [next?, if_neg hle] at h
  rw [← Option.some.inj h, UInt64.toNat_max, UInt64.toNat_min, ← toNat_rounded_target hleast]
  rfl

theorem exists_isLeast (growth : Growth) (n : Nat) :
    ∃ reached, IsLeast (multiplesFrom growth.unit.toNat n) reached := by
  obtain ⟨k, hk⟩ := growth.unit_isPowerOfTwo
  exact ⟨_, isLeast_div_mul (hk ▸ Nat.two_pow_pos k) n⟩

theorem whole_of_next? (h : growth.next? current required = some capacity)
    (hrequired : required.toNat ≤ UInt64.size - growth.unit.toNat) :
    growth.unit.toNat ∣ capacity.toNat ∨ capacity = growth.limit := by
  obtain ⟨k, hk⟩ := growth.unit_isPowerOfTwo
  obtain ⟨reached, hleast⟩ := growth.exists_isLeast (max (2 * current.toNat) required.toNat)
  obtain ⟨hdvd, hreached⟩ := hleast.1
  obtain ⟨hle, hcap⟩ := toNat_of_next? h
  have heq := toNat_next? h hleast
  have hmin : capacity.toNat =
      min (min reached (UInt64.size - growth.unit.toNat)) growth.limit.toNat := by omega
  have hlast : growth.unit.toNat ∣ min reached (UInt64.size - growth.unit.toNat) := by
    rcases Nat.le_total reached (UInt64.size - growth.unit.toNat) with hr | hr
    · rwa [Nat.min_eq_left hr]
    · rw [Nat.min_eq_right hr]
      exact Nat.dvd_sub (dvd_size hk) dvd_rfl
  rcases Nat.le_total (min reached (UInt64.size - growth.unit.toNat)) growth.limit.toNat with hr | hr
  · left
    rwa [hmin, Nat.min_eq_left hr]
  · right
    rw [Nat.min_eq_right hr] at hmin
    exact UInt64.toNat_inj.1 hmin

theorem next?_mono {later more extended : UInt64} (hcurrent : current ≤ later)
    (hrequired : required ≤ more) (h : growth.next? current required = some capacity)
    (hlater : growth.next? later more = some extended) : capacity ≤ extended := by
  rw [UInt64.le_iff_toNat_le] at hcurrent hrequired ⊢
  obtain ⟨reached, hleast⟩ := growth.exists_isLeast (max (2 * current.toNat) required.toNat)
  obtain ⟨further, hfurther⟩ := growth.exists_isLeast (max (2 * later.toNat) more.toNat)
  have hreached : reached ≤ further :=
    hfurther.mono hleast (multiplesFrom_anti (by omega))
  rw [toNat_next? h hleast, toNat_next? hlater hfurther]
  omega

/-- There is a next capacity if the limit allows what is asked, and then it is this one. -/
theorem next_exact (growth : Growth) (current required : UInt64) :
    (growth.next? current required = none ↔ growth.limit < required) ∧
    (required ≤ growth.limit → ∃ capacity reached,
      growth.next? current required = some capacity ∧
      required ≤ capacity ∧ capacity ≤ growth.limit ∧
      IsLeast (multiplesFrom growth.unit.toNat (max (2 * current.toNat) required.toNat)) reached ∧
      capacity.toNat = (if reached ≤ largestWord then min reached growth.limit.toNat
        else max required.toNat (min growth.limit.toNat (UInt64.size - growth.unit.toNat))) ∧
      (required.toNat ≤ UInt64.size - growth.unit.toNat →
        growth.unit.toNat ∣ capacity.toNat ∨ capacity = growth.limit)) ∧
    ∀ later more capacity extended, current ≤ later → required ≤ more →
      growth.next? current required = some capacity → growth.next? later more = some extended →
        capacity ≤ extended := by
  have hnone : growth.next? current required = none ↔ growth.limit < required :=
    next?_eq_none_iff.trans UInt64.lt_iff_toNat_lt.symm
  refine ⟨hnone, ?_, fun later more capacity extended => next?_mono⟩
  intro hle
  obtain ⟨capacity, hsome⟩ := Option.ne_none_iff_exists'.1 (mt hnone.1 (UInt64.not_lt.2 hle))
  obtain ⟨reached, hleast⟩ := growth.exists_isLeast (max (2 * current.toNat) required.toNat)
  obtain ⟨hroom, hcap⟩ := toNat_of_next? hsome
  refine ⟨capacity, reached, hsome, UInt64.le_iff_toNat_le.2 hroom, UInt64.le_iff_toNat_le.2 hcap,
    hleast, ?_, whole_of_next? hsome⟩
  obtain ⟨k, hk⟩ := growth.unit_isPowerOfTwo
  obtain ⟨hdvd, hreached⟩ := hleast.1
  have heq := toNat_next? hsome hleast
  -- what is asked can raise the capacity only where whole units cannot tell it
  split
  · rename_i hfits
    have hlast := le_size_sub hk hdvd hfits
    omega
  · rename_i hbeyond
    have hsize : UInt64.size = largestWord + 1 := rfl
    omega

def unlimited : Growth := ⟨defaultUnit, UInt64.ofNat largestWord, defaultUnit_isPowerOfTwo⟩

/-- Half of the address space cannot be doubled: the last whole unit stands in, until more is asked. -/
theorem unlimited_exact :
    (0xffffffffffffff9c : UInt64) ≤ unlimited.limit ∧
    unlimited.next? 0x8000000000000000 0xfffffffffffffff6 = some 0xfffffffffffffff6 ∧
    ∃ capacity, unlimited.next? 0x8000000000000000 0xffffffffffffff9c = some capacity ∧
      capacity.toNat = 0xffffffffffffffc0 ∧
      (unlimited.unit.toNat ∣ capacity.toNat ∨ capacity = unlimited.limit) ∧
      capacity ≤ 0xfffffffffffffff6 := by
  have hlimit : (0xffffffffffffff9c : UInt64) ≤ unlimited.limit := by decide
  have hmore : unlimited.next? 0x8000000000000000 0xfffffffffffffff6 = some 0xfffffffffffffff6 := by
    decide +kernel
  obtain ⟨-, hsome, hmono⟩ := next_exact unlimited 0x8000000000000000 0xffffffffffffff9c
  obtain ⟨capacity, reached, hnext, -, -, hleast, heq, hwhole⟩ := hsome hlimit
  have hreached : reached = UInt64.size :=
    hleast.unique (isLeast_multiplesFrom (by decide) (by decide) (by decide))
  rw [hreached, if_neg (by decide)] at heq
  exact ⟨hlimit, hmore, capacity, hnext, heq, hwhole (by decide),
    hmono _ _ _ _ UInt64.le_rfl (by decide) hnext hmore⟩

end Growth

end Pickling
