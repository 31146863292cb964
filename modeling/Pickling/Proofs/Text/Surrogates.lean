import Mathlib
import Pickling.Text.Wide
/-!
Which units spell characters. Main statement: the strict reading of units fails exactly where a
surrogate stands outside of all pairs, and the lossy readings replace just these, unit by unit
(`Wide.conversions_agree`).
-/
namespace Pickling.Wide

def isSurrogate (u : UInt16) : Bool := isHighSurrogate u || isLowSurrogate u

/-- Whether a high surrogate stands at a place and a low one right behind it. -/
def startsPair (units : List UInt16) (i : Nat) : Bool :=
  units[i]?.any isHighSurrogate && units[i + 1]?.any isLowSurrogate

/-- Whether the unit at a place is one of the two of a pair. -/
def inPair (units : List UInt16) : Nat → Bool
  | 0 => startsPair units 0
  | i + 1 => startsPair units (i + 1) || startsPair units i

/-- Whether a surrogate stands at a place and belongs to no pair. -/
def isUnpaired (units : List UInt16) (i : Nat) : Bool :=
  units[i]?.any isSurrogate && !inPair units i

section Units

variable {u high low : UInt16}

theorem isHighSurrogate_iff : isHighSurrogate u = true ↔ 0xd800 ≤ u.toNat ∧ u.toNat < 0xdc00 := by
  simp [isHighSurrogate, UInt16.le_iff_toNat_le, UInt16.lt_iff_toNat_lt]

theorem isLowSurrogate_iff : isLowSurrogate u = true ↔ 0xdc00 ≤ u.toNat ∧ u.toNat < 0xe000 := by
  simp [isLowSurrogate, UInt16.le_iff_toNat_le, UInt16.lt_iff_toNat_lt]

theorem isHighSurrogate_of_low (h : isLowSurrogate u = true) : isHighSurrogate u = false := by
  rw [isLowSurrogate_iff] at h
  rw [Bool.eq_false_iff, ne_eq, isHighSurrogate_iff]
  omega

theorem isSurrogate_iff : isSurrogate u = true ↔ 0xd800 ≤ u.toNat ∧ u.toNat < 0xe000 := by
  rw [isSurrogate, Bool.or_eq_true, isHighSurrogate_iff, isLowSurrogate_iff]
  omega

theorem single_of_surrogate (h : isSurrogate u = true) : single u = none := if_pos h

theorem single_of_not_surrogate (h : isSurrogate u = false) : single u = some (Char.ofNat u.toNat) :=
  if_neg (ne_true_of_eq_false h)

theorem single_eq_none_iff : single u = none ↔ isSurrogate u = true := by
  cases h : isSurrogate u with
  | true => simp [single_of_surrogate h]
  | false => simp [single_of_not_surrogate h]

theorem ofChar_ofNat_toNat (h : isSurrogate u = false) : ofChar (Char.ofNat u.toNat) = [u] := by
  have hlt : u.toNat < 0x10000 := u.toNat_lt
  have hsurrogate := mt isSurrogate_iff.2 (ne_true_of_eq_false h)
  have hvalid : u.toNat.isValidChar := by
    simp only [Nat.isValidChar]
    omega
  rw [ofChar, Char.toNat_ofNat, if_pos hvalid, if_pos hlt, UInt16.ofNat_toNat]

theorem ofChar_paired (hhigh : isHighSurrogate high = true) (hlow : isLowSurrogate low = true) :
    ofChar (paired high low) = [high, low] := by
  rw [isHighSurrogate_iff] at hhigh
  rw [isLowSurrogate_iff] at hlow
  have hvalid : (0x10000 + (high.toNat - 0xd800) * 0x400 + (low.toNat - 0xdc00)).isValidChar := by
    simp only [Nat.isValidChar]
    omega
  have hhead : 0xd800 + (0x10000 + (high.toNat - 0xd800) * 0x400 + (low.toNat - 0xdc00) - 0x10000) /
      0x400 = high.toNat := by omega
  have htail : 0xdc00 + (0x10000 + (high.toNat - 0xd800) * 0x400 + (low.toNat - 0xdc00) - 0x10000) %
      0x400 = low.toNat := by omega
  rw [ofChar, paired, Char.toNat_ofNat, if_pos hvalid, if_neg (by omega), hhead, htail,
    UInt16.ofNat_toNat, UInt16.ofNat_toNat]

theorem ofChar_replacement : ofChar replacement = [0xfffd] := rfl

theorem ofChar_single (u : UInt16) :
    ofChar ((single u).getD replacement) = [if isSurrogate u then 0xfffd else u] := by
  cases h : isSurrogate u with
  | true => rw [single_of_surrogate h, Option.getD_none, ofChar_replacement, if_pos rfl]
  | false =>
      rw [single_of_not_surrogate h, Option.getD_some, ofChar_ofNat_toNat h]
      rfl

end Units

section Places

variable {u high low : UInt16} {rest units : List UInt16}

@[simp] theorem startsPair_cons_cons (u v : UInt16) (rest : List UInt16) :
    startsPair (u :: v :: rest) 0 = (isHighSurrogate u && isLowSurrogate v) := rfl

theorem startsPair_of_not_high (h : isHighSurrogate u = false) : startsPair (u :: rest) 0 = false := by
  simp [startsPair, h]

theorem isUnpaired_zero (h : startsPair (u :: rest) 0 = false) :
    isUnpaired (u :: rest) 0 = isSurrogate u := by
  simp [isUnpaired, inPair, h]

/-- A unit in front changes nothing behind it, unless a pair starts there. -/
theorem isUnpaired_succ (h : startsPair (u :: rest) 0 = false) (i : Nat) :
    isUnpaired (u :: rest) (i + 1) = isUnpaired rest i := by
  cases i with
  | zero =>
      rw [isUnpaired, inPair, h, Bool.or_false]
      rfl
  | succ i => rfl

theorem isUnpaired_pair (hhigh : isHighSurrogate high = true) (hlow : isLowSurrogate low = true)
    (rest : List UInt16) :
    isUnpaired (high :: low :: rest) 0 = false ∧ isUnpaired (high :: low :: rest) 1 = false ∧
      ∀ i, isUnpaired (high :: low :: rest) (i + 2) = isUnpaired rest i := by
  have hstarts : startsPair (high :: low :: rest) 0 = true := by
    rw [startsPair_cons_cons, hhigh, hlow]
    rfl
  refine ⟨?_, ?_, fun i => ?_⟩
  · simp [isUnpaired, inPair, hstarts]
  · simp [isUnpaired, inPair, hstarts]
  · -- no pair starts at a low surrogate, so pairs do not overlap
    exact isUnpaired_succ (startsPair_of_not_high (isHighSurrogate_of_low hlow)) i

theorem scan_pair (hhigh : isHighSurrogate high = true) (hlow : isLowSurrogate low = true) :
    scan (high :: low :: rest) = some (paired high low) :: scan rest := by
  rw [scan, hhigh, hlow]
  rfl

theorem scan_alone (h : startsPair (u :: rest) 0 = false) :
    scan (u :: rest) = single u :: scan rest := by
  cases rest with
  | nil => rfl
  | cons v rest =>
      rw [startsPair_cons_cons] at h
      rw [scan, h]
      rfl

/-- Units are read from the front, a pair at once and any other unit alone. A high surrogate that is read
alone takes nothing with it, so what stands behind it may still start a pair. -/
@[elab_as_elim]
theorem induction_pairs {motive : List UInt16 → Prop} (units : List UInt16) (nil : motive [])
    (pair : ∀ high low rest, isHighSurrogate high = true → isLowSurrogate low = true →
      motive rest → motive (high :: low :: rest))
    (alone : ∀ u rest, startsPair (u :: rest) 0 = false → motive rest → motive (u :: rest)) :
    motive units := by
  fun_induction scan units with
  | case1 => exact nil
  | case2 u => exact alone u [] (Bool.and_false _) nil
  | case3 u v rest h ih =>
      rw [Bool.and_eq_true] at h
      exact pair u v rest h.1 h.2 ih
  | case4 u v rest h ih => exact alone u (v :: rest) (eq_false_of_ne_true h) ih

/-- Written again, the characters give the units back, with a replacement for each that spells none. -/
theorem flatMap_scan (units : List UInt16) :
    (scan units).flatMap (fun c => ofChar (c.getD replacement)) =
      units.mapIdx fun i u => if isUnpaired units i then 0xfffd else u := by
  induction units using induction_pairs with
  | nil => rfl
  | pair high low rest hhigh hlow ih =>
      obtain ⟨hzero, hone, hrest⟩ := isUnpaired_pair hhigh hlow rest
      rw [scan_pair hhigh hlow, List.flatMap_cons, ih, Option.getD_some, ofChar_paired hhigh hlow,
        List.mapIdx_cons, List.mapIdx_cons]
      simp [hzero, hone, hrest]
  | alone u rest h ih =>
      rw [scan_alone h, List.flatMap_cons, ih, ofChar_single, List.mapIdx_cons, isUnpaired_zero h]
      simp [isUnpaired_succ h]

theorem none_mem_scan_iff (units : List UInt16) :
    none ∈ scan units ↔ ∃ i, isUnpaired units i = true := by
  induction units using induction_pairs with
  | nil => simp [scan, isUnpaired]
  | pair high low rest hhigh hlow ih =>
      obtain ⟨hzero, hone, hrest⟩ := isUnpaired_pair hhigh hlow rest
      rw [scan_pair hhigh hlow, List.mem_cons, ih]
      constructor
      · rintro (hnone | ⟨i, hi⟩)
        · cases hnone
        · exact ⟨i + 2, (hrest i).trans hi⟩
      · rintro ⟨i, hi⟩
        match i with
        | 0 => simp [hzero] at hi
        | 1 => simp [hone] at hi
        | i + 2 => exact .inr ⟨i, (hrest i).symm.trans hi⟩
  | alone u rest h ih =>
      rw [scan_alone h, List.mem_cons, ih, eq_comm, single_eq_none_iff, ← isUnpaired_zero h]
      constructor
      · rintro (hzero | ⟨i, hi⟩)
        · exact ⟨0, hzero⟩
        · exact ⟨i + 1, (isUnpaired_succ h i).trans hi⟩
      · rintro ⟨i, hi⟩
        cases i with
        | zero => exact .inl hi
        | succ i => exact .inr ⟨i, (isUnpaired_succ h i).symm.trans hi⟩

end Places

theorem scan_ofChar_append (c : Char) (rest : List UInt16) :
    scan (ofChar c ++ rest) = some c :: scan rest := by
  have hvalid : c.toNat.isValidChar := c.valid
  simp only [Nat.isValidChar] at hvalid
  rw [ofChar]
  split
  · rename_i hbasic
    have hu : (UInt16.ofNat c.toNat).toNat = c.toNat := UInt16.toNat_ofNat_of_lt' hbasic
    have hsurrogate : isSurrogate (UInt16.ofNat c.toNat) = false := by
      rw [Bool.eq_false_iff, ne_eq, isSurrogate_iff, hu]
      omega
    have hhigh := (Bool.or_eq_false_iff.1 hsurrogate).1
    rw [List.singleton_append, scan_alone (startsPair_of_not_high hhigh),
      single_of_not_surrogate hsurrogate, hu, Char.ofNat_toNat]
  · rename_i hbeyond
    obtain ⟨high, hhead⟩ : ∃ high, high = UInt16.ofNat (0xd800 + (c.toNat - 0x10000) / 0x400) :=
      ⟨_, rfl⟩
    obtain ⟨low, htail⟩ : ∃ low, low = UInt16.ofNat (0xdc00 + (c.toNat - 0x10000) % 0x400) :=
      ⟨_, rfl⟩
    have hhigh : high.toNat = 0xd800 + (c.toNat - 0x10000) / 0x400 := by
      rw [hhead]
      exact UInt16.toNat_ofNat_of_lt' (by simp only [UInt16.size]; omega)
    have hlow : low.toNat = 0xdc00 + (c.toNat - 0x10000) % 0x400 := by
      rw [htail]
      exact UInt16.toNat_ofNat_of_lt' (by simp only [UInt16.size]; omega)
    have hcode : 0x10000 + (high.toNat - 0xd800) * 0x400 + (low.toNat - 0xdc00) = c.toNat := by omega
    have hpaired : paired high low = c := by rw [paired, hcode, Char.ofNat_toNat]
    rw [← hhead, ← htail, List.cons_append, List.singleton_append,
      scan_pair (isHighSurrogate_iff.2 (by omega)) (isLowSurrogate_iff.2 (by omega)), hpaired]

theorem scan_flatMap_ofChar (text : List Char) : scan (text.flatMap ofChar) = text.map some := by
  induction text with
  | nil => rfl
  | cons c text ih => rw [List.flatMap_cons, scan_ofChar_append, ih, List.map_cons]

theorem foldl_push (chars : List (Option Char)) (text : String) :
    chars.foldl (fun text c => text.push (c.getD replacement)) text =
      text ++ String.ofList (chars.map (·.getD replacement)) := by
  induction chars generalizing text with
  | nil => simp
  | cons c chars ih =>
      rw [List.foldl_cons, ih, List.map_cons, String.ofList_cons, String.push_eq_append,
        String.append_assoc]

theorem strict_eq (chars : List (Option Char)) (text : String) :
    strict chars text = if none ∈ chars then none
      else some (text ++ String.ofList (chars.map (·.getD replacement))) := by
  induction chars generalizing text with
  | nil => simp [strict]
  | cons c chars ih =>
      cases c with
      | none => simp [strict]
      | some c =>
          rw [strict, ih]
          simp only [List.mem_cons, reduceCtorEq, false_or, List.map_cons, Option.getD_some,
            String.ofList_cons, String.push_eq_append, String.append_assoc]

theorem toText_eq (wide : Wide) :
    wide.toText = if none ∈ scan wide.units
      then .error (.invalidFormat "wide string" "invalid utf-16: lone surrogate found")
      else .ok wide.toTextLossy := by
  rw [toText, strict_eq, String.empty_append, toTextLossy]
  by_cases h : none ∈ scan wide.units
  · rw [if_pos h, if_pos h]
  · rw [if_neg h, if_neg h]

theorem display_eq (wide : Wide) : wide.display = wide.toTextLossy := by
  rw [display, foldl_push, String.empty_append, toTextLossy]

theorem units_ofString_lossy (wide : Wide) :
    (ofString wide.toTextLossy).units =
      wide.units.mapIdx fun i u => if isUnpaired wide.units i then 0xfffd else u := by
  rw [← flatMap_scan, ofString, toTextLossy, String.toList_ofList, List.flatMap_map]

theorem isUnpaired_iff {units : List UInt16} {i : Nat} : isUnpaired units i = true ↔
    ∃ u, units[i]? = some u ∧ isSurrogate u = true ∧ inPair units i = false := by
  rw [isUnpaired, Bool.and_eq_true, Option.any_eq_true, Bool.not_eq_true']
  constructor
  · rintro ⟨⟨u, hu, hsurrogate⟩, hpair⟩
    exact ⟨u, hu, hsurrogate, hpair⟩
  · rintro ⟨u, hu, hsurrogate, hpair⟩
    exact ⟨⟨u, hu, hsurrogate⟩, hpair⟩

theorem forall_inPair_iff {units : List UInt16} :
    (∀ i u, units[i]? = some u → isSurrogate u = true → inPair units i = true) ↔
      ∀ i, isUnpaired units i = false := by
  constructor
  · intro h i
    rw [Bool.eq_false_iff]
    intro hi
    obtain ⟨u, hu, hsurrogate, hpair⟩ := isUnpaired_iff.1 hi
    rw [h i u hu hsurrogate] at hpair
    cases hpair
  · intro h i u hu hsurrogate
    cases hpair : inPair units i with
    | true => rfl
    | false =>
        rw [← h i]
        exact isUnpaired_iff.2 ⟨u, hu, hsurrogate, hpair⟩

theorem getElem?_ofString_lossy (wide : Wide) (i : Nat) :
    (ofString wide.toTextLossy).units[i]? =
      if isUnpaired wide.units i then some 0xfffd else wide.units[i]? := by
  rw [units_ofString_lossy, List.getElem?_mapIdx]
  split
  · rename_i h
    obtain ⟨u, hu, -⟩ := isUnpaired_iff.1 h
    rw [hu, Option.map_some]
  · exact Option.map_id_apply

theorem getElem?_ne_iff (wide : Wide) (i : Nat) :
    (ofString wide.toTextLossy).units[i]? ≠ wide.units[i]? ↔ isUnpaired wide.units i = true := by
  rw [getElem?_ofString_lossy]
  constructor
  · intro hne
    cases h : isUnpaired wide.units i with
    | true => rfl
    | false =>
        rw [h] at hne
        exact absurd rfl hne
  · intro h heq
    obtain ⟨u, hu, hsurrogate, -⟩ := isUnpaired_iff.1 h
    rw [if_pos h, hu] at heq
    rw [← Option.some.inj heq] at hsurrogate
    cases hsurrogate

theorem toText_eq_ok_iff {wide : Wide} {text : String} : wide.toText = .ok text ↔
    (∀ i, isUnpaired wide.units i = false) ∧ wide.toTextLossy = text := by
  rw [toText_eq]
  by_cases h : none ∈ scan wide.units
  · obtain ⟨i, hi⟩ := (none_mem_scan_iff _).1 h
    rw [if_pos h]
    refine iff_of_false (by simp) fun hall => ?_
    rw [hall.1 i] at hi
    cases hi
  · have hall : ∀ i, isUnpaired wide.units i = false := by
      intro i
      rw [Bool.eq_false_iff]
      exact fun hi => h ((none_mem_scan_iff _).2 ⟨i, hi⟩)
    rw [if_neg h, Except.ok.injEq]
    exact ⟨fun heq => ⟨hall, heq⟩, And.right⟩

theorem ofString_lossy {wide : Wide} (h : ∀ i, isUnpaired wide.units i = false) :
    ofString wide.toTextLossy = wide := by
  have hunits : (ofString wide.toTextLossy).units = wide.units := by
    apply List.ext_getElem?
    intro i
    rw [getElem?_ofString_lossy, h i]
    rfl
  cases wide
  exact congrArg Wide.mk hunits

theorem toText_ofString (text : String) : (ofString text).toText = .ok text := by
  have hscan : scan (ofString text).units = text.toList.map some := scan_flatMap_ofChar text.toList
  rw [toText_eq, toTextLossy, hscan, if_neg (by simp), List.map_map]
  simp [Function.comp_def]

/-- The conversions agree on all units, those that spell no text among them: what can be read strictly
is read so by all, and what cannot is changed just where a surrogate stands outside of all pairs. -/
theorem conversions_agree :
    (∀ text : String, (ofString text).toText = .ok text) ∧
    ∀ wide : Wide,
      ((∃ text, wide.toText = .ok text) ↔
        ∀ i u, wide.units[i]? = some u → isSurrogate u = true → inPair wide.units i = true) ∧
      (∀ text, wide.toText = .ok text → ofString text = wide ∧ wide.toTextLossy = text) ∧
      ((∀ text, wide.toText ≠ .ok text) → wide.toText =
        .error (.invalidFormat "wide string" "invalid utf-16: lone surrogate found")) ∧
      wide.display = wide.toTextLossy ∧
      (ofString wide.toTextLossy).units.length = wide.units.length ∧
      ∀ i, ((ofString wide.toTextLossy).units[i]? ≠ wide.units[i]? ↔
          isUnpaired wide.units i = true) ∧
        (isUnpaired wide.units i = true →
          (ofString wide.toTextLossy).units[i]? = some 0xfffd) := by
  refine ⟨toText_ofString, fun wide => ⟨?_, ?_, ?_, display_eq wide, ?_, fun i => ⟨?_, ?_⟩⟩⟩
  · rw [forall_inPair_iff]
    constructor
    · rintro ⟨text, hok⟩
      exact (toText_eq_ok_iff.1 hok).1
    · intro hall
      exact ⟨_, toText_eq_ok_iff.2 ⟨hall, rfl⟩⟩
  · intro text hok
    obtain ⟨hall, hlossy⟩ := toText_eq_ok_iff.1 hok
    exact ⟨hlossy ▸ ofString_lossy hall, hlossy⟩
  · intro hnone
    rw [toText_eq] at hnone ⊢
    split
    · rfl
    · rename_i h
      exact absurd (if_neg h) (hnone _)
  · rw [units_ofString_lossy, List.length_mapIdx]
  · exact getElem?_ne_iff wide i
  · intro h
    rw [getElem?_ofString_lossy, if_pos h]

def enclosedPair : Wide := ⟨[0xd83e, 0xd83e, 0xdd80, 0xdd80]⟩

/-- Each of the two is replaced, and the pair between them is left together. -/
theorem enclosedPair_agrees :
    isSurrogate 0xdd80 = true ∧ inPair enclosedPair.units 3 = false ∧
    (∀ text, enclosedPair.toText ≠ .ok text) ∧
    enclosedPair.toText =
      .error (.invalidFormat "wide string" "invalid utf-16: lone surrogate found") ∧
    (ofString enclosedPair.toTextLossy).units[1]? = some 0xd83e ∧
    (ofString enclosedPair.toTextLossy).units[3]? = some 0xfffd ∧
    (⟨[0xd83e, 0xdd80]⟩ : Wide).toText = .ok (String.singleton (Char.ofNat 0x1f980)) ∧
    ofString (String.singleton (Char.ofNat 0x1f980)) = ⟨[0xd83e, 0xdd80]⟩ := by
  obtain ⟨-, hall⟩ := conversions_agree
  obtain ⟨hok, -, hnone, -, -, hplaces⟩ := hall enclosedPair
  obtain ⟨-, hpaired, -⟩ := hall ⟨[0xd83e, 0xdd80]⟩
  have hrefused : ∀ text, enclosedPair.toText ≠ .ok text := by
    intro text heq
    cases hok.1 ⟨text, heq⟩ 3 0xdd80 rfl rfl
  have htext : (⟨[0xd83e, 0xdd80]⟩ : Wide).toText = .ok (String.singleton (Char.ofNat 0x1f980)) := rfl
  have hpair : (ofString enclosedPair.toTextLossy).units[1]? = some 0xd83e :=
    Decidable.not_not.1 (mt (hplaces 1).1.1 (by decide))
  exact ⟨rfl, rfl, hrefused, hnone hrefused, hpair, (hplaces 3).2 rfl, htext, (hpaired _ htext).1⟩

end Pickling.Wide
