import Mathlib.Data.Nat.Bitwise
import Pickling.Proofs.Content
/-!
Bytes that agree with a layout wherever it holds a byte of a segment. What they hold in place of the
padding makes no difference, nor whether the padding behind the last segment is there at all. Main
statements: agreement goes segment by segment (`agrees_cons`, `agrees_append`), and the layout is what
such bytes become once zeros take the place of the padding (`layout_getElem?_of_not_isContent`,
`Covers.size_eq`).
-/
namespace Pickling

def Agrees (segments : List ByteArray) (found : List UInt8) : Prop :=
  ∀ place, IsContent segments place → found[place]? = (layout segments).data.toList[place]?

variable {segments first second : List ByteArray} {bytes : ByteArray} {found : List UInt8}
  {place count : Nat}

instance : (segments : List ByteArray) → (place : Nat) → Decidable (IsContent segments place)
  | [], _ => .isFalse id
  | bytes :: rest, place =>
    have := instDecidableIsContent rest (place - paddedSize bytes.size)
    inferInstanceAs (Decidable (place < bytes.size ∨ paddedSize bytes.size ≤ place ∧ IsContent _ _))

theorem length_toList (bytes : ByteArray) : bytes.data.toList.length = bytes.size := rfl

theorem agrees_nil : Agrees [] found := fun _ h => h.elim

/-- The bytes of a layout, first those of a segment and then, behind its padding, all others. -/
theorem layout_getElem?_of_lt (segments : List ByteArray) (h : place < bytes.size) :
    (layout (bytes :: segments)).data.toList[place]? = bytes.data.toList[place]? := by
  rw [layout, padded, ByteArray.append_assoc, ByteArray.toList_data_append,
    List.getElem?_append_left h]

theorem layout_getElem?_of_le (segments : List ByteArray) (h : paddedSize bytes.size ≤ place) :
    (layout (bytes :: segments)).data.toList[place]? =
      (layout segments).data.toList[place - paddedSize bytes.size]? := by
  rw [layout, ByteArray.toList_data_append, ← size_padded bytes, ← length_toList]
  rw [← size_padded bytes, ← length_toList] at h
  exact List.getElem?_append_right h

theorem agrees_cons : Agrees (bytes :: segments) found ↔
    found.take bytes.size = bytes.data.toList ∧
      Agrees segments (found.drop (paddedSize bytes.size)) := by
  constructor
  · intro h
    constructor
    · apply List.ext_getElem?
      intro place
      rw [List.getElem?_take]
      split_ifs with hplace
      · rw [h place (.inl hplace), layout_getElem?_of_lt segments hplace]
      · exact (List.getElem?_eq_none (Nat.le_of_not_lt hplace)).symm
    · intro place hplace
      have hbehind : IsContent (bytes :: segments) (paddedSize bytes.size + place) :=
        .inr ⟨Nat.le_add_right _ _, by rwa [Nat.add_sub_cancel_left]⟩
      rw [List.getElem?_drop, h _ hbehind, layout_getElem?_of_le segments (Nat.le_add_right _ _),
        Nat.add_sub_cancel_left]
  · rintro ⟨hfirst, hrest⟩ place (hplace | ⟨hle, hplace⟩)
    · rw [layout_getElem?_of_lt segments hplace, ← hfirst, List.getElem?_take, if_pos hplace]
    · have hbehind := hrest _ hplace
      rwa [List.getElem?_drop, Nat.add_sub_cancel' hle, ← layout_getElem?_of_le segments hle]
        at hbehind

theorem agrees_append : Agrees (first ++ second) found ↔
    Agrees first found ∧ Agrees second (found.drop (layout first).size) := by
  induction first generalizing found with
  | nil => exact ⟨fun h => ⟨agrees_nil, h⟩, fun h => h.2⟩
  | cons bytes rest ih =>
      rw [List.cons_append, agrees_cons, agrees_cons, ih, layout, ByteArray.size_append,
        size_padded, List.drop_drop, and_assoc]

theorem Agrees.covers (h : Agrees segments found) : Covers segments found.length := by
  intro place hplace
  have hlt : place < (layout segments).data.toList.length := isContent_lt hplace
  have hfound := h place hplace
  rw [List.getElem?_eq_getElem hlt] at hfound
  exact (List.getElem?_eq_some_iff.1 hfound).1

theorem dvd_size_layout (segments : List ByteArray) : 4 ∣ (layout segments).size := by
  induction segments with
  | nil => exact ⟨0, rfl⟩
  | cons bytes rest ih =>
      rw [layout, ByteArray.size_append, size_padded]
      exact Nat.dvd_add (dvd_paddedSize _) ih

/-- What holds all segments lacks no more than the rest of a word. -/
theorem Covers.size_le (h : Covers segments count) :
    (layout segments).size ≤ paddedSize count := by
  induction segments generalizing count with
  | nil => exact Nat.zero_le _
  | cons bytes rest ih =>
      obtain ⟨hbytes, hrest⟩ := covers_cons.1 h
      have hsize := ih hrest
      rw [layout, ByteArray.size_append, size_padded]
      simp only [paddedSize] at hsize hbytes ⊢
      omega

theorem Covers.size_eq (h : Covers segments count) :
    (layout segments).size = paddedSize (min (layout segments).size count) := by
  have hle := h.size_le
  obtain ⟨words, hwords⟩ := dvd_size_layout segments
  simp only [paddedSize] at hle ⊢
  omega

theorem layout_getElem?_of_not_isContent (hplace : place < (layout segments).size)
    (h : ¬ IsContent segments place) : (layout segments).data.toList[place]? = some 0 := by
  induction segments generalizing place with
  | nil => exact absurd hplace (Nat.not_lt_zero _)
  | cons bytes rest ih =>
      rw [IsContent, not_or, not_and] at h
      have hbytes := Nat.le_of_not_lt h.1
      rcases Nat.lt_or_ge place (paddedSize bytes.size) with hlt | hle
      · rw [layout, ByteArray.toList_data_append, List.getElem?_append_left
          (by rwa [length_toList, size_padded]), padded, ByteArray.toList_data_append,
          List.getElem?_append_right hbytes, length_toList]
        simp only [constantBytes, Array.toList_replicate, List.getElem?_replicate]
        rw [if_pos (by omega)]
      · rw [layout, ByteArray.size_append, size_padded] at hplace
        rw [layout_getElem?_of_le rest hle]
        exact ih (by omega) (h.2 hle)

end Pickling
