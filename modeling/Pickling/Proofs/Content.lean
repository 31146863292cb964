import Mathlib.Data.Nat.Bitwise
import Pickling.Proofs.Layout
/-!
Which bytes of a layout matter: those that belong to segments, and not the padding between them and
behind the last. Main statements: a piece of the layout that holds all that matters does so segment by
segment (`covers_cons`, `covers_append`), and it is told by the last byte that matters
(`covers_iff_of_isLastContent`).
-/
namespace Pickling

/-- Whether a byte of a layout belongs to a segment and not to the padding. -/
def IsContent : List ByteArray → Nat → Prop
  | [], _ => False
  | bytes :: rest, place =>
    place < bytes.size ∨ paddedSize bytes.size ≤ place ∧ IsContent rest (place - paddedSize bytes.size)

/-- So many bytes of the layout hold all that belongs to segments. -/
def Covers (segments : List ByteArray) (count : Nat) : Prop :=
  ∀ place, IsContent segments place → place < count

/-- The last byte of a layout that is not padding. -/
def IsLastContent (segments : List ByteArray) (place : Nat) : Prop :=
  IsContent segments place ∧ ∀ other, IsContent segments other → other ≤ place

variable {segments first second : List ByteArray} {bytes : ByteArray} {place count : Nat}

theorem covers_nil : Covers [] count := fun _ h => h.elim

theorem covers_cons : Covers (bytes :: segments) count ↔
    bytes.size ≤ count ∧ Covers segments (count - paddedSize bytes.size) := by
  constructor
  · intro h
    refine ⟨Nat.le_of_not_lt fun hlt => ?_, fun place hplace => ?_⟩
    · exact Nat.lt_irrefl _ (h count (.inl hlt))
    · have hbehind := h (place + paddedSize bytes.size)
        (.inr ⟨Nat.le_add_left _ _, by rwa [Nat.add_sub_cancel]⟩)
      omega
  · rintro ⟨hsize, hrest⟩ place (hplace | ⟨hle, hplace⟩)
    · exact hplace.trans_le hsize
    · have hbehind := hrest _ hplace
      omega

theorem covers_append : Covers (first ++ second) count ↔
    Covers first count ∧ Covers second (count - (layout first).size) := by
  induction first generalizing count with
  | nil => exact ⟨fun h => ⟨covers_nil, h⟩, fun h => h.2⟩
  | cons bytes rest ih =>
      rw [List.cons_append, covers_cons, covers_cons, ih, layout, ByteArray.size_append, size_padded,
        Nat.sub_sub, and_assoc]

/-- The whole layout holds all of the segments. -/
theorem covers_of_le (h : (layout segments).size ≤ count) : Covers segments count := by
  induction segments generalizing count with
  | nil => exact covers_nil
  | cons bytes rest ih =>
      have hle := le_paddedSize bytes.size
      rw [layout, ByteArray.size_append, size_padded] at h
      exact covers_cons.2 ⟨by omega, ih (by omega)⟩

theorem isContent_append_left (h : IsContent first place) (second : List ByteArray) :
    IsContent (first ++ second) place := by
  induction first generalizing place with
  | nil => exact h.elim
  | cons bytes rest ih =>
      rcases h with h | ⟨hle, h⟩
      · exact .inl h
      · exact .inr ⟨hle, ih h⟩

theorem IsLastContent.cons {last : Nat} (h : IsLastContent segments last) (bytes : ByteArray) :
    IsLastContent (bytes :: segments) (paddedSize bytes.size + last) := by
  refine ⟨.inr ⟨Nat.le_add_right _ _, ?_⟩, ?_⟩
  · rw [Nat.add_sub_cancel_left]
    exact h.1
  · rintro other (hlt | ⟨hle, hcontent⟩)
    · exact (hlt.le.trans (le_paddedSize _)).trans (Nat.le_add_right _ _)
    · have hmax := h.2 _ hcontent
      omega

/-- What has nothing behind it ends where its own bytes do. -/
theorem isLastContent_cons_of_none (h : 0 < bytes.size) (hnone : ∀ place, ¬ IsContent segments place) :
    IsLastContent (bytes :: segments) (bytes.size - 1) := by
  refine ⟨.inl (by omega), ?_⟩
  rintro other (hlt | ⟨-, hcontent⟩)
  · omega
  · exact absurd hcontent (hnone _)

theorem exists_isLastContent (h : IsContent segments place) :
    ∃ last, IsLastContent segments last := by
  induction segments generalizing place with
  | nil => exact h.elim
  | cons bytes rest ih =>
      by_cases hrest : ∃ other, IsContent rest other
      · obtain ⟨other, hother⟩ := hrest
        obtain ⟨last, hlast⟩ := ih hother
        exact ⟨_, hlast.cons bytes⟩
      · rw [not_exists] at hrest
        have hbytes : place < bytes.size := by
          rcases h with h | ⟨-, h⟩
          · exact h
          · exact absurd h (hrest _)
        exact ⟨_, isLastContent_cons_of_none (Nat.zero_lt_of_lt hbytes) hrest⟩

theorem covers_iff_of_isLastContent {last : Nat} (h : IsLastContent segments last) :
    Covers segments count ↔ last < count :=
  ⟨fun hcovers => hcovers last h.1, fun hlt place hplace => (h.2 place hplace).trans_lt hlt⟩

theorem IsLastContent.eq {other : Nat} (h : IsLastContent segments place)
    (hother : IsLastContent segments other) : place = other :=
  Nat.le_antisymm (hother.2 place h.1) (h.2 other hother.1)

theorem isContent_lt (h : IsContent segments place) : place < (layout segments).size :=
  covers_of_le le_rfl place h

end Pickling
