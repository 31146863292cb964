import Mathlib.Data.Nat.Bitwise
import Pickling.Proofs.Session.Refinement
import Pickling.Proofs.Shape.Spelling
/-!
What is read as a value, for shapes in which every value has one spelling. Main statement: bytes are
read as a value if and only if they are what is written of it, up to the padding; and nothing is read
that could not be written (`BuiltIn.Sequential.reads_written`).
-/
namespace Pickling

theorem Reference.follow_segments {segments : List ByteArray} {reference : Reference}
    (h : reference.sizeWith (layout segments).size ≤ reference.limit) :
    reference.follow (segments.map .ok) =
      .ok { reference with payload := reference.payload ++ layout segments } := by
  induction segments generalizing reference with
  | nil =>
      rw [layout, ByteArray.append_empty]
      rfl
  | cons bytes rest ih =>
      have hsize : (layout (bytes :: rest)).size =
          paddedSize bytes.size + (layout rest).size := by
        rw [layout, ByteArray.size_append, size_padded]
      have hpayload : (reference.payload ++ padded bytes).size =
          reference.payload.size + paddedSize bytes.size := by
        rw [ByteArray.size_append, size_padded]
      simp only [sizeWith, hsize] at h
      have happend : reference.append bytes =
          .ok { reference with payload := reference.payload ++ padded bytes } :=
        if_pos (by simp only [sizeWith]; omega)
      change reference.append bytes >>= Reference.follow (rest.map .ok) = _
      rw [happend]
      refine (ih ?_).trans ?_
      · simp only [sizeWith, hpayload]
        omega
      · rw [layout, ByteArray.append_assoc]

theorem Pickle.Served.write_ok_of_room [Memory] {pickle : Pickle} {item : Item}
    {segments : List ByteArray} (h : pickle.Served) (hsteps : item.steps = segments.map .ok)
    (hroom : (Reference.ofPickle pickle).sizeWith (layout segments).size ≤
      (Reference.ofPickle pickle).limit) :
    ∃ written, item.shape.write item.value pickle = .ok () written := by
  have hrefines := h.write_refines item
  rw [hsteps, Reference.follow_segments hroom] at hrefines
  obtain ⟨written, hok, -⟩ := exists_of_map_eq_ok hrefines
  exact ⟨written, Writer.attempt_eq_ok.1 hok⟩

namespace Item

variable (item : Item) {segments : List ByteArray}

theorem payload_of_write_empty [Memory] {written : Pickle}
    (h : item.shape.write item.value .empty = .ok () written) :
    item.steps = item.segments.map .ok ∧ written.payload = layout item.segments := by
  have hblank : Pickle.empty.payload = .empty := by
    rw [Pickle.empty, Pickle.withCapacity_eq, Pickle.payload_holding]
  obtain ⟨-, hsteps, hpayload⟩ := write_ok (Pickle.valid_withCapacity _) h
  refine ⟨hsteps, hpayload.trans ?_⟩
  rw [← Pickle.empty, hblank, ByteArray.empty_append]

theorem write_empty_ok [Memory] (hgranted : Memory.GrantsUpTo maxSize)
    (hsteps : item.steps = segments.map .ok) (hsize : (layout segments).size ≤ maxPayloadSize) :
    ∃ written, item.shape.write item.value .empty = .ok () written := by
  obtain ⟨hblank, hserved⟩ := Pickle.withCapacity_refines
    Options.standard.initialCapacity.toNat hgranted
  have hfits : Reference.blank.sizeWith (layout segments).size ≤ Reference.blank.limit :=
    Nat.add_le_add_left hsize headerSize
  refine hserved.write_ok_of_room hsteps ?_
  rw [hblank]
  exact hfits

end Item

/-- From the cursor on, the bytes are those that were written of the item, but for the padding. -/
def Cursor.Shows (cursor : Cursor) (item : Item) (written : Pickle) : Prop :=
  ∀ place, IsContent item.segments place →
    cursor.rest[place]? = written.payload.data.toList[place]?

theorem Cursor.size_le_of_agrees {cursor : Cursor} {segments : List ByteArray}
    (hsize : cursor.payload.size ≤ maxPayloadSize) (h : Agrees segments cursor.rest) :
    (layout segments).size ≤ maxPayloadSize := by
  have hcovers := h.covers
  rw [Cursor.length_rest] at hcovers
  have hremaining : cursor.remaining ≤ maxPayloadSize := (Nat.sub_le _ _).trans hsize
  exact hcovers.size_le.trans (paddedSize_le_maxPayloadSize hremaining)

/-- Where the bytes agree with a layout, those that are passed over are the layout, but for what stands
in place of its padding. -/
theorem Cursor.passed_of_agrees {cursor : Cursor} {segments : List ByteArray}
    (h : Agrees segments cursor.rest) {place : Nat} (hplace : place < (layout segments).size) :
    (layout segments).data.toList[place]? =
      if IsContent segments place then
        (cursor.payload.extract cursor.position
          (cursor.advance (layout segments).size).position).data.toList[place]?
      else some 0 := by
  split_ifs with hcontent
  · have hcovers := h.covers place hcontent
    rw [Cursor.length_rest] at hcovers
    rw [Cursor.advance, Cursor.toList_extract, List.getElem?_take, if_pos (lt_min hplace hcovers),
      h place hcontent]
  · exact layout_getElem?_of_not_isContent hplace hcontent

namespace BuiltIn

namespace Sequential

variable {shape : BuiltIn} {cursor : Cursor}

theorem read_eq_ok (h : shape.Sequential) (hword : cursor.remaining ≤ largestWord)
    {value : shape.Value} {after : Cursor} :
    shape.read cursor = .ok value after ↔ ∃ segments, shape.steps value = segments.map .ok ∧
      Agrees segments cursor.rest ∧ after = cursor.advance (layout segments).size := by
  rw [Shape.read, (recognises_decode shape).atomically cursor hword]
  simp only [h.spells_iff]

/-- A value whose segments are known is read from wherever the bytes agree with them. -/
theorem read_eq_ok_iff_agrees (h : shape.Sequential) (hword : cursor.remaining ≤ largestWord)
    {value : shape.Value} {segments : List ByteArray}
    (hsteps : shape.steps value = segments.map .ok) {after : Cursor} :
    shape.read cursor = .ok value after ↔
      Agrees segments cursor.rest ∧ after = cursor.advance (layout segments).size := by
  rw [h.read_eq_ok hword]
  constructor
  · rintro ⟨other, hother, hagrees⟩
    have hsame := Item.segments_eq ⟨shape, value⟩ hsteps
    rw [← Item.segments_eq ⟨shape, value⟩ hother] at hagrees
    rwa [← hsame]
  · intro hagrees
    exact ⟨segments, hsteps, hagrees⟩

theorem reads_written [Memory] (h : shape.Sequential)
    (hsize : cursor.payload.size ≤ maxPayloadSize) :
    (Memory.GrantsUpTo maxSize → ∀ value after, shape.read cursor = .ok value after →
      ∃ written, shape.write value .empty = .ok () written) ∧
    ∀ value written, shape.write value .empty = .ok () written →
      written.payload = layout (Item.mk shape value).segments ∧
      (∀ after, shape.read cursor = .ok value after ↔
        cursor.Shows ⟨shape, value⟩ written ∧ after = cursor.advance written.payload.size) ∧
      ∀ after, shape.read cursor = .ok value after →
        written.payload.size = paddedSize (after.position - cursor.position) ∧
        (∀ place < written.payload.size, written.payload.data.toList[place]? =
          if IsContent (Item.mk shape value).segments place then
            (cursor.payload.extract cursor.position after.position).data.toList[place]?
          else some 0) ∧
        ∀ other : Cursor, other.payload.size ≤ maxPayloadSize →
          (∀ place, IsContent (Item.mk shape value).segments place →
            other.rest[place]? = cursor.rest[place]?) →
          shape.read other = .ok value (other.advance written.payload.size) := by
  have hword {cursor : Cursor} (hsize : cursor.payload.size ≤ maxPayloadSize) :
      cursor.remaining ≤ largestWord :=
    (Nat.sub_le _ _).trans (hsize.trans (by decide))
  constructor
  · intro hgranted value after hread
    obtain ⟨segments, hsteps, hagrees, -⟩ := (h.read_eq_ok (hword hsize)).1 hread
    exact Item.write_empty_ok ⟨shape, value⟩ hgranted hsteps
      (Cursor.size_le_of_agrees hsize hagrees)
  · intro value written hwrite
    obtain ⟨hsteps, hpayload⟩ := Item.payload_of_write_empty ⟨shape, value⟩ hwrite
    have hread {cursor : Cursor} (hsize : cursor.payload.size ≤ maxPayloadSize) (after : Cursor) :
        shape.read cursor = .ok value after ↔
          cursor.Shows ⟨shape, value⟩ written ∧ after = cursor.advance written.payload.size := by
      rw [Cursor.Shows, hpayload]
      exact h.read_eq_ok_iff_agrees (hword hsize) hsteps
    refine ⟨hpayload, hread hsize, fun after hok => ?_⟩
    obtain ⟨hshows, rfl⟩ := (hread hsize after).1 hok
    have hagrees : Agrees (Item.mk shape value).segments cursor.rest := by
      rwa [Cursor.Shows, hpayload] at hshows
    have hcovers := hagrees.covers
    rw [Cursor.length_rest] at hcovers
    rw [hpayload]
    refine ⟨?_, fun place hplace => Cursor.passed_of_agrees hagrees hplace, ?_⟩
    · rw [Cursor.advance, Nat.add_sub_cancel_left]
      exact hcovers.size_eq
    · intro other hother hsame
      rw [← hpayload]
      refine (hread hother _).2 ⟨?_, rfl⟩
      intro place hplace
      exact (hsame place hplace).trans (hshows place hplace)

end Sequential

def flagged : BuiltIn := .cons .bool (.single .text)

/-- Such a pair, with other bytes than zeros behind the truth value and none behind the text. -/
def untidy : Cursor := ⟨⟨#[9, 9, 9, 9, 1, 7, 7, 7, 1, 0, 0, 0, 0x61]⟩, 4⟩

def tidy : Cursor := ⟨⟨#[1, 0, 0, 0, 1, 0, 0, 0, 0x61, 0, 0, 0, 5]⟩, 0⟩

theorem untidy_reads_written : flagged.Sequential ∧ untidy.payload.size ≤ maxPayloadSize ∧
    ∃ written, @Shape.write _ _ .ample flagged (true, "a") .empty = .ok () written ∧
      written.payload = ⟨#[1, 0, 0, 0, 1, 0, 0, 0, 0x61, 0, 0, 0]⟩ ∧
      flagged.read untidy = .ok (true, "a") ⟨untidy.payload, 13⟩ ∧
      flagged.read tidy = .ok (true, "a") ⟨tidy.payload, 12⟩ := by
  let memory := Memory.ample
  have hflagged : flagged.Sequential := ⟨trivial, trivial⟩
  have hsize : untidy.payload.size ≤ maxPayloadSize := by decide
  obtain ⟨written, hwrite⟩ : ∃ written, flagged.write (true, "a") .empty = .ok () written :=
    ⟨_, Writer.eq_ok_after (by decide +kernel)⟩
  obtain ⟨hpayload, hread, hmore⟩ := (hflagged.reads_written hsize).2 (true, "a") written hwrite
  have hlayout : layout (Item.mk flagged (true, "a")).segments =
      ⟨#[1, 0, 0, 0, 1, 0, 0, 0, 0x61, 0, 0, 0]⟩ := by decide +kernel
  have hplaces : ∀ place < 12, IsContent (Item.mk flagged (true, "a")).segments place →
      untidy.rest[place]? = (layout (Item.mk flagged (true, "a")).segments).data.toList[place]? ∧
        tidy.rest[place]? = untidy.rest[place]? := by decide +kernel
  have hcontent {place : Nat} (h : IsContent (Item.mk flagged (true, "a")).segments place) :
      place < 12 := by
    have hlt := isContent_lt h
    rwa [hlayout] at hlt
  have hshows : untidy.Shows ⟨flagged, (true, "a")⟩ written := by
    intro place hplace
    rw [hpayload]
    exact (hplaces place (hcontent hplace) hplace).1
  have huntidy := (hread _).2 ⟨hshows, rfl⟩
  obtain ⟨-, -, hother⟩ := hmore _ huntidy
  have htidy := hother tidy (by decide) fun place hplace => (hplaces place (hcontent hplace) hplace).2
  rw [hpayload, hlayout] at huntidy htidy
  exact ⟨hflagged, hsize, written, hwrite, hpayload.trans hlayout, huntidy, htidy⟩

end BuiltIn

end Pickling
