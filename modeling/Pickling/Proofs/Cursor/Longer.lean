import Mathlib.Data.Nat.Bitwise
import Pickling.Proofs.Cursor.Failures
import Pickling.Proofs.Cursor.Reads
import Pickling.Proofs.Shape.Collecting
/-!
The same reading where the payload goes on. A final word that had not been filled up may be whole then,
so that the places of the two cursors need not be the same. Main statement: whatever built-in value is
read, more bytes change neither the value nor the failure of bytes that are no value of their kind
(`BuiltIn.lasts_decode`).
-/
namespace Pickling

namespace Cursor

/-- Where a segment can begin: at a whole word, or at the end of the payload. -/
structure AtSegment (cursor : Cursor) : Prop where
  inside : cursor.position ≤ cursor.payload.size
  aligned : 4 ∣ cursor.position ∨ cursor.position = cursor.payload.size

/-- The place of the cursor once more bytes follow. What is missing of the padding at the end is taken
from them, as far as they go. -/
def prolonged (cursor : Cursor) (more : ByteArray) : Cursor where
  payload := cursor.payload ++ more
  position := min (paddedSize cursor.position) (cursor.payload ++ more).size

variable {cursor : Cursor} {count : Nat}

theorem prolonged_eq (cursor : Cursor) {payload more : ByteArray} (h : cursor.payload = payload) :
    cursor.prolonged more =
      ⟨payload ++ more, min (paddedSize cursor.position) (payload ++ more).size⟩ := by
  rw [prolonged, h]

theorem prolonged_of_dvd (h : 4 ∣ cursor.position) (hinside : cursor.position ≤ cursor.payload.size)
    (more : ByteArray) : cursor.prolonged more = ⟨cursor.payload ++ more, cursor.position⟩ := by
  rw [prolonged, paddedSize_of_dvd h, Nat.min_eq_left]
  rw [ByteArray.size_append]
  exact Nat.le_add_right_of_le hinside

namespace AtSegment

theorem advance (h : cursor.AtSegment) (count : Nat) :
    (cursor.advance (paddedSize count)).AtSegment := by
  obtain ⟨hinside, haligned⟩ := h
  constructor
  · simp only [Cursor.advance, remaining]
    omega
  · simp only [Cursor.advance, remaining, paddedSize]
    omega

theorem le_remaining_prolonged (h : cursor.AtSegment) (hle : count ≤ cursor.remaining)
    (more : ByteArray) : count ≤ (cursor.prolonged more).remaining := by
  obtain ⟨hinside, haligned⟩ := h
  simp only [remaining] at hle
  simp only [prolonged, remaining, paddedSize, ByteArray.size_append]
  omega

theorem advance_prolonged (h : cursor.AtSegment) (hle : count ≤ cursor.remaining)
    (more : ByteArray) : (cursor.prolonged more).advance (paddedSize count) =
      (cursor.advance (paddedSize count)).prolonged more := by
  obtain ⟨hinside, haligned⟩ := h
  simp only [remaining] at hle
  simp only [prolonged, Cursor.advance, remaining, paddedSize, ByteArray.size_append,
    Cursor.mk.injEq, true_and]
  omega

theorem extract_prolonged (h : cursor.AtSegment) (hle : count ≤ cursor.remaining)
    (more : ByteArray) : (cursor.prolonged more).payload.extract (cursor.prolonged more).position
      ((cursor.prolonged more).position + count) =
        cursor.payload.extract cursor.position (cursor.position + count) := by
  obtain ⟨hinside, haligned⟩ := h
  rw [remaining] at hle
  rcases haligned with haligned | hend
  · have hbehind : more.extract (cursor.position - cursor.payload.size)
        (cursor.position + count - cursor.payload.size) = .empty :=
      ByteArray.extract_eq_empty_iff.2 (by omega)
    rw [prolonged_of_dvd haligned hinside, ByteArray.extract_append, hbehind, ByteArray.append_empty]
  · obtain rfl : count = 0 := by omega
    rw [Nat.add_zero, Nat.add_zero, ByteArray.extract_eq_empty_iff.2 (Nat.min_le_left _ _),
      ByteArray.extract_eq_empty_iff.2 (Nat.min_le_left _ _)]

end AtSegment

end Cursor

namespace Reader

variable {α β : Type}

/-- Where nothing depends on the room that is set aside, nothing depends on how many bytes are left. -/
theorem count_bind {next : Nat × Nat → Reader β} {gathered : Nat → Reader β}
    (h : ∀ count room, next (count, room) = gathered count) :
    (count >>= next) = length >>= gathered := by
  rw [count, bind_assoc]
  refine congrArg (length >>= ·) (funext fun count => funext fun cursor => ?_)
  exact congrFun (h count _) cursor

/-- Readings from here that come to the same where more bytes follow, unless the payload ends too
early for them. -/
structure Lasts (read : Reader α) (cursor : Cursor) : Prop where
  value : ∀ (more : ByteArray) (value : α) (behind : Cursor), read cursor = .ok value behind →
    behind.AtSegment ∧ read (cursor.prolonged more) = .ok value (behind.prolonged more)
  invalid : ∀ (more : ByteArray) (element message : String) (behind : Cursor),
    read cursor = .error (.invalidFormat element message) behind →
      ∃ other, read (cursor.prolonged more) = .error (.invalidFormat element message) other

namespace Lasts

variable {read : Reader α} {cursor : Cursor}

theorem pure (value : α) (h : cursor.AtSegment) : Lasts (pure value) cursor where
  value := by
    intro more value behind hok
    cases hok
    exact ⟨h, rfl⟩
  invalid := by
    intro more element message behind herror
    cases herror

theorem throw (failure : Failure) (cursor : Cursor) :
    Lasts (throw failure : Reader α) cursor where
  value := by
    intro more value behind hok
    cases hok
  invalid := by
    intro more element message behind herror
    cases herror
    exact ⟨_, rfl⟩

theorem take_of_le {count : Nat} (hword : count + 3 < UInt64.size) (element : String)
    (hle : count ≤ cursor.remaining) : Reader.take count element cursor =
      .ok (cursor.payload.extract cursor.position (cursor.position + count))
        (cursor.advance (paddedSize count)) := by
  rw [Reader.take, if_neg (Nat.not_lt.2 hle), segmentEnd?_eq, if_pos hword]
  rfl

theorem take {count : Nat} (hword : count + 3 < UInt64.size) (element : String)
    (h : cursor.AtSegment) : Lasts (take count element) cursor where
  value := by
    intro more bytes behind hok
    have hle : count ≤ cursor.remaining := by
      rw [Reader.take] at hok
      split_ifs at hok with hshort
      exact Nat.le_of_not_lt hshort
    rw [take_of_le hword element hle] at hok
    cases hok
    rw [take_of_le hword element (h.le_remaining_prolonged hle more), h.extract_prolonged hle,
      h.advance_prolonged hle]
    exact ⟨h.advance count, rfl⟩
  invalid := by
    intro more name message behind herror
    rw [Reader.take] at herror
    split_ifs at herror
    cases herror

theorem atomically (h : read.Lasts cursor) : (atomically read).Lasts cursor where
  value := by
    intro more value behind hok
    obtain ⟨hbehind, hlonger⟩ := h.value more value behind (atomically_eq_ok.1 hok)
    exact ⟨hbehind, atomically_eq_ok.2 hlonger⟩
  invalid := by
    intro more element message behind herror
    obtain ⟨stopped, hread, -⟩ := atomically_eq_error.1 herror
    obtain ⟨other, hlonger⟩ := h.invalid more element message stopped hread
    exact ⟨_, atomically_eq_error.2 ⟨other, hlonger, rfl⟩⟩

/-- Where the first reading has come to a value, the second goes on from places that are in step. -/
theorem bind {next : α → Reader β} (h : read.Lasts cursor)
    (hnext : ∀ value behind, read cursor = .ok value behind → behind.AtSegment →
      (next value).Lasts behind) : (read >>= next).Lasts cursor where
  value := by
    intro more value last hok
    obtain ⟨found, behind, hread, hlast⟩ := bind_eq_ok.1 hok
    obtain ⟨hbehind, hfirst⟩ := h.value more found behind hread
    obtain ⟨hplace, hsecond⟩ := (hnext found behind hread hbehind).value more value last hlast
    exact ⟨hplace, bind_eq_ok.2 ⟨found, _, hfirst, hsecond⟩⟩
  invalid := by
    intro more element message last herror
    rcases bind_eq_error.1 herror with hread | ⟨found, behind, hread, hlast⟩
    · obtain ⟨other, hfirst⟩ := h.invalid more element message last hread
      exact ⟨other, bind_eq_error.2 (.inl hfirst)⟩
    · obtain ⟨hbehind, hfirst⟩ := h.value more found behind hread
      obtain ⟨other, hsecond⟩ :=
        (hnext found behind hread hbehind).invalid more element message last hlast
      exact ⟨other, bind_eq_error.2 (.inr ⟨found, _, hfirst, hsecond⟩)⟩

theorem map (h : read.Lasts cursor) (f : α → β) : (f <$> read).Lasts cursor := by
  rw [map_eq_pure_bind]
  exact h.bind fun value behind _ hbehind => .pure (f value) hbehind

theorem number (kind : Number) (h : cursor.AtSegment) : (number kind).Lasts cursor := by
  refine .map (.take ?_ kind.name h) _
  cases kind <;> decide

theorem bool (h : cursor.AtSegment) : bool.Lasts cursor := by
  refine .atomically (.bind (.number .u8 h) fun value behind _ hbehind => ?_)
  split
  · exact .pure false hbehind
  · exact .pure true hbehind
  · exact .throw _ behind

theorem length (h : cursor.AtSegment) : length.Lasts cursor := by
  refine .atomically (.bind (.number .i32 h) fun count behind _ hbehind => ?_)
  split_ifs
  · exact .pure count hbehind
  · exact .throw _ behind

theorem counted {elementSize : Nat} (hsize : elementSize ≤ 2) (element : String)
    (h : cursor.AtSegment) : (counted elementSize element).Lasts cursor := by
  refine .bind (.length h) fun count behind hcount hbehind => ?_
  have hbytes : count * elementSize ≤ 0x80000000 * 2 :=
    Nat.mul_le_mul (length_lt hcount).le hsize
  split_ifs
  · exact .take (Nat.lt_of_le_of_lt (Nat.add_le_add_right hbytes 3) (by decide)) element hbehind
  · exact .throw _ behind

theorem text (h : cursor.AtSegment) : text.Lasts cursor := by
  refine .atomically (.bind (.counted (by decide) "string" h) fun bytes behind _ hbehind => ?_)
  split
  · exact .pure _ hbehind
  · exact .throw _ behind

theorem wide (h : cursor.AtSegment) : wide.Lasts cursor :=
  .atomically (.map (.counted le_rfl "wide string" h) _)

theorem char (h : cursor.AtSegment) : char.Lasts cursor := by
  refine .bind (.number .u32 h) fun code behind _ hbehind => ?_
  by_cases hvalid : code.isValidChar
  · rw [dif_pos hvalid]
    exact .pure _ hbehind
  · rw [dif_neg hvalid]
    exact .throw _ behind

theorem gather {item : Reader α} (hitem : ∀ cursor : Cursor, cursor.AtSegment → item.Lasts cursor)
    (put : β → α → β) (count : Nat) (collection : β) (h : cursor.AtSegment) :
    (gather item put count collection).Lasts cursor := by
  induction count generalizing collection cursor with
  | zero => exact .pure collection h
  | succ count ih => exact .bind (hitem cursor h) fun a behind _ hbehind => ih (put collection a) hbehind

theorem vector {item : Reader α} (hitem : ∀ cursor : Cursor, cursor.AtSegment → item.Lasts cursor)
    (h : cursor.AtSegment) : Lasts (do
      let (count, room) ← count
      Reader.gather item Array.push count (Storage.vector.start room)) cursor := by
  rw [count_bind fun count room => congrArg (Reader.gather item Array.push count)
    (Storage.vector.start_eq room)]
  exact .bind (.length h) fun count behind _ hbehind => .gather hitem _ count _ hbehind

end Lasts

end Reader

theorem BuiltIn.lasts_decode (shape : BuiltIn) {cursor : Cursor} (h : cursor.AtSegment) :
    shape.decode.Lasts cursor := by
  induction shape generalizing cursor with
  | bool => exact .bool h
  | number kind => exact .map (.number _ h) _
  | char => exact .char h
  | text => exact .text h
  | wide => exact .wide h
  | path => exact .map (.text h) _
  | sequence storage item ih =>
      rw [Shape.decode_sequence]
      exact .vector (fun _ => ih) h
  | set arrangement item ih =>
      rw [Shape.decode_set]
      exact .map (.vector (fun _ => ih) h) _
  | map arrangement key content hkey hcontent =>
      rw [Shape.decode_map]
      refine .map (.vector (fun cursor hcursor => ?_) h) _
      exact .bind (hkey hcursor) fun _ behind _ hbehind =>
        .bind (hcontent hbehind) fun _ last _ hlast => .pure _ hlast
  | single member ih => exact ih h
  | cons member rest hmember hrest =>
      exact .bind (hmember h) fun _ behind _ hbehind =>
        .bind (hrest hbehind) fun _ last _ hlast => .pure _ hlast
  | boxed content ih => exact ih h
  | record name => exact name.elim

end Pickling
