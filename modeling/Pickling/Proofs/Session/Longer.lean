import Mathlib.Data.Nat.Bitwise
import Pickling.Proofs.Cursor.Longer
import Pickling.Proofs.Session.Copies
import Pickling.Proofs.Session.RoundTrip
/-!
Sessions of reading from payloads that go on. Main statement: what is read of a payload is read of every
payload that begins with it, and bytes that are no value of their kind do not become one; so what a view
gives, its copy gives (`BuiltIn.read_prolonged`).
-/
namespace Pickling

namespace BuiltIn

variable {cursor : Cursor}

theorem lasts_read (shape : BuiltIn) (h : cursor.AtSegment) : shape.read.Lasts cursor :=
  .atomically (shape.lasts_decode h)

theorem payload_of_read_ok {shape : BuiltIn} {value : shape.Value} {after : Cursor}
    (h : shape.read cursor = .ok value after) : after.payload = cursor.payload :=
  ((shape.byMethods_decode readByMethods).atomically.leads_of_ok h).payload_eq

/-- Bytes that are no value of their kind do not become one, and reading does not move there either. -/
theorem read_invalid (shape : BuiltIn) (hplace : cursor.AtSegment) {element message : String}
    {after : Cursor} (h : shape.read cursor = .error (.invalidFormat element message) after)
    (more : ByteArray) : shape.read (cursor.prolonged more) =
      .error (.invalidFormat element message) (cursor.prolonged more) := by
  obtain ⟨other, hother⟩ := (shape.lasts_read hplace).invalid more element message after h
  have hstays := shape.restoring_read readByMethods _ _ _ hother
  rwa [hstays] at hother

theorem truncated_of_cured (shape : BuiltIn) (hplace : cursor.AtSegment) {failure : Failure}
    {value : shape.Value} {stopped after : Cursor} {more : ByteArray}
    (h : shape.read cursor = .error failure stopped)
    (hcured : shape.read (cursor.prolonged more) = .ok value after) : failure.isTruncated := by
  have hblames := (shape.blames_decode cursor).atomically failure stopped h
  cases failure with
  | truncatedRead element requested remaining => rfl
  | invalidFormat element message =>
      rw [shape.read_invalid hplace h] at hcured
      cases hcured
  | invalidArgument name message => exact hblames.elim
  | lengthOverflow element count elementSize => exact hblames.elim
  | allocationFailure requested => exact hblames.elim

end BuiltIn

namespace ReadBack

variable {cursor last : Cursor} {items : List Item} {positions : List Nat}

theorem prolonged (h : ReadBack cursor items positions last) (hplace : cursor.AtSegment)
    (more : ByteArray) : ReadBack (cursor.prolonged more) items
      (positions.map fun place => min (paddedSize place) (cursor.payload ++ more).size)
      ⟨cursor.payload ++ more, min (paddedSize last.position) (cursor.payload ++ more).size⟩ := by
  induction h with
  | nil => exact .nil
  | @cons item items positions before after last hread _ ih =>
      have hpayload := BuiltIn.payload_of_read_ok hread
      obtain ⟨hafter, hlonger⟩ := (item.shape.lasts_read hplace).value more item.value after hread
      have hrest := ih hafter
      rw [hpayload] at hrest
      rw [after.prolonged_eq hpayload] at hlonger hrest
      exact .cons hlonger hrest

theorem copied {view : View} (hsize : view.payload.size ≤ maxPayloadSize)
    (h : ReadBack (.ofView view) items positions last) :
    ReadBack (.ofPickle (.ofView view)) items
      (positions.map fun place => min (paddedSize place) (Pickle.ofView view).payload.size)
      ⟨(Pickle.ofView view).payload,
        min (paddedSize last.position) (Pickle.ofView view).payload.size⟩ := by
  have hstart : (Cursor.ofView view).AtSegment := ⟨Nat.zero_le _, .inl ⟨0, rfl⟩⟩
  have hcopy := h.prolonged hstart
    (constantBytes (paddedSize view.payload.size - view.payload.size) 0)
  rw [Cursor.prolonged_of_dvd ⟨0, rfl⟩ (Nat.zero_le _)] at hcopy
  rw [Cursor.ofPickle, Pickle.payload_ofView hsize]
  exact hcopy

end ReadBack

/-- More bytes behind a payload change nothing of what has been read of it, but for padding that was
missing. The one failure that they can cure is that of a payload that ends too early. A copy is such a
payload, and gives whatever the view gives that it was made from. -/
theorem BuiltIn.read_prolonged (shape : BuiltIn) {payload : ByteArray} {position : Nat}
    (haligned : 4 ∣ position) (hinside : position ≤ payload.size) (more : ByteArray) :
    (∀ value after, shape.read ⟨payload, position⟩ = .ok value after →
      shape.read ⟨payload ++ more, position⟩ =
        .ok value ⟨payload ++ more, min (paddedSize after.position) (payload ++ more).size⟩) ∧
    (∀ element message after,
      shape.read ⟨payload, position⟩ = .error (.invalidFormat element message) after →
        shape.read ⟨payload ++ more, position⟩ =
          .error (.invalidFormat element message) ⟨payload ++ more, position⟩) ∧
    (∀ failure stopped value after, shape.read ⟨payload, position⟩ = .error failure stopped →
      shape.read ⟨payload ++ more, position⟩ = .ok value after → failure.isTruncated) ∧
    (∀ items positions last, ReadBack ⟨payload, position⟩ items positions last →
      ReadBack ⟨payload ++ more, position⟩ items
        (positions.map fun place => min (paddedSize place) (payload ++ more).size)
        ⟨payload ++ more, min (paddedSize last.position) (payload ++ more).size⟩) ∧
    ∀ view : View, view.payload.size ≤ maxPayloadSize → ∀ items positions last,
      ReadBack (.ofView view) items positions last →
        ReadBack (.ofPickle (.ofView view)) items
          (positions.map fun place => min (paddedSize place) (Pickle.ofView view).payload.size)
          ⟨(Pickle.ofView view).payload,
            min (paddedSize last.position) (Pickle.ofView view).payload.size⟩ := by
  have hplace : (Cursor.mk payload position).AtSegment := ⟨hinside, .inl haligned⟩
  have hlonger : (Cursor.mk payload position).prolonged more = ⟨payload ++ more, position⟩ :=
    Cursor.prolonged_of_dvd haligned hinside more
  refine ⟨?_, ?_, ?_, ?_, fun view hsize items positions last h => h.copied hsize⟩
  · intro value after hok
    obtain ⟨-, hvalue⟩ := (shape.lasts_read hplace).value more value after hok
    rwa [hlonger, after.prolonged_eq (payload_of_read_ok hok)] at hvalue
  · intro element message after herror
    have hinvalid := shape.read_invalid hplace herror more
    rwa [hlonger] at hinvalid
  · intro failure stopped value after herror hcured
    rw [← hlonger] at hcured
    exact shape.truncated_of_cured hplace herror hcured
  · intro items positions last hback
    have hmore := hback.prolonged hplace more
    rwa [hlonger] at hmore

def unpadded : ByteArray := ⟨#[1, 0, 0, 0, 9]⟩

theorem BuiltIn.unpadded_prolonged : 4 ∣ 0 ∧ 0 ≤ unpadded.size ∧
    (Shape.vector (.number .u8) : BuiltIn).read ⟨unpadded, 0⟩ = .ok #[(9 : BitVec 8)] ⟨unpadded, 5⟩ ∧
    (Shape.vector (.number .u8) : BuiltIn).read ⟨unpadded ++ ⟨#[0, 0, 7, 7]⟩, 0⟩ =
      .ok #[(9 : BitVec 8)] ⟨unpadded ++ ⟨#[0, 0, 7, 7]⟩, 8⟩ := by
  have hread : (Shape.vector (.number .u8) : BuiltIn).read ⟨unpadded, 0⟩ =
      .ok #[(9 : BitVec 8)] ⟨unpadded, 5⟩ := rfl
  have haligned : 4 ∣ 0 := ⟨0, rfl⟩
  have hinside : 0 ≤ unpadded.size := Nat.zero_le _
  have hlonger := BuiltIn.read_prolonged (.vector (.number .u8)) haligned hinside ⟨#[0, 0, 7, 7]⟩
  exact ⟨haligned, hinside, hread, hlonger.1 _ _ hread⟩

end Pickling
