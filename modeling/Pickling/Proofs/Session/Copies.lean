import Mathlib.Data.Nat.Bitwise
import Pickling.Proofs.Pickle.Reachable
import Pickling.Proofs.Pickle.View
import Pickling.Proofs.Session.Lookup
/-!
Views and copies of serialized bytes. Main statement: a copy holds what is to be seen of the bytes, with
its last word filled up, and is its own copy; and all ways to look at a pickle, to copy it and to read
it come to the same (`Pickle.copies_agree`).
-/
namespace Pickling

/-- What is to be seen of serialized bytes: behind the header, as much as it claims and as there is. -/
def window (bytes : ByteArray) : ByteArray :=
  if bytes.size < headerSize then .empty
  else
    let claimed := LittleEndian.decode (bytes.extract 0 headerSize)
    bytes.extract headerSize (headerSize + min claimed (bytes.size - headerSize))

namespace View

theorem payload_ofBytes (bytes : ByteArray) : (ofBytes bytes).payload = window bytes := by
  by_cases hshort : bytes.size < headerSize
  · have hnone : Header.ofBytes? bytes = none := if_neg (Nat.not_le.2 hshort)
    rw [payload_of_none hnone, window, if_pos hshort]
  · have hle := Nat.le_of_not_lt hshort
    have hlength : (bytes.extract 0 headerSize).data.toList.length = 4 := by
      change (bytes.extract 0 headerSize).size = 4
      rw [ByteArray.size_extract, Nat.min_eq_left hle]
      rfl
    have hlt : LittleEndian.decode (bytes.extract 0 headerSize) < UInt32.size := by
      have hvalue := LittleEndian.value_lt (bytes.extract 0 headerSize).data.toList
      rwa [hlength] at hvalue
    rw [payload_of_some (if_pos hle), window, if_neg hshort, UInt32.toNat_ofNat_of_lt' hlt]
    refine extract_congr_right ?_
    omega

end View

theorem window_append (header : Header) (body : ByteArray) :
    window (header.bytes ++ body) = body.extract 0 header.payloadSize.toNat := by
  have hstored : (header.bytes ++ body).extract 0 headerSize = header.bytes :=
    ByteArray.extract_append_eq_left (Header.size_bytes header).symm
  have hbehind := @ByteArray.extract_append_size_add header.bytes body 0 header.payloadSize.toNat
  rw [Nat.add_zero, Header.size_bytes] at hbehind
  rw [← View.payload_ofBytes, View.payload_of_some (Header.ofBytes?_of_extract hstored), hbehind]

namespace Pickle

variable {pickle : Pickle} {bytes : ByteArray}

theorem beq_of_bytes {a b : Pickle} (h : a.bytes = b.bytes) : (a == b) = true := by
  change (a.bytes.data == b.bytes.data) = true
  rw [h]
  exact beq_self_eq_true _

theorem ofView_congr {view other : View} (h : view.payload = other.payload) :
    ofView view = ofView other := by
  rw [ofView, ofView, h]

theorem ofBytes_congr {other : ByteArray} (h : window bytes = window other) :
    ofBytes bytes = ofBytes other :=
  ofView_congr (by rw [View.payload_ofBytes, View.payload_ofBytes, h])

theorem payload_ofView {view : View} (h : view.payload.size ≤ maxPayloadSize) :
    (ofView view).payload = padded view.payload := by
  rw [ofView_eq, payload_holding, extract_of_size_le h]

theorem payload_ofBytes (h : (window bytes).size ≤ maxPayloadSize) :
    (ofBytes bytes).payload = padded (window bytes) := by
  rw [← View.payload_ofBytes] at h ⊢
  exact payload_ofView h

theorem payload_view (pickle : Pickle) : pickle.view.payload = pickle.payload := rfl

namespace Valid

theorem bytes_eq_encode (h : pickle.Valid) :
    pickle.bytes = LittleEndian.encode headerSize pickle.payload.size ++ pickle.payload := by
  rw [← h.toNat_header]
  exact h.bytes_eq

theorem view_ofBytes (h : pickle.Valid) : View.ofBytes pickle.bytes = pickle.view := by
  have hsize : pickle.bytes.size = headerSize + pickle.payload.size := h.size_eq
  have hwhole : headerSize + min pickle.header.payloadSize.toNat (pickle.bytes.size - headerSize) =
      pickle.bytes.size := by
    rw [h.toNat_header, hsize, Nat.add_sub_cancel_left, Nat.min_self]
  rw [View.ofBytes, h.ofBytes?_bytes]
  simp only [hwhole, ByteArray.extract_zero_size]
  rfl

/-- What shows the payload of a valid pickle is copied to the bytes of that pickle. -/
theorem bytes_ofView (h : pickle.Valid) {view : View} (hview : view.payload = pickle.payload) :
    (ofView view).bytes = pickle.bytes := by
  have hcopied := valid_ofView view
  have hle := h.size_lt
  rw [hcopied.bytes_eq_encode, payload_ofView (by rwa [hview]), hview, padded_of_dvd h.aligned]
  exact h.bytes_eq_encode.symm

theorem bytes_ofBytes (h : pickle.Valid) : (ofBytes pickle.bytes).bytes = pickle.bytes := by
  rw [ofBytes, h.view_ofBytes]
  exact h.bytes_ofView (payload_view pickle)

end Valid

/-- A copy of serialized bytes holds what they show, with the last word filled up by zeros, and the
header that this payload has. It depends on nothing but what is shown, so neither on the bytes behind a
payload nor on how much more a header claims than there is, and the copy of a copy is the copy. Of a
pickle that can be reached, all views are one, all copies equal it, and all readers tell the same. -/
theorem copies_agree {κ : Type} [Vocabulary κ]
    (hsize : (window bytes).size ≤ maxPayloadSize) (h : pickle.Reachable) :
    ((View.ofBytes bytes).payload = window bytes ∧
      (ofBytes bytes).payload = padded (window bytes) ∧
      (ofBytes bytes).bytes =
        LittleEndian.encode headerSize (ofBytes bytes).payload.size ++ (ofBytes bytes).payload ∧
      (∀ other, window other = window bytes → ofBytes other = ofBytes bytes) ∧
      (ofBytes (ofBytes bytes).bytes == ofBytes bytes) = true) ∧
    (∀ (header larger : Header) (body more : ByteArray), body.size = header.payloadSize.toNat →
      body.size ≤ larger.payloadSize.toNat →
        ofBytes (header.bytes ++ (body ++ more)) = ofBytes (header.bytes ++ body) ∧
        ofBytes (larger.bytes ++ body) = ofBytes (header.bytes ++ body)) ∧
    (View.ofBytes pickle.bytes = pickle.view ∧ pickle.view.payload = pickle.payload) ∧
    (∀ copied ∈ [pickle.copy, ofView pickle.view, ofBytes pickle.bytes],
      (copied == pickle) = true) ∧
    ∀ start ∈ [Cursor.ofView pickle.view, .ofBytes pickle.bytes, .ofPayload pickle.payload],
      ∀ lookups : List (Lookup κ),
        Lookup.run lookups [start] = Lookup.run lookups [.ofPickle pickle] := by
  have hvalid := h.valid
  have hcopied := valid_ofView (.ofBytes bytes)
  have hview := hvalid.view_ofBytes
  refine ⟨⟨View.payload_ofBytes bytes, payload_ofBytes hsize, hcopied.bytes_eq_encode,
    fun other => ofBytes_congr, ?_⟩, fun header larger body more hheader hlarger => ⟨?_, ?_⟩,
    ⟨hview, payload_view pickle⟩, ?_, ?_⟩
  · exact beq_of_bytes hcopied.bytes_ofBytes
  · apply ofBytes_congr
    rw [window_append, window_append, ← hheader, ByteArray.extract_zero_size,
      ByteArray.extract_append_eq_left rfl]
  · apply ofBytes_congr
    rw [window_append, window_append, ← hheader, ByteArray.extract_zero_size,
      extract_of_size_le hlarger]
  · intro copied hmem
    refine beq_of_bytes ?_
    simp only [List.mem_cons, List.not_mem_nil, or_false] at hmem
    obtain rfl | rfl | rfl := hmem
    · rfl
    · exact hvalid.bytes_ofView (payload_view pickle)
    · exact hvalid.bytes_ofBytes
  · intro start hmem lookups
    have hstart : start = .ofPickle pickle := by
      simp only [List.mem_cons, List.not_mem_nil, or_false] at hmem
      obtain rfl | rfl | rfl := hmem
      · exact congrArg Cursor.ofPayload (payload_view pickle)
      · rw [Cursor.ofBytes, hview]
        exact congrArg Cursor.ofPayload (payload_view pickle)
      · rfl
    rw [hstart]

def overclaiming : ByteArray := ⟨#[9, 0, 0, 0, 1, 2, 3, 4, 5]⟩

theorem overclaiming_copied : (window overclaiming).size ≤ maxPayloadSize ∧
    (ofBytes overclaiming).Reachable ∧
    (ofBytes overclaiming).payload = ⟨#[1, 2, 3, 4, 5, 0, 0, 0]⟩ ∧
    ((ofBytes overclaiming).copy == ofBytes overclaiming) = true := by
  have hwindow : window overclaiming = ⟨#[1, 2, 3, 4, 5]⟩ := by decide
  have hsize : (window overclaiming).size ≤ maxPayloadSize := by
    rw [hwindow]
    decide
  have hreachable : (ofBytes overclaiming).Reachable := .ofView _
  obtain ⟨⟨-, hpayload, -⟩, -, -, hcopies, -⟩ := copies_agree (κ := Empty) hsize hreachable
  rw [hwindow] at hpayload
  exact ⟨hsize, hreachable, hpayload, hcopies _ List.mem_cons_self⟩

end Pickle

end Pickling
