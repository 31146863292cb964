import Mathlib.Data.Nat.Bitwise
import Pickling.Proofs.Cursor.Failures
import Pickling.Proofs.Cursor.Range
import Pickling.Proofs.Session.Lookup
/-!
Reading from bytes that nobody vouches for. Main statement: however such bytes are opened, and in
whatever order and with whatever arguments they are read, every step stays within what is there and
blames the bytes for every failure (`Lookup.run_safe`).
-/
namespace Pickling

/-- The ways to begin to read bytes: as a payload, as serialized bytes, and as a view of these. -/
def Cursor.openings (bytes : ByteArray) : List Cursor :=
  [.ofPayload bytes, .ofBytes bytes, .ofView (.ofBytes bytes)]

theorem Cursor.placed_of_opening {bytes : ByteArray} (hbytes : bytes.size ≤ largestWord)
    {start : Cursor} (h : start ∈ openings bytes) : start.Placed := by
  have hview : (View.ofBytes bytes).payload.size ≤ bytes.size := by
    cases hheader : Header.ofBytes? bytes with
    | none => simp [View.ofBytes, hheader, View.payload]
    | some header =>
        simp only [View.ofBytes, hheader, View.payload, ByteArray.size_extract]
        omega
  simp only [openings, List.mem_cons, List.not_mem_nil, or_false] at h
  rcases h with rfl | rfl | rfl
  · exact placed_ofPayload hbytes
  · exact placed_ofPayload (hview.trans hbytes)
  · exact placed_ofPayload (hview.trans hbytes)

theorem Inquiry.blames (inquiry : Inquiry Empty) (cursor : Cursor) : inquiry.ask.Blames cursor := by
  cases inquiry with
  | plain kind => exact .map (.take _ _) (.take _ _ cursor) _
  | bool => exact .bool cursor
  | length => exact .length cursor
  | text => exact .text cursor
  | wide => exact .wide cursor
  | data => exact .data cursor
  | bytes count => exact .take _ _ cursor
  | skip count => exact .map (.take _ _) (.take _ _ cursor) _
  | remainingBytes =>
      intro failure behind herror
      cases herror
  | value shape => exact .atomically (BuiltIn.blames_decode shape cursor)

def Inquiry.ask? : (inquiry : Inquiry Empty) → CheckedReader inquiry.Answer
  | plain kind => kind.decode <$> CheckedReader.take kind.size kind.name
  | bool => CheckedReader.bool
  | length => CheckedReader.length
  | text => CheckedReader.text
  | wide => CheckedReader.wide
  | data => CheckedReader.data
  | bytes count => CheckedReader.take count "bytes"
  | skip count => (fun _ => ()) <$> CheckedReader.take count "skipped bytes"
  | remainingBytes => CheckedReader.tell Cursor.remainingBytes?
  | value shape => CheckedReader.atomically (BuiltIn.decode? shape)

theorem Inquiry.follows_ask (inquiry : Inquiry Empty) : inquiry.ask?.Follows inquiry.ask := by
  cases inquiry with
  | plain kind => exact .map (.take _ _) _
  | bool => exact .bool
  | length => exact .length
  | text => exact .text
  | wide => exact .wide
  | data => exact .data
  | bytes count => exact .take _ _
  | skip count => exact .map (.take _ _) _
  | remainingBytes => exact .tell Cursor.Placed.remainingBytes?_eq
  | value shape => exact .atomically (BuiltIn.follows_decode shape)

namespace Lookup

/-- A step of a session in the arithmetic of a machine. -/
def step? : Lookup Empty → List Cursor → Option (Report Empty × List Cursor)
  | ask place inquiry, cursors =>
    match cursors[place]? with
    | none => return (.nothing, cursors)
    | some cursor => do
      let (result, behind) := Reader.settle (← inquiry.ask? cursor)
      return (.answer inquiry result, cursors.set place behind)
  | into place shape old, cursors =>
    match cursors[place]? with
    | none => return (.nothing, cursors)
    | some cursor => do
      match ← CheckedReader.atomically (BuiltIn.decode? shape) cursor with
      | .ok value behind => return (.variable shape value (.ok ()), cursors.set place behind)
      | .error failure behind =>
        return (.variable shape old (.error failure), cursors.set place behind)
  | copy place, cursors => return (.nothing, cursors ++ cursors[place]?.toList)

def run? : List (Lookup Empty) → List Cursor → Option (List (Report Empty) × List Cursor)
  | [], cursors => return ([], cursors)
  | lookup :: rest, cursors => do
    let (report, between) ← lookup.step? cursors
    let (reports, last) ← run? rest between
    return (report :: reports, last)

theorem step?_eq (lookup : Lookup Empty) {cursors : List Cursor}
    (h : ∀ cursor ∈ cursors, cursor.Placed) : lookup.step? cursors = some (lookup.step cursors) := by
  cases lookup with
  | ask place inquiry =>
      rw [step?, step]
      cases hplace : cursors[place]? with
      | none => rfl
      | some cursor =>
          have hask := inquiry.follows_ask.eq_some (h cursor (List.mem_of_getElem? hplace))
          simp [hask]
  | into place shape old =>
      rw [step?, step]
      cases hplace : cursors[place]? with
      | none => rfl
      | some cursor =>
          have hread : CheckedReader.atomically (BuiltIn.decode? shape) cursor =
              some (shape.read cursor) :=
            (BuiltIn.follows_decode shape).atomically.eq_some (h cursor (List.mem_of_getElem? hplace))
          simp only [hread, Option.bind_eq_bind, Option.bind_some]
          cases hresult : shape.read cursor with
          | ok value behind => simp [Shape.readInto_of_ok hresult, Reader.settle]
          | error failure behind => simp [Shape.readInto_of_error hresult, Reader.settle]
  | copy place => rfl

theorem step_placed (lookup : Lookup Empty) {cursors : List Cursor}
    (h : ∀ cursor ∈ cursors, cursor.Placed) : ∀ moved ∈ (lookup.step cursors).2, moved.Placed := by
  intro moved hmoved
  obtain ⟨cursor, hcursor, hlead⟩ :=
    (step_leads BuiltIn.readByMethods lookup cursors).2 moved hmoved
  exact hlead.placed (h cursor hcursor)

theorem run?_eq (lookups : List (Lookup Empty)) {cursors : List Cursor}
    (h : ∀ cursor ∈ cursors, cursor.Placed) : run? lookups cursors = some (run lookups cursors) := by
  induction lookups generalizing cursors with
  | nil => rfl
  | cons lookup rest ih => simp [run?, run, step?_eq lookup h, ih (step_placed lookup h)]

/-- What a lookup over a payload may be relied on for, whatever the payload. -/
structure Safe (lookup : Lookup Empty) (payload : ByteArray) (cursors : List Cursor) : Prop where
  step_eq : lookup.step? cursors = some (lookup.step cursors)
  inRange : ∀ cursor ∈ (lookup.step cursors).2, cursor.InRange
  onward : ∀ (place : Nat) (cursor : Cursor), cursors[place]? = some cursor →
    ∃ moved, (lookup.step cursors).2[place]? = some moved ∧ cursor.position ≤ moved.position
  inside : ∀ cursor ∈ (lookup.step cursors).2, cursor.payload = payload ∧
    cursor.position ≤ payload.size ∧ (4 ∣ cursor.position ∨ cursor.position = payload.size)
  blames : ∀ failure, (lookup.step cursors).1.failure? = some failure →
    ∃ cursor, cursors[lookup.place]? = some cursor ∧ failure.OfBytes cursor.remaining

theorem step_safe (lookup : Lookup Empty) {payload : ByteArray} {cursors : List Cursor}
    (h : ∀ cursor ∈ cursors, cursor.payload = payload ∧ cursor.Placed) :
    lookup.Safe payload cursors := by
  obtain ⟨honward, hbehind⟩ := step_leads BuiltIn.readByMethods lookup cursors
  have hplaced := step_placed lookup fun cursor hcursor => (h cursor hcursor).2
  refine ⟨lookup.step?_eq fun cursor hcursor => (h cursor hcursor).2,
    fun moved hmoved => (hplaced moved hmoved).inRange, ?_, ?_, ?_⟩
  · intro place cursor hplace
    obtain ⟨moved, hmoved, hlead⟩ := honward place cursor hplace
    exact ⟨moved, hmoved, hlead.position_le⟩
  · intro moved hmoved
    obtain ⟨cursor, hcursor, hlead⟩ := hbehind moved hmoved
    obtain ⟨rfl, -⟩ := h cursor hcursor
    obtain ⟨-, hinside, haligned⟩ := hplaced moved hmoved
    rw [← hlead.payload_eq]
    exact ⟨rfl, hinside, haligned⟩
  · intro failure hfails
    obtain ⟨-, cursor, hplace, inquiry, herror⟩ := step_of_failure BuiltIn.readByMethods hfails
    exact ⟨cursor, hplace, inquiry.blames cursor failure cursor herror⟩

/-- From bytes of any content, as long as a machine can hold them, a session may ask for anything: in the
arithmetic of a machine it comes to the same end, no cursor goes back or past the end or between words,
and what fails says that bytes are wrong or missing. -/
theorem run_safe {bytes : ByteArray} (hbytes : bytes.size ≤ largestWord) {start : Cursor}
    (hstart : start ∈ Cursor.openings bytes) (earlier : List (Lookup Empty))
    (lookup : Lookup Empty) :
    View.ofBytes? bytes = some (.ofBytes bytes) ∧ start.InRange ∧
      run? earlier [start] = some (run earlier [start]) ∧
      lookup.Safe start.payload (run earlier [start]).2 := by
  have hplaced := Cursor.placed_of_opening hbytes hstart
  refine ⟨View.ofBytes?_eq hbytes, hplaced.inRange, run?_eq earlier ?_, lookup.step_safe ?_⟩
  · intro cursor hcursor
    rwa [List.mem_singleton.1 hcursor]
  · intro moved hmoved
    obtain ⟨cursor, hcursor, hlead⟩ := run_leads BuiltIn.readByMethods earlier [start] moved hmoved
    obtain rfl := List.mem_singleton.1 hcursor
    exact ⟨hlead.payload_eq, hlead.placed hplaced⟩

/-- A header that claims too much, the length of a text, and one of the two bytes that it promises. -/
def cutText : ByteArray := ⟨#[0xff, 0xff, 0xff, 0xff, 2, 0, 0, 0, 0x61]⟩

def skipAndCopy : List (Lookup Empty) := [ask 0 (.skip largestWord), copy 0]

theorem cutText_safe : cutText.size ≤ largestWord ∧ .ofBytes cutText ∈ Cursor.openings cutText ∧
    ((ask 1 .text : Lookup Empty).step (run skipAndCopy [.ofBytes cutText]).2).1.failure? =
      some (.truncatedRead "string" 2 1) ∧
    run? skipAndCopy [.ofBytes cutText] = some (run skipAndCopy [.ofBytes cutText]) ∧
    (ask 1 .text : Lookup Empty).Safe (Cursor.ofBytes cutText).payload
      (run skipAndCopy [.ofBytes cutText]).2 := by
  have hsize : cutText.size ≤ largestWord := by decide
  have hopening : .ofBytes cutText ∈ Cursor.openings cutText := by simp [Cursor.openings]
  obtain ⟨-, -, hrun, hsafe⟩ := run_safe hsize hopening skipAndCopy (ask 1 .text)
  refine ⟨hsize, hopening, ?_, hrun, hsafe⟩
  decide +kernel

end Lookup

end Pickling
