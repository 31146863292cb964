import Mathlib.Data.Nat.Bitwise
import Pickling.Proofs.Cursor.Methods
import Pickling.Proofs.Places
/-!
Sessions of reading: runs of the methods of reading over any number of cursors, each method with any
arguments and each value of any shape. Main statements: a step leads every cursor on from where it was
(`Lookup.step_leads`), and one that fails leaves all of them as they are
(`Lookup.step_of_failure`).
-/
namespace Pickling

inductive Inquiry (κ : Type) where
  | plain (kind : Plain)
  | bool
  | length
  | text
  | wide
  | data
  | bytes (count : Nat)
  | skip (count : Nat)
  | remainingBytes
  | value (shape : Shape κ)

/-- The steps of a session of reading. Cursors are told by their places; new ones come last. -/
inductive Lookup (κ : Type) [Vocabulary κ] where
  | ask (place : Nat) (inquiry : Inquiry κ)
  /-- Reads a value into a variable. -/
  | into (place : Nat) (shape : Shape κ) (old : shape.Value)
  | copy (place : Nat)

variable {κ : Type} [Vocabulary κ]

namespace Inquiry

def Answer : Inquiry κ → Type
  | plain kind => kind.Value
  | bool => Bool
  | length => Nat
  | text => String
  | wide => Wide
  | data | bytes _ | remainingBytes => ByteArray
  | skip _ => Unit
  | value shape => shape.Value

def ask : (inquiry : Inquiry κ) → Reader inquiry.Answer
  | plain kind => Reader.plain kind
  | bool => Reader.bool
  | length => Reader.length
  | text => Reader.text
  | wide => Reader.wide
  | data => Reader.data
  | bytes count => Reader.bytes count
  | skip count => Reader.skip count
  | remainingBytes => Cursor.remainingBytes <$> get
  | value shape => shape.read

theorem byMethods (records : Vocabulary.ReadByMethods κ) (inquiry : Inquiry κ) :
    inquiry.ask.ByMethods := by
  cases inquiry with
  | plain kind => exact .plain kind
  | bool => exact .bool
  | length => exact .length
  | text => exact .text
  | wide => exact .wide
  | data => exact .data
  | bytes count => exact .take _ _
  | skip count => exact .skip count
  | remainingBytes => exact .map .look _
  | value shape => exact .atomically (shape.byMethods_decode records)

/-- Every method is atomic, most of them because they have but one step that can fail. -/
theorem restoring (records : Vocabulary.ReadByMethods κ) (inquiry : Inquiry κ) :
    inquiry.ask.Restoring := by
  cases inquiry with
  | plain kind => exact .map (.take _ _) _
  | bool => exact Reader.ByMethods.bool.restoring
  | length => exact Reader.ByMethods.length.restoring
  | text => exact Reader.ByMethods.text.restoring
  | wide => exact Reader.ByMethods.wide.restoring
  | data => exact Reader.ByMethods.data.restoring
  | bytes count => exact .take _ _
  | skip count => exact .map (.take _ _) _
  | remainingBytes =>
      intro cursor behind failure herror
      cases herror
  | value shape => exact shape.restoring_read records

end Inquiry

inductive Report (κ : Type) [Vocabulary κ] where
  | nothing
  | answer (inquiry : Inquiry κ) (result : Except Failure inquiry.Answer)
  /-- The variable afterwards, and whether it was read. -/
  | variable (shape : Shape κ) (value : shape.Value) (result : Except Failure Unit)

def Report.failure? : Report κ → Option Failure
  | .answer _ (.error failure) => some failure
  | .variable _ _ (.error failure) => some failure
  | _ => none

def Reader.settle {α : Type} (result : EStateM.Result Failure Cursor α) : Except Failure α × Cursor :=
  match result with
  | .ok value behind => (.ok value, behind)
  | .error failure behind => (.error failure, behind)

theorem Shape.readInto_of_error {shape : Shape κ} {cursor behind : Cursor} {failure : Failure}
    (h : shape.read cursor = .error failure behind) (old : shape.Value) :
    shape.readInto old cursor = (old, .error failure behind) := by
  rw [readInto, h]

theorem Shape.readInto_of_ok {shape : Shape κ} {cursor behind : Cursor} {value : shape.Value}
    (h : shape.read cursor = .ok value behind) (old : shape.Value) :
    shape.readInto old cursor = (value, .ok () behind) := by
  rw [readInto, h]

namespace Lookup

def place : Lookup κ → Nat
  | ask place _ => place
  | into place _ _ => place
  | copy place => place

/-- A step and what it tells. Nothing is done where there is no cursor. -/
def step : Lookup κ → List Cursor → Report κ × List Cursor
  | ask place inquiry, cursors =>
    match cursors[place]? with
    | none => (.nothing, cursors)
    | some cursor =>
      let (result, behind) := Reader.settle (inquiry.ask cursor)
      (.answer inquiry result, cursors.set place behind)
  | into place shape old, cursors =>
    match cursors[place]? with
    | none => (.nothing, cursors)
    | some cursor =>
      let (value, outcome) := shape.readInto old cursor
      let (result, behind) := Reader.settle outcome
      (.variable shape value result, cursors.set place behind)
  | copy place, cursors => (.nothing, cursors ++ cursors[place]?.toList)

def run : List (Lookup κ) → List Cursor → List (Report κ) × List Cursor
  | [], cursors => ([], cursors)
  | lookup :: rest, cursors =>
    let (report, between) := lookup.step cursors
    let (reports, last) := run rest between
    (report :: reports, last)

theorem run_append (first second : List (Lookup κ)) (cursors : List Cursor) :
    run (first ++ second) cursors =
      ((run first cursors).1 ++ (run second (run first cursors).2).1,
        (run second (run first cursors).2).2) := by
  induction first generalizing cursors with
  | nil => rfl
  | cons lookup rest ih => simp [run, ih]

theorem length_run (lookups : List (Lookup κ)) (cursors : List Cursor) :
    (run lookups cursors).1.length = lookups.length := by
  induction lookups generalizing cursors with
  | nil => rfl
  | cons lookup rest ih => simp [run, ih]

variable {lookup : Lookup κ} {cursors : List Cursor}

/-- A step either brings one cursor on by a reader, or only adds a copy of one. -/
theorem step_cases (lookup : Lookup κ) (cursors : List Cursor) :
    (lookup.step cursors).2 = cursors ∧ (lookup.step cursors).1 = .nothing ∨
    (∃ cursor ∈ cursors, (lookup.step cursors).2 = cursors ++ [cursor] ∧
      (lookup.step cursors).1 = .nothing) ∨
    ∃ cursor, cursors[lookup.place]? = some cursor ∧ ∃ inquiry : Inquiry κ,
      (lookup.step cursors).2 = cursors.set lookup.place (inquiry.ask.after cursor) ∧
      ∀ failure, (lookup.step cursors).1.failure? = some failure →
        inquiry.ask cursor = .error failure (inquiry.ask.after cursor) := by
  cases lookup with
  | ask place inquiry =>
      simp only [step, Lookup.place]
      cases hplace : cursors[place]? with
      | none => exact .inl ⟨rfl, rfl⟩
      | some cursor =>
          refine .inr (.inr ⟨cursor, rfl, inquiry, ?_⟩)
          cases hask : inquiry.ask cursor with
          | ok value behind =>
              simp [hask, Reader.settle, Reader.after_of_ok hask, Report.failure?]
          | error failure behind =>
              simp [hask, Reader.settle, Reader.after_of_error hask, Report.failure?]
  | into place shape old =>
      simp only [step, Lookup.place]
      cases hplace : cursors[place]? with
      | none => exact .inl ⟨rfl, rfl⟩
      | some cursor =>
          refine .inr (.inr ⟨cursor, rfl, .value shape, ?_⟩)
          change _ = cursors.set place (shape.read.after cursor) ∧
            ∀ failure, _ → shape.read cursor = .error failure (shape.read.after cursor)
          cases hread : shape.read cursor with
          | ok value behind =>
              simp [Shape.readInto_of_ok hread, Reader.settle, Reader.after_of_ok hread,
                Report.failure?]
          | error failure behind =>
              simp [Shape.readInto_of_error hread, Reader.settle, Reader.after_of_error hread,
                Report.failure?]
  | copy place =>
      simp only [step, Lookup.place]
      cases hplace : cursors[place]? with
      | none => exact .inl (by simp)
      | some cursor => exact .inr (.inl ⟨cursor, List.mem_of_getElem? hplace, by simp⟩)

/-- Every cursor stays in its place and goes on from where it was, and so does every copy. -/
theorem step_leads (records : Vocabulary.ReadByMethods κ) (lookup : Lookup κ)
    (cursors : List Cursor) :
    (∀ (place : Nat) (cursor : Cursor), cursors[place]? = some cursor →
      ∃ moved, (lookup.step cursors).2[place]? = some moved ∧ cursor.Leads moved) ∧
    ∀ moved ∈ (lookup.step cursors).2, ∃ cursor ∈ cursors, cursor.Leads moved := by
  obtain ⟨hsame, -⟩ | ⟨copied, hmem, hadded, -⟩ | ⟨asked, hasked, inquiry, hset, -⟩ :=
    step_cases lookup cursors
  · rw [hsame]
    exact ⟨Onward.refl .refl cursors, fun moved hmoved => ⟨moved, hmoved, .refl moved⟩⟩
  · rw [hadded]
    refine ⟨Onward.append .refl cursors [copied], fun moved hmoved => ?_⟩
    rcases List.mem_append.1 hmoved with hmoved | hmoved
    · exact ⟨moved, hmoved, .refl moved⟩
    · obtain rfl := List.mem_singleton.1 hmoved
      exact ⟨moved, hmem, .refl moved⟩
  · have hlead := (inquiry.byMethods records).leads asked
    rw [hset]
    refine ⟨Onward.set .refl hasked hlead, fun moved hmoved => ?_⟩
    rcases List.mem_or_eq_of_mem_set hmoved with hmem | rfl
    · exact ⟨moved, hmem, .refl moved⟩
    · exact ⟨asked, List.mem_of_getElem? hasked, hlead⟩

theorem run_leads (records : Vocabulary.ReadByMethods κ) (lookups : List (Lookup κ))
    (cursors : List Cursor) :
    ∀ moved ∈ (run lookups cursors).2, ∃ cursor ∈ cursors, cursor.Leads moved := by
  induction lookups generalizing cursors with
  | nil =>
      intro moved hmoved
      exact ⟨moved, hmoved, .refl moved⟩
  | cons lookup rest ih =>
      intro moved hmoved
      obtain ⟨between, hbetween, hsecond⟩ := ih (lookup.step cursors).2 moved hmoved
      obtain ⟨cursor, hcursor, hfirst⟩ := (step_leads records lookup cursors).2 between hbetween
      exact ⟨cursor, hcursor, hfirst.trans hsecond⟩

/-- A step that fails has asked a cursor, and has not moved it. -/
theorem step_of_failure (records : Vocabulary.ReadByMethods κ) {failure : Failure}
    (h : (lookup.step cursors).1.failure? = some failure) :
    (lookup.step cursors).2 = cursors ∧ ∃ cursor, cursors[lookup.place]? = some cursor ∧
      ∃ inquiry : Inquiry κ, inquiry.ask cursor = .error failure cursor := by
  obtain ⟨-, hnothing⟩ | ⟨_, _, _, hnothing⟩ | ⟨asked, hasked, inquiry, hset, hfails⟩ :=
    step_cases lookup cursors
  · rw [hnothing] at h
    cases h
  · rw [hnothing] at h
    cases h
  · have herror := hfails failure h
    have hstays := inquiry.restoring records _ _ _ herror
    rw [hstays] at hset herror
    refine ⟨?_, asked, hasked, inquiry, herror⟩
    obtain ⟨hlt, rfl⟩ := List.getElem?_eq_some_iff.1 hasked
    rw [hset, List.set_getElem_self]

end Lookup

end Pickling
