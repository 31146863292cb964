import Mathlib.Data.Nat.Bitwise
import Pickling.Proofs.Pickle.Extension
import Pickling.Shape.Writing
/-!
What it takes to write a built-in value: a row of steps, each of which appends one segment or fails.
Main statements: to write the value is to take its steps one after the other, up to the first that
fails (`BuiltIn.takes_encode`), and where all succeed the payload grows by their segments
(`Pickle.follow_ok`).
-/
namespace Pickling

/-- A segment to be appended, or the failure to find one. -/
abbrev Step := Except Failure ByteArray

namespace Writer

/-- What a writer comes to if nobody looks at the pickle after a failure. -/
def attempt (write : Writer Unit) (pickle : Pickle) : Except Failure Pickle :=
  match write pickle with
  | .ok _ written => .ok written
  | .error failure _ => .error failure

variable {write : Writer Unit}

theorem attempt_eq_ok {pickle written : Pickle} :
    write.attempt pickle = .ok written ↔ write pickle = .ok () written := by
  rw [attempt]
  cases write pickle with
  | ok value after =>
      constructor
      · intro h
        rw [Except.ok.inj h]
      · intro h
        cases h
        rfl
  | error failure after => exact iff_of_false (by simp) (by simp)

theorem eq_ok_after {pickle : Pickle} (h : (write.attempt pickle).isOk = true) :
    write pickle = .ok () (write.after pickle) := by
  rw [attempt] at h
  rw [after]
  cases hwrite : write pickle with
  | ok value written => rfl
  | error failure written =>
      rw [hwrite] at h
      cases h

theorem attempt_bind (next : Unit → Writer Unit) (pickle : Pickle) :
    (write >>= next).attempt pickle = write.attempt pickle >>= (next ()).attempt := by
  have hbind : (write >>= next) pickle = EStateM.bind write next pickle := rfl
  rw [attempt, hbind, EStateM.bind, attempt]
  cases write pickle with
  | ok value written => rfl
  | error failure written => rfl

theorem attempt_atomically : (atomically write).attempt = write.attempt := by
  funext pickle
  rw [attempt, atomically, attempt]
  cases write pickle with
  | ok value written => rfl
  | error failure written => rfl

theorem attempt_ofChange (change : Pickle → Except Failure Pickle) :
    (ofChange change).attempt = change := by
  funext pickle
  rw [attempt, ofChange]
  cases change pickle with
  | ok written => rfl
  | error failure => rfl

end Writer

namespace Pickle

variable [Memory]

def take (pickle : Pickle) (step : Step) : Except Failure Pickle := step >>= pickle.append

def follow (steps : List Step) (pickle : Pickle) : Except Failure Pickle := steps.foldlM take pickle

theorem follow_append (first second : List Step) :
    follow (first ++ second) = fun pickle => follow first pickle >>= follow second := by
  funext pickle
  exact List.foldlM_append

/-- Where all steps succeed, each has found its segment, and the payload has grown by them all. -/
theorem follow_ok {steps : List Step} {pickle written : Pickle} (h : pickle.Valid)
    (hok : follow steps pickle = .ok written) : written.Valid ∧
      ∃ segments : List ByteArray, steps = segments.map .ok ∧
        written.payload = pickle.payload ++ layout segments := by
  induction steps generalizing pickle with
  | nil =>
      cases hok
      exact ⟨h, [], rfl, ByteArray.append_empty.symm⟩
  | cons step rest ih =>
      cases step with
      | error failure => cases hok
      | ok bytes =>
          obtain ⟨changed, happend, hrest⟩ := exists_of_bind_eq_ok hok
          obtain ⟨capacity, hchanged, hvalid, -⟩ := h.append_ok happend
          obtain ⟨hwritten, segments, rfl, hpayload⟩ := ih hvalid hrest
          refine ⟨hwritten, bytes :: segments, rfl, ?_⟩
          rw [hpayload, hchanged, payload_holding, layout, ByteArray.append_assoc]

end Pickle

namespace Writer

variable [Memory] {α : Type}

/-- Writers that take the given steps. -/
def Takes (write : Writer Unit) (steps : List Step) : Prop := write.attempt = Pickle.follow steps

namespace Takes

theorem nil : Takes (pure ()) [] := rfl

theorem segment (bytes : ByteArray) : Takes (segment bytes) [.ok bytes] := by
  unfold Takes Writer.segment
  rw [attempt_ofChange]
  funext pickle
  change _ = pickle.append bytes >>= pure
  rw [bind_pure]

theorem throw (failure : Failure) : Takes (throw failure) [.error failure] := rfl

theorem atomically {write : Writer Unit} {steps : List Step} (h : write.Takes steps) :
    (atomically write).Takes steps := attempt_atomically.trans h

theorem bind {write : Writer Unit} {next : Unit → Writer Unit} {first second : List Step}
    (hfirst : write.Takes first) (hsecond : (next ()).Takes second) :
    (write >>= next).Takes (first ++ second) := by
  unfold Takes at *
  funext pickle
  rw [attempt_bind, Pickle.follow_append, hfirst, hsecond]

theorem forM {items : List α} {each : α → Writer Unit} {steps : α → List Step}
    (h : ∀ item, (each item).Takes (steps item)) :
    (items.forM each).Takes (items.flatMap steps) := by
  induction items with
  | nil => exact .nil
  | cons item rest ih => exact .bind (h item) ih

end Takes

end Writer

def lengthStep (count : Nat) : Step :=
  if count ≤ Writer.maxLength then .ok (LittleEndian.encode 4 count)
  else .error (.lengthOverflow "length" count 1)

def countedSteps (count : Nat) (bytes : ByteArray) : List Step := [lengthStep count, .ok bytes]

namespace BuiltIn

/-- The steps in which a value is written. -/
def steps : (shape : BuiltIn) → shape.Value → List Step
  | .bool => fun value => [.ok (LittleEndian.encode 1 (Bool.toNat value))]
  | .number kind => fun bits => [.ok (LittleEndian.encode kind.size (BitVec.toNat bits))]
  | .char => fun c => [.ok (LittleEndian.encode 4 (Char.toNat c))]
  | .text => fun value => countedSteps (String.utf8ByteSize value) (String.toUTF8 value)
  | .wide => fun value => countedSteps (List.length (Wide.units value)) (Wide.bytes value)
  | .path => fun value =>
    match String.fromUTF8? (Path.spelling value) with
    | some spelling => countedSteps spelling.utf8ByteSize spelling.toUTF8
    | none => [.error (.invalidArgument "path" "path is not valid UTF-8")]
  | .sequence _ item => fun items =>
    lengthStep (Array.size items) :: (Array.toList items).flatMap (steps item)
  | .set _ item => fun items => lengthStep (List.length items) :: List.flatMap (steps item) items
  | .map _ key value => fun entries =>
    lengthStep (List.length entries) ::
      List.flatMap (fun entry => steps key entry.1 ++ steps value entry.2) entries
  | .single member => steps member
  | .cons member rest => fun members => steps member members.1 ++ steps rest members.2
  | .boxed content => steps content
  | .record name => name.elim

variable [Memory]

theorem takes_length (count : Nat) : (Writer.length count).Takes [lengthStep count] := by
  unfold Writer.length lengthStep
  split
  · exact .segment _
  · exact .throw _

theorem takes_counted (count : Nat) (bytes : ByteArray) :
    (Writer.counted count bytes).Takes (countedSteps count bytes) :=
  .bind (takes_length count) (.segment bytes)

theorem takes_encode (shape : BuiltIn) (value : shape.Value) :
    (shape.encode value).Takes (shape.steps value) := by
  induction shape with
  | bool | number | char => exact .segment _
  | text => exact takes_counted _ _
  | wide => exact .atomically (takes_counted _ _)
  | path =>
      change (Writer.path value).Takes (BuiltIn.steps .path value)
      unfold Writer.path steps
      cases String.fromUTF8? (Path.spelling value) with
      | some spelling => exact takes_counted _ _
      | none => exact .throw _
  | sequence _ item ih => exact .bind (takes_length _) (.forM ih)
  | set _ item ih => exact .bind (takes_length _) (.forM ih)
  | map _ key content hkey hcontent =>
      exact .bind (takes_length _) (.forM fun entry => .bind (hkey entry.1) (hcontent entry.2))
  | single member ih => exact ih value
  | cons member rest hmember hrest => exact .bind (hmember value.1) (hrest value.2)
  | boxed content ih => exact ih value
  | record name => exact name.elim

end BuiltIn

end Pickling
