import Mathlib.Data.Nat.Bitwise
import Pickling.Proofs.Session.Lookup
/-!
Attempts to read that fail. Main statement: no reading afterwards can tell that there was one
(`Lookup.attempt_unnoticed`).
-/
namespace Pickling

namespace Reader

variable {α β : Type} {read : Reader α}

theorem Restoring.tryCatch_eq (h : read.Restoring) {cursor behind : Cursor} {failure : Failure}
    (herror : read cursor = .error failure behind) (f : α → β) (next : Failure → Reader β) :
    tryCatch (f <$> read) next cursor = next failure cursor := by
  obtain rfl := h cursor behind failure herror
  change EStateM.tryCatch (EStateM.map f read) next behind = _
  rw [EStateM.tryCatch, EStateM.map, herror]
  rfl

end Reader

namespace Lookup

variable {κ : Type} [Vocabulary κ]

/-- A reading that fails is as if it had not been tried. This goes for whatever is read as a whole by a
decoder that keeps to the methods of this library, for each of these methods, for a variable that was
to be read, for a second try in the place of the first, and for a session that goes on with anything. -/
theorem attempt_unnoticed (records : Vocabulary.ReadByMethods κ) :
    (∀ {α : Type} (decode : Reader α), decode.ByMethods → ∀ cursor behind failure,
      Reader.atomically decode cursor = .error failure behind → behind = cursor ∧
        ∀ {β : Type} (f : α → β) (next : Failure → Reader β),
          tryCatch (f <$> Reader.atomically decode) next cursor = next failure cursor) ∧
    (∀ shape : Shape κ, shape.decode.ByMethods) ∧
    (∀ (inquiry : Inquiry κ) (cursor behind : Cursor) (failure : Failure),
      inquiry.ask cursor = .error failure behind → behind = cursor) ∧
    (∀ (shape : Shape κ) (old : shape.Value) (cursor behind : Cursor) (failure : Failure),
      (shape.readInto old cursor).2 = .error failure behind →
        shape.readInto old cursor = (old, .error failure cursor)) ∧
    ∀ (earlier later : List (Lookup κ)) (attempt : Lookup κ) (cursors : List Cursor)
      (failure : Failure),
      (attempt.step (run earlier cursors).2).1.failure? = some failure →
        ∃ before report after last, before.length = earlier.length ∧
          report.failure? = some failure ∧
          run (earlier ++ later) cursors = (before ++ after, last) ∧
          run (earlier ++ attempt :: later) cursors = (before ++ report :: after, last) := by
  refine ⟨?_, fun shape => shape.byMethods_decode records, ?_, ?_, ?_⟩
  · intro α decode hdecode cursor behind failure herror
    have hrestoring := hdecode.atomically.restoring
    refine ⟨hrestoring cursor behind failure herror, ?_⟩
    intro β f next
    exact hrestoring.tryCatch_eq herror f next
  · intro inquiry cursor behind failure herror
    exact inquiry.restoring records cursor behind failure herror
  · intro shape old cursor behind failure herror
    cases hread : shape.read cursor with
    | ok value other => simp [Shape.readInto_of_ok hread] at herror
    | error refusal other =>
        rw [Shape.readInto_of_error hread] at herror ⊢
        obtain ⟨rfl, rfl⟩ := EStateM.Result.error.inj herror
        rw [shape.restoring_read records cursor _ _ hread]
  · intro earlier later attempt cursors failure hfails
    obtain ⟨hstays, -⟩ := step_of_failure records hfails
    refine ⟨_, _, _, _, length_run earlier cursors, hfails, run_append earlier later cursors, ?_⟩
    simp only [run_append, run, hstays]

def poisoned : Lookup Sample.Record := ask 0 (.value (.record .poison))

/-- A record that takes no notice of such a refusal and skips the number. -/
def retried : Lookup Sample.Record := ask 0 (.value (.record .retry))

theorem poisoned_unnoticed :
    let cursor : Cursor := ⟨⟨#[9, 9, 9, 9, 1, 0, 0, 0, 7, 0, 0, 0]⟩, 4⟩
    Vocabulary.ReadByMethods Sample.Record ∧
      (poisoned.step [cursor]).1.failure? =
        some (.invalidFormat "poison" "expected x % 2 == 0") ∧
      (run [retried] [cursor]).2.map Cursor.position = [12] ∧
      ∃ before report after last, before.length = 0 ∧
        report.failure? = some (.invalidFormat "poison" "expected x % 2 == 0") ∧
        run [retried] [cursor] = (before ++ after, last) ∧
        run [poisoned, retried] [cursor] = (before ++ report :: after, last) := by
  intro cursor
  have hfails : (poisoned.step [cursor]).1.failure? =
      some (.invalidFormat "poison" "expected x % 2 == 0") := by decide +kernel
  have hrun := (attempt_unnoticed Sample.readByMethods).2.2.2.2 [] [retried] poisoned [cursor] _ hfails
  exact ⟨Sample.readByMethods, hfails, by decide +kernel, hrun⟩

end Lookup

end Pickling
