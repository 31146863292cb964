import Pickling.Cursor.Reading
/-!
What comes of readers that are put together, told by what comes of their parts.
-/
namespace Pickling.Reader

variable {α β : Type} {read : Reader α} {next : α → Reader β} {cursor after : Cursor}
  {a : α} {b : β} {failure : Failure}

theorem bind_eq_ok : (read >>= next) cursor = .ok b after ↔
    ∃ a between, read cursor = .ok a between ∧ next a between = .ok b after := by
  change EStateM.bind read next cursor = _ ↔ _
  rw [EStateM.bind]
  cases read cursor with
  | ok a between =>
      constructor
      · intro h
        exact ⟨a, between, rfl, h⟩
      · rintro ⟨_, _, heq, h⟩
        cases heq
        exact h
  | error failure between => simp

theorem bind_eq_error : (read >>= next) cursor = .error failure after ↔
    read cursor = .error failure after ∨
      ∃ a between, read cursor = .ok a between ∧ next a between = .error failure after := by
  change EStateM.bind read next cursor = _ ↔ _
  rw [EStateM.bind]
  cases read cursor with
  | ok a between =>
      constructor
      · intro h
        exact .inr ⟨a, between, rfl, h⟩
      · rintro (h | ⟨_, _, heq, h⟩)
        · cases h
        · cases heq
          exact h
  | error refusal between => simp

theorem map_eq_ok {f : α → β} : (f <$> read) cursor = .ok b after ↔
    ∃ a, read cursor = .ok a after ∧ f a = b := by
  rw [map_eq_pure_bind, bind_eq_ok]
  constructor
  · rintro ⟨a, _, hread, heq⟩
    cases heq
    exact ⟨a, hread, rfl⟩
  · rintro ⟨a, hread, rfl⟩
    exact ⟨a, after, hread, rfl⟩

theorem atomically_eq_ok : atomically read cursor = .ok a after ↔ read cursor = .ok a after := by
  rw [atomically]
  cases read cursor with
  | ok value behind => rfl
  | error failure behind => simp

theorem atomically_eq_error : atomically read cursor = .error failure after ↔
    ∃ stopped, read cursor = .error failure stopped ∧
      after = { stopped with position := cursor.position } := by
  rw [atomically]
  cases read cursor with
  | ok value behind => simp
  | error refusal behind =>
      constructor
      · intro h
        cases h
        exact ⟨behind, rfl, rfl⟩
      · rintro ⟨_, heq, rfl⟩
        cases heq
        rfl

end Pickling.Reader
