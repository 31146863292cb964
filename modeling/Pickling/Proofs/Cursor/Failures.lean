import Mathlib.Data.Nat.Bitwise
import Pickling.Proofs.Cursor.Methods
/-!
Why reading fails. Main statement: whatever built-in value is read, and from whatever bytes, a failure
tells that the bytes are no value of their kind, or that more of them are asked for than are left
(`BuiltIn.blames_decode`).
-/
namespace Pickling

/-- Failures for which the bytes are to blame, where so many of them are unread. -/
def Failure.OfBytes (unread : Nat) : Failure → Prop
  | .invalidFormat _ _ => True
  | .truncatedRead _ requested remaining => remaining < requested ∧ remaining ≤ unread
  | _ => False

theorem Failure.OfBytes.mono {failure : Failure} {m n : Nat} (h : failure.OfBytes m) (hle : m ≤ n) :
    failure.OfBytes n := by
  cases failure with
  | invalidFormat element message => trivial
  | truncatedRead element requested remaining => exact ⟨h.1, h.2.trans hle⟩
  | invalidArgument name message => exact h
  | lengthOverflow element count elementSize => exact h
  | allocationFailure requested => exact h

namespace Reader

variable {α β : Type}

/-- Readers that fail from here only if the bytes are to blame. -/
def Blames (read : Reader α) (cursor : Cursor) : Prop :=
  ∀ failure behind, read cursor = .error failure behind → failure.OfBytes cursor.remaining

namespace Blames

variable {read : Reader α} {cursor : Cursor}

theorem pure (value : α) (cursor : Cursor) : Blames (pure value) cursor := by
  intro failure behind herror
  cases herror

theorem invalid (element message : String) (cursor : Cursor) :
    Blames (throw (.invalidFormat element message) : Reader α) cursor := by
  intro failure behind herror
  cases herror
  trivial

theorem take (count : Nat) (element : String) (cursor : Cursor) :
    Blames (take count element) cursor := by
  intro failure behind herror
  rw [Reader.take] at herror
  split_ifs at herror with hshort
  cases herror
  exact ⟨hshort, le_rfl⟩

theorem atomically (h : read.Blames cursor) : (atomically read).Blames cursor := by
  intro failure behind herror
  obtain ⟨stopped, hread, -⟩ := atomically_eq_error.1 herror
  exact h failure stopped hread

theorem bind {next : α → Reader β} (hmethods : read.ByMethods) (h : read.Blames cursor)
    (hnext : ∀ value behind, read cursor = .ok value behind → (next value).Blames behind) :
    (read >>= next).Blames cursor := by
  intro failure last herror
  rcases bind_eq_error.1 herror with hread | ⟨value, behind, hread, hlast⟩
  · exact h failure last hread
  · exact (hnext value behind hread failure last hlast).mono
      (hmethods.leads_of_ok hread).remaining_le

theorem map (hmethods : read.ByMethods) (h : read.Blames cursor) (f : α → β) :
    (f <$> read).Blames cursor := by
  rw [map_eq_pure_bind]
  exact .bind hmethods h fun value behind _ => .pure (f value) behind

theorem number (kind : Number) (cursor : Cursor) : (number kind).Blames cursor :=
  .map (.take _ _) (.take _ _ _) _

theorem bool (cursor : Cursor) : bool.Blames cursor := by
  refine .atomically (.bind (.number .u8) (.number .u8 cursor) fun value behind _ => ?_)
  split
  · exact .pure false behind
  · exact .pure true behind
  · exact .invalid _ _ behind

theorem length (cursor : Cursor) : length.Blames cursor := by
  refine .atomically (.bind (.number .i32) (.number .i32 cursor) fun count behind _ => ?_)
  split_ifs
  · exact .pure count behind
  · exact .invalid _ _ behind

end Blames

theorem length_lt {cursor behind : Cursor} {count : Nat} (h : length cursor = .ok count behind) :
    count < 0x80000000 := by
  obtain ⟨found, between, -, hcount⟩ := bind_eq_ok.1 (atomically_eq_ok.1 h)
  split_ifs at hcount with hlt
  · cases hcount
    exact hlt
  · cases hcount

namespace Blames

/-- The length in bytes always fits into a word, so that no failure tells otherwise. -/
theorem counted {elementSize : Nat} (hsize : elementSize ≤ 2) (element : String) (cursor : Cursor) :
    (counted elementSize element).Blames cursor := by
  refine .bind .length (.length cursor) fun count behind hcount => ?_
  have hword : count * elementSize ≤ largestWord :=
    (Nat.mul_le_mul (length_lt hcount).le hsize).trans (by decide)
  rw [if_pos hword]
  exact .take _ _ behind

theorem data (cursor : Cursor) : data.Blames cursor := .atomically (.counted (by decide) _ cursor)

theorem text (cursor : Cursor) : text.Blames cursor := by
  refine .atomically (.bind (.counted 1 _) (.counted (by decide) _ cursor) fun bytes behind _ => ?_)
  split
  · exact .pure _ behind
  · exact .invalid _ _ behind

theorem wide (cursor : Cursor) : wide.Blames cursor :=
  .atomically (.map (.counted _ _) (.counted le_rfl _ cursor) _)

theorem char (cursor : Cursor) : char.Blames cursor := by
  refine .bind (.number .u32) (.number .u32 cursor) fun code behind _ => ?_
  by_cases hvalid : code.isValidChar
  · rw [dif_pos hvalid]
    exact .pure _ behind
  · rw [dif_neg hvalid]
    exact .invalid _ _ behind

theorem count (cursor : Cursor) : count.Blames cursor := by
  refine .bind .length (.length cursor) fun count behind _ => ?_
  intro failure last herror
  cases herror

theorem gather {item : Reader α} (hmethods : item.ByMethods) (h : ∀ cursor, item.Blames cursor)
    (put : β → α → β) (count : Nat) (collection : β) (cursor : Cursor) :
    (gather item put count collection).Blames cursor := by
  induction count generalizing collection cursor with
  | zero => exact .pure collection cursor
  | succ count ih => exact .bind hmethods (h cursor) fun a behind _ => ih (put collection a) behind

end Blames

end Reader

theorem BuiltIn.blames_decode (shape : BuiltIn) (cursor : Cursor) : shape.decode.Blames cursor := by
  have hmethods (shape : BuiltIn) := shape.byMethods_decode BuiltIn.readByMethods
  induction shape generalizing cursor with
  | bool => exact .bool cursor
  | number kind => exact .map (.number _) (.number _ cursor) _
  | char => exact .char cursor
  | text => exact .text cursor
  | wide => exact .wide cursor
  | path => exact .map .text (.text cursor) _
  | sequence storage item ih =>
      exact .bind .count (.count cursor) fun _ behind _ => .gather (hmethods item) ih _ _ _ behind
  | set arrangement item ih =>
      exact .bind .count (.count cursor) fun _ behind _ => .gather (hmethods item) ih _ _ _ behind
  | map arrangement key value hkey hvalue =>
      refine .bind .count (.count cursor) fun _ behind _ => .gather ?_ ?_ _ _ _ behind
      · exact .bind (hmethods key) fun _ => .bind (hmethods value) fun _ => .pure _
      · intro cursor
        exact .bind (hmethods key) (hkey cursor) fun _ behind _ =>
          .bind (hmethods value) (hvalue behind) fun _ last _ => .pure _ last
  | single member ih => exact ih cursor
  | cons member rest hmember hrest =>
      exact .bind (hmethods member) (hmember cursor) fun _ behind _ =>
        .bind (hmethods rest) (hrest behind) fun _ last _ => .pure _ last
  | boxed content ih => exact ih cursor
  | record name => exact name.elim

end Pickling
