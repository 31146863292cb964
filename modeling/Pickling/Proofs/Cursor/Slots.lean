import Mathlib.Data.Nat.Bitwise
import Pickling.Proofs.Cursor.Runs
import Pickling.Proofs.Layout
import Pickling.Shape.Reading
/-!
How far a cursor comes. What is read takes a word of its own, and only the last word of a payload can
be cut short, so that the way a cursor has gone tells how many things can have been read on it. Main
statement: a reader that comes to a value has passed at least the words of its segments, one behind the
other (`Reader.Passes.bind`).
-/
namespace Pickling

namespace Cursor

/-- The way past so many words: all of them lie in the payload, the last one perhaps not as a whole. -/
structure Passes (count : Nat) (before after : Cursor) : Prop where
  payload_eq : after.payload = before.payload
  reached : min (before.position + 4 * count) before.payload.size ≤ after.position
  begun : 0 < count → before.position + 4 * (count - 1) < before.payload.size

namespace Passes

variable {before between after : Cursor} {m n : Nat}

theorem refl (cursor : Cursor) : cursor.Passes 0 cursor := by
  refine ⟨rfl, Nat.min_le_left _ _, ?_⟩
  intro h
  exact absurd h (Nat.lt_irrefl 0)

theorem trans (first : before.Passes m between) (second : between.Passes n after) :
    before.Passes (m + n) after := by
  obtain ⟨hfirst, hreached, hbegun⟩ := first
  obtain ⟨hsecond, hlast, hgone⟩ := second
  rw [hfirst] at hlast hgone
  refine ⟨hsecond.trans hfirst, ?_, ?_⟩
  · omega
  · intro h
    omega

theorem mono (h : before.Passes n after) (hle : m ≤ n) : before.Passes m after := by
  obtain ⟨hpayload, hreached, hbegun⟩ := h
  refine ⟨hpayload, ?_, ?_⟩
  · omega
  · intro hm
    omega

/-- Whoever has passed a word stands behind where it began. -/
theorem advances (h : before.Passes n after) (hn : 0 < n) : before.position < after.position := by
  obtain ⟨-, hreached, -⟩ := h.mono hn
  have hbegun := h.begun hn
  omega

/-- There are no more words on the way than are left to read, be the last one cut short. -/
theorem le_remaining (h : before.Passes n after) : n ≤ (before.remaining + 3) / 4 := by
  have hbegun := h.begun
  simp only [remaining]
  omega

end Passes

end Cursor

namespace Reader

variable {α β : Type}

/-- Readers that have passed so many words whenever they come to a value. -/
def Passes (read : Reader α) (count : Nat) : Prop :=
  ∀ cursor value behind, read cursor = .ok value behind → cursor.Passes count behind

namespace Passes

variable {read : Reader α} {count m n : Nat}

theorem pure (value : α) : Passes (pure value) 0 := by
  intro cursor value behind hok
  cases hok
  exact .refl cursor

theorem throw (failure : Failure) (count : Nat) : Passes (throw failure : Reader α) count := by
  intro cursor value behind hok
  cases hok

/-- Even a single byte takes a whole word, where the payload has one. -/
theorem take {size : Nat} (h : 0 < size) (element : String) : (take size element).Passes 1 := by
  intro cursor bytes behind hok
  rw [Reader.take] at hok
  split_ifs at hok with hshort
  cases hok
  have hlarge : UInt64.size = largestWord + 1 := rfl
  have hword : (segmentEnd? size).getD largestWord ≥ 4 := by
    rw [segmentEnd?_eq]
    split_ifs with hend
    · simp only [Option.getD_some, paddedSize]
      omega
    · exact (by decide : 4 ≤ largestWord)
  simp only [Cursor.remaining] at hshort
  refine ⟨rfl, ?_, ?_⟩
  · simp only [Cursor.remaining]
    omega
  · intro _
    omega

theorem skip (size : Nat) (element : String) : (Reader.take size element).Passes 0 := by
  intro cursor bytes behind hok
  rw [Reader.take] at hok
  split_ifs at hok with hshort
  cases hok
  refine ⟨rfl, ?_, ?_⟩
  · exact (Nat.min_le_left _ _).trans (Nat.le_add_right _ _)
  · intro h
    exact absurd h (Nat.lt_irrefl 0)

theorem atomically (h : read.Passes count) : (atomically read).Passes count := by
  intro cursor value behind hok
  exact h cursor value behind (atomically_eq_ok.1 hok)

theorem bind {next : α → Reader β} (h : read.Passes m) (hnext : ∀ value, (next value).Passes n) :
    (read >>= next).Passes (m + n) := by
  intro cursor value last hok
  obtain ⟨found, behind, hread, hlast⟩ := bind_eq_ok.1 hok
  exact (h cursor found behind hread).trans (hnext found behind value last hlast)

theorem map (h : read.Passes count) (f : α → β) : (f <$> read).Passes count := by
  rw [map_eq_pure_bind]
  exact h.bind fun value => .pure (f value)

theorem number (kind : Number) : (number kind).Passes 1 := by
  refine .map (.take ?_ kind.name) _
  cases kind <;> decide

theorem bool : bool.Passes 1 := by
  refine .atomically (.bind (n := 0) (.number .u8) fun value => ?_)
  split
  · exact .pure false
  · exact .pure true
  · exact .throw _ 0

theorem length : length.Passes 1 := by
  refine .atomically (.bind (n := 0) (.number .i32) fun count => ?_)
  split_ifs
  · exact .pure count
  · exact .throw _ 0

theorem counted (elementSize : Nat) (element : String) : (counted elementSize element).Passes 1 := by
  refine .bind (n := 0) length fun count => ?_
  split_ifs
  · exact .skip _ _
  · exact .throw _ 0

theorem text : text.Passes 1 := by
  refine .atomically (.bind (n := 0) (.counted 1 "string") fun bytes => ?_)
  split
  · exact .pure _
  · exact .throw _ 0

theorem wide : wide.Passes 1 := .atomically (.map (.counted 2 "wide string") _)

theorem path : path.Passes 1 := .map text _

theorem char : char.Passes 1 := by
  refine .bind (n := 0) (.number .u32) fun code => ?_
  by_cases hvalid : code.isValidChar
  · rw [dif_pos hvalid]
    exact .pure _
  · rw [dif_neg hvalid]
    exact .throw _ 0

end Passes

theorem count_eq_ok {cursor behind : Cursor} {counted : Nat × Nat} :
    count cursor = .ok counted behind ↔ length cursor = .ok counted.1 behind ∧
      counted.2 = min counted.1 (behind.remaining / 4) := by
  rw [count, bind_eq_ok]
  constructor
  · rintro ⟨n, between, hlength, hroom⟩
    cases hroom
    exact ⟨hlength, rfl⟩
  · rintro ⟨hlength, hroom⟩
    refine ⟨counted.1, behind, hlength, ?_⟩
    rw [← Prod.mk.eta (p := counted), hroom]
    rfl

theorem number_of_length {cursor behind : Cursor} {count : Nat}
    (h : length cursor = .ok count behind) : number .i32 cursor = .ok count behind := by
  obtain ⟨found, between, hnumber, hcount⟩ := bind_eq_ok.1 (atomically_eq_ok.1 h)
  split_ifs at hcount
  · cases hcount
    exact hnumber
  · cases hcount

theorem position_of_length {cursor behind : Cursor} {count : Nat}
    (h : length cursor = .ok count behind) : behind.position = cursor.position + 4 := by
  obtain ⟨bytes, htake, -⟩ := map_eq_ok.1 (number_of_length h)
  rw [take] at htake
  split_ifs at htake with hshort
  cases htake
  exact congrArg (cursor.position + ·) (Nat.min_eq_left (Nat.le_of_not_lt hshort))

theorem size_gather {item : Reader α} {count : Nat} {start items : Array α} {cursor behind : Cursor}
    (h : gather item Array.push count start cursor = .ok items behind) :
    items.size = start.size + count := by
  induction count generalizing start cursor with
  | zero =>
      cases h
      rfl
  | succ count ih =>
      obtain ⟨a, between, -, hrest⟩ := bind_eq_ok.1 h
      rw [ih hrest, Array.size_push, Nat.add_assoc, Nat.add_comm 1]

end Reader

end Pickling
