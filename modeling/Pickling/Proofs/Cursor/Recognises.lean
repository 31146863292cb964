import Mathlib.Data.Nat.Bitwise
import Pickling.Proofs.Agreement
import Pickling.Proofs.Cursor.Reads
import Pickling.Proofs.Cursor.Runs
/-!
From which bytes a reader comes to which values. A reader recognises a spelling of values in segments
if it gives a value exactly where the bytes agree with a spelling of it, and then stands behind that
spelling, or at the end if the last padding is missing. Main statements: readers that follow each
other recognise spellings that follow each other (`Reader.Recognises.bind`), and a row of readings
recognises the spellings of a row (`Reader.Recognises.gather`).
-/
namespace Pickling

namespace Reader

variable {α β γ : Type}

/-- The row of items is spelled by the segments, one item after the other. -/
def Listed (spells : α → List ByteArray → Prop) : List α → List ByteArray → Prop
  | [], segments => segments = []
  | a :: rest, segments =>
    ∃ front back, spells a front ∧ Listed spells rest back ∧ segments = front ++ back

/-- Readers that come to a value exactly where the bytes agree with a spelling of it. No more bytes
are spoken of than a word can number. -/
def Recognises (read : Reader α) (spells : α → List ByteArray → Prop) : Prop :=
  ∀ cursor : Cursor, cursor.remaining ≤ largestWord → ∀ value after,
    read cursor = .ok value after ↔ ∃ segments, spells value segments ∧
      Agrees segments cursor.rest ∧ after = cursor.advance (layout segments).size

namespace Recognises

variable {read : Reader α} {spells other : α → List ByteArray → Prop}

theorem congr (h : read.Recognises spells)
    (hsame : ∀ value segments, spells value segments ↔ other value segments) :
    read.Recognises other := by
  intro cursor hword value after
  simp only [h cursor hword value after, hsame]

theorem pure (a : α) : Recognises (pure a) fun value segments => value = a ∧ segments = [] := by
  intro cursor hword value after
  have hpure : (Pure.pure a : Reader α) cursor = .ok a cursor := rfl
  rw [hpure]
  constructor
  · intro h
    cases h
    exact ⟨[], ⟨rfl, rfl⟩, agrees_nil, cursor.advance_zero.symm⟩
  · rintro ⟨_, ⟨rfl, rfl⟩, -, rfl⟩
    exact congrArg _ cursor.advance_zero.symm

theorem throw (failure : Failure) :
    Recognises (throw failure : Reader α) fun _ _ => False := by
  intro cursor hword value after
  constructor
  · intro h
    cases h
  · rintro ⟨_, h, -⟩
    exact h.elim

theorem take (count : Nat) (element : String) :
    Recognises (take count element) fun bytes segments =>
      bytes.size = count ∧ segments = [bytes] := by
  intro cursor hword bytes after
  have hlength := cursor.length_rest
  have htaken : (cursor.payload.extract cursor.position (cursor.position + count)).data.toList =
      cursor.rest.take count := cursor.toList_extract count
  have hlayout : (layout [bytes]).size = paddedSize bytes.size := by
    rw [layout, layout, ByteArray.append_empty, size_padded]
  rw [Reader.take, min_segmentEnd? hword]
  constructor
  · intro h
    split_ifs at h with hshort
    cases h
    have hsize : (cursor.payload.extract cursor.position (cursor.position + count)).size = count := by
      rw [← length_toList, htaken, List.length_take, hlength]
      omega
    refine ⟨_, ⟨hsize, rfl⟩, agrees_cons.2 ⟨?_, agrees_nil⟩, ?_⟩
    · rw [hsize, htaken]
    · rw [hlayout, hsize]
      rfl
  · rintro ⟨_, ⟨rfl, rfl⟩, hagrees, rfl⟩
    have hfound := (agrees_cons.1 hagrees).1
    have hle : bytes.size ≤ cursor.remaining := (covers_cons.1 hagrees.covers).1.trans hlength.le
    have hbytes : cursor.payload.extract cursor.position (cursor.position + bytes.size) = bytes := by
      apply ByteArray.ext
      apply Array.ext'
      rw [htaken, hfound]
    rw [if_neg (Nat.not_lt.2 hle), hbytes, hlayout]
    rfl

theorem atomically (h : read.Recognises spells) : (atomically read).Recognises spells := by
  intro cursor hword value after
  rw [atomically_eq_ok]
  exact h cursor hword value after

theorem bind {next : α → Reader β} {follows : α → β → List ByteArray → Prop}
    (hread : read.Recognises spells) (hnext : ∀ a, (next a).Recognises (follows a)) :
    (read >>= next).Recognises fun b segments =>
      ∃ a front back, spells a front ∧ follows a b back ∧ segments = front ++ back := by
  intro cursor hword b after
  have hbehind (count : Nat) : (cursor.advance count).remaining ≤ largestWord := by
    rw [Cursor.remaining_advance]
    omega
  rw [bind_eq_ok]
  constructor
  · rintro ⟨a, between, hfirst, hlast⟩
    obtain ⟨front, hspells, hfront, rfl⟩ := (hread cursor hword a between).1 hfirst
    obtain ⟨back, hfollows, hback, rfl⟩ := (hnext a _ (hbehind _) b after).1 hlast
    rw [Cursor.rest_advance] at hback
    refine ⟨front ++ back, ⟨a, front, back, hspells, hfollows, rfl⟩, agrees_append.2 ⟨hfront, hback⟩, ?_⟩
    rw [Cursor.advance_advance, layout_append, ByteArray.size_append]
  · rintro ⟨_, ⟨a, front, back, hspells, hfollows, rfl⟩, hagrees, rfl⟩
    obtain ⟨hfront, hback⟩ := agrees_append.1 hagrees
    rw [← Cursor.rest_advance] at hback
    refine ⟨a, _, (hread cursor hword a _).2 ⟨front, hspells, hfront, rfl⟩, ?_⟩
    rw [layout_append, ByteArray.size_append, ← Cursor.advance_advance]
    exact (hnext a _ (hbehind _) b _).2 ⟨back, hfollows, hback, rfl⟩

/-- What is made of a value without reading on is spelled as the value was. -/
theorem inspect {next : α → Reader β} {tells : α → β → Prop} (hread : read.Recognises spells)
    (hnext : ∀ a, (next a).Recognises fun b segments => tells a b ∧ segments = []) :
    (read >>= next).Recognises fun b segments => ∃ a, spells a segments ∧ tells a b := by
  refine (hread.bind hnext).congr fun b segments => ?_
  constructor
  · rintro ⟨a, front, _, hspells, ⟨htells, rfl⟩, rfl⟩
    exact ⟨a, by rwa [List.append_nil], htells⟩
  · rintro ⟨a, hspells, htells⟩
    exact ⟨a, segments, [], hspells, ⟨htells, rfl⟩, (List.append_nil _).symm⟩

theorem map (h : read.Recognises spells) (f : α → β) :
    (f <$> read).Recognises fun b segments => ∃ a, spells a segments ∧ b = f a := by
  rw [map_eq_pure_bind]
  exact h.inspect fun a => .pure (f a)

theorem gather {put : γ → α → γ} (h : read.Recognises spells) (count : Nat) (collection : γ) :
    (Reader.gather read put count collection).Recognises fun result segments =>
      ∃ items, items.length = count ∧ Listed spells items segments ∧
        result = items.foldl put collection := by
  induction count generalizing collection with
  | zero =>
      refine (Recognises.pure collection).congr fun result segments => ?_
      constructor
      · rintro ⟨rfl, rfl⟩
        exact ⟨[], rfl, rfl, rfl⟩
      · rintro ⟨items, hlength, hlisted, rfl⟩
        obtain rfl := List.length_eq_zero_iff.1 hlength
        exact ⟨rfl, hlisted⟩
  | succ count ih =>
      refine (h.bind fun a => ih (put collection a)).congr fun result segments => ?_
      constructor
      · rintro ⟨a, front, back, hspells, ⟨items, rfl, hlisted, rfl⟩, rfl⟩
        exact ⟨a :: items, rfl, ⟨front, back, hspells, hlisted, rfl⟩, rfl⟩
      · rintro ⟨items, hlength, hlisted, rfl⟩
        obtain ⟨a, rest, rfl⟩ := List.exists_cons_of_length_eq_add_one hlength
        obtain ⟨front, back, hspells, hlisted, rfl⟩ := hlisted
        exact ⟨a, front, back, hspells, ⟨rest, Nat.succ.inj hlength, hlisted, rfl⟩, rfl⟩

end Recognises

end Reader

end Pickling
