import Mathlib.Data.List.Induction
import Pickling.Proofs.Arrangement
import Pickling.Proofs.Shape.Equality
import Pickling.Shape.Reading
import Pickling.Shape.Writing
/-!
All collections are read as a vector and then put together. Main statement: every collection is read
from where the vector of its items is read, with the same failures, and is what comes of putting these
items in one by one; and it is written as that vector is (`BuiltIn.collected_from_vector`).
-/
namespace Pickling

namespace Reader

variable {α β γ : Type}

theorem map_gather (item : Reader α) {push : γ → α → γ} {put : β → α → β} {f : γ → β}
    (h : ∀ collection a, f (push collection a) = put (f collection) a) (count : Nat)
    (collection : γ) :
    f <$> gather item push count collection = gather item put count (f collection) := by
  induction count generalizing collection with
  | zero => exact map_pure f collection
  | succ count ih =>
      change f <$> (item >>= fun a => gather item push count (push collection a)) =
        item >>= fun a => gather item put count (put (f collection) a)
      simp only [map_bind, ih, h]

theorem gather_map (f : α → γ) (item : Reader α) (put : β → γ → β) (count : Nat)
    (collection : β) : gather (f <$> item) put count collection =
      gather item (fun collection a => put collection (f a)) count collection := by
  induction count generalizing collection with
  | zero => rfl
  | succ count ih =>
      rw [gather, gather, bind_map_left]
      simp only [ih]

theorem map_atomically (f : α → β) (read : Reader α) :
    f <$> atomically read = atomically (f <$> read) := by
  funext cursor
  change EStateM.map f (atomically read) cursor = _
  have hmap : (f <$> read) cursor = EStateM.map f read cursor := rfl
  rw [EStateM.map, atomically, atomically, hmap, EStateM.map]
  cases read cursor with
  | ok value after => rfl
  | error failure after => rfl

/-- A collection whose items are gathered into a vector first. -/
theorem count_gather (item : Reader α) (put : β → α → β) (empty : β) :
    (do
      let (count, _) ← count
      gather item put count empty) =
      (fun items : Array α => items.toList.foldl put empty) <$> (do
        let (count, room) ← count
        gather item Array.push count (Storage.vector.start room)) := by
  have hgather (count : Nat) :
      (fun items : Array α => items.toList.foldl put empty) <$> gather item Array.push count #[] =
        gather item put count empty := map_gather item (by simp) count #[]
  rw [map_bind]
  refine congrArg (count >>= ·) (funext fun (count, room) => ?_)
  change gather item put count empty =
    _ <$> gather item Array.push count (Storage.vector.start room)
  rw [Storage.start_eq]
  exact (hgather count).symm

end Reader

namespace Shape

variable {κ : Type} [Vocabulary κ]

abbrev vector (item : Shape κ) : Shape κ := .sequence .vector item

abbrev entry (key content : Shape κ) : Shape κ := .cons key (.single content)

/-- A shape whose values are made of those of another when they are read. Wherever the one cannot be
read, neither can the other, and for the same reason. -/
structure ReadAs (shape other : Shape κ) (make : other.Value → shape.Value) : Prop where
  decode_eq : shape.decode = make <$> other.decode
  read_eq : shape.read = make <$> other.read

/-- A shape whose values are written as those of another. -/
structure WrittenAs [Memory] (shape other : Shape κ) (items : shape.Value → other.Value) : Prop where
  encode_eq : ∀ value, shape.encode value = other.encode (items value)
  write_eq : ∀ value, shape.write value = other.write (items value)

theorem readAs_of_decode {shape other : Shape κ} {make : other.Value → shape.Value}
    (h : shape.decode = make <$> other.decode) : shape.ReadAs other make :=
  ⟨h, by rw [read, read, Reader.map_atomically, h]⟩

theorem writtenAs_of_encode [Memory] {shape other : Shape κ} {items : shape.Value → other.Value}
    (h : ∀ value, shape.encode value = other.encode (items value)) : shape.WrittenAs other items :=
  ⟨h, fun value => by rw [write, write, h]⟩

theorem decode_sequence (storage : Storage) (item : Shape κ) :
    (sequence storage item).decode = item.vector.decode := by
  have hstart : (storage.start : Nat → Array item.Value) = Storage.vector.start := by
    funext room
    rw [Storage.start_eq, Storage.start_eq]
  exact congrArg (fun start : Nat → Array item.Value => do
    let (count, room) ← Reader.count
    Reader.gather item.decode Array.push count (start room)) hstart

theorem decode_set (arrangement : Arrangement) (item : Shape κ) :
    (set arrangement item).decode =
      (fun items : Array item.Value => items.toList.foldl (item.insert arrangement) []) <$>
        item.vector.decode :=
  Reader.count_gather item.decode (item.insert arrangement) []

theorem decode_map (arrangement : Arrangement) (key content : Shape κ) :
    (map arrangement key content).decode =
      (fun entries : Array (key.Value × content.Value) =>
        entries.toList.foldl (key.assign content arrangement) []) <$>
          (key.entry content).vector.decode :=
  Reader.count_gather (key.entry content).decode (key.assign content arrangement) []

end Shape

namespace BuiltIn

open Arrangement

variable {arrangement : Arrangement}

/-- The set of the items, put in one by one: of equal ones, the first. -/
structure IsSet (item : BuiltIn) (arrangement : Arrangement) (items set : List item.Value) :
    Prop where
  distinct : set.Pairwise fun a b => ¬ item.Same a b
  ascending : arrangement = .sorted → set.Pairwise fun a b => item.order a b = .lt
  mem_iff : ∀ a, a ∈ set ↔ ∃ front back, items = front ++ a :: back ∧
    ∀ b ∈ front, ¬ item.Same a b

/-- The map of the entries, put in one by one: of equal keys, the first, with the value of the last. -/
structure IsMap (key content : BuiltIn) (arrangement : Arrangement)
    (entries map : List (key.Value × content.Value)) : Prop where
  distinct : map.Pairwise fun a b => ¬ key.Same a.1 b.1
  ascending : arrangement = .sorted → map.Pairwise fun a b => key.order a.1 b.1 = .lt
  mem_iff : ∀ k v, (k, v) ∈ map ↔
    (∃ front first back, entries = front ++ (k, first) :: back ∧
      ∀ entry ∈ front, ¬ key.Same k entry.1) ∧
    ∃ front last back, entries = front ++ (last, v) :: back ∧ key.Same k last ∧
      ∀ entry ∈ back, ¬ key.Same k entry.1

theorem find?_eq_some_iff_first {α : Type} {p : α → Bool} {xs : List α} {x : α} :
    xs.find? p = some x ↔ p x ∧ ∃ front back, xs = front ++ x :: back ∧ ∀ y ∈ front, ¬ p y := by
  simp [List.find?_eq_some_iff_append]

theorem getLast?_filter_eq_some_iff {α : Type} {p : α → Bool} {xs : List α} {x : α} :
    (xs.filter p).getLast? = some x ↔
      p x ∧ ∃ front back, xs = front ++ x :: back ∧ ∀ y ∈ back, ¬ p y := by
  rw [List.getLast?_filter, find?_eq_some_iff_first]
  refine and_congr_right fun _ => ⟨?_, ?_⟩
  · rintro ⟨back, front, hreverse, hback⟩
    refine ⟨front.reverse, back.reverse, ?_, by simpa using hback⟩
    rw [← List.reverse_reverse xs, hreverse]
    simp
  · rintro ⟨front, back, rfl, hback⟩
    exact ⟨back.reverse, front.reverse, by simp, by simpa using hback⟩

theorem same_self (item : BuiltIn) (a : item.Value) : item.Same a a := by
  have hordered := item.ordered
  rw [← order_eq_eq_iff]
  exact Std.ReflCmp.compare_self

theorem isSet_foldl (item : BuiltIn) (arrangement : Arrangement) (items : List item.Value) :
    item.IsSet arrangement items (items.foldl (item.insert arrangement) []) := by
  have hkeeps : Keeps item.order fun old _ => old := fun _ _ _ => rfl
  have hset : items.foldl (item.insert arrangement) [] =
      arrangement.ofList item.order (fun old _ => old) items := rfl
  have hapart : _ := @apart_ofList _ arrangement _ _ item.ordered hkeeps items
  rw [hset]
  refine ⟨hapart.imp fun h => ?_, fun hsorted => hapart.imp fun h => h.2 hsorted, fun a => ?_⟩
  · rw [← order_eq_eq_iff]
    exact h.1
  · rw [mem_ofList_iff item.ordered hkeeps, merged_first, List.head?_filter,
      find?_eq_some_iff_first]
    simp [order_eq_eq_iff, same_self]

theorem isMap_foldl (key content : BuiltIn) (arrangement : Arrangement)
    (entries : List (key.Value × content.Value)) :
    key.IsMap content arrangement entries (entries.foldl (key.assign content arrangement) []) := by
  have hordered := ordered_comap key.ordered (Prod.fst : key.Value × content.Value → key.Value)
  have hkeeps : Keeps (fun a b : key.Value × content.Value => key.order a.1 b.1)
    fun old new => (old.1, new.2) := fun _ _ _ => rfl
  have hmap : entries.foldl (key.assign content arrangement) [] =
      arrangement.ofList (fun a b => key.order a.1 b.1) (fun old new => (old.1, new.2)) entries :=
    rfl
  have hapart : _ := @apart_ofList _ arrangement _ _ hordered hkeeps entries
  rw [hmap]
  refine ⟨hapart.imp fun h => ?_, fun hsorted => hapart.imp fun h => h.2 hsorted, fun k v => ?_⟩
  · rw [← order_eq_eq_iff]
    exact h.1
  · rw [mem_ofList_iff hordered hkeeps, merged_entry, List.head?_filter]
    simp only [Option.bind_eq_some_iff, Option.map_eq_some_iff, find?_eq_some_iff_first,
      getLast?_filter_eq_some_iff, beq_iff_eq, order_eq_eq_iff]
    constructor
    · rintro ⟨⟨_, first⟩, ⟨-, front, back, hfirst, hfront⟩,
        ⟨last, _⟩, ⟨hlast, before, after, hlater, hafter⟩, heq⟩
      obtain ⟨rfl, rfl⟩ := Prod.mk.inj heq
      exact ⟨⟨front, first, back, hfirst, hfront⟩, before, last, after, hlater, hlast, hafter⟩
    · rintro ⟨⟨front, first, back, hfirst, hfront⟩, before, last, after, hlater, hlast, hafter⟩
      exact ⟨(k, first), ⟨key.same_self k, front, back, hfirst, hfront⟩,
        (last, v), ⟨hlast, before, after, hlater, hafter⟩, rfl⟩

/-- Collections are read as the vector of their items, which are put in one by one, and are written as
this vector. What is equal among the items is told by their parts, and by the components of paths. -/
theorem collected_from_vector [Memory] (item key content : BuiltIn) (storage : Storage)
    (arrangement : Arrangement) :
    Shape.ReadAs (.sequence storage item) item.vector id ∧
    Shape.ReadAs (.set arrangement item) item.vector
      (fun items : Array item.Value => items.toList.foldl (item.insert arrangement) []) ∧
    Shape.ReadAs (.map arrangement key content) (key.entry content).vector
      (fun entries : Array (key.Value × content.Value) =>
        entries.toList.foldl (key.assign content arrangement) []) ∧
    (∀ items, item.IsSet arrangement items (items.foldl (item.insert arrangement) [])) ∧
    (∀ entries, key.IsMap content arrangement entries
      (entries.foldl (key.assign content arrangement) [])) ∧
    Std.TransCmp item.order ∧ (∀ a b, item.order a b = .eq ↔ item.Same a b) ∧
    (∀ a b : Path, Same .path a b ↔ a.components = b.components) ∧
    Shape.WrittenAs (.sequence storage item) item.vector id ∧
    Shape.WrittenAs (.set arrangement item) item.vector (List.toArray : List item.Value → _) ∧
    Shape.WrittenAs (.map arrangement key content) (key.entry content).vector
      (List.toArray : List (key.Value × content.Value) → _) := by
  refine ⟨Shape.readAs_of_decode ?_, Shape.readAs_of_decode ?_, Shape.readAs_of_decode ?_,
    item.isSet_foldl arrangement, key.isMap_foldl content arrangement, item.ordered,
    item.order_eq_eq_iff, fun _ _ => Iff.rfl, Shape.writtenAs_of_encode fun _ => rfl,
    Shape.writtenAs_of_encode fun _ => rfl, Shape.writtenAs_of_encode fun _ => rfl⟩
  · exact (Shape.decode_sequence storage item).trans (id_map _).symm
  · exact Shape.decode_set arrangement item
  · exact Shape.decode_map arrangement key content

/-- Two spellings of one path: the first stays, in its place among the others. -/
example : ((["b", "a//c", "a/c/."].map fun spelling => Path.mk spelling.toUTF8).foldl
    (Shape.insert (.path : BuiltIn) .sorted) []).map Path.spelling =
      [("a//c" : String).toUTF8, ("b" : String).toUTF8] := by
  decide +kernel

end BuiltIn

end Pickling
