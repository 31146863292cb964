import Mathlib.Data.Nat.Bitwise
import Pickling.Proofs.Cursor.Spelling
import Pickling.Proofs.Shape.Decoding
/-!
How the values of built-in shapes are spelled in segments. A sequence is spelled by its items behind
their number; a set or a map is spelled by every row of items that it comes of when they are put in
one by one, and so has many spellings. Main statements: what is read is what is spelled
(`BuiltIn.recognises_decode`), and a value of a shape without sets and maps is spelled by the very
segments in which it is written (`BuiltIn.Sequential.spells_iff`).
-/
namespace Pickling

/-- Two values, one spelled behind the other. -/
def Paired {α β : Type} (first : α → List ByteArray → Prop) (second : β → List ByteArray → Prop)
    (pair : α × β) (segments : List ByteArray) : Prop :=
  ∃ front back, first pair.1 front ∧ second pair.2 back ∧ segments = front ++ back

namespace Reader.Recognises

variable {α β : Type}

theorem pair {first : Reader α} {second : Reader β} {spells : α → List ByteArray → Prop}
    {follows : β → List ByteArray → Prop} (hfirst : first.Recognises spells)
    (hsecond : second.Recognises follows) :
    Recognises (do return (← first, ← second)) (Paired spells follows) := by
  refine (hfirst.bind fun a => hsecond.inspect fun b => .pure (a, b)).congr fun pair segments => ?_
  constructor
  · rintro ⟨a, front, back, hspells, ⟨b, hfollows, rfl⟩, rfl⟩
    exact ⟨front, back, hspells, hfollows, rfl⟩
  · rintro ⟨front, back, hspells, hfollows, rfl⟩
    exact ⟨pair.1, front, back, hspells, ⟨pair.2, hfollows, rfl⟩, rfl⟩

/-- A number of items, each of them put into a collection. -/
theorem collection {item : Reader α} {spells : α → List ByteArray → Prop}
    (h : item.Recognises spells) (put : β → α → β) (start : Nat → β) (empty : β)
    (hstart : ∀ room, start room = empty) :
    Recognises (do
      let (count, room) ← Reader.count
      Reader.gather item put count (start room)) fun result segments =>
        ∃ items back, Listed spells items back ∧ Counted items.length back segments ∧
          result = items.foldl put empty := by
  have hgather (count room : Nat) :
      (Reader.gather item put count (start room)).Recognises fun result segments =>
        ∃ items, items.length = count ∧ Listed spells items segments ∧
          result = items.foldl put empty := by
    rw [hstart]
    exact h.gather count empty
  refine (@count_bind β (fun counted => Reader.gather item put counted.1 (start counted.2)) _
    hgather).congr fun result segments => ?_
  constructor
  · rintro ⟨count, back, ⟨items, rfl, hlisted, rfl⟩, hcounted⟩
    exact ⟨items, back, hlisted, hcounted, rfl⟩
  · rintro ⟨items, back, hlisted, hcounted, rfl⟩
    exact ⟨items.length, back, ⟨items, rfl, hlisted, rfl⟩, hcounted⟩

end Reader.Recognises

namespace BuiltIn

open Reader (Recognises Listed)

/-- The segments that are read as a value. -/
def Spells : (shape : BuiltIn) → shape.Value → List ByteArray → Prop
  | .bool => fun value segments => segments = [LittleEndian.encode 1 (Bool.toNat value)]
  | .number kind => fun bits segments =>
    segments = [LittleEndian.encode kind.size (BitVec.toNat bits)]
  | .char => fun c segments => segments = [LittleEndian.encode 4 (Char.toNat c)]
  | .text => fun value => Counted (String.utf8ByteSize value) [String.toUTF8 value]
  | .wide => fun value => Counted (List.length (Wide.units value)) [Wide.bytes value]
  | .path => fun value segments => ∃ spelling : String, value = Path.mk spelling.toUTF8 ∧
    Counted spelling.utf8ByteSize [spelling.toUTF8] segments
  | .sequence _ item => fun (value : Array item.Value) segments =>
    ∃ items back, Listed (Spells item) items back ∧ Counted items.length back segments ∧
      value = items.toArray
  | .set arrangement item => fun (value : List item.Value) segments =>
    ∃ items back, Listed (Spells item) items back ∧ Counted items.length back segments ∧
      value = items.foldl (item.insert arrangement) []
  | .map arrangement key content => fun (value : List (key.Value × content.Value)) segments =>
    ∃ entries back, Listed (Paired (Spells key) (Spells content)) entries back ∧
      Counted entries.length back segments ∧
        value = entries.foldl (key.assign content arrangement) []
  | .single member => Spells member
  | .cons member rest => Paired (Spells member) (Spells rest)
  | .boxed content => Spells content
  | .record name => name.elim

theorem recognises_number (kind : Number) :
    Recognises (BitVec.ofNat (8 * kind.size) <$> Reader.number kind.onWire) (Spells (.number kind)) := by
  refine ((Recognises.number kind.onWire).map _).congr fun bits segments => ?_
  have hpower : 2 ^ (8 * kind.size) = 256 ^ kind.size := Nat.pow_mul 2 8 kind.size
  rw [size_onWire]
  constructor
  · rintro ⟨n, ⟨hlt, rfl⟩, rfl⟩
    have hbits : (BitVec.ofNat (8 * kind.size) n).toNat = n := by
      rw [BitVec.toNat_ofNat, hpower, Nat.mod_eq_of_lt hlt]
    exact congrArg (fun n => [LittleEndian.encode kind.size n]) hbits.symm
  · rintro rfl
    have hlt : BitVec.toNat bits < 2 ^ (8 * kind.size) := BitVec.isLt bits
    refine ⟨BitVec.toNat bits, ⟨hpower ▸ hlt, rfl⟩, ?_⟩
    rw [BitVec.ofNat_toNat, BitVec.setWidth_eq]

theorem recognises_decode (shape : BuiltIn) : shape.decode.Recognises shape.Spells := by
  induction shape with
  | bool => exact .bool
  | number kind => exact recognises_number kind
  | char => exact .char
  | text => exact .text
  | wide => exact .wide
  | path => exact .path
  | sequence storage item ih =>
      have hpush (items : List item.Value) : items.foldl Array.push #[] = items.toArray := by simp
      refine (Recognises.collection ih Array.push storage.start #[] storage.start_eq).congr ?_
      intro value segments
      simp only [hpush]
      rfl
  | set arrangement item ih =>
      exact .collection ih (item.insert arrangement) (fun _ => []) [] fun _ => rfl
  | map arrangement key content hkey hcontent =>
      exact .collection (hkey.pair hcontent) (key.assign content arrangement) (fun _ => []) []
        fun _ => rfl
  | single member ih => exact ih
  | cons member rest hmember hrest => exact hmember.pair hrest
  | boxed content ih => exact ih
  | record name => exact name.elim

/-- Shapes in which no set and no map occurs. -/
def Sequential : BuiltIn → Prop
  | .set _ _ | .map _ _ _ => False
  | .sequence _ item => Sequential item
  | .single member => Sequential member
  | .cons member rest => Sequential member ∧ Sequential rest
  | .boxed content => Sequential content
  | _ => True

theorem one_step_iff {bytes : ByteArray} {segments : List ByteArray} :
    segments = [bytes] ↔ ([.ok bytes] : List Step) = segments.map .ok := by
  constructor
  · rintro rfl
    rfl
  · intro h
    obtain ⟨segment, rest, rfl, hsegment, hrest⟩ := List.map_eq_cons_iff.1 h.symm
    rw [List.map_eq_nil_iff.1 hrest, Except.ok.inj hsegment]

theorem lengthStep_cons_iff {count : Nat} {steps : List Step} {segments : List ByteArray} :
    lengthStep count :: steps = segments.map .ok ↔
      ∃ rest, steps = rest.map .ok ∧ Counted count rest segments := by
  unfold lengthStep
  constructor
  · intro h
    obtain ⟨segment, rest, rfl, hsegment, hrest⟩ := List.map_eq_cons_iff.1 h.symm
    split_ifs at hsegment with hle
    exact ⟨rest, hrest.symm, hle, by rw [Except.ok.inj hsegment]⟩
  · rintro ⟨rest, rfl, hle, rfl⟩
    rw [if_pos hle]
    rfl

theorem countedSteps_iff {count : Nat} {bytes : ByteArray} {segments : List ByteArray} :
    Counted count [bytes] segments ↔ countedSteps count bytes = segments.map .ok := by
  rw [countedSteps, lengthStep_cons_iff]
  constructor
  · intro h
    exact ⟨[bytes], rfl, h⟩
  · rintro ⟨rest, hrest, h⟩
    rwa [one_step_iff.2 hrest] at h

theorem fromUTF8?_eq_some_iff {bytes : ByteArray} {spelling : String} :
    String.fromUTF8? bytes = some spelling ↔ bytes = spelling.toUTF8 := by
  unfold String.fromUTF8?
  split_ifs with hvalid
  · rw [Option.some.injEq, ← String.toByteArray_inj]
    rfl
  · refine iff_of_false (by simp) ?_
    rintro rfl
    exact hvalid spelling.isValidUTF8

theorem spells_path_iff (value : Path) (segments : List ByteArray) :
    Spells .path value segments ↔ steps .path value = segments.map .ok := by
  obtain ⟨bytes⟩ := value
  unfold Spells steps
  cases hspelling : String.fromUTF8? bytes with
  | some spelling =>
      obtain rfl := fromUTF8?_eq_some_iff.1 hspelling
      constructor
      · rintro ⟨other, hother, hcounted⟩
        obtain rfl := String.toByteArray_inj.1 (congrArg Path.spelling hother)
        exact countedSteps_iff.1 hcounted
      · intro h
        exact ⟨spelling, rfl, countedSteps_iff.2 h⟩
  | none =>
      refine iff_of_false ?_ ?_
      · rintro ⟨other, hother, -⟩
        rw [fromUTF8?_eq_some_iff.2 (congrArg Path.spelling hother)] at hspelling
        cases hspelling
      · intro h
        obtain ⟨_, _, _, hsegment, _⟩ := List.map_eq_cons_iff.1 h.symm
        cases hsegment

theorem append_steps_iff {first second : List Step} {segments : List ByteArray} :
    first ++ second = segments.map .ok ↔ ∃ front back, first = front.map .ok ∧
      second = back.map .ok ∧ segments = front ++ back := by
  rw [eq_comm, List.map_eq_append_iff]
  constructor
  · rintro ⟨front, back, rfl, rfl, rfl⟩
    exact ⟨front, back, rfl, rfl, rfl⟩
  · rintro ⟨front, back, rfl, rfl, rfl⟩
    exact ⟨front, back, rfl, rfl, rfl⟩

theorem listed_iff {α : Type} {spells : α → List ByteArray → Prop} {steps : α → List Step}
    (h : ∀ a segments, spells a segments ↔ steps a = segments.map .ok) (items : List α)
    (segments : List ByteArray) :
    Listed spells items segments ↔ items.flatMap steps = segments.map .ok := by
  induction items generalizing segments with
  | nil =>
      rw [List.flatMap_nil, eq_comm (a := []), List.map_eq_nil_iff]
      rfl
  | cons a rest ih =>
      rw [List.flatMap_cons, append_steps_iff]
      simp only [Listed, h, ih]

theorem Sequential.spells_iff {shape : BuiltIn} (h : shape.Sequential) (value : shape.Value)
    (segments : List ByteArray) :
    shape.Spells value segments ↔ shape.steps value = segments.map .ok := by
  induction shape generalizing segments with
  | bool | number | char => exact one_step_iff
  | text | wide => exact countedSteps_iff
  | path => exact spells_path_iff value segments
  | sequence storage item ih =>
      have hitems := listed_iff (ih h)
      change (∃ items back, _ ∧ _ ∧ value = List.toArray items) ↔
        lengthStep (Array.size value) :: (Array.toList value).flatMap (steps item) = _
      rw [lengthStep_cons_iff]
      constructor
      · rintro ⟨items, back, hlisted, hcounted, rfl⟩
        exact ⟨back, (hitems items back).1 hlisted, hcounted⟩
      · rintro ⟨back, hback, hcounted⟩
        exact ⟨Array.toList value, back, (hitems _ back).2 hback, hcounted, rfl⟩
  | set | map => exact h.elim
  | single member ih => exact ih h value segments
  | cons member rest hmember hrest =>
      refine Iff.trans ?_ append_steps_iff.symm
      simp only [← hmember h.1, ← hrest h.2]
      rfl
  | boxed content ih => exact ih h value segments
  | record name => exact name.elim

end BuiltIn

end Pickling
