import Mathlib.Data.Nat.Bitwise
import Pickling.Proofs.Cursor.Reads
/-!
How much it takes to write a value, and what keeps values from being written, told of the value alone.
Main statements: the steps of writing add the padded sizes of the segments if none of them fails, and
no more in any case (`BuiltIn.measured_steps`); one fails if a number of elements is too large or a
path is no text, and only then (`BuiltIn.lengthsFit_iff`, `BuiltIn.pathsSpelled_iff`).
-/
namespace Pickling

/-- How much longer a step makes a payload. -/
def Step.growth : Step → Nat
  | .ok bytes => paddedSize bytes.size
  | .error _ => 0

/-- Steps that add segments of these sizes, up to the first that fails at least. -/
structure Measured (steps : List Step) (sizes : List Nat) : Prop where
  le : (steps.map Step.growth).sum ≤ (sizes.map paddedSize).sum
  eq : (∀ failure, .error failure ∉ steps) →
    (steps.map Step.growth).sum = (sizes.map paddedSize).sum

namespace Measured

variable {α : Type} {first second : List Step} {m n : List Nat}

theorem nil : Measured [] [] := ⟨le_rfl, fun _ => rfl⟩

theorem ok {bytes : ByteArray} {size : Nat} (h : bytes.size = size) :
    Measured [.ok bytes] [size] := by
  subst h
  exact ⟨le_rfl, fun _ => rfl⟩

theorem error (failure : Failure) (sizes : List Nat) : Measured [.error failure] sizes :=
  ⟨Nat.zero_le _, fun h => absurd List.mem_cons_self (h failure)⟩

theorem append (hfirst : Measured first m) (hsecond : Measured second n) :
    Measured (first ++ second) (m ++ n) := by
  constructor
  · rw [List.map_append, List.sum_append, List.map_append, List.sum_append]
    exact Nat.add_le_add hfirst.le hsecond.le
  · intro h
    rw [List.map_append, List.sum_append, List.map_append, List.sum_append,
      hfirst.eq fun failure hmem => h failure (List.mem_append_left _ hmem),
      hsecond.eq fun failure hmem => h failure (List.mem_append_right _ hmem)]

theorem flatMap {steps : α → List Step} {sizes : α → List Nat}
    (h : ∀ a, Measured (steps a) (sizes a)) (items : List α) :
    Measured (items.flatMap steps) (items.flatMap sizes) := by
  induction items with
  | nil => exact .nil
  | cons a rest ih => exact (h a).append ih

theorem length (count : Nat) : Measured [lengthStep count] [4] := by
  unfold lengthStep
  split
  · exact .ok (LittleEndian.size_encode _ _)
  · exact .error _ _

theorem counted (count : Nat) {bytes : ByteArray} {size : Nat} (h : bytes.size = size) :
    Measured (countedSteps count bytes) [4, size] :=
  (length count).append (.ok h)

end Measured

/-- Steps that fail for no other reason. -/
def FailOnly (reason : Failure → Prop) (steps : List Step) : Prop :=
  ∀ failure, .error failure ∈ steps → reason failure

section FailOnly

variable {α : Type} {reason : Failure → Prop}

theorem failOnly_ok (bytes : ByteArray) : FailOnly reason [.ok bytes] := by
  intro failure hmem
  cases List.mem_singleton.1 hmem

theorem failOnly_error {failure : Failure} : FailOnly reason [.error failure] ↔ reason failure := by
  constructor
  · intro h
    exact h failure List.mem_cons_self
  · intro h other hmem
    cases List.mem_singleton.1 hmem
    exact h

theorem failOnly_append {first second : List Step} :
    FailOnly reason (first ++ second) ↔ FailOnly reason first ∧ FailOnly reason second := by
  simp only [FailOnly, List.mem_append, or_imp, forall_and]

theorem failOnly_flatMap {steps : α → List Step} {items : List α} :
    FailOnly reason (items.flatMap steps) ↔ ∀ a ∈ items, FailOnly reason (steps a) := by
  constructor
  · intro h a ha failure hmem
    exact h failure (List.mem_flatMap.2 ⟨a, ha, hmem⟩)
  · intro h failure hmem
    obtain ⟨a, ha, hmem⟩ := List.mem_flatMap.1 hmem
    exact h a ha failure hmem

theorem failOnly_length {count : Nat} : FailOnly reason [lengthStep count] ↔
    count ≤ Writer.maxLength ∨ reason (.lengthOverflow "length" count 1) := by
  unfold lengthStep
  split
  · rename_i hle
    exact iff_of_true (failOnly_ok _) (.inl hle)
  · rename_i hlt
    rw [failOnly_error, or_iff_right hlt]

theorem failOnly_counted {count : Nat} {bytes : ByteArray} :
    FailOnly reason (countedSteps count bytes) ↔
      count ≤ Writer.maxLength ∨ reason (.lengthOverflow "length" count 1) := by
  rw [← failOnly_length]
  exact (@failOnly_append _ [lengthStep count] [.ok bytes]).trans (and_iff_left (failOnly_ok bytes))

end FailOnly

namespace BuiltIn

/-- The sizes of the segments in which a value is written, if it can be. -/
def segmentSizes : (shape : BuiltIn) → shape.Value → List Nat
  | .bool => fun _ => [1]
  | .number kind => fun _ => [kind.size]
  | .char => fun _ => [4]
  | .text => fun value => [4, String.utf8ByteSize value]
  | .wide => fun value => [4, List.length (Wide.units value) * 2]
  | .path => fun value => [4, (Path.spelling value).size]
  | .sequence _ item => fun items => 4 :: (Array.toList items).flatMap (segmentSizes item)
  | .set _ item => fun items => 4 :: List.flatMap (segmentSizes item) items
  | .map _ key content => fun entries =>
    4 :: List.flatMap (fun entry => segmentSizes key entry.1 ++ segmentSizes content entry.2) entries
  | .single member => segmentSizes member
  | .cons member rest => fun members => segmentSizes member members.1 ++ segmentSizes rest members.2
  | .boxed content => segmentSizes content
  | .record name => name.elim

/-- How many bytes a value takes in a payload. -/
def encodedSize (shape : BuiltIn) (value : shape.Value) : Nat :=
  ((segmentSizes shape value).map paddedSize).sum

/-- Every number of elements that is written with a value is as `length` says, and every path in it as
`path` says. -/
def Throughout (length : Nat → Prop) (path : Path → Prop) : (shape : BuiltIn) → shape.Value → Prop
  | .bool => fun _ => True
  | .number _ => fun _ => True
  | .char => fun _ => True
  | .text => fun value => length (String.utf8ByteSize value)
  | .wide => fun value => length (List.length (Wide.units value))
  | .path => path
  | .sequence _ item => fun (items : Array item.Value) =>
    length items.size ∧ ∀ a ∈ items.toList, Throughout length path item a
  | .set _ item => fun (items : List item.Value) =>
    length items.length ∧ ∀ a ∈ items, Throughout length path item a
  | .map _ key content => fun (entries : List (key.Value × content.Value)) =>
    length entries.length ∧ ∀ entry ∈ entries,
      Throughout length path key entry.1 ∧ Throughout length path content entry.2
  | .single member => Throughout length path member
  | .cons member rest => fun members =>
    Throughout length path member members.1 ∧ Throughout length path rest members.2
  | .boxed content => Throughout length path content
  | .record name => name.elim

/-- No text, wide text or collection in a value is too long, and no path that is a text. -/
def LengthsFit : (shape : BuiltIn) → shape.Value → Prop :=
  Throughout (· ≤ Writer.maxLength) fun path =>
    path.spelling.IsValidUTF8 → path.spelling.size ≤ Writer.maxLength

/-- All paths in a value are texts. -/
def PathsSpelled : (shape : BuiltIn) → shape.Value → Prop :=
  Throughout (fun _ => True) fun path => path.spelling.IsValidUTF8

theorem steps_path_of_valid {path : Path} (h : path.spelling.IsValidUTF8) :
    steps .path path = countedSteps path.spelling.size path.spelling := by
  unfold steps String.fromUTF8?
  rw [dif_pos h]
  rfl

theorem steps_path_of_invalid {path : Path} (h : ¬ path.spelling.IsValidUTF8) :
    steps .path path = [.error (.invalidArgument "path" "path is not valid UTF-8")] := by
  unfold steps String.fromUTF8?
  rw [dif_neg h]

theorem measured_steps (shape : BuiltIn) (value : shape.Value) :
    Measured (steps shape value) (segmentSizes shape value) := by
  induction shape with
  | bool | number | char => exact .ok (LittleEndian.size_encode _ _)
  | text => exact .counted _ rfl
  | wide => exact .counted _ (Wide.size_bytes value)
  | path =>
      by_cases hvalid : ByteArray.IsValidUTF8 (Path.spelling value)
      · rw [steps_path_of_valid hvalid]
        exact .counted _ rfl
      · rw [steps_path_of_invalid hvalid]
        exact .error _ _
  | sequence storage item ih => exact (Measured.length _).append (.flatMap ih _)
  | set arrangement item ih => exact (Measured.length _).append (.flatMap ih _)
  | map arrangement key content hkey hcontent =>
      have hentry (entry : key.Value × content.Value) :
          Measured (steps key entry.1 ++ steps content entry.2)
            (segmentSizes key entry.1 ++ segmentSizes content entry.2) :=
        (hkey entry.1).append (hcontent entry.2)
      exact (Measured.length _).append (.flatMap hentry _)
  | single member ih => exact ih value
  | cons member rest hmember hrest => exact (hmember value.1).append (hrest value.2)
  | boxed content ih => exact ih value
  | record name => exact name.elim

/-- The reasons for which the steps of a value fail are found throughout the value. -/
theorem failOnly_steps {reason : Failure → Prop} (shape : BuiltIn) (value : shape.Value) :
    FailOnly reason (steps shape value) ↔
      Throughout (fun count =>
          count ≤ Writer.maxLength ∨ reason (.lengthOverflow "length" count 1))
        (fun path => FailOnly reason (steps .path path)) shape value := by
  induction shape with
  | bool | number | char => exact iff_of_true (failOnly_ok _) trivial
  | text | wide => exact failOnly_counted
  | path => exact Iff.rfl
  | sequence storage item ih =>
      refine failOnly_append.trans (and_congr failOnly_length (failOnly_flatMap.trans ?_))
      exact forall₂_congr fun a _ => ih a
  | set arrangement item ih =>
      refine failOnly_append.trans (and_congr failOnly_length (failOnly_flatMap.trans ?_))
      exact forall₂_congr fun a _ => ih a
  | map arrangement key content hkey hcontent =>
      refine failOnly_append.trans (and_congr failOnly_length (failOnly_flatMap.trans ?_))
      exact forall₂_congr fun entry _ =>
        failOnly_append.trans (and_congr (hkey entry.1) (hcontent entry.2))
  | single member ih => exact ih value
  | cons member rest hmember hrest =>
      exact failOnly_append.trans (and_congr (hmember value.1) (hrest value.2))
  | boxed content ih => exact ih value
  | record name => exact name.elim

theorem failOnly_path {reason : Failure → Prop} (path : Path) :
    FailOnly reason (steps .path path) ↔
      (path.spelling.IsValidUTF8 → path.spelling.size ≤ Writer.maxLength ∨
        reason (.lengthOverflow "length" path.spelling.size 1)) ∧
      (¬ path.spelling.IsValidUTF8 →
        reason (.invalidArgument "path" "path is not valid UTF-8")) := by
  by_cases hvalid : path.spelling.IsValidUTF8
  · rw [steps_path_of_valid hvalid, failOnly_counted]
    simp [hvalid]
  · rw [steps_path_of_invalid hvalid, failOnly_error]
    simp [hvalid]

theorem throughout_congr {length length' : Nat → Prop} {path path' : Path → Prop}
    (hlength : ∀ count, length count ↔ length' count) (hpath : ∀ p, path p ↔ path' p)
    (shape : BuiltIn) (value : shape.Value) :
    Throughout length path shape value ↔ Throughout length' path' shape value := by
  rw [funext fun count => propext (hlength count), funext fun p => propext (hpath p)]

variable {shape : BuiltIn} {value : shape.Value}

theorem lengthsFit_iff : LengthsFit shape value ↔
    FailOnly (· = .invalidArgument "path" "path is not valid UTF-8") (steps shape value) := by
  rw [failOnly_steps]
  refine throughout_congr (fun count => ?_) (fun path => ?_) shape value
  · simp
  · simp [failOnly_path]

theorem pathsSpelled_iff : PathsSpelled shape value ↔
    FailOnly (fun failure => ∃ count, Writer.maxLength < count ∧
      failure = .lengthOverflow "length" count 1) (steps shape value) := by
  rw [failOnly_steps]
  have hlength (count : Nat) : count ≤ Writer.maxLength ∨ ∃ other, Writer.maxLength < other ∧
      Failure.lengthOverflow "length" count 1 = .lengthOverflow "length" other 1 :=
    (Nat.lt_or_ge Writer.maxLength count).symm.imp_right fun hlt => ⟨count, hlt, rfl⟩
  refine throughout_congr (fun count => iff_of_true trivial (hlength count)) (fun path => ?_)
    shape value
  rw [failOnly_path]
  constructor
  · intro hvalid
    exact ⟨fun _ => hlength _, fun hinvalid => absurd hvalid hinvalid⟩
  · rintro ⟨-, hinvalid⟩
    by_contra hnone
    obtain ⟨count, -, hcount⟩ := hinvalid hnone
    cases hcount

/-- All steps succeed where nothing is too long and all paths are texts. -/
theorem no_failure_iff : (∀ failure, .error failure ∉ steps shape value) ↔
    LengthsFit shape value ∧ PathsSpelled shape value := by
  rw [lengthsFit_iff, pathsSpelled_iff]
  constructor
  · intro h
    exact ⟨fun failure hmem => absurd hmem (h failure), fun failure hmem => absurd hmem (h failure)⟩
  · rintro ⟨hpath, hlength⟩ failure hmem
    obtain ⟨count, -, hcount⟩ := hlength failure hmem
    cases (hpath failure hmem).symm.trans hcount

end BuiltIn

end Pickling
