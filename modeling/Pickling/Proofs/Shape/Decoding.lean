import Mathlib.Data.Nat.Bitwise
import Pickling.Proofs.Cursor.Reads
import Pickling.Proofs.Shape.Order
import Pickling.Shape.Reading
/-!
Reading undoes writing, value by value. Main statement: the reading of a shape answers to the steps in
which a value of the shape is written (`BuiltIn.reads_decode`), for every value that collections are
proper in: one without equal elements, and sorted where it is kept so.
-/
namespace Pickling

namespace BuiltIn

/-- Values whose collections are what their kind promises, down to the innermost. -/
def Proper : (shape : BuiltIn) → shape.Value → Prop
  | .bool => fun _ => True
  | .number _ => fun _ => True
  | .char => fun _ => True
  | .text => fun _ => True
  | .wide => fun _ => True
  | .path => fun _ => True
  | .sequence _ item => fun (items : Array item.Value) => ∀ a ∈ items.toList, Proper item a
  | .set arrangement item => fun (items : List item.Value) =>
    arrangement.Distinct item.order items ∧ ∀ a ∈ items, Proper item a
  | .map arrangement key value => fun (entries : List (key.Value × value.Value)) =>
    arrangement.Distinct (fun a b => key.order a.1 b.1) entries ∧
      ∀ entry ∈ entries, Proper key entry.1 ∧ Proper value entry.2
  | .single member => Proper member
  | .cons member rest => fun members => Proper member members.1 ∧ Proper rest members.2
  | .boxed content => Proper content
  | .record name => name.elim

theorem size_onWire (kind : Number) : kind.onWire.size = kind.size := by
  cases kind <;> rfl

theorem reads_number (kind : Number) (bits : kind.Bits) :
    Reader.Reads (BitVec.ofNat (8 * kind.size) <$> Reader.number kind.onWire)
      [.ok (LittleEndian.encode kind.size bits.toNat)] bits := by
  have hlt : bits.toNat < 256 ^ kind.onWire.size := by
    have hpow : (256 : Nat) ^ kind.size = 2 ^ (8 * kind.size) := Nat.pow_mul 2 8 kind.size ▸ rfl
    rw [size_onWire, hpow]
    exact bits.isLt
  have hread := (Reader.Reads.number kind.onWire hlt).map (BitVec.ofNat (8 * kind.size))
  rwa [size_onWire, BitVec.ofNat_toNat, BitVec.setWidth_eq] at hread

theorem distinct_front {α : Type} {arrangement : Arrangement} {order : α → α → Ordering}
    {xs front : List α} (hbegins : front <+: xs) (h : arrangement.Distinct order xs) :
    arrangement.Distinct order front := by
  cases arrangement with
  | sorted => exact h.sublist hbegins.sublist
  | hashed => exact h.sublist hbegins.sublist

theorem reads_decode (shape : BuiltIn) (value : shape.Value) (h : shape.Proper value) :
    Reader.Reads shape.decode (steps shape value) value := by
  induction shape with
  | bool => exact .bool value
  | number kind => exact reads_number kind value
  | char => exact .char value
  | text => exact .text value
  | wide => exact .wide value
  | path =>
      change Reader.Reads Reader.path (steps .path value) value
      unfold steps
      cases hspelling : String.fromUTF8? (Path.spelling value) with
      | none => exact .of_error
      | some spelling => exact .path hspelling
  | sequence storage item ih =>
      refine .count_bind fun room => ?_
      change Reader.Reads (Reader.gather item.decode Array.push _ (storage.start room)) _ _
      rw [Storage.start_eq]
      exact .gather_array fun a ha => ih a (h a ha)
  | set arrangement item ih =>
      refine .count_bind fun room => .gather_list (fun a ha => ih a (h.2 a ha)) ?_
      intro front a hbegins
      exact Arrangement.insert_distinct (oriented item) (distinct_front hbegins h.1)
  | map arrangement key content hkey hcontent =>
      refine .count_bind fun room => .gather_list (fun entry hentry => ?_) fun front a hbegins => ?_
      · obtain ⟨hproper, hvalue⟩ := h.2 entry hentry
        refine (hkey entry.1 hproper).bind ?_
        rw [← List.append_nil (steps content _)]
        exact (hcontent entry.2 hvalue).bind (.pure entry)
      · exact Arrangement.insert_distinct (oriented_comap (oriented key) Prod.fst)
          (distinct_front hbegins h.1)
  | single member ih => exact ih value h
  | cons member rest hmember hrest =>
      refine (hmember _ h.1).bind ?_
      rw [← List.append_nil (steps rest _)]
      exact (hrest _ h.2).bind (.pure value)
  | boxed content ih => exact ih value h
  | record name => exact name.elim

end BuiltIn

end Pickling
