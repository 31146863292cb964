import Mathlib.Data.Nat.Bitwise
import Pickling.Proofs.Pickle.Extension
import Pickling.Sample
/-!
The pickles that the operations of the library lead to, and what its methods of writing do to them.
Main statements: every reachable pickle is valid (`Pickle.Reachable.valid`), and whatever is written
to one, bare or as a whole, adds to its payload or takes back all it did
(`Pickle.Reachable.all_or_nothing`).
-/
namespace Pickling

inductive Method where
  | plain (kind : Plain) (value : kind.Value)
  | bool (value : Bool)
  | length (count : Nat)
  | text (value : String)
  | wide (value : Wide)
  | data (bytes : ByteArray)
  | segment (bytes : ByteArray)
  | reserve (count : Nat)

namespace Method

variable [Memory]

def perform : Method → Writer Unit
  | plain kind value => Writer.plain kind value
  | bool value => Writer.bool value
  | length count => Writer.length count
  | text value => Writer.atomically (Writer.text value)
  | wide value => Writer.wide value
  | data bytes => Writer.data bytes
  | segment bytes => Writer.segment bytes
  | reserve count => Writer.reserve count

theorem byMethods (method : Method) : method.perform.ByMethods := by
  cases method with
  | plain | bool | segment => exact .segment _
  | length => exact .length _
  | text | wide | data => exact .atomically (.counted _ _)
  | reserve => exact .reserve _

end Method

/-- Every method is atomic, most of them because they have but one step that can fail. -/
theorem Method.whole [Memory] (method : Method) : method.perform.Whole := by
  cases method with
  | plain | bool | segment | reserve => exact .ofChange _
  | length count => exact .length count
  | text | wide | data => exact Writer.ByMethods.whole (.counted _ _)

theorem Sample.byMethods : Vocabulary.ByMethods Sample.Record := by
  intro memory record value
  have hpoison (poison : Poison) : poison.encode.ByMethods := by
    refine .bind (.segment _) fun _ => ?_
    split
    · exact .pure ()
    · exact .throw _
  have heither (either : Either) : either.encode.ByMethods := by
    refine .bind (BuiltIn.u32.byMethods_encode BuiltIn.byMethods either.number) fun _ => ?_
    obtain ⟨number, name⟩ := either
    cases name with
    | some name => exact .counted _ _
    | none => exact .pure ()
  have hleniently {write : Writer Unit} (h : write.ByMethods) : (leniently write).ByMethods :=
    .tryCatch h fun _ => .pure ()
  have hwrite (shape : BuiltIn) (value : shape.Value) : (shape.write value).ByMethods :=
    shape.byMethods_write BuiltIn.byMethods value
  cases record with
  | entry =>
      exact .bind (hwrite _ _) fun _ => .bind (hwrite _ _) fun _ =>
        .bind (hwrite _ _) fun _ => hwrite _ _
  | poison => exact hpoison value
  | leak => exact .bind (.length _) fun _ => .forM fun number => hleniently (hpoison ⟨number⟩)
  | retry =>
      exact .bind (.length _) fun _ => .forM fun number =>
        hleniently (.atomically (hpoison ⟨number⟩))
  | either => exact heither value

namespace Pickle

/-- Pickles that are made, copied, cleared and written to by the operations of the library. -/
inductive Reachable : Pickle → Prop
  | withCapacity (count : Nat) : Reachable (withCapacity count)
  | ofOptions [Memory] {options : Options} {pickle : Pickle} :
      ofOptions options = .ok pickle → Reachable pickle
  | ofView (view : View) : Reachable (ofView view)
  | copy {pickle : Pickle} : Reachable pickle → Reachable pickle.copy
  | clear {pickle : Pickle} : Reachable pickle → Reachable pickle.clear
  | written {α : Type} {write : Writer α} {pickle : Pickle} :
      Reachable pickle → write.ByMethods → Reachable (write.after pickle)

variable {pickle : Pickle}

theorem Reachable.valid (h : pickle.Reachable) : pickle.Valid := by
  induction h with
  | withCapacity count => exact valid_withCapacity count
  | ofOptions hok =>
      obtain ⟨growth, -, -, -, hvalid⟩ := ofOptions_ok hok
      exact hvalid
  | ofView view => exact valid_ofView view
  | copy _ ih => exact ih.valid_copy
  | clear _ ih => exact ih.valid_truncate (Nat.zero_le _) ⟨0, rfl⟩
  | written _ hwrite ih => exact (hwrite.extending _ ih).valid

theorem Valid.stored_header (h : pickle.Valid) : ∃ header, Header.ofBytes? pickle.bytes = some header ∧
    header.payloadSize.toNat = pickle.payload.size :=
  ⟨pickle.header, h.ofBytes?_bytes, h.toNat_header⟩

/-- Writing adds to the payload, and what fails as a whole leaves the very bytes that it found. The
encoders of all shapes are among the writers spoken of, and so are calls within calls: the pickle that
an inner call meets is one that its outer call has reached. -/
theorem Reachable.all_or_nothing {κ : Type} [Vocabulary κ] (records : Vocabulary.ByMethods κ)
    (h : pickle.Reachable) :
    (∀ write : Writer Unit, write.ByMethods →
      ((∃ more, (write.after pickle).payload = pickle.payload ++ more) ∧
        (∃ header, Header.ofBytes? (write.after pickle).bytes = some header ∧
          header.payloadSize.toNat = (write.after pickle).payload.size) ∧
        pickle.capacity ≤ (write.after pickle).capacity) ∧
      ∀ failure written, Writer.atomically write pickle = .error failure written →
        written.bytes = pickle.bytes ∧ pickle.capacity ≤ written.capacity) ∧
    (∀ [Memory] (shape : Shape κ) (value : shape.Value),
      (shape.encode value).ByMethods ∧ (shape.write value).ByMethods) ∧
    ∀ [Memory] (method : Method), method.perform.ByMethods ∧
      ∀ failure written, method.perform pickle = .error failure written →
        written.bytes = pickle.bytes := by
  have hvalid := h.valid
  refine ⟨fun write hwrite => ⟨?_, fun failure written hfail => ⟨?_, ?_⟩⟩, fun shape value => ⟨?_, ?_⟩,
    fun method => ⟨method.byMethods, fun failure written hfail => ?_⟩⟩
  · have hext := hwrite.extending pickle hvalid
    exact ⟨hext.payload_eq, hext.valid.stored_header, UInt64.le_iff_toNat_le.2 hext.capacity_le⟩
  · exact hwrite.whole _ _ _ hvalid hfail
  · have hext := hwrite.atomically.extending pickle hvalid
    rw [Writer.after_of_error hfail] at hext
    exact UInt64.le_iff_toNat_le.2 hext.capacity_le
  · exact shape.byMethods_encode records value
  · exact shape.byMethods_write records value
  · exact method.whole _ _ _ hvalid hfail

theorem poison_taken_back : ∃ failure written,
    Writer.atomically (@Sample.Poison.encode .ample ⟨1⟩) empty = .error failure written ∧
      written.bytes = empty.bytes := by
  have hwrite : (@Sample.Poison.encode .ample ⟨1⟩).ByMethods :=
    @Sample.byMethods .ample .poison ⟨1⟩
  have hempty : empty.Reachable := .withCapacity _
  refine ⟨_, _, rfl, ?_⟩
  exact (((hempty.all_or_nothing Sample.byMethods).1 _ hwrite).2 _ _ rfl).1

end Pickle

end Pickling
