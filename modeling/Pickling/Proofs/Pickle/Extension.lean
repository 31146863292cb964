import Mathlib.Data.Nat.Bitwise
import Pickling.Proofs.Pickle.Making
import Pickling.Sample
/-!
Writing only ever adds to a payload, and what is made atomic adds all or nothing. Both hold of every
writer that reaches the pickle through the methods of this library alone, whatever it does with their
failures (`Writer.ByMethods.extending`, `Writer.ByMethods.whole`).
-/
namespace Pickling

namespace Pickle

/-- What writing may do to a pickle. -/
structure Extends (pickle written : Pickle) : Prop where
  valid : written.Valid
  payload_eq : ∃ more, written.payload = pickle.payload ++ more
  capacity_le : pickle.capacity.toNat ≤ written.capacity.toNat
  growth_eq : written.buffer.growth = pickle.buffer.growth

variable {pickle written last : Pickle}

theorem Valid.extends_self (h : pickle.Valid) : pickle.Extends pickle :=
  ⟨h, ⟨.empty, ByteArray.append_empty.symm⟩, le_rfl, rfl⟩

theorem Valid.extends_holding {more : ByteArray} {capacity : UInt64}
    (h : (holding (pickle.payload ++ more) capacity pickle.buffer.growth).Valid)
    (hle : pickle.capacity.toNat ≤ capacity.toNat) :
    pickle.Extends (holding (pickle.payload ++ more) capacity pickle.buffer.growth) :=
  ⟨h, ⟨more, payload_holding _ _ _⟩, hle, rfl⟩

namespace Extends

theorem trans (first : pickle.Extends written) (second : written.Extends last) :
    pickle.Extends last := by
  obtain ⟨more, hmore⟩ := first.payload_eq
  obtain ⟨further, hfurther⟩ := second.payload_eq
  refine ⟨second.valid, ⟨more ++ further, ?_⟩, first.capacity_le.trans second.capacity_le,
    second.growth_eq.trans first.growth_eq⟩
  rw [hfurther, hmore, ByteArray.append_assoc]

theorem payload_size_le (h : pickle.Extends written) :
    pickle.payload.size ≤ written.payload.size := by
  obtain ⟨more, hmore⟩ := h.payload_eq
  simp [hmore]

theorem limit_eq (h : pickle.Extends written) : written.limit = pickle.limit :=
  congrArg (fun growth => growth.limit.toNat) h.growth_eq

/-- To cut what was added takes it back, whatever it was; the room stays. -/
theorem truncate_eq (h : pickle.Valid) (hext : pickle.Extends written) :
    written.truncate pickle.payloadSize =
      holding pickle.payload written.capacity pickle.buffer.growth := by
  obtain ⟨more, hmore⟩ := hext.payload_eq
  have hle : pickle.payload.size ≤ written.payload.size := by
    rw [hmore, ByteArray.size_append]
    exact Nat.le_add_right _ _
  rw [h.payloadSize_eq, hext.valid.truncate_eq hle, hmore, hext.growth_eq,
    ByteArray.extract_append_eq_left rfl]

theorem extends_truncate (h : pickle.Valid) (hext : pickle.Extends written) :
    pickle.Extends (written.truncate pickle.payloadSize) := by
  have hcap := h.size_le.trans hext.capacity_le
  have hadmits := hext.valid.admits
  rw [hext.growth_eq] at hadmits
  have hvalid := valid_holding h.aligned hcap hadmits h.limit_le
  have hself : pickle.payload = pickle.payload ++ .empty := ByteArray.append_empty.symm
  rw [hext.truncate_eq h]
  exact ⟨hvalid, ⟨.empty, (payload_holding _ _ _).trans hself⟩, hext.capacity_le, rfl⟩

end Extends

end Pickle

namespace Writer

variable {α β : Type}

def after (write : Writer α) (pickle : Pickle) : Pickle :=
  match write pickle with
  | .ok _ written => written
  | .error _ written => written

theorem after_of_ok {write : Writer α} {pickle written : Pickle} {value : α}
    (h : write pickle = .ok value written) : write.after pickle = written := by
  rw [after, h]

theorem after_of_error {write : Writer α} {pickle written : Pickle} {failure : Failure}
    (h : write pickle = .error failure written) : write.after pickle = written := by
  rw [after, h]

/-- Writers that reach the pickle through the methods of this library alone, with any control flow
between them. What memory they meet may differ from step to step. -/
inductive ByMethods : {α : Type} → Writer α → Prop
  | pure {α : Type} (value : α) : ByMethods (pure value)
  | throw {α : Type} (failure : Failure) : ByMethods (throw failure : Writer α)
  | look : ByMethods get
  | segment [Memory] (bytes : ByteArray) : ByMethods (segment bytes)
  | reserve [Memory] (count : Nat) : ByMethods (reserve count)
  | atomically {α : Type} {write : Writer α} : ByMethods write → ByMethods (atomically write)
  | bind {α β : Type} {write : Writer α} {next : α → Writer β} :
      ByMethods write → (∀ value, ByMethods (next value)) → ByMethods (write >>= next)
  | tryCatch {α : Type} {write : Writer α} {handle : Failure → Writer α} :
      ByMethods write → (∀ failure, ByMethods (handle failure)) → ByMethods (tryCatch write handle)

/-- Writers that leave an extension of every valid pickle behind. -/
def Extending (write : Writer α) : Prop :=
  ∀ pickle : Pickle, pickle.Valid → pickle.Extends (write.after pickle)

namespace Extending

variable {write : Writer α}

theorem ofChange {change : Pickle → Except Failure Pickle}
    (h : ∀ pickle written : Pickle, pickle.Valid → change pickle = .ok written →
      pickle.Extends written) : (ofChange change).Extending := by
  intro pickle hvalid
  rw [after, Writer.ofChange]
  cases hchange : change pickle with
  | error failure => exact hvalid.extends_self
  | ok written => exact h pickle written hvalid hchange

theorem segment [Memory] (bytes : ByteArray) : (segment bytes).Extending := by
  refine ofChange fun pickle written hvalid hok => ?_
  obtain ⟨capacity, rfl, hwritten, hle⟩ := hvalid.append_ok hok
  exact hwritten.extends_holding hle

theorem reserve [Memory] (count : Nat) : (reserve count).Extending := by
  refine ofChange fun pickle written hvalid hok => ?_
  obtain ⟨capacity, rfl, hwritten, hle⟩ := hvalid.reserve_count_ok hok
  rw [← ByteArray.append_empty (b := pickle.payload)] at hwritten ⊢
  exact hwritten.extends_holding hle

theorem bind {next : α → Writer β} (hwrite : write.Extending)
    (hnext : ∀ value, (next value).Extending) : (write >>= next).Extending := by
  intro pickle hvalid
  have hfirst := hwrite pickle hvalid
  have hbind : (write >>= next) pickle = EStateM.bind write next pickle := rfl
  rw [after, hbind, EStateM.bind]
  cases h : write pickle with
  | error failure written =>
      rwa [after_of_error h] at hfirst
  | ok value written =>
      rw [after_of_ok h] at hfirst
      exact hfirst.trans (hnext value written hfirst.valid)

theorem tryCatch {handle : Failure → Writer α} (hwrite : write.Extending)
    (hhandle : ∀ failure, (handle failure).Extending) : (tryCatch write handle).Extending := by
  intro pickle hvalid
  have hfirst := hwrite pickle hvalid
  change pickle.Extends (after (EStateM.tryCatch write handle) pickle)
  rw [after, EStateM.tryCatch]
  cases h : write pickle with
  | error failure written =>
      -- the handler goes on from what the failed writer left, which is an extension all the same
      rw [after_of_error h] at hfirst
      exact hfirst.trans (hhandle failure written hfirst.valid)
  | ok value written =>
      rwa [after_of_ok h] at hfirst

theorem atomically (hwrite : write.Extending) : (atomically write).Extending := by
  intro pickle hvalid
  have hfirst := hwrite pickle hvalid
  rw [after, Writer.atomically]
  cases h : write pickle with
  | error failure written =>
      rw [after_of_error h] at hfirst
      exact hfirst.extends_truncate hvalid
  | ok value written =>
      rwa [after_of_ok h] at hfirst

end Extending

/-- Writers that leave the bytes of a valid pickle as they were if they fail. -/
def Whole (write : Writer α) : Prop :=
  ∀ (pickle : Pickle) (failure : Failure) (written : Pickle), pickle.Valid →
    write pickle = .error failure written → written.bytes = pickle.bytes

theorem Whole.throw (failure : Failure) : Whole (throw failure : Writer α) := by
  intro pickle refusal written _ h
  cases h
  rfl

theorem Whole.ofChange (change : Pickle → Except Failure Pickle) : (ofChange change).Whole := by
  intro pickle failure written _ h
  rw [Writer.ofChange] at h
  split at h
  · cases h
  · cases h
    rfl

theorem Whole.length [Memory] (count : Nat) : (length count).Whole := by
  unfold Writer.length
  split
  · exact .ofChange _
  · exact .throw _

namespace ByMethods

variable {write : Writer α}

theorem extending (h : write.ByMethods) : write.Extending := by
  induction h with
  | pure value => exact fun _ hvalid => hvalid.extends_self
  | throw failure => exact fun _ hvalid => hvalid.extends_self
  | look => exact fun _ hvalid => hvalid.extends_self
  | segment bytes => exact .segment bytes
  | reserve count => exact .reserve count
  | atomically _ ih => exact .atomically ih
  | bind _ _ hwrite hnext => exact .bind hwrite hnext
  | tryCatch _ _ hwrite hhandle => exact .tryCatch hwrite hhandle

/-- A writer that is made atomic is so, for what it wrote is cut off again. -/
theorem whole (h : write.ByMethods) : (Writer.atomically write).Whole := by
  intro pickle failure written hvalid hfail
  rw [Writer.atomically] at hfail
  cases hwrite : write pickle with
  | ok value partly =>
      rw [hwrite] at hfail
      cases hfail
  | error refusal partly =>
      have hext := h.extending pickle hvalid
      rw [after_of_error hwrite] at hext
      rw [hwrite] at hfail
      cases hfail
      rw [hext.truncate_eq hvalid, Pickle.bytes_holding, hvalid.bytes_told]

theorem forM {items : List β} {each : β → Writer Unit} (h : ∀ item, (each item).ByMethods) :
    (items.forM each).ByMethods := by
  induction items with
  | nil => exact .pure ()
  | cons item rest ih => exact .bind (h item) fun _ => ih

variable [Memory]

theorem length (count : Nat) : (length count).ByMethods := by
  unfold Writer.length
  split
  · exact .segment _
  · exact .throw _

theorem counted (count : Nat) (bytes : ByteArray) : (counted count bytes).ByMethods :=
  .bind (.length count) fun _ => .segment bytes

theorem path (value : Path) : (path value).ByMethods := by
  unfold Writer.path
  split
  · exact .counted _ _
  · exact .throw _

end ByMethods

end Writer

def Vocabulary.ByMethods (κ : Type) [Vocabulary κ] : Prop :=
  ∀ [Memory] (record : κ) (value : Vocabulary.Value record),
    (Vocabulary.encode record value).ByMethods

theorem Shape.byMethods_encode [Memory] {κ : Type} [Vocabulary κ]
    (records : Vocabulary.ByMethods κ) (shape : Shape κ) (value : shape.Value) :
    (shape.encode value).ByMethods := by
  induction shape with
  | bool | number | char => exact .segment _
  | text => exact .counted _ _
  | wide => exact .atomically (.counted _ _)
  | path => exact .path value
  | sequence _ item ih => exact .bind (.length _) fun _ => .forM ih
  | set _ item ih => exact .bind (.length _) fun _ => .forM ih
  | map _ key content hkey hcontent =>
      exact .bind (.length _) fun _ => .forM fun entry =>
        .bind (hkey entry.1) fun _ => hcontent entry.2
  | single member ih => exact ih value
  | cons member rest hmember hrest => exact .bind (hmember value.1) fun _ => hrest value.2
  | boxed content ih => exact ih value
  | record name => exact records name value

theorem Shape.byMethods_write [Memory] {κ : Type} [Vocabulary κ]
    (records : Vocabulary.ByMethods κ) (shape : Shape κ) (value : shape.Value) :
    (shape.write value).ByMethods :=
  .atomically (shape.byMethods_encode records value)

theorem BuiltIn.byMethods : Vocabulary.ByMethods Empty := fun record => record.elim

end Pickling
