import Mathlib.Data.Nat.Bitwise
import Pickling.Proofs.Pickle.Range
/-!
How a pickle is represented at all times, told of the options that it was made with. Main statement:
whatever operations led to a pickle, its bytes and its capacity are as `Represented` says, and no
operation that comes next leaves its range (`Pickle.MadeWith.represented`).
-/
namespace Pickling

/-- The most bytes that a pickle of these options may take. -/
def Options.limit (options : Options) : Nat := min options.maxCapacity.toNat maxSize

theorem Options.unit_of_growth {options : Options} {growth : Growth}
    (h : options.growth = .ok growth) : growth.unit = options.allocationUnit := by
  rw [Options.growth] at h
  split at h
  · split at h
    · cases h
      rfl
    · cases h
  · cases h

namespace Pickle

/-- Pickles that the operations of the library lead to, with the options that they still obey. Those
that are made from a number of bytes or from a view obey the standard options, and so does the one
that is left where a pickle was taken away, which is `empty`. -/
inductive MadeWith : Options → Pickle → Prop
  | withCapacity (count : Nat) : MadeWith .standard (withCapacity count)
  | ofOptions [Memory] {options : Options} {pickle : Pickle} :
      ofOptions options = .ok pickle → MadeWith options pickle
  | ofView (view : View) : MadeWith .standard (ofView view)
  | copy {options : Options} {pickle : Pickle} :
      MadeWith options pickle → MadeWith options pickle.copy
  | clear {options : Options} {pickle : Pickle} :
      MadeWith options pickle → MadeWith options pickle.clear
  | written {options : Options} {pickle : Pickle} {α : Type} {write : Writer α} :
      MadeWith options pickle → write.ByMethods → MadeWith options (write.after pickle)

structure Represented (options : Options) (pickle : Pickle) : Prop where
  header_eq : pickle.bytes.extract 0 headerSize =
    LittleEndian.encode headerSize pickle.payloadSize
  size_eq : pickle.size = headerSize + pickle.payloadSize
  aligned : 4 ∣ pickle.payloadSize
  payloadSize_le : pickle.payloadSize ≤ maxPayloadSize
  narrow_eq : Checked.narrow pickle.payloadSize = some pickle.header.payloadSize
  size_le : pickle.size ≤ pickle.capacity.toNat
  capacity_le : pickle.capacity.toNat ≤ options.limit
  whole : options.allocationUnit.toNat ∣ pickle.capacity.toNat ∨
    pickle.capacity.toNat = options.limit

variable {options : Options} {pickle : Pickle}

namespace MadeWith

theorem reachable (h : MadeWith options pickle) : pickle.Reachable := by
  induction h with
  | withCapacity count => exact .withCapacity count
  | ofOptions hok => exact .ofOptions hok
  | ofView view => exact .ofView view
  | copy _ ih => exact .copy ih
  | clear _ ih => exact .clear ih
  | written _ hwrite ih => exact .written ih hwrite

theorem growth_eq (h : MadeWith options pickle) :
    pickle.buffer.growth.unit = options.allocationUnit ∧ pickle.limit = options.limit := by
  induction h with
  | withCapacity | ofView => exact ⟨rfl, rfl⟩
  | ofOptions hok =>
      obtain ⟨growth, hgrowth, -, hpickle, -⟩ := ofOptions_ok hok
      obtain ⟨-, -, hlimit⟩ := limit_of_growth hgrowth
      rw [hpickle, limit_holding]
      exact ⟨Options.unit_of_growth hgrowth, hlimit⟩
  | copy hmade ih =>
      rwa [hmade.reachable.valid.copy_eq, limit_holding]
  | clear hmade ih =>
      rwa [Pickle.clear, hmade.reachable.valid.truncate_eq (Nat.zero_le _), limit_holding]
  | written hmade hwrite ih =>
      have hgrowth := (hwrite.extending _ hmade.reachable.valid).growth_eq
      rw [limit, hgrowth]
      exact ih

end MadeWith

theorem Valid.representation (h : pickle.Valid)
    (hunit : pickle.buffer.growth.unit = options.allocationUnit)
    (hlimit : pickle.limit = options.limit) : Represented options pickle := by
  have hsize := h.size_eq
  have hpayload := h.payloadSize_eq
  have hlt := h.size_lt
  have hword : pickle.payloadSize < UInt32.size :=
    Nat.lt_of_le_of_lt (hpayload.trans_le hlt) (by decide)
  refine ⟨?_, by rw [hpayload, hsize], hpayload ▸ h.aligned, hpayload.trans_le hlt,
    Checked.narrow_of_lt hword, hsize.trans_le h.size_le, ?_, ?_⟩
  · rw [h.extract_header, Header.bytes, h.toNat_header, hpayload]
  · exact h.admits.le_limit.trans hlimit.le
  · rw [← hunit, ← hlimit]
    exact h.admits.whole.imp_right (congrArg UInt64.toNat)

/-- The pickles that a write goes through are among those spoken of, for each of them is what an earlier
part of the write leaves behind. -/
theorem MadeWith.represented {κ : Type} [Vocabulary κ] (records : Vocabulary.ByMethods κ)
    (h : MadeWith options pickle) :
    Represented options pickle ∧
    pickle.InRange ∧
    (∀ [Memory] (shape : Shape κ) (value : shape.Value),
      (shape.encode value).ByMethods ∧ (shape.write value).ByMethods) ∧
    (∀ [Memory] (method : Method), method.perform.ByMethods) ∧
    pickle.truncate? 0 = some pickle.clear ∧
    ∀ view : View, ofView? view = some (Pickle.ofView view) := by
  have hvalid := h.reachable.valid
  obtain ⟨hunit, hlimit⟩ := h.growth_eq
  refine ⟨hvalid.representation hunit hlimit, hvalid.inRange, ?_, ?_, ?_, ofView?_eq⟩
  · intro memory shape value
    exact ⟨shape.byMethods_encode records value, shape.byMethods_write records value⟩
  · intro memory method
    exact method.byMethods
  · exact hvalid.truncate?_eq (Nat.zero_le _) ⟨0, rfl⟩

/-- A limit below the unit, and no multiple of four. -/
def narrowOptions : Options := ⟨0, 16, 14⟩

/-- Two numbers that are both refused, the second of them for want of room. -/
def refusedTwice [Memory] : Writer Unit :=
  (.record .leak : Shape Sample.Record).write (⟨#[1, 3]⟩ : Sample.Leak)

theorem refusedTwice_represented : ∃ made : Pickle, @ofOptions .ample narrowOptions = .ok made ∧
    ((@refusedTwice .ample).after made).bytes = ⟨#[8, 0, 0, 0, 2, 0, 0, 0, 1, 0, 0, 0]⟩ ∧
    ((@refusedTwice .ample).after made).capacity = 14 ∧
    MadeWith narrowOptions ((@refusedTwice .ample).after made) ∧
    Represented narrowOptions ((@refusedTwice .ample).after made) ∧
    ((@refusedTwice .ample).after made).InRange := by
  let memory := Memory.ample
  have hrun : ((ofOptions narrowOptions).toOption.map fun made =>
      ((refusedTwice.after made).bytes, (refusedTwice.after made).capacity)) =
        some (⟨#[8, 0, 0, 0, 2, 0, 0, 0, 1, 0, 0, 0]⟩, 14) := by decide +kernel
  cases hmade : ofOptions narrowOptions with
  | error failure =>
      rw [hmade] at hrun
      cases hrun
  | ok made =>
      rw [hmade] at hrun
      obtain ⟨hbytes, hcapacity⟩ := Prod.mk.inj (Option.some.inj hrun)
      have hwrite : refusedTwice.ByMethods := Shape.byMethods_write Sample.byMethods _ _
      have hwritten : MadeWith narrowOptions (refusedTwice.after made) :=
        .written (.ofOptions hmade) hwrite
      obtain ⟨hrepresented, hrange, -⟩ := hwritten.represented Sample.byMethods
      exact ⟨made, rfl, hbytes, hcapacity, hwritten, hrepresented, hrange⟩

end Pickle

end Pickling
