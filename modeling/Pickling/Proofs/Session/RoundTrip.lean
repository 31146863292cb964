import Mathlib.Data.Nat.Bitwise
import Pickling.Proofs.Pickle.Reachable
import Pickling.Proofs.Shape.Decoding
/-!
Whole sessions: a row of values of any built-in shapes is written to a pickle, more may be written
behind, and the row is read back. Main statement: every reading succeeds, gives the value that was
written, and stops where its writing had stopped (`Written.readBack`).
-/
namespace Pickling

structure Item where
  shape : BuiltIn
  value : shape.Value

namespace Item

def Proper (item : Item) : Prop := item.shape.Proper item.value

def steps (item : Item) : List Step := BuiltIn.steps item.shape item.value

def segments (item : Item) : List ByteArray := item.steps.filterMap Except.toOption

def layoutOf (items : List Item) : ByteArray := layout (items.flatMap segments)

theorem layoutOf_cons (item : Item) (items : List Item) :
    layoutOf (item :: items) = layout item.segments ++ layoutOf items :=
  layout_append _ _

end Item

/-- Items are written one after the other, each as a whole. The numbers are the lengths of the payload
after each. -/
inductive Written : Pickle → List Item → List Nat → Pickle → Prop
  | nil {pickle : Pickle} : Written pickle [] [] pickle
  | cons [Memory] {item : Item} {items : List Item} {sizes : List Nat} {before after last : Pickle} :
      item.shape.write item.value before = .ok () after → Written after items sizes last →
        Written before (item :: items) (after.payloadSize :: sizes) last

/-- Items are read one after the other, each as a whole. The numbers are the positions after each. -/
inductive ReadBack : Cursor → List Item → List Nat → Cursor → Prop
  | nil {cursor : Cursor} : ReadBack cursor [] [] cursor
  | cons {item : Item} {items : List Item} {positions : List Nat} {before after last : Cursor} :
      item.shape.read before = .ok item.value after → ReadBack after items positions last →
        ReadBack before (item :: items) (after.position :: positions) last

namespace Item

variable {item : Item}

theorem reads (h : item.Proper) : item.shape.decode.Reads item.steps item.value :=
  BuiltIn.reads_decode item.shape item.value h

theorem takes_write [Memory] (item : Item) :
    (item.shape.write item.value).Takes item.steps :=
  .atomically (BuiltIn.takes_encode item.shape item.value)

theorem segments_eq {segments : List ByteArray} (item : Item) (h : item.steps = segments.map .ok) :
    item.segments = segments := by
  rw [Item.segments, h, List.filterMap_map]
  exact List.filterMap_some

theorem write_ok [Memory] {pickle written : Pickle} (hvalid : pickle.Valid)
    (h : item.shape.write item.value pickle = .ok () written) : written.Valid ∧
      item.steps = item.segments.map .ok ∧
        written.payload = pickle.payload ++ layout item.segments := by
  have hfollow := Writer.attempt_eq_ok.2 h
  rw [item.takes_write] at hfollow
  obtain ⟨hwritten, segments, hsteps, hpayload⟩ := Pickle.follow_ok hvalid hfollow
  rw [item.segments_eq hsteps]
  exact ⟨hwritten, hsteps, hpayload⟩

theorem read_between (h : item.Proper) (hsteps : item.steps = item.segments.map .ok)
    (hsize : (layout item.segments).size ≤ maxPayloadSize) (before behind : ByteArray) :
    item.shape.read ⟨before ++ (layout item.segments ++ behind), before.size⟩ =
      .ok item.value ⟨before ++ (layout item.segments ++ behind),
        before.size + (layout item.segments).size⟩ := by
  have hrest : (Cursor.mk (before ++ (layout item.segments ++ behind)) before.size).rest =
      (layout item.segments).data.toList ++ behind.data.toList := by
    have hlength : before.data.toList.length = before.size := rfl
    rw [Cursor.rest, ByteArray.toList_data_append, ByteArray.toList_data_append, ← hlength,
      List.drop_left]
  have hremaining : (layout item.segments).size ≤
      (Cursor.mk (before ++ (layout item.segments ++ behind)) before.size).remaining := by
    simp only [Cursor.remaining, ByteArray.size_append]
    omega
  have hbegins : (Cursor.mk (before ++ (layout item.segments ++ behind)) before.size).rest <+:
      (layout item.segments).data.toList ++ behind.data.toList := by rw [hrest]
  have hread := (reads h).atomically item.segments hsteps hsize _ _ hbegins
  rw [Shape.read, hread.1 (covers_of_le hremaining), Cursor.advance, Nat.min_eq_left hremaining]

end Item

namespace Written

variable {pickle written : Pickle} {items : List Item} {sizes : List Nat}

theorem extension (h : Written pickle items sizes written) (hvalid : pickle.Valid) :
    pickle.Extends written := by
  induction h with
  | nil => exact hvalid.extends_self
  | @cons _ item _ _ before after last hwrite _ ih =>
      have hafter :=
        (item.shape.byMethods_write BuiltIn.byMethods item.value).extending before hvalid
      rw [Writer.after_of_ok hwrite] at hafter
      exact hafter.trans (ih hafter.valid)

/-- The payload grows by the items as they are laid out, and the numbers tell where each of them ends
and the next begins. -/
theorem laid_out (h : Written pickle items sizes written) (hvalid : pickle.Valid) :
    (∀ item ∈ items, item.steps = item.segments.map .ok) ∧
      written.payload = pickle.payload ++ Item.layoutOf items ∧
      ∀ i ≤ items.length, (pickle.payloadSize :: sizes)[i]? =
        some (pickle.payloadSize + (Item.layoutOf (items.take i)).size) := by
  induction h with
  | nil =>
      refine ⟨fun item hitem => absurd hitem List.not_mem_nil, ByteArray.append_empty.symm, ?_⟩
      intro i hi
      obtain rfl := Nat.le_zero.1 hi
      rfl
  | @cons _ item items sizes before after last hwrite _ ih =>
      obtain ⟨hafter, hitem, hpayload⟩ := Item.write_ok hvalid hwrite
      obtain ⟨hitems, hlast, hstarts⟩ := ih hafter
      refine ⟨List.forall_mem_cons.2 ⟨hitem, hitems⟩, ?_, ?_⟩
      · rw [hlast, hpayload, Item.layoutOf_cons, ByteArray.append_assoc]
      · intro i hi
        cases i with
        | zero => rfl
        | succ i =>
            have hsize : after.payloadSize = before.payloadSize + (layout item.segments).size := by
              rw [hafter.payloadSize_eq, hvalid.payloadSize_eq, hpayload, ByteArray.size_append]
            rw [List.getElem?_cons_succ, hstarts i (Nat.le_of_succ_le_succ hi), List.take_succ_cons,
              Item.layoutOf_cons, ByteArray.size_append, hsize, Nat.add_assoc]

theorem readBack_of_append (h : Written pickle items sizes written) (hvalid : pickle.Valid)
    (hproper : ∀ item ∈ items, item.Proper) (more : ByteArray) :
    ReadBack ⟨written.payload ++ more, pickle.payloadSize⟩ items sizes
      ⟨written.payload ++ more, written.payloadSize⟩ := by
  induction h with
  | nil => exact .nil
  | @cons _ item items sizes before after last hwrite hrest ih =>
      -- for this reading, the items that follow are but bytes behind its own
      obtain ⟨hafter, hsteps, hpayload⟩ := Item.write_ok hvalid hwrite
      obtain ⟨further, hfurther⟩ := (hrest.extension hafter).payload_eq
      have hsize := hafter.size_lt
      have hlater : last.payload ++ more =
          before.payload ++ (layout item.segments ++ (further ++ more)) := by
        rw [hfurther, hpayload, ByteArray.append_assoc, ByteArray.append_assoc]
      have hposition : after.payloadSize = before.payload.size + (layout item.segments).size := by
        rw [hafter.payloadSize_eq, hpayload, ByteArray.size_append]
      have hitem := Item.read_between (hproper item List.mem_cons_self) hsteps
        (by rw [hpayload, ByteArray.size_append] at hsize; omega) before.payload (further ++ more)
      rw [← hlater, ← hposition, ← hvalid.payloadSize_eq] at hitem
      exact .cons hitem (ih hafter fun other hother => hproper other (List.mem_cons_of_mem item hother))

/-- What has been written is read back from where it begins, whatever is written behind it, and every
reading stops where the writing of its item did. -/
theorem readBack (h : Written pickle items sizes written) (hreachable : pickle.Reachable)
    (hproper : ∀ item ∈ items, item.Proper) :
    (∀ {α : Type} (further : Writer α), further.ByMethods →
      ReadBack ⟨(further.after written).payload, pickle.payloadSize⟩ items sizes
        ⟨(further.after written).payload, written.payloadSize⟩) ∧
    (Cursor.mk written.payload written.payloadSize).remaining = 0 := by
  have hvalid := hreachable.valid
  have hwritten := (h.extension hvalid).valid
  constructor
  · intro α further hfurther
    obtain ⟨more, hmore⟩ := (hfurther.extending written hwritten).payload_eq
    rw [hmore]
    exact h.readBack_of_append hvalid hproper more
  · rw [Cursor.remaining, hwritten.payloadSize_eq, Nat.sub_self]

/-- A hashed set in an order of its own, and a tuple whose last member fills half of a word. -/
def twoItems : List Item :=
  [⟨.set .hashed (.number .u8), [(2 : BitVec 8), (1 : BitVec 8)]⟩,
    ⟨.cons .bool (.single (.number .i16)), (true, (-2 : BitVec 16))⟩]

theorem proper_twoItems : ∀ item ∈ twoItems, item.Proper := by
  have hset : Arrangement.hashed.Distinct (Number.order .u8) [(2 : BitVec 8), (1 : BitVec 8)] := by
    unfold Arrangement.Distinct
    decide
  intro item hitem
  rcases List.mem_cons.1 hitem with rfl | hitem
  · exact ⟨hset, fun _ _ => trivial⟩
  · obtain rfl := List.mem_singleton.1 hitem
    exact ⟨trivial, trivial⟩

theorem twoItems_written : ∃ sizes written, Written .empty twoItems sizes written := by
  refine ⟨_, _, @Written.cons .ample _ _ _ _ _ _ (Writer.eq_ok_after ?_)
    (@Written.cons .ample _ _ _ _ _ _ (Writer.eq_ok_after ?_) .nil)⟩
  · decide +kernel
  · decide +kernel

theorem twoItems_readBack : ∃ sizes written, Written .empty twoItems sizes written ∧
    ReadBack ⟨written.payload, Pickle.empty.payloadSize⟩ twoItems sizes
      ⟨written.payload, written.payloadSize⟩ := by
  obtain ⟨sizes, written, h⟩ := twoItems_written
  exact ⟨sizes, written, h, (h.readBack (.withCapacity _) proper_twoItems).1 (pure ()) (.pure ())⟩

end Written

end Pickling
