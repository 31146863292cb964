import Mathlib.Data.Nat.Bitwise
import Pickling.Proofs.Pickle.View
import Pickling.Proofs.Session.RoundTrip
/-!
Sessions whose bytes are cut short. Main statement: the reader gets every value whose last byte that is
not padding lies before the cut, and at the first other value it tells that the payload ends too early
and stays where it is (`Written.read_cut`).
-/
namespace Pickling

/-- Every value begins with a segment that is not empty. -/
theorem BuiltIn.isContent_zero (shape : BuiltIn) (value : shape.Value) {segments : List ByteArray}
    (h : steps shape value = segments.map .ok) : IsContent segments 0 := by
  have hfirst {bytes : ByteArray} {rest : List Step} {segments : List ByteArray}
      (hsteps : .ok bytes :: rest = segments.map .ok) (hbytes : 0 < bytes.size) :
      IsContent segments 0 := by
    obtain ⟨segment, _, rfl, hsegment, _⟩ := List.map_eq_cons_iff.1 hsteps.symm
    obtain rfl := (Except.ok.inj hsegment).symm
    exact .inl hbytes
  have hlength {count : Nat} {rest : List Step} {segments : List ByteArray}
      (hsteps : lengthStep count :: rest = segments.map .ok) : IsContent segments 0 := by
    unfold lengthStep at hsteps
    split at hsteps
    · exact hfirst hsteps (by rw [LittleEndian.size_encode]; decide)
    · obtain ⟨_, _, _, hsegment, _⟩ := List.map_eq_cons_iff.1 hsteps.symm
      cases hsegment
  induction shape generalizing segments with
  | bool | char => exact hfirst h (by rw [LittleEndian.size_encode]; decide)
  | number kind =>
      refine hfirst h ?_
      rw [LittleEndian.size_encode]
      cases kind <;> decide
  | text | wide | sequence | set | map => exact hlength h
  | path =>
      unfold steps at h
      split at h
      · exact hlength h
      · obtain ⟨_, _, _, hsegment, _⟩ := List.map_eq_cons_iff.1 h.symm
        cases hsegment
  | single member ih => exact ih value h
  | cons member rest hmember hrest =>
      obtain ⟨front, back, rfl, hfront, -⟩ := List.map_eq_append_iff.1 h.symm
      exact isContent_append_left (hmember value.1 hfront.symm) back
  | boxed content ih => exact ih value h
  | record name => exact name.elim

theorem Pickle.Valid.rest_ofBytes {pickle : Pickle} (h : pickle.Valid) (cut : Nat) :
    (Cursor.ofBytes (pickle.bytes.extract 0 cut)).rest =
      pickle.payload.data.toList.take (cut - headerSize) := by
  by_cases hle : headerSize ≤ cut
  · obtain ⟨count, rfl⟩ := Nat.exists_eq_add_of_le hle
    have hbytes : pickle.bytes.extract 0 (headerSize + count) =
        pickle.header.bytes ++ pickle.payload.extract 0 count := by
      rw [h.bytes_eq, ← Header.size_bytes pickle.header, extract_zero_append]
    have hvisible := @View.payload_ofBytes_append pickle.header (pickle.payload.extract 0 count)
      (by rw [h.toNat_header, ByteArray.size_extract]; omega)
    rw [hbytes, Cursor.ofBytes, Cursor.ofView, hvisible, Nat.add_sub_cancel_left]
    simp [Cursor.rest, Cursor.ofPayload, List.extract_eq_take_drop]
  · have hnone : Header.ofBytes? (pickle.bytes.extract 0 cut) = none := by
      rw [Header.ofBytes?, if_neg (by rw [ByteArray.size_extract]; omega)]
    have hzero : cut - headerSize = 0 := by omega
    rw [Cursor.ofBytes, View.ofBytes, hnone, hzero, List.take_zero]
    rfl

namespace Item

theorem not_covers_of_cut {item : Item} {rest : List Item}
    (hsteps : ∀ other ∈ rest, other.steps = other.segments.map .ok) {count : Nat}
    (hcut : ¬ Covers item.segments count) {i : Nat} {other : Item}
    (hother : (item :: rest)[i]? = some other) :
    ¬ Covers other.segments (count - (layoutOf ((item :: rest).take i)).size) := by
  cases i with
  | zero =>
      obtain rfl : item = other := Option.some.inj hother
      exact hcut
  | succ i =>
      -- nothing is left of what follows, and even its first byte matters
      have hshort : count < (layout item.segments).size :=
        Nat.lt_of_not_le fun hle => hcut (covers_of_le hle)
      have hmem : other ∈ rest := List.mem_of_getElem? hother
      have hzero := BuiltIn.isContent_zero other.shape other.value (hsteps other hmem)
      rw [List.take_succ_cons, layoutOf_cons, ByteArray.size_append]
      intro hcovers
      have hpos := hcovers 0 hzero
      omega

theorem read_items {items : List Item} (hproper : ∀ item ∈ items, item.Proper)
    (hsteps : ∀ item ∈ items, item.steps = item.segments.map .ok)
    (hsize : (layoutOf items).size ≤ maxPayloadSize) {cursor : Cursor}
    (hbegins : cursor.rest <+: (layoutOf items).data.toList) :
    ∃ count positions stopped, count ≤ items.length ∧
      ReadBack cursor (items.take count) positions stopped ∧
      (∀ item, items[count]? = some item → ∃ element requested remaining,
        item.shape.read stopped = .error (.truncatedRead element requested remaining) stopped) ∧
      ∀ i item, items[i]? = some item → (i < count ↔
        Covers item.segments (cursor.remaining - (layoutOf (items.take i)).size)) := by
  induction items generalizing cursor with
  | nil =>
      refine ⟨0, [], cursor, le_rfl, .nil, ?_, ?_⟩
      · intro item hitem
        cases hitem
      · intro i item hitem
        cases hitem
  | cons item rest ih =>
      rw [layoutOf_cons, ByteArray.toList_data_append] at hbegins
      rw [layoutOf_cons, ByteArray.size_append] at hsize
      have hreads := reads (hproper item List.mem_cons_self)
      have hitem := hsteps item List.mem_cons_self
      have hlater : ∀ other ∈ rest, other.steps = other.segments.map .ok := fun other hother =>
        hsteps other (List.mem_cons_of_mem item hother)
      -- the induction goes on from a cursor whose rest begins the layout of the items that are left
      by_cases hcovers : Covers item.segments cursor.remaining
      · have hread := (hreads.atomically item.segments hitem (by omega) cursor _ hbegins).1 hcovers
        obtain ⟨count, positions, stopped, hle, hback, hstop, hiff⟩ :=
          ih (fun other hother => hproper other (List.mem_cons_of_mem item hother)) hlater (by omega)
            (cursor.rest_advance_of_append hbegins)
        refine ⟨count + 1, _, stopped, Nat.succ_le_succ hle, .cons hread hback, hstop, ?_⟩
        intro i other hother
        cases i with
        | zero =>
            obtain rfl : item = other := Option.some.inj hother
            exact iff_of_true (Nat.succ_pos _) hcovers
        | succ i =>
            rw [Nat.succ_lt_succ_iff, hiff i other hother, Cursor.remaining_advance,
              List.take_succ_cons, layoutOf_cons, ByteArray.size_append, Nat.sub_sub]
      · refine ⟨0, [], cursor, Nat.zero_le _, .nil, ?_, ?_⟩
        · intro other hother
          obtain rfl : item = other := Option.some.inj hother
          exact Reader.atomically_of_truncated
            ((hreads item.segments hitem (by omega) cursor _ hbegins).2 hcovers)
        · intro i other hother
          exact iff_of_false (Nat.not_lt_zero i) (not_covers_of_cut hlater hcovers hother)

theorem last_lt {items : List Item} {i : Nat} (hi : i < items.length) {last : Nat}
    (hlast : IsLastContent items[i].segments last) :
    (layoutOf (items.take i)).size + last < (layoutOf items).size := by
  have hlt := isContent_lt hlast.1
  have hsplit : layoutOf items =
      layoutOf (items.take i) ++ (layout items[i].segments ++ layoutOf (items.drop (i + 1))) := by
    rw [← layoutOf_cons, ← List.drop_eq_getElem_cons hi, layoutOf, layoutOf, layoutOf,
      ← layout_append, ← List.flatMap_append, List.take_append_drop]
  rw [hsplit, ByteArray.size_append, ByteArray.size_append]
  omega

end Item

namespace Written

variable {pickle written : Pickle} {items : List Item} {sizes : List Nat}

/-- However the bytes of a fresh pickle are cut, the reader gets the items whose last byte that is not
padding lies before the cut, and no others: at the first of those it says that the payload ends too
early, and does not move. -/
theorem read_cut (h : Written pickle items sizes written) (hreachable : pickle.Reachable)
    (hfresh : pickle.payloadSize = 0) (hproper : ∀ item ∈ items, item.Proper) (cut : Nat) :
    written.payload = Item.layoutOf items ∧
    ∃ count positions stopped, count ≤ items.length ∧
      ReadBack (.ofBytes (written.bytes.extract 0 cut)) (items.take count) positions stopped ∧
      (∀ item, items[count]? = some item → ∃ element requested remaining,
        item.shape.read stopped = .error (.truncatedRead element requested remaining) stopped) ∧
      ∀ i item, items[i]? = some item → ∃ start last, (0 :: sizes)[i]? = some start ∧
        IsLastContent item.segments last ∧ (i < count ↔ headerSize + start + last < cut) := by
  have hvalid := hreachable.valid
  have hwritten := (h.extension hvalid).valid
  obtain ⟨hsteps, hpayload, hstarts⟩ := h.laid_out hvalid
  have hempty : pickle.payload = .empty :=
    ByteArray.size_eq_zero_iff.1 (hvalid.payloadSize_eq.symm.trans hfresh)
  rw [hempty, ByteArray.empty_append] at hpayload
  rw [hfresh] at hstarts
  have hrest := hwritten.rest_ofBytes cut
  have hremaining := Cursor.length_rest (.ofBytes (written.bytes.extract 0 cut))
  rw [hrest, List.length_take] at hremaining
  obtain ⟨count, positions, stopped, hle, hback, hstop, hiff⟩ := Item.read_items hproper hsteps
    (by rw [← hpayload]; exact hwritten.size_lt) (by rw [hrest, hpayload]; exact List.take_prefix _ _)
  refine ⟨hpayload, count, positions, stopped, hle, hback, hstop, fun i item hitem => ?_⟩
  obtain ⟨hi, rfl⟩ := List.getElem?_eq_some_iff.1 hitem
  obtain ⟨last, hlast⟩ := exists_isLastContent (BuiltIn.isContent_zero items[i].shape items[i].value
    (hsteps _ (List.getElem_mem hi)))
  have hlt := Item.last_lt hi hlast
  have hlength : written.payload.data.toList.length = (Item.layoutOf items).size := by
    rw [hpayload]
    rfl
  refine ⟨_, last, hstarts i hi.le, hlast, ?_⟩
  rw [hiff i _ hitem, covers_iff_of_isLastContent hlast, ← hremaining, hlength]
  omega

/-- The first of the two items ends with the byte at 12, and the second with the byte at 21. -/
theorem lt_count_twoItems {sizes : List Nat} {written : Pickle}
    (h : Written .empty twoItems sizes written) {count cut : Nat}
    (hiff : ∀ i item, twoItems[i]? = some item → ∃ start last, (0 :: sizes)[i]? = some start ∧
      IsLastContent item.segments last ∧ (i < count ↔ headerSize + start + last < cut)) :
    (0 < count ↔ 12 < cut) ∧ (1 < count ↔ 21 < cut) := by
  have hvalid : Pickle.empty.Valid := Pickle.valid_withCapacity _
  obtain ⟨-, -, hstarts⟩ := h.laid_out hvalid
  have hsecond : (0 :: sizes)[1]? = some 12 :=
    (hstarts 1 (by decide)).trans (congrArg some (by decide +kernel))
  have hset : twoItems[0].segments = [⟨#[2, 0, 0, 0]⟩, ⟨#[2]⟩, ⟨#[1]⟩] := by decide +kernel
  have htuple : twoItems[1].segments = [⟨#[1]⟩, ⟨#[0xfe, 0xff]⟩] := by decide +kernel
  obtain ⟨start, last, hstart, hlast, hfirst⟩ := hiff 0 _ rfl
  obtain ⟨start', last', hstart', hlast', hother⟩ := hiff 1 _ rfl
  obtain rfl : 0 = start := Option.some.inj hstart
  obtain rfl : 12 = start' := Option.some.inj (hsecond.symm.trans hstart')
  have hend (bytes : ByteArray) (h : 0 < bytes.size) : IsLastContent [bytes] (bytes.size - 1) :=
    isLastContent_cons_of_none h fun _ => id
  have height : IsLastContent twoItems[0].segments 8 :=
    hset ▸ ((hend ⟨#[1]⟩ (by decide)).cons ⟨#[2]⟩).cons ⟨#[2, 0, 0, 0]⟩
  have hfive : IsLastContent twoItems[1].segments 5 :=
    htuple ▸ (hend ⟨#[0xfe, 0xff]⟩ (by decide)).cons ⟨#[1]⟩
  obtain rfl := hlast.eq height
  obtain rfl := hlast'.eq hfive
  exact ⟨hfirst, hother⟩

/-- A cut that takes but padding, and one that takes the last byte of the second item. -/
theorem twoItems_read_cut : ∃ sizes written, Written .empty twoItems sizes written ∧
    Pickle.empty.payloadSize = 0 ∧
    (∃ positions stopped,
      ReadBack (.ofBytes (written.bytes.extract 0 22)) twoItems positions stopped) ∧
    ∃ positions stopped,
      ReadBack (.ofBytes (written.bytes.extract 0 21)) [twoItems[0]] positions stopped ∧
      ∃ element requested remaining, twoItems[1].shape.read stopped =
        .error (.truncatedRead element requested remaining) stopped := by
  obtain ⟨sizes, written, h⟩ := twoItems_written
  have hfresh : Pickle.empty.payloadSize = 0 := by decide +kernel
  have hlength : twoItems.length = 2 := rfl
  refine ⟨sizes, written, h, hfresh, ?_, ?_⟩
  · obtain ⟨-, count, positions, stopped, hle, hback, -, hiff⟩ :=
      h.read_cut (.withCapacity _) hfresh proper_twoItems 22
    obtain ⟨-, hsecond⟩ := h.lt_count_twoItems hiff
    obtain rfl : count = 2 := by omega
    exact ⟨positions, stopped, hback⟩
  · obtain ⟨-, count, positions, stopped, -, hback, hstop, hiff⟩ :=
      h.read_cut (.withCapacity _) hfresh proper_twoItems 21
    obtain ⟨hfirst, hsecond⟩ := h.lt_count_twoItems hiff
    obtain rfl : count = 1 := by omega
    exact ⟨positions, stopped, hback, hstop _ rfl⟩

end Written

end Pickling
