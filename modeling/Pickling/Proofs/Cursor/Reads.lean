import Mathlib.Data.List.Infix
import Mathlib.Data.Nat.Bitwise
import Pickling.Cursor.Reading
import Pickling.Proofs.Content
import Pickling.Proofs.Shape.Steps
/-!
What it means that a reading answers to steps of writing: wherever it meets the segments of the steps,
it comes to the value and stands behind them, and where they have been cut short it says so. The
padding that a cut takes away is no loss. Main statements: readings that follow each other answer to
steps that follow each other (`Reader.Reads.bind`), and so does every reading of one segment
(`Reader.Reads.take`) and the atomic form of a reading (`Reader.Reads.atomically`).
-/
namespace Pickling

namespace Cursor

variable (cursor : Cursor) (m n : Nat)

/-- What is left to read, byte by byte. -/
def rest : List UInt8 := cursor.payload.data.toList.drop cursor.position

def advance : Cursor := { cursor with position := cursor.position + min n cursor.remaining }

@[simp] theorem length_rest : cursor.rest.length = cursor.remaining := by
  rw [rest, List.length_drop, Array.length_toList]
  rfl

@[simp] theorem remaining_advance : (cursor.advance n).remaining = cursor.remaining - n := by
  simp only [advance, remaining]
  omega

@[simp] theorem rest_advance : (cursor.advance n).rest = cursor.rest.drop n := by
  have hlength := cursor.length_rest
  rw [rest, rest, advance, List.drop_drop]
  rcases Nat.le_total n cursor.remaining with h | h
  · rw [Nat.min_eq_left h]
  · rw [Nat.min_eq_right h, ← List.drop_drop, ← List.drop_drop]
    exact (List.drop_eq_nil_of_le hlength.le).trans
      (List.drop_eq_nil_of_le (hlength.le.trans h)).symm

theorem toList_extract :
    (cursor.payload.extract cursor.position (cursor.position + n)).data.toList =
      cursor.rest.take n := by
  rw [ByteArray.data_extract, Array.toList_extract, List.extract_eq_take_drop,
    Nat.add_sub_cancel_left]
  rfl

theorem rest_advance_of_append {bytes : ByteArray} {more : List UInt8}
    (h : cursor.rest <+: bytes.data.toList ++ more) :
    (cursor.advance bytes.size).rest <+: more := by
  have hlength : bytes.data.toList.length = bytes.size := rfl
  have hdrop := List.IsPrefix.drop h bytes.size
  rwa [← hlength, List.drop_left, hlength, ← rest_advance] at hdrop

theorem advance_advance : (cursor.advance m).advance n = cursor.advance (m + n) := by
  simp only [advance, remaining, Cursor.mk.injEq, true_and]
  omega

@[simp] theorem advance_zero : cursor.advance 0 = cursor := by
  rw [advance, Nat.zero_min]
  rfl

end Cursor

namespace Wide

theorem size_bytes (wide : Wide) : wide.bytes.size = wide.units.length * 2 := by
  simp [bytes]

theorem ofBytes_bytes (wide : Wide) : ofBytes wide.bytes = wide := by
  obtain ⟨units⟩ := wide
  have hunits : unitsOf (units.flatMap fun u => LittleEndian.digits 2 u.toNat) = units := by
    induction units with
    | nil => rfl
    | cons u rest ih =>
        have hvalue : LittleEndian.value (LittleEndian.digits 2 u.toNat) = u.toNat := by
          rw [LittleEndian.value_digits]
          exact Nat.mod_eq_of_lt u.toNat_lt
        rw [List.flatMap_cons]
        change UInt16.ofNat (LittleEndian.value (LittleEndian.digits 2 u.toNat)) ::
          unitsOf (rest.flatMap fun u => LittleEndian.digits 2 u.toNat) = _
        rw [hvalue, UInt16.ofNat_toNat, ih]
  rw [ofBytes, bytes, List.data_toByteArray, hunits]

end Wide

namespace Reader

variable {α β : Type}

/-- What a reading of segments does where they have been cut. -/
def Truncated (result : EStateM.Result Failure Cursor α) (cursor : Cursor) : Prop :=
  ∃ element requested remaining position,
    result = .error (.truncatedRead element requested remaining) { cursor with position }

theorem atomically_of_truncated {read : Reader α} {cursor : Cursor}
    (h : Truncated (read cursor) cursor) : ∃ element requested remaining,
      atomically read cursor = .error (.truncatedRead element requested remaining) cursor := by
  obtain ⟨element, requested, remaining, position, hfail⟩ := h
  rw [atomically, hfail]
  exact ⟨element, requested, remaining, rfl⟩

/-- Readings that find the value in the segments of the steps. The segments may be followed by
anything, and may be cut anywhere. -/
def Reads (read : Reader α) (steps : List Step) (value : α) : Prop :=
  ∀ segments : List ByteArray, steps = segments.map .ok → (layout segments).size ≤ maxPayloadSize →
    ∀ (cursor : Cursor) (more : List UInt8),
      cursor.rest <+: (layout segments).data.toList ++ more →
      (Covers segments cursor.remaining →
        read cursor = .ok value (cursor.advance (layout segments).size)) ∧
      (¬ Covers segments cursor.remaining → Truncated (read cursor) cursor)

namespace Reads

theorem pure (value : α) : Reads (pure value) [] value := by
  intro segments hsteps _ cursor more _
  obtain rfl := List.map_eq_nil_iff.1 hsteps.symm
  refine ⟨fun _ => ?_, fun h => absurd covers_nil h⟩
  rw [show (layout []).size = 0 from rfl, cursor.advance_zero]
  rfl

theorem bind {read : Reader α} {next : α → Reader β} {first second : List Step} {a : α} {b : β}
    (hread : Reads read first a) (hnext : Reads (next a) second b) :
    Reads (read >>= next) (first ++ second) b := by
  intro segments hsteps hsize cursor more hbegins
  obtain ⟨front, back, rfl, hfront, hback⟩ := List.map_eq_append_iff.1 hsteps.symm
  rw [layout_append, ByteArray.size_append] at hsize
  rw [layout_append, ByteArray.toList_data_append, List.append_assoc] at hbegins
  obtain ⟨hwhole, hcut⟩ := hread front hfront.symm (by omega) cursor _ hbegins
  have hbind : (read >>= next) cursor = EStateM.bind read next cursor := rfl
  rw [covers_append, hbind, EStateM.bind]
  -- what comes of a cut behind the first segments is for the second reading to say
  by_cases hcovers : Covers front cursor.remaining
  · have hbehind := cursor.rest_advance_of_append hbegins
    have hlast := hnext back hback.symm (by omega) _ _ hbehind
    rw [Cursor.remaining_advance, Cursor.advance_advance] at hlast
    rw [hwhole hcovers, layout_append, ByteArray.size_append]
    exact ⟨fun h => hlast.1 h.2, fun h => hlast.2 fun hsecond => h ⟨hcovers, hsecond⟩⟩
  · refine ⟨fun h => absurd h.1 hcovers, fun _ => ?_⟩
    obtain ⟨element, requested, remaining, position, hfail⟩ := hcut hcovers
    rw [hfail]
    exact ⟨element, requested, remaining, position, rfl⟩

theorem map {read : Reader α} {steps : List Step} {a : α} (f : α → β)
    (hread : Reads read steps a) : Reads (f <$> read) steps (f a) := by
  rw [map_eq_pure_bind, ← List.append_nil steps]
  exact hread.bind (.pure (f a))

theorem take {bytes : ByteArray} {count : Nat} (h : bytes.size = count) (element : String) :
    Reads (take count element) [.ok bytes] bytes := by
  intro segments hsteps hsize cursor more hbegins
  obtain ⟨segment, _, rfl, hbytes, hnil⟩ := List.map_eq_cons_iff.1 hsteps.symm
  obtain rfl := List.map_eq_nil_iff.1 hnil
  obtain rfl := (Except.ok.inj hbytes).symm
  subst h
  have hlayout : layout [bytes] = padded bytes := ByteArray.append_empty
  have hcovers : Covers [bytes] cursor.remaining ↔ bytes.size ≤ cursor.remaining :=
    covers_cons.trans (and_iff_left covers_nil)
  rw [hlayout, size_padded] at hsize ⊢
  rw [hlayout] at hbegins
  rw [hcovers, Reader.take]
  refine ⟨fun hle => ?_, fun hlt => ?_⟩
  · have hword : maxPayloadSize + 3 < UInt64.size := by decide
    have hpadded := le_paddedSize bytes.size
    have hend : segmentEnd? bytes.size = some (paddedSize bytes.size) := by
      rw [segmentEnd?_eq, if_pos (by omega)]
    have hvalue : cursor.payload.extract cursor.position (cursor.position + bytes.size) = bytes := by
      apply ByteArray.ext
      apply Array.ext'
      have hlength : bytes.data.toList.length = bytes.size := rfl
      rw [Cursor.toList_extract, List.prefix_iff_eq_take.1 hbegins, List.take_take,
        Cursor.length_rest, Nat.min_eq_left hle, padded, ByteArray.toList_data_append,
        List.append_assoc, ← hlength, List.take_left]
    rw [if_neg (Nat.not_lt.2 hle), hvalue, hend]
    rfl
  · rw [if_pos (Nat.lt_of_not_le hlt)]
    exact ⟨element, bytes.size, cursor.remaining, cursor.position, rfl⟩

theorem atomically {read : Reader α} {steps : List Step} {a : α} (hread : Reads read steps a) :
    Reads (atomically read) steps a := by
  intro segments hsteps hsize cursor more hbegins
  obtain ⟨hwhole, hcut⟩ := hread segments hsteps hsize cursor more hbegins
  refine ⟨fun hcovers => ?_, fun hcovers => ?_⟩
  · rw [Reader.atomically, hwhole hcovers]
  · obtain ⟨element, requested, remaining, hfail⟩ := atomically_of_truncated (hcut hcovers)
    exact ⟨element, requested, remaining, cursor.position, hfail⟩

/-- A step that fails is answered by every reading. -/
theorem of_error {read : Reader α} {failure : Failure} {steps : List Step} {a : α} :
    Reads read (.error failure :: steps) a := by
  intro segments hsteps
  obtain ⟨_, _, _, hbytes, _⟩ := List.map_eq_cons_iff.1 hsteps.symm
  cases hbytes

theorem number (kind : Number) {n : Nat} (h : n < 256 ^ kind.size) :
    Reads (number kind) [.ok (LittleEndian.encode kind.size n)] n := by
  have hdecode : LittleEndian.decode (LittleEndian.encode kind.size n) = n := by
    rw [LittleEndian.decode_encode, Nat.mod_eq_of_lt h]
  have hread := (take (LittleEndian.size_encode kind.size n) kind.name).map LittleEndian.decode
  rwa [hdecode] at hread

theorem length (count : Nat) : Reads length [lengthStep count] count := by
  unfold lengthStep
  split
  · rename_i hle
    have hlt : count < 0x80000000 := Nat.lt_succ_of_le hle
    refine atomically (bind (number .i32 (hlt.trans (by decide))) ?_)
    rw [if_pos hlt]
    exact .pure count
  · exact of_error

theorem counted {elementSize count : Nat} {bytes : ByteArray} (element : String)
    (hsize : elementSize ≤ 2) (h : bytes.size = count * elementSize) :
    Reads (counted elementSize element) (countedSteps count bytes) bytes := by
  by_cases hle : count ≤ Writer.maxLength
  · have hword : count * elementSize ≤ largestWord :=
      (Nat.mul_le_mul hle hsize).trans (by decide)
    refine (length count).bind ?_
    rw [if_pos hword]
    exact take h element
  · rw [countedSteps, lengthStep, if_neg hle]
    exact of_error

theorem text (value : String) :
    Reads text (countedSteps value.utf8ByteSize value.toUTF8) value := by
  have hsize : value.toUTF8.size = value.utf8ByteSize * 1 := (Nat.mul_one _).symm
  rw [← List.append_nil (countedSteps _ _)]
  refine atomically ((counted "string" (by decide) hsize).bind ?_)
  rw [Text.Utf8.decode_toUTF8]
  exact .pure value

theorem wide (value : Wide) : Reads wide (countedSteps value.units.length value.bytes) value := by
  have hread := (counted "wide string" le_rfl value.size_bytes).map Wide.ofBytes
  rw [value.ofBytes_bytes] at hread
  exact atomically hread

theorem char (c : Char) : Reads char [.ok (LittleEndian.encode 4 c.toNat)] c := by
  have hlt : c.toNat < 256 ^ Number.u32.size := c.val.toNat_lt
  refine (number .u32 hlt).bind ?_
  have hvalid : c.toNat.isValidChar := c.valid
  rw [dif_pos hvalid]
  exact .pure c

theorem bool (value : Bool) : Reads bool [.ok (LittleEndian.encode 1 value.toNat)] value := by
  have hlt : value.toNat < 256 ^ Number.u8.size := value.toNat_lt.trans (by decide)
  refine atomically ((number .u8 hlt).bind ?_)
  cases value with
  | false => exact .pure false
  | true => exact .pure true

theorem path {spelling : String} {value : Path}
    (h : String.fromUTF8? value.spelling = some spelling) :
    Reads path (countedSteps spelling.utf8ByteSize spelling.toUTF8) value := by
  have hspelling : Path.mk spelling.toUTF8 = value := by
    unfold String.fromUTF8? at h
    split at h
    · cases h
      rfl
    · cases h
  rw [← hspelling]
  exact (text spelling).map _

/-- The number of elements comes with a guess that nothing depends on. -/
theorem count_bind {next : Nat × Nat → Reader β} {count : Nat} {steps : List Step} {b : β}
    (hnext : ∀ room, Reads (next (count, room)) steps b) :
    Reads (Reader.count >>= next) (lengthStep count :: steps) b := by
  -- the guess is taken from the cursor between the two readings, where `bind` lets nothing in
  have hcount : Reader.count >>= next = Reader.length >>= fun count cursor =>
      next (count, min count (cursor.remaining / segmentAlignment.toNat)) cursor := by
    rw [Reader.count, bind_assoc]
    rfl
  rw [hcount]
  refine (length count).bind ?_
  intro segments hsteps hsize cursor more hbegins
  exact hnext _ segments hsteps hsize cursor more hbegins

/-- Items that are read one by one, where `collect` tells the collection of those up to any. -/
theorem gather {item : Reader α} {put : β → α → β} {steps : α → List Step} {collect : List α → β}
    {items : List α} (hitem : ∀ a ∈ items, Reads item (steps a) a) (before : List α)
    (hput : ∀ front a, front ++ [a] <+: before ++ items →
      put (collect front) a = collect (front ++ [a])) :
    Reads (Reader.gather item put items.length (collect before)) (items.flatMap steps)
      (collect (before ++ items)) := by
  induction items generalizing before with
  | nil =>
      rw [List.append_nil]
      exact .pure _
  | cons a rest ih =>
      have hsplit : before ++ a :: rest = before ++ [a] ++ rest := by simp
      rw [hsplit] at hput ⊢
      refine (hitem a List.mem_cons_self).bind ?_
      rw [hput before a (List.prefix_append _ _)]
      exact ih (fun b hb => hitem b (List.mem_cons_of_mem a hb)) (before ++ [a]) hput

theorem gather_list {item : Reader α} {put : List α → α → List α} {steps : α → List Step}
    {items : List α} (hitem : ∀ a ∈ items, Reads item (steps a) a)
    (hput : ∀ front a, front ++ [a] <+: items → put front a = front ++ [a]) :
    Reads (Reader.gather item put items.length []) (items.flatMap steps) items :=
  @gather α (List α) item put steps id items hitem [] hput

theorem gather_array {item : Reader α} {steps : α → List Step} {items : Array α}
    (hitem : ∀ a ∈ items.toList, Reads item (steps a) a) :
    Reads (Reader.gather item Array.push items.size #[]) (items.toList.flatMap steps) items :=
  @gather α (Array α) item Array.push steps List.toArray items.toList hitem [] fun _ _ _ => by simp

end Reads

end Reader

end Pickling
