import Mathlib.Data.Nat.Bitwise
import Pickling.Proofs.Cursor.Recognises
import Pickling.Proofs.Digits
/-!
What the readers of basic values recognise. Each value has one spelling: a number its digits, a text
its length and its bytes.
-/
namespace Pickling

theorem LittleEndian.encode_decode (bytes : ByteArray) : encode bytes.size (decode bytes) = bytes := by
  have hdigits := digits_value bytes.data.toList
  rw [length_toList] at hdigits
  rw [encode, decode, hdigits]
  apply ByteArray.ext
  simp

theorem LittleEndian.decode_lt (bytes : ByteArray) : decode bytes < 256 ^ bytes.size :=
  value_lt bytes.data.toList

namespace Wide

theorem flatMap_unitsOf {count : Nat} (bytes : List UInt8) (h : bytes.length = count * 2) :
    (unitsOf bytes).flatMap (fun u => LittleEndian.digits 2 u.toNat) = bytes := by
  induction bytes using unitsOf.induct generalizing count with
  | case1 low high rest ih =>
      have hpower : 256 ^ [low, high].length = UInt16.size := by simp [UInt16.size]
      have hlt := (LittleEndian.value_lt [low, high]).trans_eq hpower
      have hunit : (UInt16.ofNat (LittleEndian.value [low, high])).toNat =
          LittleEndian.value [low, high] := UInt16.toNat_ofNat_of_lt' hlt
      have hrest : rest.length = (count - 1) * 2 := by
        simp only [List.length_cons] at h
        omega
      rw [unitsOf, List.flatMap_cons, hunit, ih hrest]
      exact congrArg (· ++ rest) (LittleEndian.digits_value [low, high])
  | case2 bytes hshort =>
      match bytes, hshort with
      | [], _ => rfl
      | [_], _ => simp at h; omega
      | low :: high :: rest, hshort => exact absurd rfl (hshort low high rest)

theorem bytes_ofBytes {bytes : ByteArray} {count : Nat} (h : bytes.size = count * 2) :
    (ofBytes bytes).bytes = bytes := by
  apply ByteArray.ext
  apply Array.ext'
  rw [Wide.bytes, ofBytes, List.data_toByteArray]
  exact flatMap_unitsOf bytes.data.toList h

end Wide

/-- Segments behind the number that a length is written as, if it is none too large. -/
def Counted (count : Nat) (rest segments : List ByteArray) : Prop :=
  count ≤ Writer.maxLength ∧ segments = LittleEndian.encode 4 count :: rest

namespace Reader.Recognises

variable {α β : Type}

/-- A reading that is refused unless a condition holds. -/
theorem ite {condition : Prop} [Decidable condition] {read otherwise : Reader α}
    {spells : α → List ByteArray → Prop} (h : read.Recognises spells)
    (hrefused : otherwise.Recognises fun _ _ => False) :
    (if condition then read else otherwise).Recognises fun value segments =>
      condition ∧ spells value segments := by
  split_ifs with hcondition
  · exact h.congr fun value segments => (and_iff_right hcondition).symm
  · exact hrefused.congr fun value segments => (iff_of_false id fun h => hcondition h.1)

theorem number (kind : Number) : (number kind).Recognises fun n segments =>
    n < 256 ^ kind.size ∧ segments = [LittleEndian.encode kind.size n] := by
  refine ((take kind.size kind.name).map LittleEndian.decode).congr fun n segments => ?_
  constructor
  · rintro ⟨bytes, ⟨hsize, rfl⟩, rfl⟩
    rw [← hsize, LittleEndian.encode_decode]
    exact ⟨LittleEndian.decode_lt bytes, rfl⟩
  · rintro ⟨hlt, rfl⟩
    refine ⟨_, ⟨LittleEndian.size_encode _ _, rfl⟩, ?_⟩
    rw [LittleEndian.decode_encode, Nat.mod_eq_of_lt hlt]

theorem length : length.Recognises fun count segments => Counted count [] segments := by
  have hmax (count : Nat) : count < 0x80000000 ↔ count ≤ Writer.maxLength := Nat.lt_succ_iff
  refine atomically (congr (inspect (number .i32) fun count =>
    ((pure count).ite (throw _)).congr fun _ _ => and_assoc.symm) fun count segments => ?_)
  constructor
  · rintro ⟨_, ⟨-, rfl⟩, hlt, rfl⟩
    exact ⟨(hmax _).1 hlt, rfl⟩
  · rintro ⟨hle, rfl⟩
    have hlt := (hmax count).2 hle
    exact ⟨count, ⟨hlt.trans (by decide), rfl⟩, hlt, rfl⟩

/-- What is read behind a length, and may depend on it. -/
theorem length_bind {next : Nat → Reader α} {follows : Nat → α → List ByteArray → Prop}
    (h : ∀ count, (next count).Recognises (follows count)) :
    (Reader.length >>= next).Recognises fun value segments =>
      ∃ count rest, follows count value rest ∧ Counted count rest segments := by
  refine (length.bind h).congr fun value segments => ?_
  constructor
  · rintro ⟨count, _, rest, ⟨hle, rfl⟩, hfollows, rfl⟩
    exact ⟨count, rest, hfollows, hle, rfl⟩
  · rintro ⟨count, rest, hfollows, hle, rfl⟩
    exact ⟨count, [_], rest, ⟨hle, rfl⟩, hfollows, rfl⟩

/-- The number of elements comes with a guess that nothing may depend on. -/
theorem count_bind {next : Nat × Nat → Reader α} {follows : Nat → α → List ByteArray → Prop}
    (h : ∀ count room, (next (count, room)).Recognises (follows count)) :
    (Reader.count >>= next).Recognises fun value segments =>
      ∃ count rest, follows count value rest ∧ Counted count rest segments := by
  have hcount : Reader.count >>= next = Reader.length >>= fun count cursor =>
      next (count, min count (cursor.remaining / segmentAlignment.toNat)) cursor := by
    rw [Reader.count, bind_assoc]
    rfl
  rw [hcount]
  refine length_bind fun count cursor hword => ?_
  exact h count _ cursor hword

theorem counted {elementSize : Nat} (hsize : elementSize ≤ 2) (element : String) :
    (counted elementSize element).Recognises fun bytes segments =>
      ∃ count, bytes.size = count * elementSize ∧ Counted count [bytes] segments := by
  refine (length_bind fun count => (take (count * elementSize) element).ite (throw _)).congr ?_
  intro bytes segments
  constructor
  · rintro ⟨count, _, ⟨-, hbytes, rfl⟩, hcounted⟩
    exact ⟨count, hbytes, hcounted⟩
  · rintro ⟨count, hbytes, hcounted⟩
    have hword : count * elementSize ≤ largestWord :=
      (Nat.mul_le_mul hcounted.1 hsize).trans (by decide)
    exact ⟨count, [bytes], ⟨hword, hbytes, rfl⟩, hcounted⟩

theorem text : text.Recognises fun value segments =>
    Counted value.utf8ByteSize [value.toUTF8] segments := by
  refine atomically (congr (@inspect _ _ _ _ _ (fun bytes value => bytes = value.toUTF8)
    (counted (by decide) "string") fun bytes => ?_) fun value segments => ?_)
  · cases hdecode : Text.Utf8.decode bytes with
    | ok decoded =>
        have hbytes := Text.Utf8.toUTF8_of_decode hdecode
        refine (pure decoded).congr fun value segments => and_congr_left' ?_
        rw [← hbytes]
        exact eq_comm.trans String.toByteArray_inj.symm
    | error fault =>
        refine (throw _).congr fun value segments => iff_of_false id ?_
        rintro ⟨rfl, -⟩
        rw [Text.Utf8.decode_toUTF8] at hdecode
        cases hdecode
  · constructor
    · rintro ⟨_, ⟨count, hsize, hcounted⟩, rfl⟩
      have hcount : value.utf8ByteSize = count := hsize.trans (Nat.mul_one count)
      rwa [hcount]
    · intro hcounted
      exact ⟨_, ⟨_, (Nat.mul_one _).symm, hcounted⟩, rfl⟩

theorem wide : wide.Recognises fun value segments =>
    Counted value.units.length [value.bytes] segments := by
  refine atomically (((counted le_rfl "wide string").map Wide.ofBytes).congr fun value segments => ?_)
  constructor
  · rintro ⟨bytes, ⟨count, hsize, hcounted⟩, rfl⟩
    have hbytes := Wide.bytes_ofBytes hsize
    have hunits := Wide.size_bytes (Wide.ofBytes bytes)
    rw [hbytes, hsize] at hunits
    rwa [hbytes, ← Nat.eq_of_mul_eq_mul_right (by decide) hunits]
  · intro hcounted
    exact ⟨value.bytes, ⟨_, value.size_bytes, hcounted⟩, value.ofBytes_bytes.symm⟩

theorem path : path.Recognises fun value segments =>
    ∃ spelling : String, value = ⟨spelling.toUTF8⟩ ∧
      Counted spelling.utf8ByteSize [spelling.toUTF8] segments :=
  (text.map _).congr fun _ _ => exists_congr fun _ => and_comm

theorem char : char.Recognises fun c segments =>
    segments = [LittleEndian.encode 4 c.toNat] := by
  refine congr (@inspect _ _ _ _ _ (fun code c => code = c.toNat) (number .u32) fun code => ?_)
    fun c segments => ?_
  · by_cases hvalid : code.isValidChar
    · rw [dif_pos hvalid]
      refine (pure _).congr fun c segments => and_congr_left' ?_
      constructor
      · rintro rfl
        rfl
      · rintro rfl
        rfl
    · rw [dif_neg hvalid]
      refine (throw _).congr fun c segments => iff_of_false id ?_
      rintro ⟨rfl, -⟩
      exact hvalid c.valid
  · constructor
    · rintro ⟨_, ⟨-, rfl⟩, rfl⟩
      rfl
    · rintro rfl
      exact ⟨c.toNat, ⟨c.val.toNat_lt, rfl⟩, rfl⟩

theorem bool : bool.Recognises fun value segments =>
    segments = [LittleEndian.encode 1 value.toNat] := by
  refine atomically (congr (@inspect _ _ _ _ _ (fun slot value => slot = value.toNat)
    (number .u8) fun slot => ?_) fun value segments => ?_)
  · -- two slots are taken, and no truth value stands for any other
    rcases slot with _ | _ | slot
    · exact (pure false).congr fun value segments => by cases value <;> simp
    · exact (pure true).congr fun value segments => by cases value <;> simp
    · exact (throw _).congr fun value segments => by cases value <;> simp
  · constructor
    · rintro ⟨_, ⟨-, rfl⟩, rfl⟩
      rfl
    · rintro rfl
      have hlt : value.toNat < 256 ^ Number.u8.size := value.toNat_lt.trans (by decide)
      exact ⟨value.toNat, ⟨hlt, rfl⟩, rfl⟩

end Reader.Recognises

end Pickling
