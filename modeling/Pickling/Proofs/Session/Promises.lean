import Mathlib.Data.Nat.Bitwise
import Pickling.Proofs.Session.Fitting
/-!
Room that is promised. Whatever is written within it succeeds, no memory is asked for more, and the
capacity stays what it is. Main statement: room is promised by a reservation that succeeds and to a
pickle that is made with it, however the writes share it (`Pickle.promises_kept`).
-/
namespace Pickling

/-- What is added to a pickle by one write: a segment as it is, or a built-in value. -/
inductive Addition where
  | segment (bytes : ByteArray)
  | value (item : Item)

namespace Addition

def perform [Memory] : Addition → Writer Unit
  | segment bytes => Writer.segment bytes
  | value item => item.shape.write item.value

def size : Addition → Nat
  | segment bytes => paddedSize bytes.size
  | value item => BuiltIn.encodedSize item.shape item.value

def Expressible : Addition → Prop
  | segment _ => True
  | value item => BuiltIn.LengthsFit item.shape item.value ∧ BuiltIn.PathsSpelled item.shape item.value

def steps : Addition → List Step
  | segment bytes => [.ok bytes]
  | value item => item.steps

theorem takes_perform [Memory] (addition : Addition) : addition.perform.Takes addition.steps := by
  cases addition with
  | segment bytes => exact .segment bytes
  | value item => exact item.takes_write

theorem Expressible.exists_segments {addition : Addition} (h : addition.Expressible) :
    ∃ segments : List ByteArray, addition.steps = segments.map .ok ∧
      (layout segments).size = addition.size := by
  cases addition with
  | segment bytes =>
      refine ⟨[bytes], rfl, ?_⟩
      simp [layout, size]
  | value item =>
      obtain ⟨segments, hsteps⟩ := item.steps_eq_segments_iff.2 h
      exact ⟨segments, hsteps, item.size_segments hsteps⟩

end Addition

namespace Pickle

/-- All of these can be written, one after the other, with the capacity that is there, and each takes
the bytes that are reckoned for it. The memory is never asked for more, so that it may be any. -/
def Accepts : List Addition → Pickle → Prop
  | [], _ => True
  | addition :: rest, pickle => ∀ [Memory], ∃ written, addition.perform pickle = .ok () written ∧
      written.capacity = pickle.capacity ∧ written.size = pickle.size + addition.size ∧
        written.Accepts rest

/-- What a promise of so much room comes to. -/
def Promises (room : Nat) (pickle : Pickle) : Prop :=
  ∀ additions : List Addition, (∀ addition ∈ additions, addition.Expressible) →
    (additions.map Addition.size).sum ≤ room → pickle.Accepts additions

namespace Valid

variable {pickle : Pickle}

section Memory

variable [Memory]

theorem append_of_room (h : pickle.Valid) {bytes : ByteArray}
    (hroom : pickle.size + paddedSize bytes.size ≤ pickle.capacity.toNat) :
    pickle.append bytes =
      .ok (holding (pickle.payload ++ padded bytes) pickle.capacity pickle.buffer.growth) := by
  have hcapacity : pickle.capacity.toNat ≤ maxSize := h.admits.le_limit.trans h.limit_le
  have hmax : maxSize = headerSize + maxPayloadSize := rfl
  have hsize := h.size_eq
  rw [append_eq h, if_pos (by omega), Buffer.reserve_of_le hroom]
  rfl

theorem follow_of_room (h : pickle.Valid) {segments : List ByteArray}
    (hroom : pickle.size + (layout segments).size ≤ pickle.capacity.toNat) :
    ∃ written, pickle.follow (segments.map .ok) = .ok written ∧ written.Valid ∧
      written.capacity = pickle.capacity ∧ written.size = pickle.size + (layout segments).size := by
  induction segments generalizing pickle with
  | nil => exact ⟨pickle, rfl, h, rfl, rfl⟩
  | cons bytes rest ih =>
      have hlayout : (layout (bytes :: rest)).size = paddedSize bytes.size + (layout rest).size := by
        rw [layout, ByteArray.size_append, size_padded]
      rw [hlayout, ← Nat.add_assoc] at hroom ⊢
      have happend := h.append_of_room (Nat.le_of_add_right_le hroom)
      obtain ⟨-, -, hvalid, -⟩ := h.append_ok happend
      have hsize : (holding (pickle.payload ++ padded bytes) pickle.capacity
          pickle.buffer.growth).size = pickle.size + paddedSize bytes.size := by
        rw [size_holding, ByteArray.size_append, size_padded, ← Nat.add_assoc, h.size_eq]
      rw [← hsize] at hroom ⊢
      obtain ⟨written, hfollow, hwritten⟩ := ih hvalid hroom
      refine ⟨written, ?_, hwritten⟩
      change pickle.append bytes >>= follow (rest.map .ok) = _
      rw [happend]
      exact hfollow

theorem perform_of_room (h : pickle.Valid) {addition : Addition} (hexpressible : addition.Expressible)
    (hroom : pickle.size + addition.size ≤ pickle.capacity.toNat) :
    ∃ written, addition.perform pickle = .ok () written ∧ written.Valid ∧
      written.capacity = pickle.capacity ∧ written.size = pickle.size + addition.size := by
  obtain ⟨segments, hsteps, hsize⟩ := hexpressible.exists_segments
  rw [← hsize] at hroom ⊢
  obtain ⟨written, hfollow, hwritten⟩ := h.follow_of_room hroom
  refine ⟨written, Writer.attempt_eq_ok.1 ?_, hwritten⟩
  rw [addition.takes_perform, hsteps]
  exact hfollow

end Memory

theorem promises (h : pickle.Valid) {room : Nat}
    (hroom : pickle.size + room ≤ pickle.capacity.toNat) : pickle.Promises room := by
  intro additions hexpressible hsum
  induction additions generalizing pickle room with
  | nil => trivial
  | cons addition rest ih =>
      rw [List.map_cons, List.sum_cons] at hsum
      intro memory
      obtain ⟨written, hperform, hvalid, hcapacity, hsize⟩ :=
        h.perform_of_room (hexpressible addition List.mem_cons_self) (by omega)
      have hleft : written.size + (room - addition.size) ≤ written.capacity.toNat := by
        rw [hcapacity]
        omega
      refine ⟨written, hperform, hcapacity, hsize, ih hvalid hleft ?_ (by omega)⟩
      intro other hmem
      exact hexpressible other (List.mem_cons_of_mem addition hmem)

variable [Memory]

theorem promises_of_reserve (h : pickle.Valid) {count : Nat} {reserved : Pickle}
    (hok : Writer.reserve count pickle = .ok () reserved) :
    reserved.bytes = pickle.bytes ∧ reserved.Promises (paddedSize count) := by
  have hchange := Writer.attempt_eq_ok.2 hok
  rw [Writer.reserve, Writer.attempt_ofChange] at hchange
  obtain ⟨_, -, hvalid, -⟩ := h.reserve_count_ok hchange
  rw [reserve, segmentEnd?_eq] at hchange
  split_ifs at hchange
  obtain ⟨buffer, hbuffer, rfl⟩ := exists_of_map_eq_ok hchange
  obtain ⟨capacity, rfl, hroom, -⟩ := h.reserve_ok hbuffer
  exact ⟨rfl, hvalid.promises hroom⟩

end Valid

theorem of_reserve_error [Memory] {pickle left : Pickle} {count : Nat} {failure : Failure}
    (h : Writer.reserve count pickle = .error failure left) : left = pickle := by
  rw [Writer.reserve, Writer.ofChange] at h
  split at h
  · cases h
  · cases h
    rfl

theorem promises_withCapacity {count : Nat} (h : headerSize + count ≤ maxSize) :
    (withCapacity count).Promises count := by
  have hlimit : Growth.pickle.limit.toNat = maxSize := rfl
  obtain ⟨hroom, -⟩ := Buffer.le_withCapacity
    (max (min (headerSize + count) Growth.pickle.limit.toNat) headerSize) .pickle
  refine (valid_withCapacity count).promises (Nat.le_trans ?_ hroom)
  rw [withCapacity_eq, size_holding, ByteArray.size_empty]
  omega

section Options

variable [Memory] {options : Options}

theorem room_of_ofOptions {made : Pickle} (h : ofOptions options = .ok made) :
    min (headerSize + options.initialCapacity.toNat) made.limit ≤ made.capacity.toNat := by
  rw [ofOptions] at h
  obtain ⟨growth, -, h⟩ := exists_of_bind_eq_ok h
  dsimp only at h
  split at h
  · obtain ⟨buffer, hbuffer, h⟩ := exists_of_bind_eq_ok h
    obtain ⟨room, rfl, hroom, -⟩ := Buffer.reserve_ok hbuffer
    obtain ⟨extended, hextended, h⟩ := exists_of_bind_eq_ok h
    obtain ⟨reserved, hreserved, hextended⟩ := exists_of_bind_eq_ok hextended
    obtain ⟨capacity, rfl, hheader, hgrown⟩ := Buffer.reserve_ok hreserved
    have hle : room.toNat ≤ capacity.toNat := by
      rcases hgrown with rfl | ⟨hlt, -⟩
      · exact le_rfl
      · exact hlt.le.trans hheader
    rw [← Except.ok.inj h, ← Except.ok.inj hextended]
    exact (Nat.le_add_left _ _).trans (hroom.trans hle)
  · cases h

/-- Options that make sense, and a memory that grants what they allow, make a pickle. -/
theorem promises_ofOptions (hunit : options.allocationUnit.toNat.isPowerOfTwo)
    (hfits : headerSize + options.initialCapacity.toNat ≤ options.limit)
    (hgranted : Memory.GrantsUpTo options.limit) : ∃ made, ofOptions options = .ok made ∧
      made.Promises options.initialCapacity.toNat := by
  have hlimit : options.limit ≤ maxSize := Nat.min_le_right _ _
  have hword : maxSize ≤ largestWord := by decide
  cases hmade : ofOptions options with
  | error failure =>
      rcases ofOptions_error hmade with hgrowth | ⟨growth, hgrowth, ⟨hlarge, -⟩ | ⟨-, hrefused⟩⟩
      · have hheader : headerSize.toUInt64 ≤ options.maxCapacity :=
          UInt64.le_iff_toNat_le.2
            ((Nat.le_of_add_right_le hfits).trans (Nat.min_le_left _ _))
        rw [Options.growth, dif_pos hunit, if_pos hheader] at hgrowth
        cases hgrowth
      · omega
      · obtain ⟨-, -, hlimit⟩ := limit_of_growth hgrowth
        rw [hlimit] at hrefused
        exact absurd hgranted hrefused
  | ok made =>
      obtain ⟨growth, -, -, hblank, hvalid⟩ := ofOptions_ok hmade
      obtain ⟨-, hlimit⟩ := (MadeWith.ofOptions hmade).growth_eq
      have hsize : made.size = headerSize := by
        rw [hblank, size_holding, ByteArray.size_empty, Nat.add_zero]
      have hroom := room_of_ofOptions hmade
      rw [hlimit, Nat.min_eq_left hfits, ← hsize] at hroom
      exact ⟨made, rfl, hvalid.promises hroom⟩

/-- Asked for room in either way, the standard options make the same pickle. -/
theorem ofOptions_standard (count : UInt64) (hword : headerSize + count.toNat ≤ largestWord)
    (hgranted : Memory.GrantsUpTo maxSize) :
    ofOptions { Options.standard with initialCapacity := count } = .ok (withCapacity count.toNat) := by
  have hgrowth : Options.growth { Options.standard with initialCapacity := count } = .ok .pickle :=
    (dif_pos Growth.defaultUnit_isPowerOfTwo).trans
      (if_pos (show headerSize.toUInt64 ≤ Options.standard.maxCapacity by decide))
  have hlimit : Growth.pickle.limit.toNat = maxSize := rfl
  have hheader : 0 < headerSize ∧ headerSize ≤ maxSize := by decide
  obtain ⟨wanted, hwanted⟩ : ∃ wanted, wanted = min (headerSize + count.toNat) maxSize := ⟨_, rfl⟩
  cases hcapacity : Growth.pickle.capacity? 0 wanted with
  | none =>
      have hlt := Growth.capacity?_eq_none_iff.1 hcapacity
      omega
  | some capacity =>
      obtain ⟨hroom, hcap⟩ := Growth.toNat_of_capacity? hcapacity
      have hzeroed : withCapacity count.toNat = holding .empty capacity .pickle := by
        have hmax : max wanted headerSize = wanted := by omega
        rw [withCapacity_eq, withCapacity, hlimit, ← hwanted, Buffer.zeroed, hmax,
          Buffer.withCapacity, hcapacity]
        rfl
      have hempty : Buffer.ofCapacity wanted .pickle = .ok { Buffer.empty .pickle with capacity } := by
        refine Buffer.reserve_of_granted ?_ ?_ (hgranted capacity (hcap.trans hlimit.le))
        · change 0 < 0 + wanted
          omega
        · change Growth.pickle.capacity? 0 (0 + wanted) = some capacity
          rw [Nat.zero_add, hcapacity]
      have hextended : ({ Buffer.empty .pickle with capacity } : Buffer).extend
          (default : Header).bytes = .ok (holding .empty capacity .pickle).buffer := by
        have hheld : headerSize ≤ capacity.toNat := by omega
        rw [Buffer.extend, Buffer.reserve_of_le ((Nat.zero_add _).trans_le hheld)]
        rfl
      simp only [ofOptions, hgrowth, bind, Except.bind, hword, if_true, hlimit, ← hwanted, hempty,
        hextended, hzeroed]
      rfl

end Options

/-- Room is promised by every reservation that succeeds, and by every way of making a pickle that has
it under its limit; both ways come to the same pickle. A reservation that fails changes nothing. -/
theorem promises_kept :
    (∀ pickle : Pickle, pickle.Reachable → ∀ [Memory] (count : Nat),
      (∀ reserved, Writer.reserve count pickle = .ok () reserved →
        reserved.bytes = pickle.bytes ∧ reserved.Promises (paddedSize count)) ∧
      ∀ failure left, Writer.reserve count pickle = .error failure left → left = pickle) ∧
    (∀ count : Nat, headerSize + count ≤ maxSize → (withCapacity count).Promises count) ∧
    (∀ [Memory] (options : Options), options.allocationUnit.toNat.isPowerOfTwo →
      headerSize + options.initialCapacity.toNat ≤ options.limit →
      Memory.GrantsUpTo options.limit → ∃ made, ofOptions options = .ok made ∧
        made.Promises options.initialCapacity.toNat) ∧
    ∀ [Memory] (count : UInt64), headerSize + count.toNat ≤ largestWord →
      Memory.GrantsUpTo maxSize →
        ofOptions { Options.standard with initialCapacity := count } =
          .ok (withCapacity count.toNat) := by
  refine ⟨fun pickle hreachable _ count => ⟨fun reserved => ?_, fun failure left => ?_⟩,
    fun count => promises_withCapacity, fun options => promises_ofOptions, ofOptions_standard⟩
  · exact hreachable.valid.promises_of_reserve
  · exact of_reserve_error

/-- Forty-five bytes as they are, a text of three letters and a vector of one number: sixteen words. -/
def sharedRoom : List Addition :=
  [.segment (constantBytes 45 1), .value ⟨.text, "abc"⟩,
    .value ⟨.sequence .vector (.number .u8), #[(7 : BitVec 8)]⟩]

def eightBytes : List Addition := [.segment ⟨#[1, 2, 3]⟩, .segment ⟨#[4, 5, 6, 7, 8]⟩]

def threeWordOptions : Options := ⟨12, 16, 16⟩

theorem sharedRoom_kept :
    (∃ reserved, @Writer.reserve .ample 61 empty = .ok () reserved ∧ reserved.capacity = 128 ∧
      reserved.bytes = empty.bytes ∧ reserved.Accepts sharedRoom) ∧
    (withCapacity 64).Accepts sharedRoom ∧
    (∃ made, @ofOptions .ample threeWordOptions = .ok made ∧
      made.Accepts eightBytes) ∧
    @ofOptions .ample { Options.standard with initialCapacity := 64 } = .ok (withCapacity 64) := by
  let memory := Memory.ample
  obtain ⟨hreserved, hwith, hoptions, hstandard⟩ := promises_kept
  have hexpressible : ∀ addition ∈ sharedRoom, addition.Expressible := by
    have htext : 3 ≤ Writer.maxLength := by decide
    have hvector : 1 ≤ Writer.maxLength := by decide
    intro addition hmem
    simp only [sharedRoom, List.mem_cons, List.not_mem_nil, or_false] at hmem
    rcases hmem with rfl | rfl | rfl
    · trivial
    · exact ⟨htext, trivial⟩
    · exact ⟨⟨hvector, fun _ _ => trivial⟩, trivial, fun _ _ => trivial⟩
  have hsum : (sharedRoom.map Addition.size).sum ≤ 64 := by decide +kernel
  refine ⟨?_, hwith 64 (by decide) sharedRoom hexpressible hsum, ?_, hstandard 64 (by decide)
    fun _ _ => rfl⟩
  · obtain ⟨hpromised, -⟩ := hreserved empty (.withCapacity _) 61
    have hcapacity : ((Writer.reserve 61).attempt empty).toOption.map capacity = some 128 := by
      decide +kernel
    cases hattempt : (Writer.reserve 61).attempt empty with
    | error failure =>
        rw [hattempt] at hcapacity
        cases hcapacity
    | ok reserved =>
        have hreserve := Writer.attempt_eq_ok.1 hattempt
        obtain ⟨hbytes, haccepts⟩ := hpromised reserved hreserve
        rw [hattempt] at hcapacity
        exact ⟨reserved, hreserve, Option.some.inj hcapacity, hbytes,
          haccepts sharedRoom hexpressible hsum⟩
  · obtain ⟨made, hmade, haccepts⟩ := hoptions threeWordOptions ⟨4, rfl⟩ (by decide) fun _ _ => rfl
    have hsegments : ∀ addition ∈ eightBytes, addition.Expressible := by
      intro addition hmem
      simp only [eightBytes, List.mem_cons, List.not_mem_nil, or_false] at hmem
      rcases hmem with rfl | rfl
      · trivial
      · trivial
    exact ⟨made, hmade, haccepts eightBytes hsegments (by decide)⟩

end Pickle

end Pickling
