import Mathlib.Data.Nat.Bitwise
import Pickling.Proofs.Pickle.View
import Pickling.Proofs.Session.Reference
/-!
Nothing that can be told of pickles depends on their room, as long as the memory grants what their
limits allow. Main statement: every session over pickles has the results of the same session over
payloads and limits, and leaves the bytes that it tells (`Pickle.run_refines`).
-/
namespace Pickling

open Reference (ofPickle)

namespace Pickle

theorem ofPickle_holding (payload : ByteArray) (capacity : UInt64) (growth : Growth) :
    ofPickle (holding payload capacity growth) = ⟨payload, growth.limit.toNat⟩ :=
  congrArg (Reference.mk · growth.limit.toNat) (payload_holding payload capacity growth)

theorem limit_of_eq_holding {pickle : Pickle} {payload : ByteArray} {capacity : UInt64}
    {growth : Growth} (h : pickle = holding payload capacity growth) :
    pickle.limit = growth.limit.toNat := by
  rw [h, limit_holding]

theorem limit_pickle : Growth.pickle.limit.toNat = maxSize := rfl

theorem visible_eq (bytes : ByteArray) :
    (View.ofBytes bytes).payload.extract 0 maxPayloadSize = Reference.visible bytes := by
  rw [Reference.visible]
  cases hheader : Header.ofBytes? bytes with
  | none =>
      rw [View.payload_of_none hheader]
      exact ByteArray.extract_eq_empty_iff.2 (Nat.min_le_right _ _)
  | some header =>
      rw [View.payload_of_some hheader, ByteArray.extract_extract]
      refine extract_congr_right ?_
      omega

variable [Memory] {pickle written : Pickle}

/-- Valid pickles in a memory that grants all they may ever ask for. -/
structure Served (pickle : Pickle) : Prop where
  valid : pickle.Valid
  granted : Memory.GrantsUpTo pickle.limit

theorem Served.of_limit {limit : Nat} (hgranted : Memory.GrantsUpTo limit) (hvalid : pickle.Valid)
    (hlimit : pickle.limit = limit) : pickle.Served :=
  ⟨hvalid, by rwa [hlimit]⟩

theorem Served.of_extends (h : pickle.Served) (hext : pickle.Extends written) : written.Served :=
  .of_limit h.granted hext.valid hext.limit_eq

namespace Served

theorem reserve_ok (h : pickle.Served) {count : Nat} {reserved : Buffer}
    (hok : pickle.buffer.reserve count = .ok reserved) :
    (ofPickle pickle).sizeWith count ≤ pickle.limit := by
  obtain ⟨capacity, -, hroom, -, hadmits⟩ := h.valid.reserve_ok hok
  rw [h.valid.size_eq] at hroom
  exact hroom.trans hadmits.le_limit

theorem reserve_error (h : pickle.Served) {count : Nat} {failure : Failure}
    (herror : pickle.buffer.reserve count = .error failure) :
    pickle.limit < (ofPickle pickle).sizeWith count ∧
      failure = .allocationFailure (saturated ((ofPickle pickle).sizeWith count)) := by
  have hsize : pickle.buffer.size + count = (ofPickle pickle).sizeWith count :=
    congrArg (· + count) h.valid.size_eq
  rcases Buffer.reserve_error herror with hlimit | ⟨-, hrefused⟩
  · rwa [hsize] at hlimit
  · exact absurd h.granted hrefused

theorem append_refines (h : pickle.Served) (bytes : ByteArray) :
    (pickle.append bytes).map ofPickle = (ofPickle pickle).append bytes := by
  have hmax : maxSize = headerSize + maxPayloadSize := rfl
  have hsize : (ofPickle pickle).sizeWith (paddedSize bytes.size) =
      headerSize + pickle.payload.size + paddedSize bytes.size := rfl
  have hlimit : pickle.limit ≤ maxSize := h.valid.limit_le
  rw [append_eq h.valid, Reference.append]
  by_cases hfits : pickle.payload.size + paddedSize bytes.size ≤ maxPayloadSize
  · rw [if_pos hfits]
    cases hreserve : pickle.buffer.reserve (paddedSize bytes.size) with
    | ok reserved =>
        have hroom : _ ≤ (ofPickle pickle).limit := h.reserve_ok hreserve
        rw [if_pos hroom]
        exact congrArg Except.ok (congrArg (Reference.mk · pickle.limit) (payload_holding _ _ _))
    | error failure =>
        obtain ⟨hlt, rfl⟩ := h.reserve_error hreserve
        have hroom : ¬ _ ≤ (ofPickle pickle).limit := Nat.not_le.2 hlt
        rw [if_neg hroom, if_pos (by omega)]
        rfl
  · -- no header could tell the size, so that the buffer is not asked
    have hroom : ¬ (ofPickle pickle).sizeWith (paddedSize bytes.size) ≤ (ofPickle pickle).limit :=
      Nat.not_le.2 (Nat.lt_of_le_of_lt hlimit (by omega))
    rw [if_neg hfits, if_neg hroom, if_neg (by omega)]
    rfl

theorem reserve_refines (h : pickle.Served) (count : Nat) :
    (pickle.reserve count).map ofPickle = (ofPickle pickle).reserve count := by
  have hword : UInt64.size = 2 ^ 64 := rfl
  have hlargest : largestWord = 2 ^ 64 - 1 := rfl
  have hmax : maxSize ≤ largestWord := by decide
  have hlimit : pickle.limit ≤ maxSize := h.valid.limit_le
  rw [Pickle.reserve, Reference.reserve, segmentEnd?_eq]
  by_cases hcount : count + 3 < UInt64.size
  · rw [if_pos hcount]
    change ((pickle.buffer.reserve (paddedSize count)).map Pickle.mk).map ofPickle = _
    cases hreserve : pickle.buffer.reserve (paddedSize count) with
    | ok reserved =>
        have hroom : _ ≤ (ofPickle pickle).limit := h.reserve_ok hreserve
        obtain ⟨capacity, rfl, -⟩ := h.valid.reserve_ok hreserve
        rw [if_pos hroom]
        rfl
    | error failure =>
        obtain ⟨hlt, rfl⟩ := h.reserve_error hreserve
        have hroom : ¬ _ ≤ (ofPickle pickle).limit := Nat.not_le.2 hlt
        rw [if_neg hroom]
        rfl
  · -- no word can tell the padded length, and no limit allows it
    have hlarge : largestWord < (ofPickle pickle).sizeWith (paddedSize count) := by
      simp only [Reference.sizeWith, paddedSize]
      omega
    have hroom : ¬ (ofPickle pickle).sizeWith (paddedSize count) ≤ (ofPickle pickle).limit :=
      Nat.not_le.2 ((hlimit.trans hmax).trans_lt hlarge)
    rw [if_neg hcount, if_neg hroom, saturated, Nat.min_eq_right hlarge.le]
    rfl

theorem follow_refines (h : pickle.Served) (steps : List Step) :
    (follow steps pickle).map ofPickle = (ofPickle pickle).follow steps := by
  induction steps generalizing pickle with
  | nil => rfl
  | cons step rest ih =>
      cases step with
      | error failure => rfl
      | ok bytes =>
          have happend := h.append_refines bytes
          change (pickle.append bytes >>= follow rest).map ofPickle =
            (ofPickle pickle).append bytes >>= Reference.follow rest
          rw [← happend]
          cases hchanged : pickle.append bytes with
          | error failure => rfl
          | ok changed =>
              obtain ⟨capacity, rfl, hvalid, hle⟩ := h.valid.append_ok hchanged
              exact ih (h.of_extends (hvalid.extends_holding hle))

/-- What is written to a pickle is told by the steps on its payload and its limit. -/
theorem write_refines (h : pickle.Served) (item : Item) :
    ((item.shape.write item.value).attempt pickle).map ofPickle =
      (ofPickle pickle).follow item.steps := by
  rw [item.takes_write]
  exact h.follow_refines item.steps

theorem perform_refines (h : pickle.Served) (method : Method) :
    (method.perform.attempt pickle).map ofPickle = (ofPickle pickle).perform method := by
  have hfollow {write : Writer Unit} {steps : List Step} (htakes : write.Takes steps) :
      (write.attempt pickle).map ofPickle = (ofPickle pickle).follow steps := by
    rw [htakes]
    exact h.follow_refines steps
  cases method with
  | plain | bool | segment => exact hfollow (.segment _)
  | length count => exact hfollow (BuiltIn.takes_length count)
  | text | wide | data => exact hfollow (.atomically (BuiltIn.takes_counted _ _))
  | reserve count =>
      change ((Writer.ofChange _).attempt pickle).map ofPickle = _
      rw [Writer.attempt_ofChange]
      exact h.reserve_refines count

/-- A writer that is atomic, and comes to what is told of it, does so to its end. -/
theorem settle_refines (h : pickle.Served) {write : Writer Unit} (hmethods : write.ByMethods)
    (hwhole : write.Whole) {change : Reference → Except Failure Reference}
    (hchange : (write.attempt pickle).map ofPickle = change (ofPickle pickle)) :
    (write.settle pickle).1 = (Reference.settle change (ofPickle pickle)).1 ∧
      ofPickle (write.settle pickle).2 = (Reference.settle change (ofPickle pickle)).2 ∧
        (write.settle pickle).2.Served := by
  have hext := hmethods.extending pickle h.valid
  rw [Reference.settle, ← hchange, Writer.settle, Writer.attempt]
  cases hwrite : write pickle with
  | ok value written =>
      rw [Writer.after_of_ok hwrite] at hext ⊢
      exact ⟨rfl, rfl, h.of_extends hext⟩
  | error failure written =>
      -- room may have been won before the failure, and that is all that may differ
      rw [Writer.after_of_error hwrite] at hext ⊢
      have hbytes := hwhole pickle failure written h.valid hwrite
      have hpayload : written.payload = pickle.payload :=
        congrArg (fun bytes : ByteArray => bytes.extract headerSize bytes.size) hbytes
      exact ⟨rfl, congrArg₂ Reference.mk hpayload hext.limit_eq, h.of_extends hext⟩

theorem clear_refines (h : pickle.Served) :
    ofPickle pickle.clear = { ofPickle pickle with payload := .empty } ∧ pickle.clear.Served := by
  have hclear : pickle.clear = holding .empty pickle.capacity pickle.buffer.growth := by
    rw [clear, h.valid.truncate_eq (Nat.zero_le _), ByteArray.extract_same]
  refine ⟨?_, .of_limit h.granted (h.valid.valid_truncate (Nat.zero_le _) ⟨0, rfl⟩)
    (limit_of_eq_holding hclear)⟩
  rw [hclear, ofPickle_holding]
  rfl

theorem copy_refines (h : pickle.Served) :
    ofPickle pickle.copy = ofPickle pickle ∧ pickle.copy.Served := by
  refine ⟨?_, .of_limit h.granted h.valid.valid_copy (limit_of_eq_holding h.valid.copy_eq)⟩
  rw [h.valid.copy_eq, ofPickle_holding]
  rfl

end Served

theorem ofView_refines (view : View) (hgranted : Memory.GrantsUpTo maxSize) :
    ofPickle (ofView view) = ⟨padded (view.payload.extract 0 maxPayloadSize), maxSize⟩ ∧
      (ofView view).Served := by
  refine ⟨?_, .of_limit hgranted (valid_ofView view) (limit_of_eq_holding (ofView_eq view))⟩
  rw [ofView_eq, ofPickle_holding, limit_pickle]

theorem withCapacity_refines (count : Nat) (hgranted : Memory.GrantsUpTo maxSize) :
    ofPickle (withCapacity count) = .blank ∧ (withCapacity count).Served := by
  refine ⟨?_, .of_limit hgranted (valid_withCapacity count)
    (limit_of_eq_holding (withCapacity_eq count))⟩
  rw [withCapacity_eq, ofPickle_holding, limit_pickle, Reference.blank]

theorem Served.detach_refines (h : pickle.Served) (hgranted : Memory.GrantsUpTo maxSize) :
    ofPickle (ofView pickle.view) = { ofPickle pickle with limit := maxSize } ∧
      (ofView pickle.view).Served := by
  have hshown : pickle.view.payload.extract 0 maxPayloadSize = pickle.payload :=
    extract_of_size_le h.valid.size_lt
  obtain ⟨hcopy, hserved⟩ := ofView_refines pickle.view hgranted
  rw [hshown, padded_of_dvd h.valid.aligned] at hcopy
  exact ⟨hcopy, hserved⟩

theorem ofOptions_refines (options : Options)
    (hgranted : Memory.GrantsUpTo (min options.maxCapacity.toNat maxSize)) :
    (ofOptions options).map ofPickle = Reference.make (.withOptions options) ∧
      ∀ pickle, ofOptions options = .ok pickle → pickle.Served := by
  cases h : ofOptions options with
  | ok pickle =>
      obtain ⟨growth, hgrowth, hwanted, hpickle, hvalid⟩ := ofOptions_ok h
      obtain ⟨-, -, hlimit⟩ := limit_of_growth hgrowth
      constructor
      · change Except.ok (ofPickle pickle) = discard options.growth >>= fun _ => _
        rw [hgrowth, hpickle, ofPickle_holding, hlimit]
        exact (if_pos hwanted).symm
      · intro other hother
        obtain rfl := Except.ok.inj hother
        exact .of_limit hgranted hvalid ((limit_of_eq_holding hpickle).trans hlimit)
  | error failure =>
      refine ⟨?_, fun other hother => by cases hother⟩
      change Except.error failure = discard options.growth >>= fun _ => _
      rcases ofOptions_error h with hgrowth | ⟨growth, hgrowth, ⟨hwanted, rfl⟩ | ⟨-, hrefused⟩⟩
      · rw [hgrowth]
        rfl
      · rw [hgrowth]
        exact (if_neg (Nat.not_le.2 hwanted)).symm
      · obtain ⟨-, -, hlimit⟩ := limit_of_growth hgrowth
        rw [hlimit] at hrefused
        exact absurd hgranted hrefused

theorem make_refines (making : Making) (hgranted : Memory.GrantsUpTo making.limit) :
    (machine.make making).map ofPickle = Reference.make making ∧
      ∀ pickle, machine.make making = .ok pickle → pickle.Served := by
  cases making with
  | new | withCapacity =>
      obtain ⟨hblank, hserved⟩ := withCapacity_refines _ hgranted
      refine ⟨congrArg Except.ok hblank, fun pickle hok => ?_⟩
      rwa [← Except.ok.inj hok]
  | withOptions options => exact ofOptions_refines options hgranted
  | ofBytes bytes =>
      obtain ⟨hcopy, hserved⟩ := ofView_refines (.ofBytes bytes) hgranted
      rw [visible_eq] at hcopy
      refine ⟨congrArg Except.ok hcopy, fun pickle hok => ?_⟩
      rwa [← Except.ok.inj hok]

theorem Served.change_refines (h : pickle.Served) (change : Change) :
    (machine.change change pickle).1 = (Reference.machine.change change (ofPickle pickle)).1 ∧
      ofPickle (machine.change change pickle).2 =
        (Reference.machine.change change (ofPickle pickle)).2 ∧
      (machine.change change pickle).2.Served := by
  cases change with
  | method method => exact h.settle_refines method.byMethods method.whole (h.perform_refines method)
  | write item =>
      have hencode := item.shape.byMethods_encode BuiltIn.byMethods item.value
      exact h.settle_refines hencode.atomically hencode.whole (h.write_refines item)
  | clear => exact ⟨rfl, h.clear_refines⟩

theorem copied_refines {pickles : List Pickle} (h : ∀ pickle ∈ pickles, pickle.Served)
    {copy : Pickle → Pickle} {told : Reference → Reference}
    (hcopy : ∀ pickle, pickle.Served →
      ofPickle (copy pickle) = told (ofPickle pickle) ∧ (copy pickle).Served) (place : Nat) :
    (pickles ++ (pickles[place]?.map copy).toList).map ofPickle =
        pickles.map ofPickle ++ ((pickles.map ofPickle)[place]?.map told).toList ∧
      ∀ pickle ∈ pickles ++ (pickles[place]?.map copy).toList, pickle.Served := by
  rw [List.getElem?_map, List.map_append]
  cases hplace : pickles[place]? with
  | none => exact ⟨rfl, fun pickle hpickle => h pickle (by simpa using hpickle)⟩
  | some original =>
      obtain ⟨htold, hserved⟩ := hcopy original (h original (List.mem_of_getElem? hplace))
      refine ⟨congrArg (_ ++ [·]) htold, fun pickle hpickle => ?_⟩
      rcases List.mem_append.1 hpickle with hpickle | hpickle
      · exact h pickle hpickle
      · obtain rfl := List.mem_singleton.1 hpickle
        exact hserved

theorem set_served {pickles : List Pickle} (h : ∀ pickle ∈ pickles, pickle.Served) (place : Nat)
    (hwritten : written.Served) : ∀ pickle ∈ pickles.set place written, pickle.Served := by
  intro pickle hpickle
  rcases List.mem_or_eq_of_mem_set hpickle with hmem | rfl
  · exact h pickle hmem
  · exact hwritten

/-- One operation keeps pickles and what they come to in step. -/
theorem step_refines (operation : Operation) {pickles : List Pickle}
    (h : ∀ pickle ∈ pickles, pickle.Served)
    (hgranted : ∀ limit, operation.limit? = some limit → Memory.GrantsUpTo limit) :
    (machine.step operation pickles).1 =
        (Reference.machine.step operation (pickles.map ofPickle)).1 ∧
      (machine.step operation pickles).2.map ofPickle =
        (Reference.machine.step operation (pickles.map ofPickle)).2 ∧
      ∀ pickle ∈ (machine.step operation pickles).2, pickle.Served := by
  cases operation with
  | make making =>
      obtain ⟨hmake, hserved⟩ := make_refines making (hgranted _ rfl)
      have hreference : Reference.machine.make making = (machine.make making).map ofPickle :=
        hmake.symm
      simp only [Machine.step, hreference]
      cases hmade : machine.make making with
      | error failure => exact ⟨rfl, rfl, h⟩
      | ok pickle =>
          refine ⟨rfl, List.map_append, fun other hother => ?_⟩
          rcases List.mem_append.1 hother with hother | hother
          · exact h other hother
          · obtain rfl := List.mem_singleton.1 hother
            exact hserved _ hmade
  | copy place => exact ⟨rfl, copied_refines h (fun _ hserved => hserved.copy_refines) place⟩
  | detach place =>
      have hmax := hgranted maxSize rfl
      exact ⟨rfl, copied_refines h (fun _ hserved => hserved.detach_refines hmax) place⟩
  | take place =>
      obtain ⟨hblank, hserved⟩ := withCapacity_refines _ (hgranted maxSize rfl)
      refine ⟨rfl, ?_, fun pickle hpickle => ?_⟩
      · change (pickles.set place .empty ++ pickles[place]?.toList).map ofPickle =
          (pickles.map ofPickle).set place .blank ++ (pickles.map ofPickle)[place]?.toList
        rw [List.map_append, List.map_set, List.getElem?_map, empty, hblank]
        cases pickles[place]? with
        | none => rfl
        | some taken => rfl
      · rcases List.mem_append.1 hpickle with hpickle | hpickle
        · exact set_served h place hserved pickle hpickle
        · exact h pickle (List.mem_of_getElem? (Option.mem_toList.1 hpickle))
  | change place change =>
      simp only [Machine.step, List.getElem?_map]
      cases hplace : pickles[place]? with
      | none => exact ⟨rfl, rfl, h⟩
      | some pickle =>
          obtain ⟨hresult, hafter, hserved⟩ :=
            (h pickle (List.mem_of_getElem? hplace)).change_refines change
          refine ⟨hresult, ?_, set_served h place hserved⟩
          exact List.map_set.trans (congrArg _ hafter)

theorem run_refines_from (operations : List Operation) {pickles : List Pickle}
    (h : ∀ pickle ∈ pickles, pickle.Served)
    (hgranted : ∀ operation ∈ operations, ∀ limit, operation.limit? = some limit →
      Memory.GrantsUpTo limit) :
    (machine.run operations pickles).1 =
        (Reference.machine.run operations (pickles.map ofPickle)).1 ∧
      (machine.run operations pickles).2.map ofPickle =
        (Reference.machine.run operations (pickles.map ofPickle)).2 ∧
      ∀ pickle ∈ (machine.run operations pickles).2, pickle.Served := by
  induction operations generalizing pickles with
  | nil => exact ⟨rfl, rfl, h⟩
  | cons operation rest ih =>
      obtain ⟨hresult, hafter, hserved⟩ := step_refines operation h
        (hgranted operation List.mem_cons_self)
      obtain ⟨hresults, hlast, hall⟩ := ih hserved fun other hother =>
        hgranted other (List.mem_cons_of_mem operation hother)
      rw [hafter] at hresults hlast
      exact ⟨congrArg₂ List.cons hresult hresults, hlast, hall⟩

/-- A session over pickles has the results, and leaves the payloads and the bytes, of the same session
over what they come to: where the memory grants what the limits allow, room makes no difference. -/
theorem run_refines (operations : List Operation)
    (hgranted : ∀ operation ∈ operations, ∀ limit, operation.limit? = some limit →
      Memory.GrantsUpTo limit) :
    (machine.run operations []).1 = (Reference.machine.run operations []).1 ∧
      (machine.run operations []).2.map (fun pickle => (pickle.payload, pickle.bytes, pickle.limit)) =
        (Reference.machine.run operations []).2.map fun reference =>
          (reference.payload, reference.bytes, reference.limit) := by
  have hnone : ∀ pickle ∈ ([] : List Pickle), pickle.Served := fun pickle hpickle =>
    absurd hpickle List.not_mem_nil
  obtain ⟨hresults, hlast, hserved⟩ := run_refines_from operations hnone hgranted
  refine ⟨hresults, ?_⟩
  rw [List.map_nil] at hlast
  rw [← hlast, List.map_map]
  refine List.map_congr_left fun pickle hpickle => ?_
  rw [(hserved pickle hpickle).valid.bytes_told]
  rfl

end Pickle

namespace Pickle

/-- A pickle of at most three words is filled, overfilled and cleared. -/
def threeWords : List Operation :=
  [.make (.withOptions ⟨100, 4, 14⟩), .change 0 (.method (.data (constantBytes 3 7))),
    .change 0 (.write ⟨.sequence .ring (.number .u8), #[(1 : BitVec 8)]⟩), .copy 0,
    .change 1 .clear, .change 1 (.method (.reserve 9))]

theorem threeWords_refines :
    (∀ operation ∈ threeWords, ∀ limit, operation.limit? = some limit →
      @Memory.GrantsUpTo .ample limit) ∧
    ((@machine .ample).run threeWords []).1 =
      [.ok (), .ok (), .error (.allocationFailure 16), .ok (), .ok (),
        .error (.allocationFailure 16)] := by
  have hgranted : ∀ operation ∈ threeWords, ∀ limit, operation.limit? = some limit →
      @Memory.GrantsUpTo .ample limit := fun _ _ _ _ _ _ => rfl
  have hresults : (Reference.machine.run threeWords []).1 =
      [.ok (), .ok (), .error (.allocationFailure 16), .ok (), .ok (),
        .error (.allocationFailure 16)] := by decide +kernel
  exact ⟨hgranted, (@run_refines .ample threeWords hgranted).1.trans hresults⟩

end Pickle

end Pickling
