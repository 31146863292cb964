import Mathlib.Data.List.Basic
import Pickling.Proofs.Buffer.Sound
import Pickling.Proofs.Places
/-!
Sessions over buffers: runs of every way to make a buffer, to copy one and to edit one, each with any
arguments and any growth rule. A run goes on after a failure, but not after what would stop a program.
Main statement: the room of every buffer stays sound, and every buffer holds what a plain list would
(`Buffer.run_sound`).
-/
namespace Pickling.Buffer

inductive Origin where
  | blank (growth : Growth)
  | withCapacity (count : Nat) (growth : Growth)
  /-- Room that may be refused. -/
  | ofCapacity (count : Nat) (growth : Growth)
  | zeroed (count capacity : Nat) (growth : Growth)
  | ofBytes (bytes : ByteArray)

inductive Edit where
  | reserve (count : Nat)
  | extendZeroed (count : Nat)
  | extend (bytes : ByteArray)
  | truncate (count : Nat)
  | clear
  | set (index : Nat) (byte : UInt8)
  | fill (start stop : Nat) (byte : UInt8)
  | store (start : Nat) (bytes : ByteArray)

/-- The steps of a session. Buffers are told by their places; new ones come last. -/
inductive Event where
  | make (origin : Origin)
  | copy (place : Nat)
  | edit (place : Nat) (edit : Edit)

abbrev Report := Except Failure (Option (Nat × Nat))

def granted [Memory] (buffer : Buffer) : Option Buffer :=
  if buffer.capacity = 0 ∨ Memory.grants buffer.capacity = true then some buffer else none

/-- Makes a buffer. Only a demand for room that may be refused is told that it was; there is nothing
where the memory refuses other room, where the limit forbids the zeros, and for bytes that no object
can be. -/
def Origin.make [Memory] : Origin → Option (Except Failure Buffer)
  | blank growth => some (.ok (Buffer.empty growth))
  | withCapacity count growth => (granted (Buffer.withCapacity count growth)).map .ok
  | ofCapacity count growth => some (Buffer.ofCapacity count growth)
  | zeroed count capacity growth =>
    if count ≤ growth.limit.toNat then (granted (Buffer.zeroed count capacity growth)).map .ok
    else none
  | ofBytes bytes =>
    if bytes.size ≤ largestObject then (granted (Buffer.ofBytes bytes .standard)).map .ok else none

/-- Edits a buffer, and tells the range of zeros it has appended. There is nothing where a store is out
of range. -/
def Edit.perform [Memory] : Edit → Buffer → Option (Except Failure (Option (Nat × Nat) × Buffer))
  | reserve count, buffer => some ((buffer.reserve count).map (none, ·))
  | extendZeroed count, buffer =>
    some ((buffer.extendZeroed count).map fun (extended, range) => (some range, extended))
  | extend bytes, buffer => some ((buffer.extend bytes).map (none, ·))
  | truncate count, buffer => some (.ok (none, buffer.truncate count))
  | clear, buffer => some (.ok (none, buffer.clear))
  | set index byte, buffer => (buffer.set? index byte).map fun stored => .ok (none, stored)
  | fill start stop byte, buffer =>
    (buffer.fill? start stop byte).map fun stored => .ok (none, stored)
  | store start bytes, buffer =>
    (Checked.store buffer start (start + bytes.size) bytes).map fun stored => .ok (none, stored)

def Event.step [Memory] : Event → List Buffer → Option (Report × List Buffer)
  | make origin, buffers => do
    match ← origin.make with
    | .ok buffer => return (.ok none, buffers ++ [buffer])
    | .error failure => return (.error failure, buffers)
  | copy place, buffers => do
    let copied ← granted (← buffers[place]?).copy
    return (.ok none, buffers ++ [copied])
  | edit place change, buffers => do
    match ← change.perform (← buffers[place]?) with
    | .ok (range, edited) => return (.ok range, buffers.set place edited)
    | .error failure => return (.error failure, buffers)

/-- What all steps tell, and the buffers after the last. The memory may be another at every step. -/
def run : List (Memory × Event) → List Buffer → Option (List Report × List Buffer)
  | [], buffers => some ([], buffers)
  | (memory, event) :: rest, buffers => do
    let (report, between) ← @Event.step memory event buffers
    let (reports, last) ← run rest between
    return (report :: reports, last)

/-! Plain lists -/

def Origin.onList : Origin → List UInt8
  | zeroed count _ _ => List.replicate count 0
  | ofBytes bytes => bytes.data.toList
  | _ => []

def Edit.onList : Edit → List UInt8 → List UInt8
  | reserve _, list => list
  | extendZeroed count, list => list ++ List.replicate count 0
  | extend bytes, list => list ++ bytes.data.toList
  | truncate count, list => list.take count
  | clear, _ => []
  | set index byte, list => list.set index byte
  | fill start stop byte, list =>
    list.take start ++ List.replicate (stop - start) byte ++ list.drop stop
  | store start bytes, list =>
    list.take start ++ bytes.data.toList ++ list.drop (start + bytes.size)

def Event.onLists : Event → Report → List (List UInt8) → List (List UInt8)
  | _, .error _, lists => lists
  | make origin, .ok _, lists => lists ++ [origin.onList]
  | copy place, .ok _, lists => lists ++ lists[place]?.toList
  | edit place change, .ok _, lists => lists.modify place change.onList

def replay : List Event → List Report → List (List UInt8) → List (List UInt8)
  | event :: rest, report :: reports, lists => replay rest reports (event.onLists report lists)
  | _, _, lists => lists

/-! Edits -/

def Edit.range? : Edit → Buffer → Option (Nat × Nat)
  | extendZeroed count, buffer => some (buffer.size, buffer.size + count)
  | _, _ => none

/-- Whether an edit stores nothing but where there are bytes. -/
def Edit.InRange : Edit → Buffer → Prop
  | set index _, buffer => index < buffer.size
  | fill start stop _, buffer => start ≤ stop ∧ stop ≤ buffer.size
  | store start bytes, buffer => start + bytes.size ≤ buffer.size
  | _, _ => True

def Edit.needs : Edit → Buffer → Nat
  | reserve count, buffer => buffer.size + count
  | extendZeroed count, buffer => buffer.size + count
  | extend bytes, buffer => buffer.size + bytes.size
  | _, buffer => buffer.size

variable {buffer changed : Buffer} {buffers : List Buffer}

/-- What an edit may do to a buffer and has to do to its bytes. -/
structure Edited (edit : Edit) (before after : Buffer) : Prop where
  sound : after.Sound
  grows : before.Grows after
  contents_eq : after.contents = edit.onList before.contents

theorem Sound.edited_append [memory : Memory] (h : buffer.Sound) (hmemory : memory.Bounded)
    {edit : Edit} {count : Nat} {reserved : Buffer} {bytes : ByteArray}
    (hok : buffer.reserve count = .ok reserved) (hsize : bytes.size ≤ count)
    (hcontents : edit.onList buffer.contents = buffer.contents ++ bytes.data.toList) :
    Edited edit buffer { reserved with bytes := reserved.bytes ++ bytes } := by
  obtain ⟨capacity, rfl, hroom⟩ := h.reserve hmemory hok
  obtain ⟨hsound, hgrows⟩ := hroom (buffer.bytes ++ bytes) (by
    rw [ByteArray.size_append]
    exact Nat.add_le_add_left hsize _)
  refine ⟨hsound, hgrows, ?_⟩
  rw [hcontents]
  exact ByteArray.toList_data_append

theorem Sound.edited_overwrite (h : buffer.Sound) {edit : Edit} {start : Nat} {bytes : ByteArray}
    (hrange : start + bytes.size ≤ buffer.size)
    (hcontents : edit.onList buffer.contents = buffer.contents.take start ++ bytes.data.toList ++
      buffer.contents.drop (start + bytes.size)) :
    Edited edit buffer (buffer.overwrite start bytes) where
  sound := h.of_same rfl rfl (size_overwrite hrange).le
  grows := grows_of_same rfl rfl
  contents_eq := by rw [contents_overwrite, hcontents]

theorem Sound.edited_truncate (h : buffer.Sound) {edit : Edit} {count : Nat}
    (hcontents : edit.onList buffer.contents = buffer.contents.take count) :
    Edited edit buffer (buffer.truncate count) where
  sound := h.of_same rfl rfl (by
    rw [size_truncate]
    exact Nat.min_le_right _ _)
  grows := grows_of_same rfl rfl
  contents_eq := by rw [contents_truncate, hcontents]

theorem Sound.edited [memory : Memory] (h : buffer.Sound) (hmemory : memory.Bounded) {edit : Edit}
    {range : Option (Nat × Nat)} (hok : edit.perform buffer = some (.ok (range, changed))) :
    Edited edit buffer changed ∧ range = edit.range? buffer := by
  cases edit with
  | reserve count =>
      obtain ⟨reserved, hreserve, heq⟩ := exists_of_map_eq_ok (Option.some.inj hok)
      cases heq
      have hedited := @edited_append _ _ h hmemory (.reserve count) _ _ .empty hreserve
        (Nat.zero_le _) (List.append_nil _).symm
      rw [ByteArray.append_empty] at hedited
      exact ⟨hedited, rfl⟩
  | extendZeroed count =>
      obtain ⟨_, hextend, heq⟩ := exists_of_map_eq_ok (Option.some.inj hok)
      obtain ⟨reserved, hreserve, hextend⟩ := exists_of_bind_eq_ok hextend
      cases hextend
      cases heq
      refine ⟨h.edited_append hmemory hreserve (size_constantBytes count 0).le ?_, ?_⟩
      · rw [contents_constantBytes]
        rfl
      · obtain ⟨capacity, rfl, -⟩ := h.reserve hmemory hreserve
        rfl
  | extend bytes =>
      obtain ⟨_, hextend, heq⟩ := exists_of_map_eq_ok (Option.some.inj hok)
      obtain ⟨reserved, hreserve, hextend⟩ := exists_of_bind_eq_ok hextend
      cases hextend
      cases heq
      exact ⟨h.edited_append hmemory hreserve le_rfl rfl, rfl⟩
  | truncate count =>
      cases hok
      exact ⟨h.edited_truncate rfl, rfl⟩
  | clear =>
      cases hok
      exact ⟨h.edited_truncate rfl, rfl⟩
  | set index byte =>
      obtain ⟨stored, hset, heq⟩ := Option.map_eq_some_iff.1 hok
      cases heq
      obtain ⟨hgrowth, hcapacity, hcontents⟩ := set?_eq_some hset
      refine ⟨⟨?_, grows_of_same hgrowth hcapacity, hcontents⟩, rfl⟩
      refine h.of_same hgrowth hcapacity ?_
      rw [← length_contents, hcontents, List.length_set, length_contents]
  | fill start stop byte =>
      obtain ⟨stored, hfill, heq⟩ := Option.map_eq_some_iff.1 hok
      cases heq
      obtain ⟨hle, hstop, rfl⟩ := fill?_eq_some hfill
      refine ⟨h.edited_overwrite ?_ ?_, rfl⟩
      · rw [size_constantBytes]
        omega
      · rw [contents_constantBytes, size_constantBytes, Nat.add_sub_cancel' hle]
        rfl
  | store start bytes =>
      obtain ⟨stored, hstore, heq⟩ := Option.map_eq_some_iff.1 hok
      cases heq
      rw [Checked.store] at hstore
      split at hstore
      · rename_i hrange
        cases hstore
        exact ⟨h.edited_overwrite hrange.1 rfl, rfl⟩
      · cases hstore

theorem Edit.InRange.perform_eq [Memory] {edit : Edit} (h : edit.InRange buffer) :
    ∃ outcome, edit.perform buffer = some outcome := by
  cases edit with
  | reserve | extendZeroed | extend | truncate | clear => exact ⟨_, rfl⟩
  | set index byte => exact ⟨_, congrArg (Option.map _) (dif_pos h)⟩
  | fill start stop byte => exact ⟨_, congrArg (Option.map _) (if_pos h)⟩
  | store start bytes => exact ⟨_, congrArg (Option.map _) (Checked.store_of_le h rfl)⟩

theorem Edit.perform_within [Memory] {edit : Edit}
    {outcome : Except Failure (Option (Nat × Nat) × Buffer)}
    (hneeds : edit.needs buffer ≤ buffer.capacity.toNat) (h : edit.perform buffer = some outcome) :
    ∃ range changed, outcome = .ok (range, changed) ∧ changed.capacity = buffer.capacity := by
  cases edit with
  | reserve count =>
      rw [perform, reserve_of_le hneeds] at h
      exact ⟨_, _, (Option.some.inj h).symm, rfl⟩
  | extendZeroed count =>
      rw [perform, Buffer.extendZeroed, reserve_of_le hneeds] at h
      exact ⟨_, _, (Option.some.inj h).symm, rfl⟩
  | extend bytes =>
      rw [perform, Buffer.extend, reserve_of_le hneeds] at h
      exact ⟨_, _, (Option.some.inj h).symm, rfl⟩
  | truncate | clear => exact ⟨_, _, (Option.some.inj h).symm, rfl⟩
  | set index byte =>
      obtain ⟨stored, hset, rfl⟩ := Option.map_eq_some_iff.1 h
      exact ⟨_, _, rfl, (set?_eq_some hset).2.1⟩
  | fill start stop byte =>
      obtain ⟨stored, hfill, rfl⟩ := Option.map_eq_some_iff.1 h
      obtain ⟨-, -, rfl⟩ := fill?_eq_some hfill
      exact ⟨_, _, rfl, rfl⟩
  | store start bytes =>
      obtain ⟨stored, hstore, rfl⟩ := Option.map_eq_some_iff.1 h
      rw [Checked.store] at hstore
      split at hstore
      · cases hstore
        exact ⟨_, _, rfl, rfl⟩
      · cases hstore

/-! Steps -/

theorem granted_eq_some [Memory] (h : granted buffer = some changed) :
    changed = buffer ∧ (buffer.capacity = 0 ∨ Memory.grants buffer.capacity = true) := by
  rw [granted] at h
  split at h
  · rename_i hgrants
    exact ⟨(Option.some.inj h).symm, hgrants⟩
  · cases h

theorem capacity_le_of_granted [memory : Memory] (hmemory : memory.Bounded)
    (h : granted buffer = some changed) :
    changed = buffer ∧ buffer.capacity.toNat ≤ largestObject := by
  obtain ⟨rfl, hzero | hgrants⟩ := granted_eq_some h
  · refine ⟨rfl, ?_⟩
    rw [hzero]
    exact Nat.zero_le _
  · exact ⟨rfl, hmemory _ hgrants⟩

theorem sound_empty (growth : Growth) : (empty growth).Sound :=
  ⟨Nat.zero_le _, ⟨Nat.zero_le _, .inl ⟨0, rfl⟩⟩, Nat.zero_le _⟩

theorem Origin.make_ok [memory : Memory] (hmemory : memory.Bounded) {origin : Origin}
    (h : origin.make = some (.ok buffer)) : buffer.Sound ∧ buffer.contents = origin.onList := by
  cases origin with
  | blank growth =>
      cases h
      exact ⟨sound_empty growth, rfl⟩
  | withCapacity count growth =>
      obtain ⟨made, hgranted, heq⟩ := Option.map_eq_some_iff.1 h
      obtain ⟨rfl, hcapacity⟩ := capacity_le_of_granted hmemory hgranted
      cases heq
      exact ⟨sound_of_withCapacity (Nat.zero_le _) (Nat.zero_le _) hcapacity, rfl⟩
  | ofCapacity count growth =>
      have hreserve : (empty growth).reserve count = .ok buffer := Option.some.inj h
      obtain ⟨capacity, rfl, hroom⟩ := (sound_empty growth).reserve hmemory hreserve
      exact ⟨(hroom .empty (Nat.zero_le _)).1, rfl⟩
  | zeroed count capacity growth =>
      rw [make] at h
      split at h
      · rename_i hlimit
        obtain ⟨made, hgranted, heq⟩ := Option.map_eq_some_iff.1 h
        obtain ⟨rfl, hcapacity⟩ := capacity_le_of_granted hmemory hgranted
        cases heq
        refine ⟨sound_of_withCapacity ?_ ?_ hcapacity, contents_constantBytes count 0⟩
        · rw [size_constantBytes]
          exact Nat.le_max_right _ _
        · rw [size_constantBytes]
          exact hlimit
      · cases h
  | ofBytes bytes =>
      rw [make] at h
      split at h
      · rename_i hobject
        obtain ⟨made, hgranted, heq⟩ := Option.map_eq_some_iff.1 h
        obtain ⟨rfl, hcapacity⟩ := capacity_le_of_granted hmemory hgranted
        cases heq
        exact ⟨sound_of_withCapacity le_rfl hobject hcapacity, rfl⟩
      · cases h

theorem Sound.copied [memory : Memory] (h : buffer.Sound) (hmemory : memory.Bounded)
    (hgranted : granted buffer.copy = some changed) :
    changed.Sound ∧ changed.contents = buffer.contents := by
  obtain ⟨rfl, hcapacity⟩ := capacity_le_of_granted hmemory hgranted
  exact ⟨sound_of_withCapacity le_rfl (h.size_le.trans h.admits.le_limit) hcapacity, rfl⟩

/-- A step fails and changes nothing, adds a buffer, or edits one in its place. -/
theorem Event.step_cases [memory : Memory] {event : Event} {report : Report}
    {after : List Buffer} (h : event.step buffers = some (report, after)) :
    (∃ failure, report = .error failure ∧ after = buffers) ∨
    (∃ origin buffer, event = .make origin ∧ origin.make = some (.ok buffer) ∧
      report = .ok none ∧ after = buffers ++ [buffer]) ∨
    (∃ place buffer copied, event = .copy place ∧ buffers[place]? = some buffer ∧
      granted buffer.copy = some copied ∧ report = .ok none ∧ after = buffers ++ [copied]) ∨
    ∃ place edit buffer range edited, event = .edit place edit ∧ buffers[place]? = some buffer ∧
      edit.perform buffer = some (.ok (range, edited)) ∧ report = .ok range ∧
      after = buffers.set place edited := by
  cases event with
  | make origin =>
      obtain ⟨outcome, hmake, h⟩ := Option.bind_eq_some_iff.1 h
      cases outcome with
      | ok buffer =>
          cases h
          exact .inr (.inl ⟨origin, buffer, rfl, hmake, rfl, rfl⟩)
      | error failure =>
          cases h
          exact .inl ⟨failure, rfl, rfl⟩
  | copy place =>
      obtain ⟨buffer, hplace, h⟩ := Option.bind_eq_some_iff.1 h
      obtain ⟨copied, hcopy, h⟩ := Option.bind_eq_some_iff.1 h
      cases h
      exact .inr (.inr (.inl ⟨place, buffer, copied, rfl, hplace, hcopy, rfl, rfl⟩))
  | edit place edit =>
      obtain ⟨buffer, hplace, h⟩ := Option.bind_eq_some_iff.1 h
      obtain ⟨outcome, hperform, h⟩ := Option.bind_eq_some_iff.1 h
      cases outcome with
      | ok edited =>
          obtain ⟨range, edited⟩ := edited
          cases h
          exact .inr (.inr (.inr ⟨place, edit, buffer, range, edited, rfl, hplace, hperform, rfl, rfl⟩))
      | error failure =>
          cases h
          exact .inl ⟨failure, rfl, rfl⟩

theorem Event.step_kept [memory : Memory] (hmemory : memory.Bounded)
    (hsound : ∀ buffer ∈ buffers, buffer.Sound) {event : Event} {report : Report}
    {after : List Buffer} (h : event.step buffers = some (report, after)) :
    (∀ buffer ∈ after, buffer.Sound) ∧ Onward Grows buffers after ∧
      after.map contents = event.onLists report (buffers.map contents) := by
  obtain ⟨failure, rfl, rfl⟩ | ⟨origin, made, rfl, hmake, rfl, rfl⟩ |
    ⟨place, source, copied, rfl, hplace, hcopy, rfl, rfl⟩ |
    ⟨place, edit, source, range, edited, rfl, hplace, hperform, rfl, rfl⟩ := step_cases h
  · exact ⟨hsound, .refl .refl after, by simp only [onLists]⟩
  · obtain ⟨hmade, hcontents⟩ := origin.make_ok hmemory hmake
    refine ⟨List.forall_mem_append.2 ⟨hsound, List.forall_mem_singleton.2 hmade⟩,
      .append .refl buffers [made], ?_⟩
    simp only [onLists, List.map_append, List.map_cons, List.map_nil, hcontents]
  · obtain ⟨hcopied, hcontents⟩ :=
      (hsound source (List.mem_of_getElem? hplace)).copied hmemory hcopy
    refine ⟨List.forall_mem_append.2 ⟨hsound, List.forall_mem_singleton.2 hcopied⟩,
      .append .refl buffers [copied], ?_⟩
    simp only [onLists, List.map_append, List.map_cons, List.map_nil, hcontents, List.getElem?_map,
      hplace, Option.map_some, Option.toList_some]
  · obtain ⟨hedited, -⟩ := (hsound source (List.mem_of_getElem? hplace)).edited hmemory hperform
    refine ⟨fun buffer hmem => ?_, Onward.set .refl hplace hedited.grows, ?_⟩
    · rcases List.mem_or_eq_of_mem_set hmem with hmem | rfl
      · exact hsound buffer hmem
      · exact hedited.sound
    · simp only [onLists, List.map_set, List.modify_eq_set_getElem?, List.getElem?_map, hplace,
        hedited.contents_eq, Option.map_eq_map, Option.map_some, Option.getD_some]

theorem run_kept {history : List (Memory × Event)} (hmemory : ∀ entry ∈ history, entry.1.Bounded)
    (hsound : ∀ buffer ∈ buffers, buffer.Sound) {reports : List Report} {last : List Buffer}
    (h : run history buffers = some (reports, last)) :
    (∀ buffer ∈ last, buffer.Sound) ∧ Onward Grows buffers last ∧
      last.map contents = replay (history.map Prod.snd) reports (buffers.map contents) := by
  induction history generalizing buffers reports with
  | nil =>
      cases h
      exact ⟨hsound, .refl .refl last, rfl⟩
  | cons entry rest ih =>
      obtain ⟨hfirst, hrest⟩ := List.forall_mem_cons.1 hmemory
      obtain ⟨⟨report, between⟩, hstep, h⟩ := Option.bind_eq_some_iff.1 h
      obtain ⟨⟨later, behind⟩, hrun, h⟩ := Option.bind_eq_some_iff.1 h
      cases h
      obtain ⟨hbetween, hgrows, hcontents⟩ := @Event.step_kept _ entry.1 hfirst hsound _ _ _ hstep
      obtain ⟨hlast, honward, hreplay⟩ := ih hrest hbetween hrun
      refine ⟨hlast, hgrows.trans Grows.trans honward, ?_⟩
      rw [hreplay, hcontents]
      rfl

/-- Any edit in range can be made where there is a buffer. It tells the range it has appended, and takes
no more room than there is if that is enough. -/
theorem Event.step_edit [memory : Memory] (hmemory : memory.Bounded) (hsound : buffer.Sound)
    {place : Nat} (hplace : buffers[place]? = some buffer) {edit : Edit}
    (hrange : edit.InRange buffer) :
    ∃ report after, (Event.edit place edit).step buffers = some (report, after) ∧
      (∀ range, report = .ok range → range = edit.range? buffer) ∧
      (edit.needs buffer ≤ buffer.capacity.toNat → ∃ range edited, report = .ok range ∧
        after[place]? = some edited ∧ edited.capacity = buffer.capacity) := by
  obtain ⟨outcome, hperform⟩ := hrange.perform_eq
  have hlt := (List.getElem?_eq_some_iff.1 hplace).1
  cases outcome with
  | error failure =>
      refine ⟨.error failure, buffers, by simp [step, hplace, hperform], ?_, ?_⟩
      · intro range h
        cases h
      · intro hneeds
        obtain ⟨_, _, h, -⟩ := Edit.perform_within hneeds hperform
        cases h
  | ok edited =>
      obtain ⟨range, edited⟩ := edited
      refine ⟨.ok range, buffers.set place edited, by simp [step, hplace, hperform], ?_, ?_⟩
      · intro told h
        cases h
        exact (hsound.edited hmemory hperform).2
      · intro hneeds
        obtain ⟨_, _, h, hcapacity⟩ := Edit.perform_within hneeds hperform
        cases h
        exact ⟨range, edited, rfl, List.getElem?_set_self hlt, hcapacity⟩

/-- Whatever has been done to buffers, in memories that may refuse anything and grant no more than an
object may fill: each holds what a plain list would, in room that the limit allows and that is made of
whole units or is all that the limit allows. Room never shrinks, and becomes twofold when it grows; what
fails changes nothing. An edit tells the range it has appended, and takes no room if there is enough. -/
theorem run_sound {history : List (Memory × Event)} (hmemory : ∀ entry ∈ history, entry.1.Bounded)
    {reports : List Report} (hrun : run history [] = some (reports, buffers)) :
    (∀ buffer ∈ buffers, buffer.size ≤ buffer.capacity.toNat ∧
      buffer.capacity.toNat ≤ buffer.growth.limit.toNat ∧
      (buffer.growth.unit.toNat ∣ buffer.capacity.toNat ∨ buffer.capacity = buffer.growth.limit)) ∧
    buffers.map contents = replay (history.map Prod.snd) reports [] ∧
    (∀ later : List (Memory × Event), (∀ entry ∈ later, entry.1.Bounded) → ∀ more last,
      run later buffers = some (more, last) → ∀ (place : Nat) (buffer : Buffer),
        buffers[place]? = some buffer → ∃ grown, last[place]? = some grown ∧ buffer.Grows grown) ∧
    (∀ (memory : Memory) (event : Event) (failure : Failure) (after : List Buffer),
      @Event.step memory event buffers = some (.error failure, after) → after = buffers) ∧
    ∀ (memory : Memory) (place : Nat) (buffer : Buffer) (edit : Edit), memory.Bounded →
      buffers[place]? = some buffer → edit.InRange buffer →
        ∃ report after, @Event.step memory (.edit place edit) buffers = some (report, after) ∧
          (∀ range, report = .ok range → range = edit.range? buffer) ∧
          (edit.needs buffer ≤ buffer.capacity.toNat → ∃ range edited, report = .ok range ∧
            after[place]? = some edited ∧ edited.capacity = buffer.capacity) := by
  obtain ⟨hsound, -, hcontents⟩ := run_kept hmemory (fun _ hmem => absurd hmem List.not_mem_nil) hrun
  refine ⟨fun buffer hmem => ?_, hcontents, ?_, ?_, ?_⟩
  · obtain ⟨hsize, ⟨hlimit, hwhole⟩, -⟩ := hsound buffer hmem
    exact ⟨hsize, hlimit, hwhole⟩
  · intro later hlater more last hrun
    exact (run_kept hlater hsound hrun).2.1
  · intro memory event failure after hstep
    obtain ⟨_, -, hafter⟩ | ⟨_, _, -, -, h, -⟩ | ⟨_, _, _, -, -, -, h, -⟩ |
      ⟨_, _, _, _, _, -, -, -, h, -⟩ := Event.step_cases hstep
    · exact hafter
    · cases h
    · cases h
    · cases h
  · intro memory place buffer edit hmemory hplace hrange
    exact Event.step_edit hmemory (hsound buffer (List.mem_of_getElem? hplace)) hplace hrange

def uneven : Growth := ⟨8, 20, ⟨3, rfl⟩⟩

/-- Room for five bytes, twice as much for nine, three that are taken back and come again as zeros, and
a copy that the memory and then the limit keep from growing. -/
def regrown : List (Memory × Event) :=
  [(.upTo 20, .make (.blank uneven)), (.upTo 20, .edit 0 (.extend ⟨#[1, 2, 3, 4, 5]⟩)),
    (.upTo 20, .edit 0 (.extendZeroed 4)), (.upTo 20, .edit 0 (.fill 5 8 7)),
    (.upTo 20, .edit 0 (.truncate 6)), (.upTo 20, .edit 0 (.extendZeroed 3)), (.upTo 20, .copy 0),
    (.upTo 16, .edit 1 (.reserve 8)), (.upTo 20, .edit 1 (.reserve 12))]

theorem regrown_sound : (∀ entry ∈ regrown, entry.1.Bounded) ∧
    ∃ buffers, run regrown [] = some ([.ok none, .ok none, .ok (some (5, 9)), .ok none, .ok none,
      .ok (some (6, 9)), .ok none, .error (.allocationFailure 20), .error (.allocationFailure 21)],
        buffers) ∧
      buffers.map contents =
        [[1, 2, 3, 4, 5, 7, 0, 0, 0], [1, 2, 3, 4, 5, 7, 0, 0, 0]] ∧
      ∀ buffer ∈ buffers, buffer.size ≤ buffer.capacity.toNat ∧
        buffer.capacity.toNat ≤ buffer.growth.limit.toNat ∧
        (buffer.growth.unit.toNat ∣ buffer.capacity.toNat ∨
          buffer.capacity = buffer.growth.limit) := by
  have hbounded (limit : UInt64) (h : limit.toNat ≤ largestObject) : (Memory.upTo limit).Bounded := by
    intro capacity hgrants
    exact (UInt64.le_iff_toNat_le.1 (of_decide_eq_true hgrants)).trans h
  have hmemory : ∀ entry ∈ regrown, entry.1.Bounded := by
    intro entry hmem
    simp only [regrown, List.mem_cons, List.not_mem_nil, or_false] at hmem
    rcases hmem with rfl | rfl | rfl | rfl | rfl | rfl | rfl | rfl | rfl
    all_goals exact hbounded _ (by decide)
  have hreports : (run regrown []).map Prod.fst = some [.ok none, .ok none, .ok (some (5, 9)),
      .ok none, .ok none, .ok (some (6, 9)), .ok none, .error (.allocationFailure 20),
      .error (.allocationFailure 21)] := by decide +kernel
  obtain ⟨⟨reports, buffers⟩, hrun, rfl⟩ := Option.map_eq_some_iff.1 hreports
  obtain ⟨hroom, hcontents, -⟩ := run_sound hmemory hrun
  exact ⟨hmemory, buffers, hrun, hcontents, hroom⟩

end Pickling.Buffer
