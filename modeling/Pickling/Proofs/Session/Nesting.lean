import Mathlib.Data.Nat.Bitwise
import Pickling.Proofs.Pickle.Reachable
import Pickling.Proofs.Cursor.Methods
import Pickling.Proofs.Shape.Collecting
import Pickling.Proofs.Shape.Steps
/-!
Transactions within transactions. A codec that gives up at the first failure may open one for each of
its calls, or for none of them: the outer one takes back what the inner ones have left, and the room
that was won stays in either case. Main statement: where such codecs differ in their inner transactions
alone, what comes of them as a whole is the same, be it a failure (`Shape.nesting_unnoticed`).
-/
namespace Pickling

section Transactions

variable {ε σ κ α β : Type}

/-- Results that an outer transaction turns into one: the same value in the same state, or the same
failure in states that agree in what no transaction takes back. -/
inductive Alike (reaches : σ → σ → Prop) (kept : σ → κ) (start : σ) :
    EStateM.Result ε σ α → EStateM.Result ε σ α → Prop
  | ok (value : α) {state : σ} : reaches start state →
      Alike reaches kept start (.ok value state) (.ok value state)
  | error (failure : ε) {left right : σ} : reaches start left → reaches start right →
      kept left = kept right → Alike reaches kept start (.error failure left) (.error failure right)

/-- Programs that differ in the transactions which they open for their parts, and in nothing else. A
failure is handed on, unless a part that both have in common handles it. -/
inductive Renested (shared : {α : Type} → EStateM ε σ α → Prop)
    (whole : {α : Type} → EStateM ε σ α → EStateM ε σ α) :
    {α : Type} → EStateM ε σ α → EStateM ε σ α → Prop
  | same {α : Type} {run : EStateM ε σ α} : shared run → Renested shared whole run run
  | left {α : Type} {run other : EStateM ε σ α} : Renested shared whole run other →
      Renested shared whole (whole run) other
  | right {α : Type} {run other : EStateM ε σ α} : Renested shared whole run other →
      Renested shared whole run (whole other)
  | bind {α β : Type} {run other : EStateM ε σ α} {next following : α → EStateM ε σ β} :
      Renested shared whole run other →
        (∀ value, Renested shared whole (next value) (following value)) →
          Renested shared whole (run >>= next) (other >>= following)

/-- What makes inner transactions superfluous: they take back no more than the outer one does. States
from which all this can be said are those that reach themselves. -/
structure Transactional (shared : {α : Type} → EStateM ε σ α → Prop)
    (whole : {α : Type} → EStateM ε σ α → EStateM ε σ α) (reaches : σ → σ → Prop)
    (kept : σ → κ) : Prop where
  sound : ∀ {start state : σ}, reaches start state → reaches state state
  trans : ∀ {start state last : σ}, reaches start state → reaches state last → reaches start last
  shared_alike : ∀ {α : Type} {run : EStateM ε σ α} {start : σ}, shared run → reaches start start →
    Alike reaches kept start (run start) (run start)
  whole_alike : ∀ {α : Type} {run : EStateM ε σ α} {start : σ} {second : EStateM.Result ε σ α},
    reaches start start → Alike reaches kept start (run start) second →
      Alike reaches kept start (whole run start) second
  whole_eq : ∀ {α : Type} {run other : EStateM ε σ α} {start : σ}, reaches start start →
    Alike reaches kept start (run start) (other start) → whole run start = whole other start

namespace Alike

variable {reaches : σ → σ → Prop} {kept : σ → κ} {start state : σ}
  {first second : EStateM.Result ε σ α}

theorem symm (h : Alike reaches kept start first second) :
    Alike reaches kept start second first := by
  cases h with
  | ok value hstate => exact .ok value hstate
  | error failure hleft hright hkept => exact .error failure hright hleft hkept.symm

theorem of_reaches
    (htrans : ∀ {start state last : σ}, reaches start state → reaches state last → reaches start last)
    (hstate : reaches start state) (h : Alike reaches kept state first second) :
    Alike reaches kept start first second := by
  cases h with
  | ok value hlast => exact .ok value (htrans hstate hlast)
  | error failure hleft hright hkept =>
      exact .error failure (htrans hstate hleft) (htrans hstate hright) hkept

end Alike

namespace Renested

variable {shared : {α : Type} → EStateM ε σ α → Prop}
  {whole : {α : Type} → EStateM ε σ α → EStateM ε σ α} {reaches : σ → σ → Prop} {kept : σ → κ}
  {run other : EStateM ε σ α} {start : σ}

theorem alike (laws : Transactional shared whole reaches kept)
    (h : Renested shared whole run other) (hstart : reaches start start) :
    Alike reaches kept start (run start) (other start) := by
  induction h generalizing start with
  | same hshared => exact laws.shared_alike hshared hstart
  | left _ ih => exact laws.whole_alike hstart (ih hstart)
  | right _ ih => exact (laws.whole_alike hstart (ih hstart).symm).symm
  | @bind _ _ run other next following _ _ hfirst hnext =>
      change Alike reaches kept start (EStateM.bind run next start)
        (EStateM.bind other following start)
      have hrun := hfirst hstart
      rw [EStateM.bind, EStateM.bind]
      generalize run start = first at hrun ⊢
      generalize other start = second at hrun ⊢
      cases hrun with
      | ok value hstate => exact .of_reaches laws.trans hstate (hnext value (laws.sound hstate))
      | error failure hleft hright hkept => exact .error failure hleft hright hkept

theorem whole_eq (laws : Transactional shared whole reaches kept)
    (h : Renested shared whole run other) (hstart : reaches start start) :
    whole run start = whole other start :=
  laws.whole_eq hstart (h.alike laws hstart)

end Renested

end Transactions

namespace Writer

abbrev Renested {α : Type} (write other : Writer α) : Prop :=
  Pickling.Renested ByMethods atomically write other

/-- A transaction takes bytes back, but no room. -/
theorem transactional :
    Transactional ByMethods atomically Pickle.Extends Pickle.capacity where
  sound h := h.valid.extends_self
  trans first second := first.trans second
  shared_alike := by
    intro α write pickle hmethods hself
    have hext := hmethods.extending pickle hself.valid
    cases hwrite : write pickle with
    | ok value written =>
        rw [after_of_ok hwrite] at hext
        exact .ok value hext
    | error failure written =>
        rw [after_of_error hwrite] at hext
        exact .error failure hext hext rfl
  whole_alike := by
    intro α write pickle second hself h
    rw [atomically]
    generalize write pickle = first at h ⊢
    cases h with
    | ok value hext => exact .ok value hext
    | error failure hleft hright hcapacity =>
        refine .error failure (hleft.extends_truncate hself.valid) hright ?_
        rw [hleft.truncate_eq hself.valid, Pickle.capacity_holding, hcapacity]
  whole_eq := by
    intro α write other pickle hself h
    rw [atomically, atomically]
    generalize write pickle = first at h ⊢
    generalize other pickle = second at h ⊢
    cases h with
    | ok value hext => rfl
    | error failure hleft hright hcapacity =>
        dsimp only
        rw [hleft.truncate_eq hself.valid, hright.truncate_eq hself.valid, hcapacity]

theorem Renested.atomically_eq {α : Type} {write other : Writer α} (h : write.Renested other)
    {pickle : Pickle} (hreachable : pickle.Reachable) :
    atomically write pickle = atomically other pickle :=
  h.whole_eq transactional hreachable.valid.extends_self

end Writer

namespace Reader

abbrev Renested {α : Type} (read other : Reader α) : Prop :=
  Pickling.Renested ByMethods atomically read other

/-- A transaction takes all of the way back. -/
theorem transactional :
    Transactional ByMethods atomically Cursor.Leads (fun _ => ()) where
  sound _ := .refl _
  trans first second := first.trans second
  shared_alike := by
    intro α read cursor hmethods _
    have hlead := hmethods.leads cursor
    cases hread : read cursor with
    | ok value behind =>
        rw [after_of_ok hread] at hlead
        exact .ok value hlead
    | error failure behind =>
        rw [after_of_error hread] at hlead
        exact .error failure hlead hlead rfl
  whole_alike := by
    intro α read cursor second hself h
    rw [atomically]
    generalize read cursor = first at h ⊢
    cases h with
    | ok value hlead => exact .ok value hlead
    | error failure hleft hright _ =>
        dsimp only
        rw [hleft.restore_eq]
        exact .error failure hself hright rfl
  whole_eq := by
    intro α read other cursor _ h
    rw [atomically, atomically]
    generalize read cursor = first at h ⊢
    generalize other cursor = second at h ⊢
    cases h with
    | ok value hlead => rfl
    | error failure hleft hright _ =>
        dsimp only
        rw [hleft.restore_eq, hright.restore_eq]

theorem Renested.atomically_eq {α : Type} {read other : Reader α} (h : read.Renested other) :
    atomically read = atomically other := by
  funext cursor
  exact h.whole_eq transactional (.refl cursor)

theorem Renested.map {α β : Type} {read other : Reader α} (h : read.Renested other) (f : α → β) :
    (f <$> read).Renested (f <$> other) := by
  rw [map_eq_pure_bind, map_eq_pure_bind]
  exact .bind h fun value => .same (.pure (f value))

end Reader

namespace Shape

variable {κ : Type} [Vocabulary κ]

def encodeIn [Memory] (whole : Bool) (shape : Shape κ) (value : shape.Value) : Writer Unit :=
  if whole then shape.write value else shape.encode value

def decodeIn (whole : Bool) (shape : Shape κ) : Reader shape.Value :=
  if whole then shape.read else shape.decode

/-- Writes the members of a tuple one by one, each in a style of its own. -/
def encodeMembers [Memory] : (shape : Shape κ) → List Bool → shape.Value → Writer Unit
  | .single member, styles => member.encodeIn (styles.headD false)
  | .cons member rest, styles => fun members => do
    member.encodeIn (styles.headD false) members.1
    encodeMembers rest styles.tail members.2
  | shape, _ => shape.encode

/-- Reads the members of a tuple one by one, each in a style of its own. -/
def decodeMembers : (shape : Shape κ) → List Bool → Reader shape.Value
  | .single member, styles => member.decodeIn (styles.headD false)
  | .cons member rest, styles => do
    return (← member.decodeIn (styles.headD false), ← decodeMembers rest styles.tail)
  | shape, _ => shape.decode

theorem renested_encodeIn [Memory] (records : Vocabulary.ByMethods κ) (whole : Bool)
    (shape : Shape κ) (value : shape.Value) :
    (shape.encodeIn whole value).Renested (shape.encode value) := by
  have hsame : (shape.encode value).Renested (shape.encode value) :=
    .same (shape.byMethods_encode records value)
  cases whole with
  | false => exact hsame
  | true => exact hsame.left

theorem renested_decodeIn (records : Vocabulary.ReadByMethods κ) (whole : Bool) (shape : Shape κ) :
    (shape.decodeIn whole).Renested shape.decode := by
  have hsame : shape.decode.Renested shape.decode := .same (shape.byMethods_decode records)
  cases whole with
  | false => exact hsame
  | true => exact hsame.left

theorem renested_encodeMembers [Memory] (records : Vocabulary.ByMethods κ) (shape : Shape κ)
    (styles : List Bool) (members : shape.Value) :
    (shape.encodeMembers styles members).Renested (shape.encode members) := by
  induction shape generalizing styles with
  | single member => exact renested_encodeIn records _ member members
  | cons member rest _ ih =>
      exact .bind (renested_encodeIn records _ member members.1) fun _ => ih styles.tail members.2
  | bool | number | char | text | wide | path | sequence | set | map | boxed | record =>
      exact .same (byMethods_encode records _ members)

theorem renested_decodeMembers (records : Vocabulary.ReadByMethods κ) (shape : Shape κ)
    (styles : List Bool) : (shape.decodeMembers styles).Renested shape.decode := by
  induction shape generalizing styles with
  | single member => exact renested_decodeIn records _ member
  | cons member rest _ ih =>
      exact .bind (renested_decodeIn records _ member) fun value =>
        .bind (ih styles.tail) fun _ => .same (.pure _)
  | bool | number | char | text | wide | path | sequence | set | map | boxed | record =>
      exact .same (byMethods_decode records _)

/-- A codec that gives up at the first failure may open a transaction for each of its calls or for none
of them. So a record that is written and read member by member is, on the wire, the tuple of its
members, with the same failures. -/
theorem nesting_unnoticed (records : Vocabulary.ByMethods κ)
    (readRecords : Vocabulary.ReadByMethods κ) :
    (∀ {α : Type} (write other : Writer α), write.Renested other → ∀ pickle : Pickle,
      pickle.Reachable → Writer.atomically write pickle = Writer.atomically other pickle) ∧
    (∀ {α : Type} (read other : Reader α), read.Renested other →
      Reader.atomically read = Reader.atomically other) ∧
    (∀ (shape : Shape κ) (styles : List Bool),
      (∀ [Memory] (members : shape.Value) (pickle : Pickle), pickle.Reachable →
        Writer.atomically (shape.encodeMembers styles members) pickle = shape.write members pickle) ∧
      Reader.atomically (shape.decodeMembers styles) = shape.read) ∧
    ∀ (name : κ) (shape : Shape κ) (styles : List Bool),
      (∀ [Memory] (members : Vocabulary.Value name → shape.Value),
        (∀ value, Vocabulary.encode name value = shape.encodeMembers styles (members value)) →
          ∀ value, (Vocabulary.encode name value).Renested (shape.encode (members value)) ∧
            ∀ pickle : Pickle, pickle.Reachable →
              (record name).write value pickle = shape.write (members value) pickle) ∧
      ∀ make : shape.Value → Vocabulary.Value name,
        Vocabulary.decode name = make <$> shape.decodeMembers styles →
          (Vocabulary.decode name).Renested (make <$> shape.decode) ∧
            (record name).read = make <$> shape.read := by
  refine ⟨fun _ _ h _ => h.atomically_eq, fun _ _ h => h.atomically_eq,
    fun shape styles => ⟨?_, ?_⟩, fun name shape styles => ⟨?_, ?_⟩⟩
  · intro memory members pickle
    exact (renested_encodeMembers records shape styles members).atomically_eq
  · exact (renested_decodeMembers readRecords shape styles).atomically_eq
  · intro memory members hencode value
    have hmembers := renested_encodeMembers records shape styles (members value)
    rw [← hencode] at hmembers
    exact ⟨hmembers, fun pickle => hmembers.atomically_eq⟩
  · intro make hdecode
    have hmembers := (renested_decodeMembers readRecords shape styles).map make
    rw [← hdecode] at hmembers
    refine ⟨hmembers, ?_⟩
    rw [read, read, Reader.map_atomically]
    exact hmembers.atomically_eq

end Shape

namespace Sample

def Entry.tuple : Shape Record :=
  .cons (.number .u32) (.cons .text (.cons (.sequence .vector (.number .f32)) (.single .bool)))

def Entry.members (entry : Entry) : Entry.tuple.Value :=
  (entry.id, entry.name, entry.samples, entry.active)

def Entry.ofMembers (members : Entry.tuple.Value) : Entry :=
  ⟨members.1, members.2.1, members.2.2.1, members.2.2.2⟩

theorem Entry.encode_eq [Memory] (entry : Entry) : Vocabulary.encode Record.entry entry =
    Entry.tuple.encodeMembers [true, true, true, true] entry.members := rfl

theorem Entry.decode_eq : Vocabulary.decode Record.entry =
    Entry.ofMembers <$> Entry.tuple.decodeMembers [true, true, true, true] := by
  let make (members : BitVec 32 × String × Array (BitVec 32) × Bool) : Entry :=
    ⟨members.1, members.2.1, members.2.2.1, members.2.2.2⟩
  change Entry.decode = make <$> (do
    return (← BuiltIn.u32.read, ← (do
      return (← (Shape.text : BuiltIn).read, ← (do
        return (← BuiltIn.samples.read, ← (Shape.bool : BuiltIn).read))))))
  simp only [map_bind, map_pure, bind_assoc, pure_bind]
  rfl

def overlong : Entry := ⟨7, "a name that leaves one word and no more to it", #[0], true⟩

def nameless : Cursor := .ofPayload ⟨#[7, 0, 0, 0, 4, 0, 0, 0]⟩

/-- The sample that has no room is refused to the entry and to the tuple, and so is the missing name. -/
theorem entry_nesting_unnoticed :
    (∃ failure left,
      @Shape.write _ _ (.upTo 64) (.record .entry : Shape Record) overlong .empty =
        .error failure left ∧
      @Shape.write _ _ (.upTo 64) Entry.tuple overlong.members .empty = .error failure left) ∧
    (.record .entry : Shape Record).read nameless =
      .error (.truncatedRead "string" 4 0) nameless ∧
    (Entry.ofMembers <$> Entry.tuple.read) nameless =
      .error (.truncatedRead "string" 4 0) nameless := by
  let memory := Memory.upTo 64
  obtain ⟨-, -, -, hrecord⟩ := Shape.nesting_unnoticed Sample.byMethods Sample.readByMethods
  obtain ⟨hwritten, hmade⟩ := hrecord .entry Entry.tuple [true, true, true, true]
  have hwrite := (hwritten Entry.members Entry.encode_eq overlong).2 .empty (.withCapacity _)
  have hread := (hmade Entry.ofMembers Entry.decode_eq).2
  have hnameless : (.record .entry : Shape Record).read nameless =
      .error (.truncatedRead "string" 4 0) nameless := rfl
  refine ⟨?_, hnameless, hread ▸ hnameless⟩
  have hrefused : (((.record .entry : Shape Record).write overlong).attempt .empty).isOk = false := by
    decide +kernel
  cases hresult : (.record .entry : Shape Record).write overlong .empty with
  | ok value written =>
      rw [Writer.attempt_eq_ok.2 hresult] at hrefused
      cases hrefused
  | error failure left => exact ⟨failure, left, rfl, hwrite ▸ hresult⟩

/-- Whoever handles a failure can tell whether it was taken back. -/
example : (Writer.after (@Leak.encode .ample ⟨#[1]⟩) .empty).payloadSize = 8 ∧
    (Writer.after (@Retry.encode .ample ⟨#[1]⟩) .empty).payloadSize = 4 := by
  decide +kernel

end Sample

end Pickling
