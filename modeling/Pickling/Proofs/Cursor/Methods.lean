import Mathlib.Data.Nat.Bitwise
import Pickling.Proofs.Cursor.Runs
import Pickling.Proofs.Layout
import Pickling.Sample
/-!
Readers that reach the cursor through the methods of this library alone, whatever they do with
failures in between. Main statements: such a reader keeps to the payload and never goes back behind
where it began (`Reader.ByMethods.leads`), one that is made atomic and fails has not moved at all
(`Reader.ByMethods.restoring`), and the decoders of all shapes are such readers
(`Shape.byMethods_decode`).
-/
namespace Pickling

namespace Cursor

/-- Where reading can bring a cursor: to a whole word, or to the end of the payload. -/
structure Placed (cursor : Cursor) : Prop where
  held : cursor.payload.size ≤ largestWord
  inside : cursor.position ≤ cursor.payload.size
  aligned : 4 ∣ cursor.position ∨ cursor.position = cursor.payload.size

/-- What reading may do to a cursor. -/
structure Leads (before after : Cursor) : Prop where
  payload_eq : after.payload = before.payload
  position_le : before.position ≤ after.position
  placed : before.Placed → after.Placed

variable {before after last : Cursor}

theorem Leads.refl (cursor : Cursor) : cursor.Leads cursor := ⟨rfl, le_rfl, id⟩

theorem Leads.trans (first : before.Leads after) (second : after.Leads last) :
    before.Leads last := by
  refine ⟨second.payload_eq.trans first.payload_eq, first.position_le.trans second.position_le, ?_⟩
  intro h
  exact second.placed (first.placed h)

theorem Leads.remaining_le (h : before.Leads after) : after.remaining ≤ before.remaining := by
  have hposition := h.position_le
  simp only [remaining, h.payload_eq]
  omega

theorem Leads.restore_eq (h : before.Leads after) :
    { after with position := before.position } = before := by
  simp [h.payload_eq]

theorem placed_ofPayload {payload : ByteArray} (h : payload.size ≤ largestWord) :
    (ofPayload payload).Placed :=
  ⟨h, Nat.zero_le _, .inl ⟨0, rfl⟩⟩

end Cursor

namespace Reader

variable {α β : Type}

def after (read : Reader α) (cursor : Cursor) : Cursor :=
  match read cursor with
  | .ok _ behind => behind
  | .error _ behind => behind

theorem after_of_ok {read : Reader α} {cursor behind : Cursor} {value : α}
    (h : read cursor = .ok value behind) : read.after cursor = behind := by
  rw [after, h]

theorem after_of_error {read : Reader α} {cursor behind : Cursor} {failure : Failure}
    (h : read cursor = .error failure behind) : read.after cursor = behind := by
  rw [after, h]

/-- Readers that reach the cursor through the methods of this library alone, with any control flow
between them. -/
inductive ByMethods : {α : Type} → Reader α → Prop
  | pure {α : Type} (value : α) : ByMethods (pure value)
  | throw {α : Type} (failure : Failure) : ByMethods (throw failure : Reader α)
  | look : ByMethods get
  | take (count : Nat) (element : String) : ByMethods (take count element)
  | atomically {α : Type} {read : Reader α} : ByMethods read → ByMethods (atomically read)
  | bind {α β : Type} {read : Reader α} {next : α → Reader β} :
      ByMethods read → (∀ value, ByMethods (next value)) → ByMethods (read >>= next)
  | tryCatch {α : Type} {read : Reader α} {handle : Failure → Reader α} :
      ByMethods read → (∀ failure, ByMethods (handle failure)) → ByMethods (tryCatch read handle)

/-- Readers that stand where they stood if they fail. -/
def Restoring (read : Reader α) : Prop :=
  ∀ cursor behind failure, read cursor = .error failure behind → behind = cursor

theorem leads_take (count : Nat) (element : String) (cursor : Cursor) :
    cursor.Leads ((take count element).after cursor) := by
  rw [after, take]
  split_ifs with hshort
  · exact .refl cursor
  · refine ⟨rfl, Nat.le_add_right _ _, ?_⟩
    rintro ⟨hheld, hinside, haligned⟩
    have hremaining : cursor.remaining ≤ largestWord := (Nat.sub_le _ _).trans hheld
    rw [min_segmentEnd? hremaining]
    simp only [Cursor.remaining, paddedSize]
    constructor
    · exact hheld
    · dsimp only
      omega
    · dsimp only
      omega

namespace ByMethods

variable {read : Reader α}

theorem leads (h : read.ByMethods) (cursor : Cursor) : cursor.Leads (read.after cursor) := by
  induction h generalizing cursor with
  | pure value => exact .refl cursor
  | throw failure => exact .refl cursor
  | look => exact .refl cursor
  | take count element => exact leads_take count element cursor
  | @atomically _ read _ ih =>
      have hlead := ih cursor
      rw [after, Reader.atomically]
      cases hread : read cursor with
      | ok value behind => rwa [after_of_ok hread] at hlead
      | error failure behind =>
          rw [after_of_error hread] at hlead
          simp only [hlead.restore_eq]
          exact .refl cursor
  | @bind _ _ read next _ _ hfirst hnext =>
      have hlead := hfirst cursor
      have hbind : (read >>= next) cursor = EStateM.bind read next cursor := rfl
      rw [after, hbind, EStateM.bind]
      cases hread : read cursor with
      | ok value behind =>
          rw [after_of_ok hread] at hlead
          exact hlead.trans (hnext value behind)
      | error failure behind => rwa [after_of_error hread] at hlead
  | @tryCatch _ read handle _ _ hfirst hhandle =>
      have hlead := hfirst cursor
      change cursor.Leads (after (EStateM.tryCatch read handle) cursor)
      rw [after, EStateM.tryCatch]
      cases hread : read cursor with
      | ok value behind => rwa [after_of_ok hread] at hlead
      | error failure behind =>
          -- nothing is saved for a handler, which goes on from where the reader failed
          rw [after_of_error hread] at hlead
          exact hlead.trans (hhandle failure behind)

theorem leads_of_ok (h : read.ByMethods) {cursor behind : Cursor} {value : α}
    (hok : read cursor = .ok value behind) : cursor.Leads behind :=
  after_of_ok hok ▸ h.leads cursor

theorem leads_of_error (h : read.ByMethods) {cursor behind : Cursor} {failure : Failure}
    (herror : read cursor = .error failure behind) : cursor.Leads behind :=
  after_of_error herror ▸ h.leads cursor

/-- A reader that is made atomic goes back to where it was, for the payload is still the same. -/
theorem restoring (h : (Reader.atomically read).ByMethods) : (Reader.atomically read).Restoring := by
  intro cursor behind failure herror
  have hlead := h.leads_of_error herror
  obtain ⟨stopped, -, rfl⟩ := atomically_eq_error.1 herror
  exact hlead.restore_eq

theorem map (h : read.ByMethods) (f : α → β) : (f <$> read).ByMethods := by
  rw [map_eq_pure_bind]
  exact .bind h fun value => .pure (f value)

theorem number (kind : Number) : (number kind).ByMethods := .map (.take _ _) _

theorem plain (kind : Plain) : (plain kind).ByMethods := .map (.take _ _) _

theorem bool : bool.ByMethods := by
  refine .atomically (.bind (.number .u8) fun value => ?_)
  split
  · exact .pure false
  · exact .pure true
  · exact .throw _

theorem length : length.ByMethods := by
  refine .atomically (.bind (.number .i32) fun count => ?_)
  split_ifs
  · exact .pure count
  · exact .throw _

theorem counted (elementSize : Nat) (element : String) : (counted elementSize element).ByMethods := by
  refine .bind length fun count => ?_
  split_ifs
  · exact .take _ _
  · exact .throw _

theorem data : data.ByMethods := .atomically (.counted _ _)

theorem text : text.ByMethods := by
  refine .atomically (.bind (.counted 1 "string") fun bytes => ?_)
  split
  · exact .pure _
  · exact .throw _

theorem wide : wide.ByMethods := .atomically (.map (.counted _ _) _)

theorem path : path.ByMethods := .map text _

theorem char : char.ByMethods := by
  refine .bind (.number .u32) fun code => ?_
  by_cases hvalid : code.isValidChar
  · rw [dif_pos hvalid]
    exact .pure _
  · rw [dif_neg hvalid]
    exact .throw _

theorem skip (count : Nat) : (skip count).ByMethods := .map (.take _ _) _

theorem count : count.ByMethods := .bind length fun _ => .bind .look fun _ => .pure _

theorem gather {item : Reader α} (h : item.ByMethods) (put : β → α → β) (count : Nat)
    (collection : β) : (gather item put count collection).ByMethods := by
  induction count generalizing collection with
  | zero => exact .pure collection
  | succ count ih => exact .bind h fun a => ih (put collection a)

end ByMethods

namespace Restoring

variable {read : Reader α}

theorem take (count : Nat) (element : String) : (take count element).Restoring := by
  intro cursor behind failure herror
  rw [Reader.take] at herror
  split_ifs at herror with hshort
  cases herror
  rfl

theorem map (h : read.Restoring) (f : α → β) : (f <$> read).Restoring := by
  intro cursor behind failure herror
  change EStateM.map f read cursor = _ at herror
  rw [EStateM.map] at herror
  cases hread : read cursor with
  | ok value other => simp [hread] at herror
  | error refusal other =>
      simp only [hread, EStateM.Result.error.injEq] at herror
      exact h cursor behind refusal (herror.2 ▸ hread)

end Restoring

end Reader

def Vocabulary.ReadByMethods (κ : Type) [Vocabulary κ] : Prop :=
  ∀ record : κ, (Vocabulary.decode record).ByMethods

theorem Shape.byMethods_decode {κ : Type} [Vocabulary κ] (records : Vocabulary.ReadByMethods κ)
    (shape : Shape κ) : shape.decode.ByMethods := by
  induction shape with
  | bool => exact .bool
  | number kind => exact .map (.number _) _
  | char => exact .char
  | text => exact .text
  | wide => exact .wide
  | path => exact .path
  | sequence storage item ih => exact .bind .count fun _ => .gather ih _ _ _
  | set arrangement item ih => exact .bind .count fun _ => .gather ih _ _ _
  | map arrangement key value hkey hvalue =>
      refine .bind .count fun _ => .gather ?_ _ _ _
      exact .bind hkey fun _ => .bind hvalue fun _ => .pure _
  | single member ih => exact ih
  | cons member rest hmember hrest => exact .bind hmember fun _ => .bind hrest fun _ => .pure _
  | boxed content ih => exact ih
  | record name => exact records name

theorem Shape.restoring_read {κ : Type} [Vocabulary κ] (records : Vocabulary.ReadByMethods κ)
    (shape : Shape κ) : shape.read.Restoring :=
  (shape.byMethods_decode records).atomically.restoring

theorem BuiltIn.readByMethods : Vocabulary.ReadByMethods Empty := fun record => record.elim

theorem Sample.readByMethods : Vocabulary.ReadByMethods Sample.Record := by
  have hread (shape : BuiltIn) : shape.read.ByMethods :=
    .atomically (shape.byMethods_decode BuiltIn.readByMethods)
  have hpoison : Poison.decode.ByMethods := by
    refine .bind (.plain _) fun number => ?_
    split_ifs
    · exact .pure _
    · exact .throw _
  have horPosition {read : Reader Poison} {afterwards : Reader Unit} (h : read.ByMethods)
      (hafterwards : afterwards.ByMethods) : (orPosition read afterwards).ByMethods := by
    refine .tryCatch (.bind h fun _ => .pure _) fun failure => ?_
    dsimp only
    split_ifs
    · exact .bind (.throw _) fun _ => .bind .look fun _ => .bind hafterwards fun _ => .pure _
    · exact .bind .look fun _ => .bind hafterwards fun _ => .pure _
  intro record
  cases record with
  | entry =>
      exact .bind (hread _) fun _ => .bind (hread _) fun _ => .bind (hread _) fun _ =>
        .bind (hread _) fun _ => .pure _
  | poison => exact hpoison
  | leak =>
      exact .bind .length fun _ => .bind (.gather (horPosition hpoison (.pure _)) _ _ _) fun _ =>
        .pure _
  | retry =>
      exact .bind .length fun _ =>
        .bind (.gather (horPosition (.atomically hpoison) (.skip 4)) _ _ _) fun _ => .pure _
  | either =>
      exact .tryCatch (.bind (hread _) fun _ => .pure _) fun _ => .bind (hread _) fun _ => .pure _

end Pickling
