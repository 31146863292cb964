import Mathlib.Data.Nat.Bitwise
import Pickling.Proofs.Checked
import Pickling.Proofs.Cursor.Methods
/-!
The arithmetic of reading never leaves its range. All of reading is given once more in the arithmetic
of a machine, where a number that leaves its word or a range that leaves the payload gives nothing. Main
statements: serialized bytes are opened in range, whatever they are (`View.ofBytes?_eq`), and from
wherever reading can bring a cursor, every value is read just as without bounds
(`BuiltIn.follows_decode`).
-/
namespace Pickling

namespace View

def ofBytes? (bytes : ByteArray) : Option View :=
  match Header.ofBytes? bytes with
  | none => do return ⟨← Checked.slice bytes 0 0, default⟩
  | some header => do
    let available ← Checked.sub bytes.size headerSize
    let stop ← Checked.add headerSize (min header.payloadSize.toNat available)
    return ⟨← Checked.slice bytes 0 stop, header⟩

theorem ofBytes?_eq {bytes : ByteArray} (h : bytes.size ≤ largestWord) :
    ofBytes? bytes = some (ofBytes bytes) := by
  rw [ofBytes?, ofBytes]
  cases hheader : Header.ofBytes? bytes with
  | none =>
      rw [Checked.slice_of_le (Nat.zero_le _) (Nat.zero_le _)]
      simp
  | some header =>
      have hle : headerSize ≤ bytes.size := by
        by_contra hshort
        simp [Header.ofBytes?, hshort] at hheader
      have hstop : headerSize + min header.payloadSize.toNat (bytes.size - headerSize) ≤
          bytes.size := by omega
      simp [Checked.sub_of_le hle, Checked.add_of_le (hstop.trans h),
        Checked.slice_of_le (Nat.zero_le _) hstop]

end View

namespace Cursor

variable {cursor : Cursor}

def remaining? (cursor : Cursor) : Option Nat := Checked.sub cursor.payload.size cursor.position

def remainingBytes? (cursor : Cursor) : Option ByteArray :=
  Checked.slice cursor.payload cursor.position cursor.payload.size

theorem Placed.remaining?_eq (h : cursor.Placed) : cursor.remaining? = some cursor.remaining :=
  Checked.sub_of_le h.inside

theorem Placed.remainingBytes?_eq (h : cursor.Placed) :
    cursor.remainingBytes? = some cursor.remainingBytes :=
  Checked.slice_of_le h.inside le_rfl

end Cursor

/-- A way to read in the arithmetic of a machine. It gives nothing where the machine would have to stop,
which is no failure that a caller could handle. -/
def CheckedReader (α : Type) : Type := Cursor → Option (EStateM.Result Failure Cursor α)

namespace CheckedReader

variable {α β : Type}

instance : Monad CheckedReader where
  pure value := fun cursor => some (.ok value cursor)
  bind read next := fun cursor =>
    (read cursor).bind fun
      | .ok value behind => next value behind
      | .error failure behind => some (.error failure behind)

def fail (failure : Failure) : CheckedReader α := fun cursor => some (.error failure cursor)

/-- What is told of a cursor that stays. -/
def tell (told : Cursor → Option α) : CheckedReader α := fun cursor =>
  (told cursor).map fun value => .ok value cursor

def atomically (read : CheckedReader α) : CheckedReader α := fun cursor =>
  (read cursor).map fun
    | .ok value behind => .ok value behind
    | .error failure behind => .error failure { behind with position := cursor.position }

def take (count : Nat) (element : String) : CheckedReader ByteArray := fun cursor => do
  let remaining ← cursor.remaining?
  if remaining < count then
    return .error (.truncatedRead element count remaining) cursor
  else
    let advance := min ((segmentEnd? count).getD largestWord) remaining
    let position ← Checked.add cursor.position advance
    let stop ← Checked.add cursor.position count
    let bytes ← Checked.slice cursor.payload cursor.position stop
    return .ok bytes { cursor with position }

def number (kind : Number) : CheckedReader Nat := LittleEndian.decode <$> take kind.size kind.name

def bool : CheckedReader Bool := atomically do
  match ← number .u8 with
  | 0 => return false
  | 1 => return true
  | value => fail (.invalidFormat "bool" s!"unexpected value {value}")

def length : CheckedReader Nat := atomically do
  let count ← number .i32
  if count < 0x80000000 then return count
  else fail (.unmetFormat "length" "length >= 0")

def counted (elementSize : Nat) (element : String) : CheckedReader ByteArray := do
  let count ← length
  if count * elementSize ≤ largestWord then take (count * elementSize) element
  else fail (.lengthOverflow element count elementSize)

def data : CheckedReader ByteArray := atomically (counted 1 "data")

def text : CheckedReader String := atomically do
  match Text.Utf8.decode (← counted 1 "string") with
  | .ok value => return value
  | .error fault => fail (.invalidFormat "string" fault.message)

def wide : CheckedReader Wide := atomically (Wide.ofBytes <$> counted 2 "wide string")

def char : CheckedReader Char := do
  let code ← number .u32
  if h : code.isValidChar then return Char.ofNatAux code h
  else fail (.invalidFormat "char" ("invalid scalar 0x" ++ Text.hexadecimal code))

def path : CheckedReader Path := (⟨·.toUTF8⟩) <$> text

def count : CheckedReader (Nat × Nat) := do
  let count ← length
  let remaining ← tell Cursor.remaining?
  return (count, min count (remaining / segmentAlignment.toNat))

def gather (item : CheckedReader α) (put : β → α → β) : Nat → β → CheckedReader β
  | 0, collection => return collection
  | count + 1, collection => do gather item put count (put collection (← item))

end CheckedReader

def BuiltIn.decode? : (shape : BuiltIn) → CheckedReader shape.Value
  | .bool => CheckedReader.bool
  | .number kind => BitVec.ofNat _ <$> CheckedReader.number kind.onWire
  | .char => CheckedReader.char
  | .text => CheckedReader.text
  | .wide => CheckedReader.wide
  | .path => CheckedReader.path
  | .sequence storage item => do
    let (count, room) ← CheckedReader.count
    CheckedReader.gather (decode? item) Array.push count (storage.start room)
  | .set arrangement item => do
    let (count, _) ← CheckedReader.count
    CheckedReader.gather (decode? item) (item.insert arrangement) count []
  | .map arrangement key value => do
    let (count, _) ← CheckedReader.count
    let entry : CheckedReader (key.Value × value.Value) := do
      return (← decode? key, ← decode? value)
    CheckedReader.gather entry (key.assign value arrangement) count []
  | .single member => decode? member
  | .cons member rest => do return (← decode? member, ← decode? rest)
  | .boxed content => decode? content
  | .record name => name.elim

/-- Wherever reading can bring a cursor, the checked reader gives something, which is what the other one
gives. -/
structure CheckedReader.Follows {α : Type} (read? : CheckedReader α) (read : Reader α) : Prop where
  byMethods : read.ByMethods
  eq_some : ∀ {cursor : Cursor}, cursor.Placed → read? cursor = some (read cursor)

namespace CheckedReader.Follows

variable {α β : Type} {read? : CheckedReader α} {read : Reader α}

theorem pure (value : α) : Follows (Pure.pure value) (Pure.pure value) := ⟨.pure value, fun _ => rfl⟩

theorem fail (failure : Failure) : Follows (fail failure : CheckedReader α) (throw failure) :=
  ⟨.throw failure, fun _ => rfl⟩

theorem tell {told : Cursor → Option α} {f : Cursor → α}
    (h : ∀ {cursor : Cursor}, cursor.Placed → told cursor = some (f cursor)) :
    Follows (tell told) (f <$> get) := by
  refine ⟨.map .look f, fun hplaced => ?_⟩
  rw [CheckedReader.tell, h hplaced]
  rfl

theorem atomically (h : Follows read? read) : Follows read?.atomically (Reader.atomically read) := by
  refine ⟨.atomically h.byMethods, @fun cursor hplaced => ?_⟩
  rw [CheckedReader.atomically, h.eq_some hplaced, Reader.atomically]
  cases read cursor <;> rfl

theorem bind {next? : α → CheckedReader β} {next : α → Reader β} (h : Follows read? read)
    (hnext : ∀ value, Follows (next? value) (next value)) :
    Follows (read? >>= next?) (read >>= next) := by
  refine ⟨.bind h.byMethods fun value => (hnext value).byMethods, @fun cursor hplaced => ?_⟩
  change (read? cursor).bind _ = some (EStateM.bind read next cursor)
  rw [h.eq_some hplaced, EStateM.bind, Option.bind_some]
  cases hread : read cursor with
  | ok value behind =>
      -- the first part is made of methods, so it leads to a cursor from which the second follows too
      exact (hnext value).eq_some ((h.byMethods.leads_of_ok hread).placed hplaced)
  | error failure behind => rfl

theorem map (h : Follows read? read) (f : α → β) : Follows (f <$> read?) (f <$> read) := by
  rw [map_eq_pure_bind f read]
  exact h.bind fun value => .pure (f value)

theorem take (count : Nat) (element : String) :
    Follows (take count element) (Reader.take count element) := by
  refine ⟨.take count element, @fun cursor hplaced => ?_⟩
  have hheld := hplaced.held
  have hinside := hplaced.inside
  rw [CheckedReader.take, Reader.take, hplaced.remaining?_eq]
  simp only [Option.bind_eq_bind, Option.bind_some]
  split_ifs with hshort
  · rfl
  · have hstop : cursor.position + count ≤ cursor.payload.size := by
      simp only [Cursor.remaining] at hshort
      omega
    have hposition : cursor.position +
        min ((segmentEnd? count).getD largestWord) cursor.remaining ≤ largestWord := by
      simp only [Cursor.remaining]
      omega
    simp [Checked.add_of_le hposition, Checked.add_of_le (hstop.trans hheld),
      Checked.slice_of_le (Nat.le_add_right _ _) hstop]

theorem number (kind : Number) : Follows (number kind) (Reader.number kind) := .map (.take _ _) _

theorem bool : Follows bool Reader.bool := by
  refine .atomically (.bind (.number .u8) fun value => ?_)
  rcases value with _ | _ | value
  · exact .pure false
  · exact .pure true
  · exact .fail _

theorem length : Follows length Reader.length := by
  refine .atomically (.bind (.number .i32) fun count => ?_)
  split_ifs
  · exact .pure count
  · exact .fail _

theorem counted (elementSize : Nat) (element : String) :
    Follows (counted elementSize element) (Reader.counted elementSize element) := by
  refine .bind length fun count => ?_
  split_ifs
  · exact .take _ _
  · exact .fail _

theorem data : Follows data Reader.data := .atomically (.counted _ _)

theorem text : Follows text Reader.text := by
  refine .atomically (.bind (.counted 1 "string") fun bytes => ?_)
  cases Text.Utf8.decode bytes with
  | ok value => exact .pure value
  | error fault => exact .fail _

theorem wide : Follows wide Reader.wide := .atomically (.map (.counted _ _) _)

theorem char : Follows char Reader.char := by
  refine .bind (.number .u32) fun code => ?_
  by_cases hvalid : code.isValidChar
  · rw [dif_pos hvalid, dif_pos hvalid]
    exact .pure _
  · rw [dif_neg hvalid, dif_neg hvalid]
    exact .fail _

theorem path : Follows path Reader.path := .map text _

theorem count : Follows count Reader.count :=
  .bind length fun _ => .bind (.tell Cursor.Placed.remaining?_eq) fun _ => .pure _

theorem gather {item? : CheckedReader α} {item : Reader α} (h : Follows item? item)
    (put : β → α → β) (count : Nat) (collection : β) :
    Follows (gather item? put count collection) (Reader.gather item put count collection) := by
  induction count generalizing collection with
  | zero => exact .pure collection
  | succ count ih => exact .bind h fun a => ih (put collection a)

end CheckedReader.Follows

/-- Whatever is computed with the position of a cursor stays in range. -/
structure Cursor.InRange (cursor : Cursor) : Prop where
  remaining : cursor.remaining? = some cursor.remaining
  remainingBytes : cursor.remainingBytes? = some cursor.remainingBytes
  take : ∀ (count : Nat) (element : String),
    CheckedReader.take count element cursor = some (Reader.take count element cursor)

theorem Cursor.Placed.inRange {cursor : Cursor} (h : cursor.Placed) : cursor.InRange :=
  ⟨h.remaining?_eq, h.remainingBytes?_eq, fun _ _ => (CheckedReader.Follows.take _ _).eq_some h⟩

theorem BuiltIn.follows_decode (shape : BuiltIn) : shape.decode?.Follows shape.decode := by
  induction shape with
  | bool => exact .bool
  | number kind => exact .map (.number _) _
  | char => exact .char
  | text => exact .text
  | wide => exact .wide
  | path => exact .path
  | sequence storage item ih => exact .bind .count fun _ => .gather ih _ _ _
  | set arrangement item ih => exact .bind .count fun _ => .gather ih _ _ _
  | map arrangement key value hkey hvalue =>
      refine .bind .count fun _ => .gather ?_ _ _ _
      exact .bind hkey fun _ => .bind hvalue fun _ => .pure _
  | single member ih => exact ih
  | cons member rest hmember hrest => exact .bind hmember fun _ => .bind hrest fun _ => .pure _
  | boxed content ih => exact ih
  | record name => exact name.elim

end Pickling
