import Mathlib.Algebra.BigOperators.Group.List.Basic
import Pickling.Proofs.Cursor.Methods
import Pickling.Proofs.Cursor.Slots
import Pickling.Proofs.Shape.Collecting
import Pickling.Proofs.Shape.Spelling
/-!
A value is no larger than the bytes that describe it. What is read is counted along: a basic value, a
text and a collection are one node each, tuples and boxes none. Main statements: the count changes
nothing of what is read (`BuiltIn.snd_tally`), each node has a word of its own in the payload
(`BuiltIn.tallies_tally`), and so no payload can be made to give more nodes than it has words left
(`BuiltIn.decode_bounded`).
-/
namespace Pickling

namespace Reader

variable {α β : Type}

def counting (put : β → α → β) (counted : Nat × β) (item : Nat × α) : Nat × β :=
  (counted.1 + item.1, put counted.2 item.2)

def both (first : Reader (Nat × α)) (second : Reader (Nat × β)) : Reader (Nat × α × β) := do
  let a ← first
  let b ← second
  return (a.1 + b.1, (a.2, b.2))

def collect (item : Reader (Nat × α)) (put : β → α → β) (start : Nat → β) : Reader (Nat × β) := do
  let (count, room) ← count
  gather item (counting put) count (1, start room)

theorem snd_both (first : Reader (Nat × α)) (second : Reader (Nat × β)) :
    Prod.snd <$> both first second = (do
      return (← Prod.snd <$> first, ← Prod.snd <$> second)) := by
  simp only [both, map_bind, map_pure, bind_map_left]

theorem both_map (weight : α → Nat) (weigh : β → Nat) (first : Reader α) (second : Reader β) :
    both ((fun a => (weight a, a)) <$> first) ((fun b => (weigh b, b)) <$> second) =
      (fun pair : α × β => (weight pair.1 + weigh pair.2, pair)) <$> (do
        return (← first, ← second)) := by
  simp only [both, map_bind, map_pure, bind_map_left]

theorem snd_collect (item : Reader (Nat × α)) (put : β → α → β) (start : Nat → β) :
    Prod.snd <$> collect item put start = (do
      let (count, room) ← count
      gather (Prod.snd <$> item) put count (start room)) := by
  rw [collect, map_bind]
  refine congrArg (count >>= ·) (funext fun (count, room) => ?_)
  change Prod.snd <$> gather item (counting put) count (1, start room) =
    gather (Prod.snd <$> item) put count (start room)
  rw [gather_map]
  exact map_gather item (f := Prod.snd) (fun _ _ => rfl) count (1, start room)

theorem collect_map {weight : α → Nat} {weigh : β → Nat} (item : Reader α) {put : β → α → β}
    (hput : ∀ collection a, weigh (put collection a) = weigh collection + weight a)
    {start : Nat → β} (hstart : ∀ room, weigh (start room) = 1) :
    collect ((fun a => (weight a, a)) <$> item) put start =
      (fun collection => (weigh collection, collection)) <$> (do
        let (count, room) ← count
        gather item put count (start room)) := by
  rw [collect, map_bind]
  refine congrArg (count >>= ·) (funext fun (count, room) => ?_)
  change gather _ (counting put) count (1, start room) = _ <$> gather item put count (start room)
  rw [gather_map, ← hstart room]
  refine (map_gather item (f := fun collection => (weigh collection, collection))
    (fun collection a => ?_) count (start room)).symm
  rw [counting, hput]

/-- Readers that count at least one word, at least what the value weighs, and no word that they have
not passed. -/
def Tallies (weight : α → Nat) (read : Reader (Nat × α)) : Prop :=
  ∀ cursor count value behind, read cursor = .ok (count, value) behind →
    0 < count ∧ weight value ≤ count ∧ cursor.Passes count behind

namespace Tallies

theorem one {read : Reader α} (h : read.Passes 1) :
    Tallies (fun _ => 1) ((fun value => (1, value)) <$> read) := by
  intro cursor count value behind hok
  obtain ⟨found, hread, heq⟩ := map_eq_ok.1 hok
  cases heq
  exact ⟨Nat.one_pos, le_rfl, h cursor value behind hread⟩

theorem both {first : Reader (Nat × α)} {second : Reader (Nat × β)} {weight : α → Nat}
    {weigh : β → Nat} (hfirst : first.Tallies weight) (hsecond : second.Tallies weigh) :
    Tallies (fun pair : α × β => weight pair.1 + weigh pair.2) (both first second) := by
  intro cursor count value behind hok
  obtain ⟨⟨m, a⟩, between, ha, hrest⟩ := bind_eq_ok.1 hok
  obtain ⟨⟨n, b⟩, _, hb, heq⟩ := bind_eq_ok.1 hrest
  cases heq
  obtain ⟨hm, ham, hpassed⟩ := hfirst cursor m a between ha
  obtain ⟨-, hbn, hpassing⟩ := hsecond between n b behind hb
  exact ⟨Nat.add_pos_left hm n, Nat.add_le_add ham hbn, hpassed.trans hpassing⟩

variable {item : Reader (Nat × α)} {weight : α → Nat} {weigh : β → Nat} {put : β → α → β}

/-- With what was counted before, the count covers the whole collection; the words are those of the
new items alone. -/
theorem gather (h : item.Tallies weight)
    (hput : ∀ collection a, weigh (put collection a) ≤ weigh collection + weight a) (count : Nat)
    {cursor behind : Cursor} {start counted : Nat × β} (hstart : weigh start.2 ≤ start.1)
    (hok : Reader.gather item (counting put) count start cursor = .ok counted behind) :
    ∃ more, counted.1 = start.1 + more ∧ weigh counted.2 ≤ counted.1 ∧ cursor.Passes more behind := by
  induction count generalizing start cursor with
  | zero =>
      cases hok
      exact ⟨0, rfl, hstart, .refl _⟩
  | succ count ih =>
      obtain ⟨⟨n, a⟩, between, hitem, hrest⟩ := bind_eq_ok.1 hok
      obtain ⟨-, hweight, hpassed⟩ := h cursor n a between hitem
      have hgrown : weigh (put start.2 a) ≤ start.1 + n :=
        (hput start.2 a).trans (Nat.add_le_add hstart hweight)
      obtain ⟨more, heq, htotal, hpassing⟩ := ih hgrown hrest
      refine ⟨n + more, ?_, htotal, hpassed.trans hpassing⟩
      rw [heq, counting, Nat.add_assoc]

/-- The word of the collection itself is that of its length. -/
theorem collect (h : item.Tallies weight)
    (hput : ∀ collection a, weigh (put collection a) ≤ weigh collection + weight a)
    {start : Nat → β} (hstart : ∀ room, weigh (start room) ≤ 1) :
    (collect item put start).Tallies weigh := by
  intro cursor total value behind hok
  obtain ⟨⟨count, room⟩, between, hcount, hgather⟩ := bind_eq_ok.1 hok
  obtain ⟨more, heq, hweight, hpassed⟩ := gather h hput count (hstart room) hgather
  obtain rfl : total = 1 + more := heq
  have hlength := Passes.length cursor count between (count_eq_ok.1 hcount).1
  exact ⟨Nat.add_pos_left Nat.one_pos more, hweight, hlength.trans hpassed⟩

end Tallies

end Reader

namespace BuiltIn

open Reader (Tallies)

/-- The basic values, texts and collections of which a value is made. -/
def nodes : (shape : BuiltIn) → shape.Value → Nat
  | .sequence _ item => fun items => 1 + ((Array.toList items).map (nodes item)).sum
  | .set _ item => fun items => 1 + (List.map (nodes item) items).sum
  | .map _ key content => fun entries =>
    1 + (List.map (fun entry => nodes key entry.1 + nodes content entry.2) entries).sum
  | .single member => nodes member
  | .cons member rest => fun members => nodes member members.1 + nodes rest members.2
  | .boxed content => nodes content
  | .record name => name.elim
  | .bool | .number _ | .char | .text | .wide | .path => fun _ => 1

/-- Reads a value and counts the nodes that are read, those among them that a set or a map does not
keep. -/
def tally : (shape : BuiltIn) → Reader (Nat × shape.Value)
  | .sequence storage item => Reader.collect (tally item) Array.push storage.start
  | .set arrangement item => Reader.collect (tally item) (Shape.insert item arrangement) fun _ => []
  | .map arrangement key content =>
    Reader.collect (Reader.both (tally key) (tally content)) (Shape.assign key content arrangement)
      fun _ => []
  | .single member => tally member
  | .cons member rest => Reader.both (tally member) (tally rest)
  | .boxed content => tally content
  | .record name => name.elim
  | .bool => (1, ·) <$> Shape.decode .bool
  | .number kind => (1, ·) <$> Shape.decode (.number kind)
  | .char => (1, ·) <$> Shape.decode .char
  | .text => (1, ·) <$> Shape.decode .text
  | .wide => (1, ·) <$> Shape.decode .wide
  | .path => (1, ·) <$> Shape.decode .path

theorem nodes_push (storage : Storage) (item : BuiltIn) (items : Array item.Value) (a : item.Value) :
    nodes (.sequence storage item) (items.push a) =
      nodes (.sequence storage item) items + item.nodes a := by
  change 1 + ((items.push a).toList.map item.nodes).sum =
    1 + (items.toList.map item.nodes).sum + item.nodes a
  simp [Nat.add_assoc]

theorem nodes_insert (arrangement : Arrangement) (item : BuiltIn) (items : List item.Value)
    (a : item.Value) : nodes (.set arrangement item) (item.insert arrangement items a) ≤
      nodes (.set arrangement item) items + item.nodes a := by
  have hinsert := arrangement.sum_insert_le item.order (fun old _ => old)
    (fun old new => Nat.le_add_right (item.nodes old) (item.nodes new)) a items
  exact (Nat.add_le_add_left hinsert 1).trans (Nat.add_assoc _ _ _).ge

theorem nodes_assign (arrangement : Arrangement) (key content : BuiltIn)
    (entries : List (key.Value × content.Value)) (entry : key.Value × content.Value) :
    nodes (.map arrangement key content) (key.assign content arrangement entries entry) ≤
      nodes (.map arrangement key content) entries +
        (key.nodes entry.1 + content.nodes entry.2) := by
  let weight (entry : key.Value × content.Value) := key.nodes entry.1 + content.nodes entry.2
  have hmerge (old new : key.Value × content.Value) :
      weight (old.1, new.2) ≤ weight old + weight new := by
    simp only [weight]
    omega
  have hinsert := arrangement.sum_insert_le (fun a b => key.order a.1 b.1)
    (fun old new => (old.1, new.2)) hmerge entry entries
  exact (Nat.add_le_add_left hinsert 1).trans (Nat.add_assoc _ _ _).ge

theorem tallies_tally (shape : BuiltIn) : shape.tally.Tallies shape.nodes := by
  induction shape with
  | bool => exact .one .bool
  | number kind => exact .one (.map (.number _) _)
  | char => exact .one .char
  | text => exact .one .text
  | wide => exact .one .wide
  | path => exact .one .path
  | sequence storage item ih =>
      refine .collect ih (fun items a => (nodes_push storage item items a).le) fun room => ?_
      rw [Storage.start_eq]
      rfl
  | set arrangement item ih =>
      exact .collect ih (nodes_insert arrangement item) fun _ => le_rfl
  | map arrangement key content hkey hcontent =>
      exact .collect (hkey.both hcontent) (nodes_assign arrangement key content) fun _ => le_rfl
  | single member ih => exact ih
  | cons member rest hmember hrest => exact hmember.both hrest
  | boxed content ih => exact ih
  | record name => exact name.elim

theorem snd_tally (shape : BuiltIn) : Prod.snd <$> shape.tally = shape.decode := by
  induction shape with
  | bool | number | char | text | wide | path => exact (Functor.map_map _ _ _).trans (id_map _)
  | sequence storage item ih =>
      rw [Shape.decode, ← ih]
      exact Reader.snd_collect (tally item) Array.push storage.start
  | set arrangement item ih =>
      rw [Shape.decode, ← ih]
      exact Reader.snd_collect (tally item) (item.insert arrangement) fun _ => []
  | map arrangement key content hkey hcontent =>
      rw [Shape.decode, ← hkey, ← hcontent, ← Reader.snd_both]
      exact Reader.snd_collect _ (key.assign content arrangement) fun _ => []
  | single member ih => exact ih
  | cons member rest hmember hrest =>
      rw [Shape.decode, ← hmember, ← hrest]
      exact Reader.snd_both _ _
  | boxed content ih => exact ih
  | record name => exact name.elim

/-- Where no set and no map drops anything, the count is that of the value. -/
theorem Sequential.tally_eq {shape : BuiltIn} (h : shape.Sequential) :
    shape.tally = (fun value => (shape.nodes value, value)) <$> shape.decode := by
  induction shape with
  | bool | number | char | text | wide | path => rfl
  | sequence storage item ih =>
      rw [tally, ih h]
      refine Reader.collect_map item.decode (nodes_push storage item) fun room => ?_
      rw [Storage.start_eq]
      rfl
  | set | map => exact h.elim
  | single member ih => exact ih h
  | cons member rest hmember hrest =>
      rw [tally, Shape.decode, hmember h.1, hrest h.2]
      exact Reader.both_map (nodes member) (nodes rest) member.decode rest.decode
  | boxed content ih => exact ih h
  | record name => exact name.elim

theorem nodes_pos (shape : BuiltIn) (value : shape.Value) : 0 < shape.nodes value := by
  induction shape with
  | bool | number | char | text | wide | path => exact Nat.one_pos
  | sequence | set | map => exact Nat.add_pos_left Nat.one_pos _
  | single member ih => exact ih value
  | cons member rest hmember hrest => exact Nat.add_pos_left (hmember value.1) _
  | boxed content ih => exact ih value
  | record name => exact name.elim

theorem size_lt_nodes (storage : Storage) (item : BuiltIn) (items : Array item.Value) :
    items.size < nodes (.sequence storage item) items := by
  have hsum := List.length_le_sum_of_one_le (items.toList.map item.nodes) (by
    intro n hn
    obtain ⟨a, -, rfl⟩ := List.mem_map.1 hn
    exact item.nodes_pos a)
  rw [List.length_map, Array.length_toList] at hsum
  exact Nat.lt_one_add_iff.2 hsum

theorem exists_tally_of_decode {shape : BuiltIn} {cursor behind : Cursor} {value : shape.Value}
    (h : shape.decode cursor = .ok value behind) :
    ∃ count, shape.tally cursor = .ok (count, value) behind := by
  rw [← shape.snd_tally] at h
  obtain ⟨⟨count, _⟩, htally, rfl⟩ := Reader.map_eq_ok.1 h
  exact ⟨count, htally⟩

/-- Reading a value passes as many words as the value has nodes. -/
theorem passes_of_decode {shape : BuiltIn} {cursor behind : Cursor} {value : shape.Value}
    (h : shape.decode cursor = .ok value behind) : cursor.Passes (shape.nodes value) behind := by
  obtain ⟨count, htally⟩ := exists_tally_of_decode h
  obtain ⟨-, hnodes, hpassed⟩ := shape.tallies_tally cursor count value behind htally
  exact hpassed.mono hnodes

theorem size_le_of_read {storage : Storage} {item : BuiltIn} {cursor behind : Cursor}
    {items : Array item.Value}
    (h : (Shape.sequence storage item).read cursor = .ok items behind) :
    items.size ≤ (cursor.payload.size - cursor.position - 4 + 3) / 4 := by
  have hpassed := passes_of_decode (Reader.atomically_eq_ok.1 h)
  have hbegun := (hpassed.mono (size_lt_nodes storage item items)).begun (Nat.succ_pos _)
  omega

theorem length_of_decode {storage : Storage} {item : BuiltIn} {cursor behind : Cursor}
    {items : Array item.Value}
    (h : (Shape.sequence storage item).decode cursor = .ok items behind) :
    ∃ between, Reader.length cursor = .ok items.size between := by
  obtain ⟨⟨count, room⟩, between, hcount, hgather⟩ := Reader.bind_eq_ok.1 h
  have hsize := Reader.size_gather hgather
  rw [Storage.start_eq, Array.size_empty, Nat.zero_add] at hsize
  rw [hsize]
  exact ⟨between, (Reader.count_eq_ok.1 hcount).1⟩

/-- Too large a number of items is refused, and nothing is read then. -/
theorem read_error_of_number {storage : Storage} {item : BuiltIn} {cursor between : Cursor}
    {count : Nat} (h : Reader.number .i32 cursor = .ok count between)
    (hlarge : (cursor.payload.size - cursor.position - 4 + 3) / 4 < count) :
    ∃ failure, (Shape.sequence storage item).read cursor = .error failure cursor := by
  cases hread : (Shape.sequence storage item).read cursor with
  | ok items behind =>
      obtain ⟨_, hlength⟩ := length_of_decode (Reader.atomically_eq_ok.1 hread)
      have hnumber := Reader.number_of_length hlength
      rw [h] at hnumber
      cases hnumber
      exact absurd (size_le_of_read hread) (Nat.not_le.2 hlarge)
  | error failure behind =>
      have hbehind := Shape.restoring_read BuiltIn.readByMethods _ cursor behind failure hread
      exact ⟨failure, by rw [hbehind]⟩

/-- However bytes and place are chosen, what is read there has no more nodes than there are words left,
and no more room is set aside for it. -/
theorem decode_bounded (shape : BuiltIn) (storage : Storage) (cursor : Cursor) :
    (∀ value behind, shape.decode cursor = .ok value behind →
      cursor.position < behind.position ∧
      min (cursor.position + 4) cursor.payload.size ≤ behind.position ∧
      ∃ count, shape.tally cursor = .ok (count, value) behind ∧ shape.nodes value ≤ count ∧
        (shape.Sequential → shape.nodes value = count) ∧ count ≤ (cursor.remaining + 3) / 4) ∧
    (∀ items behind, (Shape.sequence storage shape).read cursor = .ok items behind →
      Array.size items ≤ (cursor.payload.size - cursor.position - 4 + 3) / 4) ∧
    (∀ count between, Reader.number .i32 cursor = .ok count between →
      (cursor.payload.size - cursor.position - 4 + 3) / 4 < count →
        ∃ failure, (Shape.sequence storage shape).read cursor = .error failure cursor) ∧
    ∀ count room behind, Reader.count cursor = .ok (count, room) behind →
      behind.position = cursor.position + 4 ∧ room ≤ min count (behind.remaining / 4) := by
  refine ⟨?_, fun items behind => size_le_of_read, fun count between => read_error_of_number, ?_⟩
  · intro value behind hok
    obtain ⟨count, htally⟩ := exists_tally_of_decode hok
    obtain ⟨hcount, hnodes, hpassed⟩ := shape.tallies_tally cursor count value behind htally
    refine ⟨hpassed.advances hcount, (hpassed.mono hcount).reached, count, htally, hnodes, ?_,
      hpassed.le_remaining⟩
    intro hsequential
    rw [hsequential.tally_eq] at htally
    obtain ⟨_, -, heq⟩ := Reader.map_eq_ok.1 htally
    cases heq
    rfl
  · intro count room behind hok
    obtain ⟨hlength, hroom⟩ := Reader.count_eq_ok.1 hok
    exact ⟨Reader.position_of_length hlength, hroom.le⟩

/-- A number of items, a word, and a byte that no padding follows. -/
def shortened (count : UInt8) : Cursor := .ofPayload ⟨#[count, 0, 0, 0, 7, 0, 0, 0, 7]⟩

/-- All three words are read, for a set that keeps one item of two; a third item is refused. -/
theorem shortened_bounded :
    (Shape.set .sorted (.number .u8) : BuiltIn).decode (shortened 2) =
      .ok ([7#8] : List (BitVec 8)) ⟨(shortened 2).payload, 9⟩ ∧
    (∃ count, tally (.set .sorted (.number .u8)) (shortened 2) =
      .ok (count, ([7#8] : List (BitVec 8))) ⟨(shortened 2).payload, 9⟩ ∧ 2 ≤ count ∧ count ≤ 3) ∧
    Reader.number .i32 (shortened 3) = .ok 3 ⟨(shortened 3).payload, 4⟩ ∧
    ∃ failure, (Shape.sequence .ring (.number .u8) : BuiltIn).read (shortened 3) =
      .error failure (shortened 3) := by
  have hset : (Shape.set .sorted (.number .u8) : BuiltIn).decode (shortened 2) =
      .ok ([7#8] : List (BitVec 8)) ⟨(shortened 2).payload, 9⟩ := rfl
  have hnumber : Reader.number .i32 (shortened 3) = .ok 3 ⟨(shortened 3).payload, 4⟩ := rfl
  obtain ⟨hdecode, -, -, -⟩ := decode_bounded (.set .sorted (.number .u8)) .vector (shortened 2)
  obtain ⟨-, -, count, htally, hnodes, -, hcount⟩ := hdecode _ _ hset
  obtain ⟨-, -, hrefused, -⟩ := decode_bounded (.number .u8) .ring (shortened 3)
  exact ⟨hset, ⟨count, htally, hnodes, hcount⟩, hnumber, hrefused 3 _ hnumber (by decide)⟩

end BuiltIn

end Pickling
