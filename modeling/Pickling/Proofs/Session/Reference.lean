import Pickling.Proofs.Pickle.Reachable
import Pickling.Proofs.Session.RoundTrip
/-!
What the operations on pickles come to if nothing is said of capacities: a pickle is its payload and
the most bytes it may take. A session is a run of operations over any number of pickles, and is run in
the same way over pickles and over what they come to.
-/
namespace Pickling

/-! Sessions -/

inductive Making where
  | new
  | withCapacity (count : Nat)
  | withOptions (options : Options)
  | ofBytes (bytes : ByteArray)

inductive Change where
  | method (method : Method)
  | write (item : Item)
  | clear

/-- The operations of a session. Pickles are told by their places; new ones come last. -/
inductive Operation where
  | make (making : Making)
  | copy (place : Nat)
  /-- Copies what a view of the pickle shows. -/
  | detach (place : Nat)
  /-- Takes the pickle away to a new place, and leaves a blank one. -/
  | take (place : Nat)
  | change (place : Nat) (change : Change)

structure Machine (σ : Type) where
  blank : σ
  make : Making → Except Failure σ
  copy : σ → σ
  detach : σ → σ
  change : Change → σ → Except Failure Unit × σ

namespace Machine

variable {σ : Type} (machine : Machine σ)

/-- An operation and its result. Nothing is done where there is no pickle. -/
def step : Operation → List σ → Except Failure Unit × List σ
  | .make making, states =>
    match machine.make making with
    | .ok state => (.ok (), states ++ [state])
    | .error failure => (.error failure, states)
  | .copy place, states => (.ok (), states ++ (states[place]?.map machine.copy).toList)
  | .detach place, states => (.ok (), states ++ (states[place]?.map machine.detach).toList)
  | .take place, states =>
    (.ok (), states.set place machine.blank ++ states[place]?.toList)
  | .change place change, states =>
    match states[place]? with
    | some state => ((machine.change change state).1, states.set place (machine.change change state).2)
    | none => (.ok (), states)

def run : List Operation → List σ → List (Except Failure Unit) × List σ
  | [], states => ([], states)
  | operation :: rest, states =>
    let (result, after) := machine.step operation states
    let (results, last) := run rest after
    (result :: results, last)

end Machine

/-! Pickles -/

def Writer.settle (write : Writer Unit) (pickle : Pickle) : Except Failure Unit × Pickle :=
  ((write.attempt pickle).map fun _ => (), write.after pickle)

def Pickle.machine [Memory] : Machine Pickle where
  blank := .empty
  make
    | .new => .ok .empty
    | .withCapacity count => .ok (.withCapacity count)
    | .withOptions options => ofOptions options
    | .ofBytes bytes => .ok (.ofBytes bytes)
  copy := Pickle.copy
  detach pickle := ofView pickle.view
  change
    | .method method => method.perform.settle
    | .write item => (item.shape.write item.value).settle
    | .clear => fun pickle => (.ok (), pickle.clear)

def Making.limit : Making → Nat
  | .withOptions options => min options.maxCapacity.toNat maxSize
  | _ => maxSize

def Operation.limit? : Operation → Option Nat
  | .make making => some making.limit
  | .detach _ => some maxSize
  | .take _ => some maxSize
  | _ => none

/-! What they come to -/

/-- All that matters of a pickle but its room. -/
structure Reference where
  payload : ByteArray
  /-- The most bytes that the pickle may take, its header included. -/
  limit : Nat

namespace Reference

def bytes (reference : Reference) : ByteArray :=
  (Header.mk (UInt32.ofNat reference.payload.size)).bytes ++ reference.payload

def sizeWith (reference : Reference) (count : Nat) : Nat :=
  headerSize + reference.payload.size + count

/-- One segment more, if it fits. The failure tells the size with the padding where a header could
tell it, and without it otherwise. -/
def append (reference : Reference) (bytes : ByteArray) : Except Failure Reference :=
  if reference.sizeWith (paddedSize bytes.size) ≤ reference.limit then
    .ok { reference with payload := reference.payload ++ padded bytes }
  else if reference.sizeWith (paddedSize bytes.size) ≤ maxSize then
    .error (.allocationFailure (saturated (reference.sizeWith (paddedSize bytes.size))))
  else .error (.allocationFailure (saturated (reference.sizeWith bytes.size)))

/-- Nothing changes, but there may be no room. -/
def reserve (reference : Reference) (count : Nat) : Except Failure Reference :=
  if reference.sizeWith (paddedSize count) ≤ reference.limit then .ok reference
  else .error (.allocationFailure (saturated (reference.sizeWith (paddedSize count))))

def follow (steps : List Step) (reference : Reference) : Except Failure Reference :=
  steps.foldlM (fun reference step => step >>= reference.append) reference

def perform : Method → Reference → Except Failure Reference
  | .plain kind value => follow [.ok (kind.encode value)]
  | .bool value => follow [.ok (LittleEndian.encode 1 value.toNat)]
  | .length count => follow [lengthStep count]
  | .text value => follow (countedSteps value.utf8ByteSize value.toUTF8)
  | .wide value => follow (countedSteps value.units.length value.bytes)
  | .data bytes => follow (countedSteps bytes.size bytes)
  | .segment bytes => follow [.ok bytes]
  | .reserve count => fun reference => reference.reserve count

def settle (change : Reference → Except Failure Reference) (reference : Reference) :
    Except Failure Unit × Reference :=
  match change reference with
  | .ok after => (.ok (), after)
  | .error failure => (.error failure, reference)

def blank : Reference := ⟨.empty, maxSize⟩

/-- What can be seen of a payload in serialized bytes, as far as a header can describe it. -/
def visible (bytes : ByteArray) : ByteArray :=
  match Header.ofBytes? bytes with
  | none => .empty
  | some header =>
    bytes.extract headerSize (headerSize + min header.payloadSize.toNat maxPayloadSize)

def make : Making → Except Failure Reference
  | .new => .ok blank
  | .withCapacity _ => .ok blank
  | .withOptions options => do
    discard options.growth
    if headerSize + options.initialCapacity.toNat ≤ largestWord then
      return ⟨.empty, Making.limit (.withOptions options)⟩
    else throw (.allocationFailure largestWord)
  | .ofBytes bytes => .ok ⟨padded (visible bytes), maxSize⟩

def machine : Machine Reference where
  blank := blank
  make := make
  copy reference := reference
  detach reference := { reference with limit := maxSize }
  change
    | .method method => settle (perform method)
    | .write item => settle (follow item.steps)
    | .clear => fun reference => (.ok (), { reference with payload := .empty })

def ofPickle (pickle : Pickle) : Reference := ⟨pickle.payload, pickle.limit⟩

end Reference

end Pickling
