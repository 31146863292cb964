import Pickling.Text.Quoted
import Pickling.Text.Record
/-!
What can go wrong, as causes, with one function each for the message and the diagnostic text.
-/
namespace Pickling

inductive Failure where
  /-- An argument of the caller breaks a condition. -/
  | invalidArgument (name message : String)
  /-- The bytes of an element are no value of its kind. -/
  | invalidFormat (element message : String)
  /-- The payload ends before the element does. -/
  | truncatedRead (element : String) (requested remaining : Nat)
  /-- The format has no way to write so many elements. -/
  | lengthOverflow (element : String) (count elementSize : Nat)
  /-- The buffer cannot grow to so many bytes. -/
  | allocationFailure (requested : Nat)
deriving DecidableEq

namespace Failure

/-- An argument that fails the stated condition. -/
def unmetArgument (name condition : String) : Failure :=
  .invalidArgument name ("expected " ++ condition)

/-- Bytes whose value fails the stated condition. -/
def unmetFormat (element condition : String) : Failure :=
  .invalidFormat element ("expected " ++ condition)

/-- Whether more bytes could have helped. -/
def isTruncated : Failure → Bool
  | .truncatedRead .. => true
  | _ => false

def kind : Failure → String
  | .invalidArgument .. => "InvalidArgument"
  | .invalidFormat .. => "InvalidFormat"
  | .truncatedRead .. => "TruncatedRead"
  | .lengthOverflow .. => "LengthOverflow"
  | .allocationFailure .. => "AllocationFailure"

def message : Failure → String
  | .invalidArgument name message => s!"invalid argument {name}: {message}"
  | .invalidFormat element message => s!"invalid pickle data for '{element}': {message}"
  | .truncatedRead element requested remaining =>
    s!"truncated read of '{element}': {requested} bytes requested, {remaining} remaining"
  | .lengthOverflow element count elementSize =>
    s!"length overflow for '{element}': {count} elements of {elementSize} bytes"
  | .allocationFailure requested => s!"failed to allocate pickle buffer of {requested} bytes"

def fields : Failure → List (String × String)
  | .invalidArgument name message =>
    [("name", Text.quoted name), ("message", Text.quoted message)]
  | .invalidFormat element message =>
    [("element", Text.quoted element), ("message", Text.quoted message)]
  | .truncatedRead element requested remaining =>
    [("element", Text.quoted element), ("requested", toString requested),
      ("remaining", toString remaining)]
  | .lengthOverflow element count elementSize =>
    [("element", Text.quoted element), ("count", toString count),
      ("element_size", toString elementSize)]
  | .allocationFailure requested => [("requested", toString requested)]

def describe (failure : Failure) : String := Text.record failure.kind failure.fields

end Failure

end Pickling
