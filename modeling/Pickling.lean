import Pickling.Proofs.Alignment
import Pickling.Proofs.Digits
import Pickling.Proofs.Rounding
import Pickling.Proofs.Layout
import Pickling.Sample
import Pickling.Proofs.Growth
import Pickling.Proofs.Checked
import Pickling.Proofs.Places
import Pickling.Proofs.Buffer.Sound
import Pickling.Proofs.Session.Buffers
import Pickling.Proofs.Pickle.Valid
import Pickling.Proofs.Pickle.Making
import Pickling.Proofs.Pickle.Extension
import Pickling.Proofs.Pickle.Reachable
import Pickling.Proofs.Pickle.Range
import Pickling.Proofs.Pickle.Representation
import Pickling.Proofs.Shape.Order
import Pickling.Proofs.Shape.Equality
import Pickling.Proofs.Arrangement
import Pickling.Proofs.Shape.Collecting
import Pickling.Proofs.Shape.Steps
import Pickling.Proofs.Agreement
import Pickling.Proofs.Cursor.Runs
import Pickling.Proofs.Cursor.Methods
import Pickling.Proofs.Cursor.Range
import Pickling.Proofs.Cursor.Failures
import Pickling.Proofs.Cursor.Slots
import Pickling.Proofs.Cursor.Reads
import Pickling.Proofs.Cursor.Recognises
import Pickling.Proofs.Cursor.Spelling
import Pickling.Proofs.Cursor.Longer
import Pickling.Proofs.Shape.Decoding
import Pickling.Proofs.Shape.Spelling
import Pickling.Proofs.Shape.Size
import Pickling.Proofs.Shape.Nodes
import Pickling.Proofs.Session.RoundTrip
import Pickling.Proofs.Session.Truncation
import Pickling.Proofs.Session.Reference
import Pickling.Proofs.Session.Refinement
import Pickling.Proofs.Session.Acceptance
import Pickling.Proofs.Session.Lookup
import Pickling.Proofs.Session.Copies
import Pickling.Proofs.Session.Longer
import Pickling.Proofs.Session.Fitting
import Pickling.Proofs.Session.Promises
import Pickling.Proofs.Session.Safety
import Pickling.Proofs.Session.Attempts
import Pickling.Proofs.Session.Nesting
import Pickling.Proofs.Buffer.Capacity
import Pickling.Proofs.Text.Surrogates
