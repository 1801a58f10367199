import Provenance.Main
import Provenance.Store.Observed
import Provenance.Proofs.Graph
import Provenance.Proofs.Stock
import Provenance.Proofs.Calls
import Provenance.Proofs.Ancestors
import Provenance.Proofs.Descendants
import Provenance.Proofs.Resolution
import Provenance.Proofs.Walk
import Provenance.Proofs.Rewriting
import Provenance.Proofs.Course
import Provenance.Proofs.Classification
import Provenance.Proofs.Affected
import Provenance.Proofs.Replacement
import Provenance.Proofs.Additions
import Provenance.Proofs.Growth
import Provenance.Proofs.Itinerary
import Provenance.Proofs.Memoization
import Provenance.Proofs.Layout
import Provenance.Proofs.Resumption
import Provenance.Proofs.Slots
import Provenance.Proofs.Shadowing
import Provenance.Proofs.Preview
import Provenance.Proofs.Refusal
import Provenance.Proofs.Retrying
import Provenance.Proofs.Interruption
import Provenance.Proofs.Occurrences
import Provenance.Proofs.Kinds
import Provenance.Proofs.Overrides
import Provenance.Proofs.Digits
import Provenance.Proofs.Moments
import Provenance.Proofs.Encoding
import Provenance.Proofs.Numerals
import Provenance.Proofs.Legibility
import Provenance.Proofs.Limits
import Provenance.Proofs.Storage
import Provenance.Proofs.Placeholders
import Provenance.Proofs.Reloading
import Provenance.Proofs.Depth
import Provenance.Proofs.WellFormedness
import Provenance.Proofs.Books
import Provenance.Proofs.Soundness
import Provenance.Proofs.Recursion
import Provenance.Proofs.Tally
import Provenance.Proofs.Search
import Provenance.Proofs.Expansion
import Provenance.Proofs.Backoff
import Provenance.Proofs.Precedence
import Provenance.Proofs.Recovery
import Provenance.Proofs.Spread
import Provenance.Proofs.Yield
import Provenance.Proofs.Reordering
import Provenance.Proofs.Atomicity
import Provenance.Proofs.Equivalents
import Provenance.Proofs.Weaving
import Provenance.Proofs.Apartness
import Provenance.Proofs.Reprise
import Provenance.Proofs.Convergence
import Provenance.Proofs.Naming
