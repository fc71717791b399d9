import SpecMatch.Matcher.Create
import SpecMatch.Registry.ConfigText
import SpecMatch.Proofs.Term.Keys
import SpecMatch.Proofs.Dispatch.FirstMatch
import SpecMatch.Proofs.Dispatch.Rewriting
import SpecMatch.Proofs.Matching.Acceptance
import SpecMatch.Proofs.Matching.Answers
import SpecMatch.Proofs.Matching.Bindings
import SpecMatch.Proofs.Matching.Occurrences
import SpecMatch.Proofs.Matching.Projection
import SpecMatch.Proofs.Matching.Totality
import SpecMatch.Proofs.Term.Position
import SpecMatch.Proofs.Dispatch.Positions
import SpecMatch.Proofs.Matching.Calls
import SpecMatch.Proofs.Matching.Kinds
import SpecMatch.Proofs.Matching.Names
import SpecMatch.Proofs.Matching.Declared
import SpecMatch.Proofs.Matching.Pointwise
import SpecMatch.Proofs.Matching.Reordering
import SpecMatch.Proofs.Term.Segment
import SpecMatch.Proofs.Matching.Connectives
import SpecMatch.Proofs.Matching.Absent
import SpecMatch.Proofs.Matching.Mirror
import SpecMatch.Proofs.Matching.KeyPaths
import SpecMatch.Proofs.Dispatch.Templates
import SpecMatch.Proofs.Matching.Levels
import SpecMatch.Proofs.Term.NullShape
import SpecMatch.Proofs.Matching.PlainData
import SpecMatch.Proofs.Registry.Loading
import SpecMatch.Proofs.Registry.Resolution
import SpecMatch.Proofs.Predicate.Numeral
import SpecMatch.Proofs.Term.FiniteMap
import SpecMatch.Proofs.Term.Assembly
import SpecMatch.Proofs.Evaluation.History
