import TypeNotation.Main
import TypeNotation.Proofs.Session.Memo
import TypeNotation.Value.Display
import TypeNotation.Proofs.Graph.Taxonomy
import TypeNotation.Proofs.Number.Comparison
import TypeNotation.Proofs.Relation.Callables
import TypeNotation.Proofs.Relation.Congruence
import TypeNotation.Proofs.Session.FirstMember
import TypeNotation.Proofs.Relation.Sweep
import TypeNotation.Proofs.Relation.Descent
import TypeNotation.Proofs.Resolution.Budget
import TypeNotation.Proofs.Resolution.Direct
import TypeNotation.Proofs.Session.BatchOrder
import TypeNotation.Proofs.Session.Cyclic
import TypeNotation.Proofs.Session.Declarations
import TypeNotation.Proofs.Session.Membership
import TypeNotation.Proofs.Session.Substitution
import TypeNotation.Proofs.Session.Regress
import TypeNotation.Proofs.Session.Replacement
import TypeNotation.Proofs.Token.Join
import TypeNotation.Proofs.TypeExpr.Relocate
import TypeNotation.Proofs.Parser.Carries
import TypeNotation.Proofs.Parser.Locality
import TypeNotation.Proofs.Parser.Concatenation
import TypeNotation.Proofs.Parser.Printed
import TypeNotation.Proofs.Parser.Total
import TypeNotation.Proofs.Parser.WellFormed
import TypeNotation.Proofs.Session.Vouching
import TypeNotation.Proofs.Parser.LineBreak
import TypeNotation.Proofs.Session.Overlap
import TypeNotation.Proofs.Session.Lookup
import TypeNotation.Proofs.Graph.RdfList
import TypeNotation.Proofs.Graph.Vocabulary
import TypeNotation.Proofs.Session.OpenRecords
import TypeNotation.Proofs.Session.Bounds
import TypeNotation.Proofs.Session.Provenance
