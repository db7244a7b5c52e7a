import JsonPattern.Binary64.Basic
import JsonPattern.Binary64.Shortest
import JsonPattern.Binary64.Text
import JsonPattern.Conformance
import JsonPattern.Digits
import JsonPattern.Failure
import JsonPattern.Graph.Assembly
import JsonPattern.Graph.Basic
import JsonPattern.Graph.Compile
import JsonPattern.Graph.CycleSearch
import JsonPattern.Graph.Fault
import JsonPattern.Graph.Outline
import JsonPattern.Graph.Rendering
import JsonPattern.Graph.Visit
import JsonPattern.Json.Basic
import JsonPattern.Json.Equality
import JsonPattern.Json.Reader
import JsonPattern.Json.Text
import JsonPattern.LabelSet
import JsonPattern.Path
import JsonPattern.Pattern.Basic
import JsonPattern.Pattern.Clause
import JsonPattern.Proofs.Compiled.Accounting
import JsonPattern.Proofs.Compiled.Alternation
import JsonPattern.Proofs.Compiled.AlternativeOrder
import JsonPattern.Proofs.Compiled.Bisimulation
import JsonPattern.Proofs.Compiled.Choice
import JsonPattern.Proofs.Compiled.Consumption
import JsonPattern.Proofs.Compiled.Contention
import JsonPattern.Proofs.Compiled.Discriminated
import JsonPattern.Proofs.Compiled.Disjunction
import JsonPattern.Proofs.Compiled.Expectation
import JsonPattern.Proofs.Compiled.Formats
import JsonPattern.Proofs.Compiled.Growth
import JsonPattern.Proofs.Compiled.Inlining
import JsonPattern.Proofs.Compiled.Location
import JsonPattern.Proofs.Compiled.Meaning
import JsonPattern.Proofs.Compiled.MemberOrder
import JsonPattern.Proofs.Compiled.OpeningViews
import JsonPattern.Proofs.Compiled.Regularity
import JsonPattern.Proofs.Compiled.Renaming
import JsonPattern.Proofs.Compiled.Shallow
import JsonPattern.Proofs.Compiled.Sharing
import JsonPattern.Proofs.Compiled.Termination
import JsonPattern.Proofs.Compiled.Unfolding
import JsonPattern.Proofs.Graph.BrokenReferences
import JsonPattern.Proofs.Graph.Defects
import JsonPattern.Proofs.Graph.Depiction
import JsonPattern.Proofs.Graph.History
import JsonPattern.Proofs.Graph.Numbering
import JsonPattern.Proofs.Graph.Rendering
import JsonPattern.Proofs.Graph.Resolve
import JsonPattern.Proofs.Graph.Unfolding
import JsonPattern.Proofs.Graph.WellFormed
import JsonPattern.Proofs.Json.Equality
import JsonPattern.Proofs.Pattern.Actions
import JsonPattern.Proofs.PathText
import JsonPattern.Proofs.StructuredForm
import JsonPattern.Proofs.Validator.Relocation
import JsonPattern.Regex.Automaton.ClassStates
import JsonPattern.Regex.Automaton.Fit
import JsonPattern.Regex.Automaton.Plan
import JsonPattern.Regex.Automaton.Room
import JsonPattern.Regex.Automaton.WordStates
import JsonPattern.Regex.Basic
import JsonPattern.Regex.CharProperty
import JsonPattern.Regex.ClassRanges
import JsonPattern.Regex.Format
import JsonPattern.Regex.Matching
import JsonPattern.Regex.Reduced
import JsonPattern.Regex.Source
import JsonPattern.Regex.Tree
import JsonPattern.Validator.Check
import JsonPattern.Validator.Dispatch
import JsonPattern.Validator.Opening
import JsonPattern.Validator.Shallow
import JsonPattern.Validator.Verdict
import JsonPattern.Proofs.Graph.Chains
import JsonPattern.Proofs.Compiled.Flattening
