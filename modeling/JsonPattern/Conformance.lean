import JsonPattern.Graph.Compile
import JsonPattern.Regex.Search

/-!
# Conformance

Validates a value against a pattern of a graph in one go. What can go wrong is either a fault of the
graph or a list of failures of the value.
-/

namespace JsonPattern

/-- Why a value cannot be said to conform. -/
inductive ConformanceError
  /-- The pattern is malformed. -/
  | malformed (error : ErrorRecord)
  /-- The value does not match. -/
  | diverging (failures : List Failure)

/-- The text of an error: the fault, or a count and a line for each failure. -/
def ConformanceError.text : ConformanceError → String
  | .malformed error => "Pattern error: " ++ error.text
  | .diverging failures =>
    toString failures.length ++ " validation failure(s)" ++
      String.join (failures.map fun failure ↦ "\n  " ++ failure.text)

namespace Graph

variable (g : Graph) (root : NodeId) (value : Json)

/-- Whether a value conforms to the pattern of `root`, and why not, if expressions are read by the
engine. -/
def conformWith (E : Engine) : Except ConformanceError Unit :=
  match g.compileWith E root with
  | .error fault => .error (.malformed fault.record)
  | .ok V =>
    match V.validate value with
    | [] => .ok ()
    | failures => .error (.diverging failures)

/-- The validator of the pattern of `root`, whose expressions are searched for. -/
def compile : Except Fault Validator := g.compileWith Regex.engine root

/-- Whether a value conforms to the pattern of `root`, and why not. -/
def conform : Except ConformanceError Unit := g.conformWith root value Regex.engine

end Graph

end JsonPattern
