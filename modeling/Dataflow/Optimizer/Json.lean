import Dataflow.Operator.Json
import Dataflow.Optimizer

/-!
# Summaries as JSON
-/

namespace Dataflow

/-- An application as a record. -/
def Application.toJson (a : Application) : Json :=
  Json.record [("rule", .ofString a.rule), ("node", a.node.toJson),
    ("touched", .ofList OpId.toJson a.touched)]

/-- A summary as a record. -/
def Summary.toJson (s : Summary) : Json :=
  Json.record [("iterations", .ofNat s.iterations),
    ("applications", .ofList Application.toJson s.applications),
    ("reached_fixed_point", .bool s.reachedFixedPoint)]

end Dataflow
