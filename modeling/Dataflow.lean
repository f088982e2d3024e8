import Dataflow.Main
import Dataflow.Pipeline.Json
import Dataflow.Json.Reader
import Dataflow.Proofs.Session.Once
import Dataflow.Proofs.Session.Chronicle
import Dataflow.Proofs.Plan.Listing
import Dataflow.Proofs.Optimizer.Contraction
import Dataflow.Proofs.Optimizer.Trace
import Dataflow.Proofs.Optimizer.Failure
import Dataflow.Proofs.Optimizer.Confluence
import Dataflow.Proofs.Optimizer.Decisions
import Dataflow.Proofs.FunctionSpec.RoundTrip
import Dataflow.Proofs.FunctionSpec.Grammar
import Dataflow.Proofs.CastRule.Columns
import Dataflow.Proofs.CastRule.Shape
import Dataflow.Proofs.CastRule.Halted
import Dataflow.Proofs.Pipeline.Shape
import Dataflow.Proofs.Pipeline.Acceptance
import Dataflow.Proofs.Pipeline.Schemas
import Dataflow.Proofs.Json.RoundTrip
import Dataflow.Proofs.Pipeline.RoundTrip
import Dataflow.Proofs.CommandLine.Layers
