import Mathlib.Logic.Relation
import SchemaGraph.Proofs.Failure.Precedence

/-! Failed responses that differ only in errors without breaking changes are one failure. What is
said of it when the request was at fault follows the breaking changes that are spelled out, then
the texts that come with them, then what is missing. -/

namespace SchemaGraph

namespace ReportedError

variable {es es' : List ReportedError}

end ReportedError

namespace FailedResponse

open ReportedError

variable {r : FailedResponse}

/-- An empty list of what is missing counts as well. -/
example : (⟨none, [⟨none, "odd"⟩], "", some [], 400⟩ : FailedResponse).classify.kind =
    .notFound := by
  decide

end FailedResponse

end SchemaGraph
