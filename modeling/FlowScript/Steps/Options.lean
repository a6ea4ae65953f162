import FlowScript.Json.Record

/-!
# Options of the steps view
-/

namespace FlowScript

/-- Widths and limits of the steps view. -/
structure StepOptions where
  summaryWidth : Nat
  calleeWidth : Nat
  catchWidth : Nat
  /-- Statement lists deeper than this are not shown. -/
  maxDepth : Nat
  /-- Show only statements whose code mentions an important keyword. -/
  importantOnly : Bool
deriving Repr, DecidableEq

namespace StepOptions

/-- The options that hold where nothing else is said. -/
def standard : StepOptions where
  summaryWidth := 80
  calleeWidth := 40
  catchWidth := 24
  maxDepth := 64
  importantOnly := false

instance : Inhabited StepOptions := ⟨standard⟩

def toJson (o : StepOptions) : Json :=
  .obj [("summary_max_len", .nat o.summaryWidth), ("callee_max_len", .nat o.calleeWidth),
    ("catch_label_max_len", .nat o.catchWidth), ("max_depth", .nat o.maxDepth),
    ("important_only", .bool o.importantOnly)]

/-- The members of options. -/
def record : Json.Record :=
  ⟨[], ["summary_max_len", "callee_max_len", "catch_label_max_len", "max_depth", "important_only"]⟩

/-- Reads options; what is missing has its standard value. -/
def ofJson? (v : Json) : Option StepOptions := do
  let v ← v.record? record
  return {
    summaryWidth := ← v.default? "summary_max_len" Json.size? standard.summaryWidth
    calleeWidth := ← v.default? "callee_max_len" Json.size? standard.calleeWidth
    catchWidth := ← v.default? "catch_label_max_len" Json.size? standard.catchWidth
    maxDepth := ← v.default? "max_depth" Json.size? standard.maxDepth
    importantOnly := ← v.default? "important_only" Json.bool? standard.importantOnly }

end StepOptions
end FlowScript
