import FlowScript.Parse.Assembly
import FlowScript.Parse.Mismatch
import FlowScript.Parse.Nesting

/-!
# Reading a source

`parseModule` reads a whole source: it bounds the nesting, matches the grammar and assembles the tree. `parseWorkflow`
picks the entry point, the plain top-level function `workflow` without parameters.
-/

namespace FlowScript

/-- Why a source was not read. -/
inductive ParseError
  /-- The grammar does not match. -/
  | mismatch (report : Parse.Mismatch)
  /-- A match stands where its rule may not stand. -/
  | misplaced (part : Parse.Misplaced)
  /-- There is no entry point. -/
  | missingEntryPoint
  /-- The source nests too deep; the span is that of the first token beyond the limit. -/
  | tooDeep (span : Span)

namespace ParseError

/-- The place of the error, if it has one. -/
def span? : ParseError → Option Span
  | mismatch report => some report.span
  | misplaced part => some part.span
  | missingEntryPoint => none
  | tooDeep span => some span

/-- The wording of the error. -/
def message : ParseError → String
  | mismatch report => report.message
  | misplaced part => "Unexpected rule: " ++ part.rule.name
  | missingEntryPoint => "workflow() function not found."
  | tooDeep _ => "nesting deeper than " ++ toString Nesting.limit ++ " levels"

end ParseError

/-- A source that was read: its statements, and the edits that take the types out of it. -/
structure Module where
  items : List Stmt
  typeEdits : List Edit
  span : Span

/-- The entry point of a script. -/
structure Workflow where
  body : List Stmt
  isAsync : Bool
  /-- The span of the whole function. -/
  span : Span

/-- The name of the entry point. -/
def entryPoint : String := "workflow"

/-- The steps inwards that matching may take for each character of a source. -/
def fuelPerChar : Nat := 4096

/-- Reads a whole source. -/
def parseModule (source : String) : Except ParseError Module :=
  let chars := source.toList
  match Nesting.tooDeep? chars with
  | some token => .error (.tooDeep (Span.ofOffsets chars token.start token.stop))
  | none =>
    match grammar.parse fuelPerChar .program chars with
    | .error attempts => .error (.mismatch (.ofAttempts chars attempts))
    | .ok tree =>
      match Parse.build tree with
      | .error part => .error (.misplaced part)
      | .ok part =>
        match part.toBody with
        | .error part => .error (.misplaced part)
        | .ok items => .ok ⟨items, part.edits, part.span⟩

/-- The entry point among statements: the first plain declaration of its name without parameters. -/
def Workflow.find? (items : List Stmt) : Option Workflow :=
  items.findSome? fun
    | .function func _ =>
      if func.name = some entryPoint ∧ func.params.isEmpty then some ⟨func.body, func.isAsync, func.span⟩ else none
    | _ => none

/-- Reads a source and picks its entry point. -/
def parseWorkflow (source : String) : Except ParseError Workflow := do
  let module ← parseModule source
  match Workflow.find? module.items with
  | some workflow => .ok workflow
  | none => .error .missingEntryPoint

end FlowScript
