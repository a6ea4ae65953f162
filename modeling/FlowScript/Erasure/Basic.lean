import FlowScript.Erasure.Apply
import FlowScript.Parse.Module

/-!
# Erasing types

A typed script becomes a plain one by the edits that reading it has found. All other text, its layout and its comments
stay as they are.
-/

namespace FlowScript

/-- Why types were not erased. -/
inductive ErasureError
  | parse (error : ParseError)
  | range (error : RangeError)

/-- The source without its types. -/
def tryEraseTypes (source : String) : Except ErasureError String :=
  match parseModule source with
  | .error e => .error (.parse e)
  | .ok module =>
    match Edit.applyAll source.toList module.typeEdits with
    | .error e => .error (.range e)
    | .ok text => .ok (String.ofList text)

/-- The source without its types, or as it is when it cannot be read. -/
def eraseTypes (source : String) : String :=
  match tryEraseTypes source with
  | .ok text => text
  | .error _ => source

end FlowScript
