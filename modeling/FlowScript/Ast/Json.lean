import FlowScript.Ast.Basic
import FlowScript.Json.Record

/-!
# Trees as JSON

Each node is an object whose member `t` names its form. A span is left out when no source text stands behind the node,
and a part that is absent is null. Reading is lenient where it can be: in an object an absent part may be missing
altogether and unknown members are passed over, an array of its parts in order stands for a node as well, and inside
another node a form may be told by its number.
-/

namespace FlowScript

namespace Span

def toJson (span : Span) : Json :=
  .obj [("start", .nat span.start.offset), ("end", .nat span.stop.offset), ("start_line", .nat span.start.line),
    ("start_col", .nat span.start.column), ("end_line", .nat span.stop.line), ("end_col", .nat span.stop.column)]

/-- The members of a span. -/
def record : Json.Record := ⟨["start", "end", "start_line", "start_col", "end_line", "end_col"], []⟩

def ofJson? (v : Json) : Option Span := do
  let v ← v.record? record
  let start ← v.field? "start" Json.size?
  let stop ← v.field? "end" Json.size?
  let startLine ← v.field? "start_line" Json.size?
  let startColumn ← v.field? "start_col" Json.size?
  let stopLine ← v.field? "end_line" Json.size?
  let stopColumn ← v.field? "end_col" Json.size?
  return ⟨⟨start, startLine, startColumn⟩, ⟨stop, stopLine, stopColumn⟩⟩

/-- The member that holds a span. -/
def jsonMember (span : Span) : List (String × Json) :=
  if span = Span.none then [] else [("span", span.toJson)]

/-- The span that a node's member holds. -/
def ofMember? (v : Json) : Option Span :=
  v.default? "span" ofJson? Span.none

end Span

/-- A node of a form. -/
def jsonNode (form : String) (members : List (String × Json)) : Json :=
  .obj (("t", .str form) :: members)

/-- A node of a form with a span. -/
def jsonSpanned (form : String) (members : List (String × Json)) (span : Span) : Json :=
  jsonNode form (members ++ span.jsonMember)

/-! ## Writing -/

mutual

def Expr.toJson : Expr → Json
  | .ident name s => jsonSpanned "Ident" [("name", .str name)] s
  | .this s => jsonSpanned "This" [] s
  | .num raw s => jsonSpanned "Num" [("raw", .str raw)] s
  | .str raw value s => jsonSpanned "Str" [("raw", .str raw), ("value", .str value)] s
  | .bool value s => jsonSpanned "Bool" [("v", .bool value)] s
  | .null s => jsonSpanned "Null" [] s
  | .regex raw s => jsonSpanned "Regex" [("raw", .str raw)] s
  | .template quasis exprs s =>
    jsonSpanned "Template" [("quasis", .arr (quasis.map .str)), ("exprs", .arr (exprsToJson exprs))] s
  | .taggedTemplate tag quasi s => jsonSpanned "TaggedTemplate" [("tag", tag.toJson), ("quasi", quasi.toJson)] s
  | .array elements s => jsonSpanned "Array" [("elements", .arr (slotsToJson elements))] s
  | .object props s => jsonSpanned "Object" [("props", .arr (objectPropsToJson props))] s
  | .spread arg s => jsonSpanned "Spread" [("arg", arg.toJson)] s
  | .function func s => jsonSpanned "Function" [("func", func.toJson)] s
  | .arrow isAsync params body s =>
    jsonSpanned "Arrow"
      [("is_async", .bool isAsync), ("params", .arr (patternsToJson params)), ("body", body.toJson)] s
  | .unary op arg s => jsonSpanned "Unary" [("op", .str op.name), ("arg", arg.toJson)] s
  | .update op before arg s =>
    jsonSpanned "Update" [("op", .str op.name), ("prefix", .bool before), ("arg", arg.toJson)] s
  | .binary op left right s =>
    jsonSpanned "Binary" [("op", .str op.name), ("left", left.toJson), ("right", right.toJson)] s
  | .assign op target value s =>
    jsonSpanned "Assign" [("op", .str op), ("target", target.toJson), ("value", value.toJson)] s
  | .conditional test consequent alternate s =>
    jsonSpanned "Conditional"
      [("test", test.toJson), ("consequent", consequent.toJson), ("alternate", alternate.toJson)] s
  | .call callee args optional s =>
    jsonSpanned "Call"
      [("callee", callee.toJson), ("args", .arr (exprsToJson args)), ("optional", .bool optional)] s
  | .new callee args s =>
    jsonSpanned "New"
      [("callee", callee.toJson), ("args", match args with | none => .null | some args => .arr (exprsToJson args))] s
  | .member object property optional s =>
    jsonSpanned "Member"
      [("object", object.toJson), ("property", .str property), ("optional", .bool optional)] s
  | .index object index optional s =>
    jsonSpanned "Index" [("object", object.toJson), ("index", index.toJson), ("optional", .bool optional)] s
  | .await arg s => jsonSpanned "Await" [("arg", arg.toJson)] s
  | .sequence exprs s => jsonSpanned "Sequence" [("exprs", .arr (exprsToJson exprs))] s
  | .paren expr s => jsonSpanned "Paren" [("expr", expr.toJson)] s

def exprsToJson : List Expr → List Json
  | [] => []
  | e :: es => e.toJson :: exprsToJson es

def slotsToJson : List (Option Expr) → List Json
  | [] => []
  | none :: es => .null :: slotsToJson es
  | some e :: es => e.toJson :: slotsToJson es

def optionToJson : Option Expr → Json
  | none => .null
  | some e => e.toJson

def ArrowBody.toJson : ArrowBody → Json
  | .block body => jsonNode "Block" [("body", .arr (stmtsToJson body))]
  | .expr expr => jsonNode "Expr" [("expr", expr.toJson)]

def ObjectProp.toJson : ObjectProp → Json
  | .keyValue key value => jsonNode "KeyValue" [("key", key.toJson), ("value", value.toJson)]
  | .shorthand name default => jsonNode "Shorthand" [("name", .str name), ("default", optionToJson default)]
  | .method key func => jsonNode "Method" [("key", key.toJson), ("func", func.toJson)]
  | .spread arg => jsonNode "Spread" [("arg", arg.toJson)]

def objectPropsToJson : List ObjectProp → List Json
  | [] => []
  | p :: ps => p.toJson :: objectPropsToJson ps

def PropKey.toJson : PropKey → Json
  | .ident name => jsonNode "Ident" [("name", .str name)]
  | .str raw => jsonNode "Str" [("raw", .str raw)]
  | .num raw => jsonNode "Num" [("raw", .str raw)]
  | .computed expr => jsonNode "Computed" [("expr", expr.toJson)]

def Pattern.toJson : Pattern → Json
  | .ident name s => jsonSpanned "Ident" [("name", .str name)] s
  | .object props s => jsonSpanned "Object" [("props", .arr (patternPropsToJson props))] s
  | .array elements s => jsonSpanned "Array" [("elements", .arr (patternSlotsToJson elements))] s
  | .rest arg s => jsonSpanned "Rest" [("arg", arg.toJson)] s
  | .assign target default s => jsonSpanned "Assign" [("target", target.toJson), ("default", default.toJson)] s

def patternsToJson : List Pattern → List Json
  | [] => []
  | p :: ps => p.toJson :: patternsToJson ps

def patternSlotsToJson : List (Option Pattern) → List Json
  | [] => []
  | none :: ps => .null :: patternSlotsToJson ps
  | some p :: ps => p.toJson :: patternSlotsToJson ps

def PatternProp.toJson : PatternProp → Json
  | .keyValue key value => jsonNode "KeyValue" [("key", key.toJson), ("value", value.toJson)]
  | .shorthand name default => jsonNode "Shorthand" [("name", .str name), ("default", optionToJson default)]
  | .rest arg => jsonNode "Rest" [("arg", arg.toJson)]

def patternPropsToJson : List PatternProp → List Json
  | [] => []
  | p :: ps => p.toJson :: patternPropsToJson ps

def Function.toJson : Function → Json
  | .mk name isAsync params body s =>
    .obj ([("name", Json.ofOption .str name), ("is_async", .bool isAsync), ("params", .arr (patternsToJson params)),
      ("body", .arr (stmtsToJson body))] ++ s.jsonMember)

def Declarator.toJson : Declarator → Json
  | .mk target init s => .obj ([("target", target.toJson), ("init", optionToJson init)] ++ s.jsonMember)

def declaratorsToJson : List Declarator → List Json
  | [] => []
  | d :: ds => d.toJson :: declaratorsToJson ds

def ForInit.toJson : ForInit → Json
  | .decl kind declarations =>
    jsonNode "Decl" [("kind", .str kind.word), ("declarations", .arr (declaratorsToJson declarations))]
  | .expr expr => jsonNode "Expr" [("expr", expr.toJson)]

def ForHead.toJson : ForHead → Json
  | .decl kind target => jsonNode "Decl" [("kind", .str kind.word), ("target", target.toJson)]
  | .target expr => jsonNode "Target" [("expr", expr.toJson)]

def CatchClause.toJson : CatchClause → Json
  | .mk param body s =>
    .obj ([("param", match param with | none => .null | some param => param.toJson),
      ("body", .arr (stmtsToJson body))] ++ s.jsonMember)

def SwitchCase.toJson : SwitchCase → Json
  | .mk test body s => .obj ([("test", optionToJson test), ("body", .arr (stmtsToJson body))] ++ s.jsonMember)

def casesToJson : List SwitchCase → List Json
  | [] => []
  | c :: cs => c.toJson :: casesToJson cs

def Stmt.toJson : Stmt → Json
  | .block body s => jsonSpanned "Block" [("body", .arr (stmtsToJson body))] s
  | .empty s => jsonSpanned "Empty" [] s
  | .varDecl kind declarations s =>
    jsonSpanned "VarDecl" [("kind", .str kind.word), ("declarations", .arr (declaratorsToJson declarations))] s
  | .function func s => jsonSpanned "Function" [("func", func.toJson)] s
  | .ifElse test consequent alternate s =>
    jsonSpanned "If"
      [("test", optionToJson test), ("consequent", consequent.toJson),
        ("alternate", match alternate with | none => .null | some stmt => stmt.toJson)] s
  | .for init test update body s =>
    jsonSpanned "For"
      [("init", match init with | none => .null | some init => init.toJson), ("test", optionToJson test),
        ("update", optionToJson update), ("body", body.toJson)] s
  | .forEach kind isAwait left right body s =>
    jsonSpanned "ForEach"
      [("kind", .str kind.word), ("is_await", .bool isAwait), ("left", left.toJson), ("right", right.toJson),
        ("body", body.toJson)] s
  | .while test body s => jsonSpanned "While" [("test", optionToJson test), ("body", body.toJson)] s
  | .doWhile body test s => jsonSpanned "DoWhile" [("body", body.toJson), ("test", optionToJson test)] s
  | .try block handler finalizer s =>
    jsonSpanned "Try"
      [("block", .arr (stmtsToJson block)),
        ("handler", match handler with | none => .null | some clause => clause.toJson),
        ("finalizer", match finalizer with | none => .null | some body => .arr (stmtsToJson body))] s
  | .switch discriminant cases s =>
    jsonSpanned "Switch" [("discriminant", discriminant.toJson), ("cases", .arr (casesToJson cases))] s
  | .ret value s => jsonSpanned "Return" [("value", optionToJson value)] s
  | .throw value s => jsonSpanned "Throw" [("value", value.toJson)] s
  | .break s => jsonSpanned "Break" [] s
  | .continue s => jsonSpanned "Continue" [] s
  | .expr expr s => jsonSpanned "Expr" [("expr", expr.toJson)] s
  | .importDecl clause source s =>
    jsonSpanned "Import" [("clause", Json.ofOption .str clause), ("source", .str source)] s
  | .exportDecl declaration clause isDefault s =>
    jsonSpanned "Export"
      [("declaration", match declaration with | none => .null | some stmt => stmt.toJson),
        ("clause", Json.ofOption .str clause), ("is_default", .bool isDefault)] s
  | .typeOnly keyword name s => jsonSpanned "TypeOnly" [("keyword", .str keyword), ("name", .str name)] s

def stmtsToJson : List Stmt → List Json
  | [] => []
  | s :: ss => s.toJson :: stmtsToJson ss

end

/-! ## Forms

The forms of nodes, in the order of their numbers, each with its parts in order. -/

/-- The members of a node with a span. -/
def spanned (parts : List String) : Json.Record := ⟨parts, ["span"]⟩

/-- The members of a node without a span. -/
def spanless (parts : List String) : Json.Record := ⟨parts, []⟩

def Expr.forms : List Json.Form :=
  [⟨"Ident", spanned ["name"]⟩, ⟨"This", spanned []⟩, ⟨"Num", spanned ["raw"]⟩, ⟨"Str", spanned ["raw", "value"]⟩,
    ⟨"Bool", spanned ["v"]⟩, ⟨"Null", spanned []⟩, ⟨"Regex", spanned ["raw"]⟩,
    ⟨"Template", spanned ["quasis", "exprs"]⟩, ⟨"TaggedTemplate", spanned ["tag", "quasi"]⟩,
    ⟨"Array", spanned ["elements"]⟩, ⟨"Object", spanned ["props"]⟩, ⟨"Spread", spanned ["arg"]⟩,
    ⟨"Function", spanned ["func"]⟩, ⟨"Arrow", spanned ["is_async", "params", "body"]⟩,
    ⟨"Unary", spanned ["op", "arg"]⟩, ⟨"Update", spanned ["op", "prefix", "arg"]⟩,
    ⟨"Binary", spanned ["op", "left", "right"]⟩, ⟨"Assign", spanned ["op", "target", "value"]⟩,
    ⟨"Conditional", spanned ["test", "consequent", "alternate"]⟩, ⟨"Call", spanned ["callee", "args", "optional"]⟩,
    ⟨"New", spanned ["callee", "args"]⟩, ⟨"Member", spanned ["object", "property", "optional"]⟩,
    ⟨"Index", spanned ["object", "index", "optional"]⟩, ⟨"Await", spanned ["arg"]⟩, ⟨"Sequence", spanned ["exprs"]⟩,
    ⟨"Paren", spanned ["expr"]⟩]

def ArrowBody.forms : List Json.Form := [⟨"Block", spanless ["body"]⟩, ⟨"Expr", spanless ["expr"]⟩]

def ObjectProp.forms : List Json.Form :=
  [⟨"KeyValue", spanless ["key", "value"]⟩, ⟨"Shorthand", spanless ["name", "default"]⟩,
    ⟨"Method", spanless ["key", "func"]⟩, ⟨"Spread", spanless ["arg"]⟩]

def PropKey.forms : List Json.Form :=
  [⟨"Ident", spanless ["name"]⟩, ⟨"Str", spanless ["raw"]⟩, ⟨"Num", spanless ["raw"]⟩,
    ⟨"Computed", spanless ["expr"]⟩]

def Pattern.forms : List Json.Form :=
  [⟨"Ident", spanned ["name"]⟩, ⟨"Object", spanned ["props"]⟩, ⟨"Array", spanned ["elements"]⟩,
    ⟨"Rest", spanned ["arg"]⟩, ⟨"Assign", spanned ["target", "default"]⟩]

def PatternProp.forms : List Json.Form :=
  [⟨"KeyValue", spanless ["key", "value"]⟩, ⟨"Shorthand", spanless ["name", "default"]⟩,
    ⟨"Rest", spanless ["arg"]⟩]

def Function.record : Json.Record := spanned ["name", "is_async", "params", "body"]

def Declarator.record : Json.Record := spanned ["target", "init"]

def CatchClause.record : Json.Record := spanned ["param", "body"]

def SwitchCase.record : Json.Record := spanned ["test", "body"]

def ForInit.forms : List Json.Form := [⟨"Decl", spanless ["kind", "declarations"]⟩, ⟨"Expr", spanless ["expr"]⟩]

def ForHead.forms : List Json.Form := [⟨"Decl", spanless ["kind", "target"]⟩, ⟨"Target", spanless ["expr"]⟩]

def Stmt.forms : List Json.Form :=
  [⟨"Block", spanned ["body"]⟩, ⟨"Empty", spanned []⟩, ⟨"VarDecl", spanned ["kind", "declarations"]⟩,
    ⟨"Function", spanned ["func"]⟩, ⟨"If", spanned ["test", "consequent", "alternate"]⟩,
    ⟨"For", spanned ["init", "test", "update", "body"]⟩,
    ⟨"ForEach", spanned ["kind", "is_await", "left", "right", "body"]⟩, ⟨"While", spanned ["test", "body"]⟩,
    ⟨"DoWhile", spanned ["body", "test"]⟩, ⟨"Try", spanned ["block", "handler", "finalizer"]⟩,
    ⟨"Switch", spanned ["discriminant", "cases"]⟩, ⟨"Return", spanned ["value"]⟩, ⟨"Throw", spanned ["value"]⟩,
    ⟨"Break", spanned []⟩, ⟨"Continue", spanned []⟩, ⟨"Expr", spanned ["expr"]⟩,
    ⟨"Import", spanned ["clause", "source"]⟩, ⟨"Export", ⟨["declaration", "clause"], ["is_default", "span"]⟩⟩,
    ⟨"TypeOnly", spanned ["keyword", "name"]⟩]

/-! ## Reading

The readers take a bound on the depth of what they read; a value's own depth is always enough. -/

/-- A name, read by a table of names. -/
def named? {α : Type} (ofName? : String → Option α) (v : Json) : Option α :=
  v.choice?.bind ofName?

mutual

def Expr.read? : Nat → Json → Option Expr
  | 0, _ => none
  | n + 1, v => do
    let (form, v) ← v.node? Expr.forms
    let expr (name : String) : Option Expr := v.field? name (Expr.read? n)
    let exprs (name : String) : Option (List Expr) := v.field? name (Json.list? (Expr.read? n))
    let text (name : String) : Option String := v.field? name Json.str?
    let flag (name : String) : Option Bool := v.field? name Json.bool?
    let span := Span.ofMember? v
    match form with
    | "Ident" => return .ident (← text "name") (← span)
    | "This" => return .this (← span)
    | "Num" => return .num (← text "raw") (← span)
    | "Str" => return .str (← text "raw") (← text "value") (← span)
    | "Bool" => return .bool (← flag "v") (← span)
    | "Null" => return .null (← span)
    | "Regex" => return .regex (← text "raw") (← span)
    | "Template" => return .template (← v.field? "quasis" (Json.list? Json.str?)) (← exprs "exprs") (← span)
    | "TaggedTemplate" => return .taggedTemplate (← expr "tag") (← expr "quasi") (← span)
    | "Array" => return .array (← v.field? "elements" (Json.list? (Json.nullable? (Expr.read? n)))) (← span)
    | "Object" => return .object (← v.field? "props" (Json.list? (ObjectProp.read? n))) (← span)
    | "Spread" => return .spread (← expr "arg") (← span)
    | "Function" => return .function (← v.field? "func" (Function.read? n)) (← span)
    | "Arrow" =>
      return .arrow (← flag "is_async") (← v.field? "params" (Json.list? (Pattern.read? n)))
        (← v.field? "body" (ArrowBody.read? n)) (← span)
    | "Unary" => return .unary (← v.field? "op" (named? UnaryOp.ofName?)) (← expr "arg") (← span)
    | "Update" =>
      return .update (← v.field? "op" (named? UpdateOp.ofName?)) (← flag "prefix") (← expr "arg") (← span)
    | "Binary" =>
      return .binary (← v.field? "op" (named? BinaryOp.ofName?)) (← expr "left") (← expr "right") (← span)
    | "Assign" => return .assign (← text "op") (← expr "target") (← expr "value") (← span)
    | "Conditional" => return .conditional (← expr "test") (← expr "consequent") (← expr "alternate") (← span)
    | "Call" => return .call (← expr "callee") (← exprs "args") (← flag "optional") (← span)
    | "New" => return .new (← expr "callee") (← v.optional? "args" (Json.list? (Expr.read? n))) (← span)
    | "Member" => return .member (← expr "object") (← text "property") (← flag "optional") (← span)
    | "Index" => return .index (← expr "object") (← expr "index") (← flag "optional") (← span)
    | "Await" => return .await (← expr "arg") (← span)
    | "Sequence" => return .sequence (← exprs "exprs") (← span)
    | "Paren" => return .paren (← expr "expr") (← span)
    | _ => none

def ArrowBody.read? : Nat → Json → Option ArrowBody
  | 0, _ => none
  | n + 1, v => do
    let (form, v) ← v.node? ArrowBody.forms
    match form with
    | "Block" => return .block (← v.field? "body" (Json.list? (Stmt.read? n)))
    | "Expr" => return .expr (← v.field? "expr" (Expr.read? n))
    | _ => none

def ObjectProp.read? : Nat → Json → Option ObjectProp
  | 0, _ => none
  | n + 1, v => do
    let (form, v) ← v.node? ObjectProp.forms
    match form with
    | "KeyValue" => return .keyValue (← v.field? "key" (PropKey.read? n)) (← v.field? "value" (Expr.read? n))
    | "Shorthand" => return .shorthand (← v.field? "name" Json.str?) (← v.optional? "default" (Expr.read? n))
    | "Method" => return .method (← v.field? "key" (PropKey.read? n)) (← v.field? "func" (Function.read? n))
    | "Spread" => return .spread (← v.field? "arg" (Expr.read? n))
    | _ => none

def PropKey.read? : Nat → Json → Option PropKey
  | 0, _ => none
  | n + 1, v => do
    let (form, v) ← v.node? PropKey.forms
    match form with
    | "Ident" => return .ident (← v.field? "name" Json.str?)
    | "Str" => return .str (← v.field? "raw" Json.str?)
    | "Num" => return .num (← v.field? "raw" Json.str?)
    | "Computed" => return .computed (← v.field? "expr" (Expr.read? n))
    | _ => none

def Pattern.read? : Nat → Json → Option Pattern
  | 0, _ => none
  | n + 1, v => do
    let (form, v) ← v.node? Pattern.forms
    let span := Span.ofMember? v
    match form with
    | "Ident" => return .ident (← v.field? "name" Json.str?) (← span)
    | "Object" => return .object (← v.field? "props" (Json.list? (PatternProp.read? n))) (← span)
    | "Array" => return .array (← v.field? "elements" (Json.list? (Json.nullable? (Pattern.read? n)))) (← span)
    | "Rest" => return .rest (← v.field? "arg" (Pattern.read? n)) (← span)
    | "Assign" =>
      return .assign (← v.field? "target" (Pattern.read? n)) (← v.field? "default" (Expr.read? n)) (← span)
    | _ => none

def PatternProp.read? : Nat → Json → Option PatternProp
  | 0, _ => none
  | n + 1, v => do
    let (form, v) ← v.node? PatternProp.forms
    match form with
    | "KeyValue" => return .keyValue (← v.field? "key" (PropKey.read? n)) (← v.field? "value" (Pattern.read? n))
    | "Shorthand" => return .shorthand (← v.field? "name" Json.str?) (← v.optional? "default" (Expr.read? n))
    | "Rest" => return .rest (← v.field? "arg" (Pattern.read? n))
    | _ => none

def Function.read? : Nat → Json → Option Function
  | 0, _ => none
  | n + 1, v => do
    let v ← v.record? Function.record
    return .mk (← v.optional? "name" Json.str?) (← v.field? "is_async" Json.bool?)
      (← v.field? "params" (Json.list? (Pattern.read? n))) (← v.field? "body" (Json.list? (Stmt.read? n)))
      (← Span.ofMember? v)

def Declarator.read? : Nat → Json → Option Declarator
  | 0, _ => none
  | n + 1, v => do
    let v ← v.record? Declarator.record
    return .mk (← v.field? "target" (Pattern.read? n)) (← v.optional? "init" (Expr.read? n)) (← Span.ofMember? v)

def ForInit.read? : Nat → Json → Option ForInit
  | 0, _ => none
  | n + 1, v => do
    let (form, v) ← v.node? ForInit.forms
    match form with
    | "Decl" =>
      return .decl (← v.field? "kind" (named? VarKind.ofWord?))
        (← v.field? "declarations" (Json.list? (Declarator.read? n)))
    | "Expr" => return .expr (← v.field? "expr" (Expr.read? n))
    | _ => none

def ForHead.read? : Nat → Json → Option ForHead
  | 0, _ => none
  | n + 1, v => do
    let (form, v) ← v.node? ForHead.forms
    match form with
    | "Decl" => return .decl (← v.field? "kind" (named? VarKind.ofWord?)) (← v.field? "target" (Pattern.read? n))
    | "Target" => return .target (← v.field? "expr" (Expr.read? n))
    | _ => none

def CatchClause.read? : Nat → Json → Option CatchClause
  | 0, _ => none
  | n + 1, v => do
    let v ← v.record? CatchClause.record
    return .mk (← v.optional? "param" (Pattern.read? n)) (← v.field? "body" (Json.list? (Stmt.read? n)))
      (← Span.ofMember? v)

def SwitchCase.read? : Nat → Json → Option SwitchCase
  | 0, _ => none
  | n + 1, v => do
    let v ← v.record? SwitchCase.record
    return .mk (← v.optional? "test" (Expr.read? n)) (← v.field? "body" (Json.list? (Stmt.read? n)))
      (← Span.ofMember? v)

def Stmt.read? : Nat → Json → Option Stmt
  | 0, _ => none
  | n + 1, v => do
    let (form, v) ← v.node? Stmt.forms
    let expr (name : String) : Option Expr := v.field? name (Expr.read? n)
    let optional (name : String) : Option (Option Expr) := v.optional? name (Expr.read? n)
    let stmt (name : String) : Option Stmt := v.field? name (Stmt.read? n)
    let stmts (name : String) : Option (List Stmt) := v.field? name (Json.list? (Stmt.read? n))
    let text (name : String) : Option String := v.field? name Json.str?
    let span := Span.ofMember? v
    match form with
    | "Block" => return .block (← stmts "body") (← span)
    | "Empty" => return .empty (← span)
    | "VarDecl" =>
      return .varDecl (← v.field? "kind" (named? VarKind.ofWord?))
        (← v.field? "declarations" (Json.list? (Declarator.read? n))) (← span)
    | "Function" => return .function (← v.field? "func" (Function.read? n)) (← span)
    | "If" =>
      return .ifElse (← optional "test") (← stmt "consequent") (← v.optional? "alternate" (Stmt.read? n)) (← span)
    | "For" =>
      return .for (← v.optional? "init" (ForInit.read? n)) (← optional "test") (← optional "update") (← stmt "body")
        (← span)
    | "ForEach" =>
      return .forEach (← v.field? "kind" (named? ForLoopKind.ofWord?)) (← v.field? "is_await" Json.bool?)
        (← v.field? "left" (ForHead.read? n)) (← expr "right") (← stmt "body") (← span)
    | "While" => return .while (← optional "test") (← stmt "body") (← span)
    | "DoWhile" => return .doWhile (← stmt "body") (← optional "test") (← span)
    | "Try" =>
      return .try (← stmts "block") (← v.optional? "handler" (CatchClause.read? n))
        (← v.optional? "finalizer" (Json.list? (Stmt.read? n))) (← span)
    | "Switch" =>
      return .switch (← expr "discriminant") (← v.field? "cases" (Json.list? (SwitchCase.read? n))) (← span)
    | "Return" => return .ret (← optional "value") (← span)
    | "Throw" => return .throw (← expr "value") (← span)
    | "Break" => return .break (← span)
    | "Continue" => return .continue (← span)
    | "Expr" => return .expr (← expr "expr") (← span)
    | "Import" => return .importDecl (← v.optional? "clause" Json.str?) (← text "source") (← span)
    | "Export" =>
      return .exportDecl (← v.optional? "declaration" (Stmt.read? n)) (← v.optional? "clause" Json.str?)
        (← v.default? "is_default" Json.bool? false) (← span)
    | "TypeOnly" => return .typeOnly (← text "keyword") (← text "name") (← span)
    | _ => none

end

namespace Stmt

/-- Reads a statement. Nothing lies around it, so its form is told by its name. -/
def ofJson? (v : Json) : Option Stmt :=
  (v.mark?.bind Json.str?).bind fun _ => Stmt.read? v.depth v

end Stmt
end FlowScript
