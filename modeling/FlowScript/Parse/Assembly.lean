import FlowScript.Parse.Part

/-!
# Assembling the tree

`assemble` says what one match stands for, given what the matches inside it stand for; `build` does so for a whole tree
of matches, bottom-up. Type syntax is not looked into: a match that the erased source lacks gives the edit that removes
it, and a declaration of nothing but types becomes one statement.
-/

namespace FlowScript.Parse
open FlowScript.Grammar (Rule Keyword)
open FlowScript.Peg (Cursor Derivation)

/-- A piece of tree and the edits that go with it, those inside it apart unless it takes them up in between. -/
abbrev Made := Assembled (Piece × List Edit)

/-- A piece without edits of its own. -/
def Made.plain (piece : Piece) : Made := .ok (piece, [])

/-- Refuses a match. -/
def Site.misplaced {α : Type} (site : Site) : Assembled α :=
  .error ⟨site.rule, site.span⟩

/-- The only part, or the first, of a rule. -/
def the (site : Site) (parts : List Part) (rule : Rule) : Assembled Part :=
  match parts.find? (·.rule = rule) with
  | some part => .ok part
  | none => site.misplaced

/-- What the part of a rule stands for, if there is one. -/
def optional {α : Type} (parts : List Part) (rule : Rule) (read : Part → Assembled α) : Assembled (Option α) :=
  match parts.find? (·.rule = rule) with
  | some part => (read part).map some
  | none => .ok none

/-- The first part. -/
def first (site : Site) (parts : List Part) : Assembled Part :=
  match parts with
  | part :: _ => .ok part
  | [] => site.misplaced

/-- The part that binds. -/
def target (site : Site) (parts : List Part) : Assembled Pattern :=
  match parts.find? (·.isTarget) with
  | some part => part.toPattern
  | none => site.misplaced

/-- The default or initial value, if there is one. -/
def initial (parts : List Part) : Assembled (Option Expr) :=
  optional parts .assignExpr Part.toExpr

/-- A binding with its default, if it has one. -/
def withDefault (site : Site) (binding : Pattern) (default : Option Expr) : Pattern :=
  match default with
  | some value => .assign binding value site.span
  | none => binding

/-- Elements of an array, holes included; the hole after a comma that ends the list is none. -/
def slots {α : Type} (hole : Rule) (read : Part → Assembled α) (parts : List Part) : Assembled (List (Option α)) := do
  let elements ← parts.mapM fun part => if part.rule = hole then .ok none else (read part).map some
  match elements.getLast? with
  | some none => .ok elements.dropLast
  | _ => .ok elements

/-- A function of a declaration, an expression or a method. -/
def function (site : Site) (parts : List Part) (name : Option String) : Assembled Function := do
  let params ← optional parts .params Part.toParams
  let body ← (← the site parts .block).toBody
  return .mk name (parts.any (·.isKeyword .asyncWord)) (params.getD []) body site.span

/-! ## Statements -/

/-- The declaration kind that a token names. -/
def varKind (parts : List Part) (site : Site) : Assembled VarKind := do
  let part ← the site parts .varKind
  match VarKind.ofWord? part.word with
  | some kind => .ok kind
  | none => part.misplaced

def declarator (part : Part) : Assembled Declarator :=
  match part.piece with
  | .declarator d => .ok d
  | _ => part.misplaced

def varDecl (site : Site) (parts : List Part) : Made := do
  let kind ← varKind parts site
  let declarations ← (parts.filter (·.rule = .declarator)).mapM declarator
  Made.plain (.decl kind declarations)

def forInit (site : Site) (parts : List Part) : Made := do
  let part ← first site parts
  match part.piece with
  | .decl kind declarations => Made.plain (.forInit (.decl kind declarations))
  | _ => Made.plain (.forInit (.expr (← part.toExpr)))

def forLeft (site : Site) (parts : List Part) : Made := do
  match parts.find? (·.rule = .callExpr) with
  | some part => Made.plain (.forHead (.target (← part.toExpr)))
  | none => Made.plain (.forHead (.decl (← varKind parts site) (← target site parts)))

def forInOf (site : Site) (parts : List Part) : Made := do
  let kindPart ← the site parts .forKind
  let leftPart ← the site parts .forLeft
  match ForLoopKind.ofWord? kindPart.word, leftPart.piece with
  | some kind, .forHead left =>
    let right ← (← the site parts .expression).toExpr
    let body ← (← the site parts .statement).toStmt
    Made.plain (.stmt (.forEach kind (parts.any (·.isKeyword .awaitWord)) left right body site.span))
  | _, _ => site.misplaced

def switchCase (site : Site) (parts : List Part) : Made := do
  let test ← optional parts .caseTest Part.toExpr
  let body ← (parts.filter (·.rule = .statement)).mapM Part.toStmt
  Made.plain (.switchCase (.mk test body site.span))

/-- What a statement's own rule stands for. -/
def statement (site : Site) (parts : List Part) : Made := do
  let span := site.span
  let need := the site parts
  let test := optional parts .expression Part.toExpr
  let body := do (← need .statement).toStmt
  match site.rule with
  | .emptyStmt => Made.plain (.stmt (.empty span))
  | .varStmt =>
    let (kind, declarations) ← (← first site parts).toDecl
    Made.plain (.stmt (.varDecl kind declarations span))
  | .functionDecl =>
    let name := (parts.find? (·.rule = .identifier)).map (·.word)
    Made.plain (.stmt (.function (← function site parts name) span))
  | .ifStmt =>
    let alternate ← optional parts .elseClause Part.toStmt
    Made.plain (.stmt (.ifElse (← test) (← body) alternate span))
  | .forStmt =>
    let init ← optional parts .forInit fun part =>
      match part.piece with
      | .forInit init => .ok init
      | _ => part.misplaced
    let check ← optional parts .forTest Part.toExpr
    let update ← optional parts .forUpdate Part.toExpr
    Made.plain (.stmt (.for init check update (← body) span))
  | .whileStmt => Made.plain (.stmt (.while (← test) (← body) span))
  | .doWhileStmt => Made.plain (.stmt (.doWhile (← body) (← test) span))
  | .tryStmt =>
    let block ← (← need .block).toBody
    let handler ← optional parts .catchClause fun part =>
      match part.piece with
      | .catchClause clause => .ok clause
      | _ => part.misplaced
    let finalizer ← optional parts .finallyClause Part.toBody
    Made.plain (.stmt (.try block handler finalizer span))
  | .switchStmt =>
    let discriminant ← (← need .expression).toExpr
    let cases ← (parts.filter (·.rule = .switchCase)).mapM fun part =>
      match part.piece with
      | .switchCase clause => .ok clause
      | _ => part.misplaced
    Made.plain (.stmt (.switch discriminant cases span))
  | .returnStmt => Made.plain (.stmt (.ret (← test) span))
  | .throwStmt => Made.plain (.stmt (.throw (← (← need .expression).toExpr) span))
  | .breakStmt => Made.plain (.stmt (.break span))
  | .continueStmt => Made.plain (.stmt (.continue span))
  | .exprStmt => Made.plain (.stmt (.expr (← (← first site parts).toExpr) span))
  | _ => site.misplaced

def catchClause (site : Site) (parts : List Part) : Made := do
  let param ← (parts.find? (·.isTarget)).mapM Part.toPattern
  let body ← (← the site parts .block).toBody
  Made.plain (.catchClause (.mk param body site.span))

/-! ## Modules -/

/-- The names of a list that are not marked as types, as written. -/
def keptSpecifiers (parts : List Part) : List (List Char) :=
  (parts.filter fun part => match part.piece with | .specifier isType => !isType | _ => false).map (·.content)

/-- A list of names in braces. -/
def braceList (names : List (List Char)) : String :=
  "\x7b " ++ String.ofList ([',', ' '].intercalate names) ++ " \x7d"

/-- A list of names: when some of them are types, it is written anew up to `stop` with the others; when all are, the
    whole statement goes instead. -/
def specifiers (site : Site) (stop : Option Nat) (parts : List Part) : Made :=
  let specs := parts.filter fun part => match part.piece with | .specifier _ => true | _ => false
  let kept := keptSpecifiers parts
  if kept.length = specs.length then Made.plain (.specifiers true)
  else if kept.isEmpty then Made.plain (.specifiers false)
  else
    .ok (.specifiers true,
      match stop with
      | some stop => [Edit.replace site.start.offset stop (braceList kept)]
      | none => [])

/-- The offset after the brace that closes a list whose last name is given. -/
def closingBrace (site : Site) (parts : List Part) : Option Nat :=
  let from_ := match parts.reverse.find? (·.rule = .exportSpec) with
    | some spec => spec.stop.offset
    | none => site.start.offset
  match Text.dropBytes? site.start.rest (from_ - site.start.offset) with
  | some rest =>
    if rest.contains '\x7d' then some (from_ + Text.byteLength (rest.takeWhile (· != '\x7d')) + 1) else none
  | none => none

/-- Whether the part names a value to bind. -/
def bindsValue (part : Part) : Bool :=
  match part.piece with
  | .specifiers binds => binds
  | _ => false

def importDecl (site : Site) (parts : List Part) : Made := do
  let clause := parts.find? (·.rule = .importClause)
  let module := match parts.find? (·.rule = .string) with
    | some part => part.word
    | none => ""
  let stmt := Piece.stmt (.importDecl (clause.map (·.word)) module site.span)
  let typesOnly := parts.any (·.isKeyword .typeWord) || clause.any (!bindsValue ·)
  .ok (stmt, if typesOnly then [site.lineRemoval] else [])

/-- The text of an export without the semicolons and blanks at its end. -/
def exportClause (part : Part) : String :=
  String.ofList (Text.trimEnd (part.text.reverse.dropWhile (· == ';')).reverse)

def isTypeOnly : Stmt → Bool
  | .typeOnly .. => true
  | _ => false

def exportDecl (site : Site) (parts : List Part) : Made := do
  let span := site.span
  let removal := [site.lineRemoval]
  match parts.filter (!·.isKeyword .exportWord) with
  | [part] =>
    match part.rule, part.piece with
    | .exportTypeList, _ => .ok (.stmt (.exportDecl none none false span), removal)
    | .exportList, .specifiers binds =>
      .ok (.stmt (.exportDecl none (some (exportClause part)) false span), if binds then [] else removal)
    | .exportAll, _ => .ok (.stmt (.exportDecl none (some (exportClause part)) false span), [])
    | .exportDefault, .stmt declaration => .ok (.stmt (.exportDecl (some declaration) none true span), [])
    | .statement, .stmt declaration =>
      .ok (.stmt (.exportDecl (some declaration) none false span), if isTypeOnly declaration then removal else [])
    | _, _ => part.misplaced
  | _ => site.misplaced

def exportDefault (site : Site) (parts : List Part) : Made := do
  match parts.find? (!·.isKeyword .defaultWord) with
  | some part =>
    match part.piece with
    | .stmt declaration => Made.plain (.stmt declaration)
    | _ => Made.plain (.stmt (.expr (← part.toExpr) part.span))
  | none => site.misplaced

/-! ## Patterns -/

/-- A member of an object pattern. -/
def patternProp (part : Part) : Assembled PatternProp :=
  match part.piece with
  | .patternProp prop => .ok prop
  | .pattern (.rest arg _) => .ok (.rest arg)
  | _ => part.misplaced

def patternPair (site : Site) (parts : List Part) : Made := do
  let key ← (← the site parts .propertyKey).toKey
  let value ← (← the site parts .bindingElement).toPattern
  Made.plain (.patternProp (.keyValue key value))

def restBinding (site : Site) (parts : List Part) : Made := do
  Made.plain (.pattern (.rest (← target site parts) site.span))

def param (site : Site) (parts : List Part) : Made := do
  let binding ← match parts.find? (·.rule = .restParam) with
    | some part => part.toPattern
    | none => target site parts
  Made.plain (.pattern (withDefault site binding (← initial parts)))

def propertyKey (site : Site) (parts : List Part) : Made := do
  let part ← first site parts
  match part.rule with
  | .identifierName => Made.plain (.key (.ident part.word))
  | .string => Made.plain (.key (.str part.word))
  | .number => Made.plain (.key (.num part.word))
  | .computedKey => Made.plain (.key (.computed (← part.toExpr)))
  | _ => part.misplaced

/-! ## Expressions -/

/-- Operands with operators between them, grouped to the left, and the edits in them. A type stated after an operand is
    removed, with the space before it from `stop`, the end of that operand, on. -/
def foldOperands : Expr → (stop : Nat) → List Edit → List Part → Made
  | left, _, edits, [] => .ok (.expr left, edits)
  | left, stop, edits, [part] =>
    if part.rule = .tsAsSuffix then .ok (.expr left, edits ++ [Edit.remove stop part.contentStop])
    else part.misplaced
  | left, stop, edits, part :: next :: rest =>
    match part.rule with
    | .tsAsSuffix =>
      foldOperands left part.contentStop (edits ++ [Edit.remove stop part.contentStop]) (next :: rest)
    | .operator op => do
      let right ← next.toExpr
      foldOperands (.binary op left right (left.span.merge right.span)) next.contentStop (edits ++ next.edits) rest
    | _ => part.misplaced

def operands (site : Site) (parts : List Part) : Made :=
  match parts with
  | part :: rest => do foldOperands (← part.toExpr) part.contentStop part.edits rest
  | [] => site.misplaced

/-- A callee, object or tag with what one postfix makes of it. -/
def applyPostfix (expr : Expr) (part : Part) : Assembled Expr := do
  let span := expr.span.merge part.span
  match part.rule with
  | .callArgs => return .call expr (← part.toArgs) false span
  | .optionalCall => return .call expr (← part.toArgs) true span
  | .memberAccess => return .member expr (← part.toProperty) false span
  | .optionalMember => return .member expr (← part.toProperty) true span
  | .indexAccess => return .index expr (← part.toExpr) false span
  | .optionalIndex => return .index expr (← part.toExpr) true span
  | .nonNull => return expr
  | .taggedTemplate => return .taggedTemplate expr (← part.toExpr) span
  | _ => part.misplaced

/-- An expression followed by postfixes. -/
def postfixes (site : Site) (parts : List Part) : Made :=
  match parts with
  | part :: rest => do Made.plain (.expr (← rest.foldlM applyPostfix (← part.toExpr)))
  | [] => site.misplaced

/-- The raw text before, between and after the substitutions of a template, and the substitutions; `chunk` is the raw
    text read so far. -/
def templateParts : List Char → List Part → Assembled (List String × List Expr)
  | chunk, [] => .ok ([String.ofList chunk], [])
  | chunk, part :: rest => do
    match part.rule with
    | .templateChunk => templateParts (chunk ++ part.text) rest
    | .templateSubst =>
      let expr ← part.toExpr
      let (quasis, exprs) ← templateParts [] rest
      return (String.ofList chunk :: quasis, expr :: exprs)
    | _ => part.misplaced

def unary (site : Site) (parts : List Part) : Made :=
  match parts with
  | [op, operand] => do
    let arg ← operand.toExpr
    match op.rule, UnaryOp.ofSymbol? op.word with
    | .unaryOp, some symbol => Made.plain (.expr (.unary symbol arg site.span))
    | .updateOp, _ => Made.plain (.expr (.update (updateOp op) true arg site.span))
    | _, _ => site.misplaced
  | [part] => do Made.plain (.expr (← part.toExpr))
  | _ => site.misplaced
where
  /-- The operator of an increment or decrement. -/
  updateOp (part : Part) : UpdateOp := if part.word = "--" then .decrement else .increment

def arrow (site : Site) (parts : List Part) : Made := do
  let params ← (← the site parts .arrowParams).toParams
  let body ← the site parts .arrowBody
  match body.piece with
  | .arrowBody body =>
    Made.plain (.expr (.arrow (parts.any (·.isKeyword .asyncWord)) params body site.span))
  | _ => body.misplaced

def arrowParams (parts : List Part) : Made := do
  match parts with
  | [] => Made.plain (.params [])
  | part :: _ =>
    match part.rule with
    | .params => Made.plain (.params (← part.toParams))
    | _ => Made.plain (.params [← part.toPattern])

def arrowBody (site : Site) (parts : List Part) : Made := do
  let part ← first site parts
  match part.piece with
  | .body body => Made.plain (.arrowBody (.block body))
  | _ => Made.plain (.arrowBody (.expr (← part.toExpr)))

def newExpr (site : Site) (parts : List Part) : Made := do
  let callee ← (← the site parts .newCallee).toExpr
  let args ← optional parts .newArgs Part.toArgs
  Made.plain (.expr (.new callee args site.span))

def args (parts : List Part) : Made := do
  Made.plain (.args ((← optional parts .argList Part.toArgs).getD []))

/-- A member of an object literal. -/
def objectProp (part : Part) : Assembled ObjectProp :=
  match part.piece with
  | .objectProp prop => .ok prop
  | .expr (.spread arg _) => .ok (.spread arg)
  | _ => part.misplaced

def objectMethod (site : Site) (parts : List Part) : Made := do
  let key ← (← the site parts .propertyKey).toKey
  Made.plain (.objectProp (.method key (← function site parts none)))

/-- What an expression's own rule stands for. -/
def expression (site : Site) (parts : List Part) : Made := do
  let span := site.span
  let read (part : Part) : Assembled Expr := part.toExpr
  match site.rule, parts with
  | .expression, _ =>
    match ← parts.mapM read with
    | [] => site.misplaced
    | [e] => Made.plain (.expr e)
    | es => Made.plain (.expr (.sequence es span))
  | .assignExpr, [e] => Made.plain (.expr (← read e))
  | .assignExpr, [t, op, v] => Made.plain (.expr (.assign op.word (← read t) (← read v) span))
  | .conditionalExpr, [e] => Made.plain (.expr (← read e))
  | .conditionalExpr, [t, c, a] => Made.plain (.expr (.conditional (← read t) (← read c) (← read a) span))
  | .exponentExpr, [e] => Made.plain (.expr (← read e))
  | .exponentExpr, [l, _, r] => Made.plain (.expr (.binary .exp (← read l) (← read r) span))
  | .awaitExpr, _ => Made.plain (.expr (.await (← read (← the site parts .unaryExpr)) span))
  | .postfixExpr, [e] => Made.plain (.expr (← read e))
  | .postfixExpr, [e, op] => Made.plain (.expr (.update (unary.updateOp op) false (← read e) span))
  | .parenExpr, _ => Made.plain (.expr (.paren (← read (← first site parts)) span))
  | .functionExpr, _ =>
    let name := (parts.find? (·.rule = .identifier)).map (·.word)
    Made.plain (.expr (.function (← function site parts name) span))
  | .template, _ =>
    let (quasis, exprs) ← templateParts [] parts
    Made.plain (.expr (.template quasis exprs span))
  | .arrayLit, _ => Made.plain (.expr (.array (← slots .arrayHole read parts) span))
  | .objectLit, _ => Made.plain (.expr (.object (← parts.mapM objectProp) span))
  | .spreadElem, _ => Made.plain (.expr (.spread (← read (← first site parts)) span))
  | _, _ => site.misplaced

/-! ## All rules -/

/-- What a match stands for, given what the matches inside it stand for, with the edits of its own. -/
def assemble (site : Site) (parts : List Part) : Made :=
  match site.rule with
  | .endOfInput | .keyword _ | .operator _ | .identifier | .identifierName | .privateName | .number | .string
  | .templateChunk | .regex | .boolean | .nullLit | .thisExpr | .varKind | .forKind | .assignOp | .unaryOp | .updateOp
  | .arrayHole | .patternHole => Made.plain .token
  | .block | .program => do
    let items := parts.filter (·.rule ≠ .endOfInput)
    Made.plain (.body (← items.mapM Part.toStmt))
  | .statement => do Made.plain (.stmt (← (← first site parts).toStmt))
  | .emptyStmt | .varStmt | .functionDecl | .ifStmt | .forStmt | .whileStmt | .doWhileStmt | .tryStmt | .switchStmt
  | .returnStmt | .throwStmt | .breakStmt | .continueStmt | .exprStmt => statement site parts
  | .forInOfStmt => forInOf site parts
  | .varDecl => varDecl site parts
  | .declarator => do
    Made.plain (.declarator (.mk (← target site parts) (← initial parts) site.span))
  | .elseClause => do Made.plain (.stmt (← (← the site parts .statement).toStmt))
  | .forInit => forInit site parts
  | .forLeft => forLeft site parts
  | .forTest | .forUpdate | .caseTest => do
    Made.plain (.expr (← (← the site parts .expression).toExpr))
  | .catchClause => catchClause site parts
  | .finallyClause => do Made.plain (.body (← (← the site parts .block).toBody))
  | .switchCase => switchCase site parts
  | .params => do Made.plain (.params (← parts.mapM Part.toPattern))
  | .param => param site parts
  | .restParam | .restPattern => restBinding site parts
  | .importDecl => importDecl site parts
  | .importClause => Made.plain (.specifiers (parts.any bindsValue))
  | .importDefault | .importNamespace => Made.plain (.specifiers true)
  | .importNamed => specifiers site (some site.stop.offset) parts
  | .importSpec | .exportSpec => Made.plain (.specifier (parts.any (·.isKeyword .typeWord)))
  | .exportDecl => exportDecl site parts
  | .exportTypeList => Made.plain (.specifiers false)
  | .exportList => specifiers site (closingBrace site parts) parts
  | .exportAll => Made.plain (.specifiers true)
  | .exportDefault => exportDefault site parts
  | .objectPattern => do Made.plain (.pattern (.object (← parts.mapM patternProp) site.span))
  | .patternPair => patternPair site parts
  | .patternShorthand => do
    let name ← the site parts .identifier
    Made.plain (.patternProp (.shorthand name.word (← initial parts)))
  | .bindingElement => do
    Made.plain (.pattern (withDefault site (← target site parts) (← initial parts)))
  | .arrayPattern => do
    Made.plain (.pattern (.array (← slots .patternHole (·.toPattern) parts) site.span))
  | .arrowFn => arrow site parts
  | .arrowParams => arrowParams parts
  | .arrowBody => arrowBody site parts
  | .level _ => operands site parts
  | .unaryExpr => unary site parts
  | .callExpr | .newCallee => postfixes site parts
  | .callArgs | .optionalCall | .newArgs => args parts
  | .argList => do Made.plain (.args (← parts.mapM Part.toExpr))
  | .optionalIndex | .indexAccess | .templateSubst => do
    Made.plain (.expr (← (← the site parts .expression).toExpr))
  | .optionalMember | .memberAccess => do Made.plain (.property (← first site parts).word)
  | .taggedTemplate | .computedKey => do Made.plain (.expr (← (← first site parts).toExpr))
  | .newExpr => newExpr site parts
  | .objectPair => do
    let key ← (← the site parts .propertyKey).toKey
    Made.plain (.objectProp (.keyValue key (← (← the site parts .assignExpr).toExpr)))
  | .objectMethod => objectMethod site parts
  | .objectShorthand => do
    let name ← the site parts .identifier
    Made.plain (.objectProp (.shorthand name.word (← initial parts)))
  | .propertyKey => propertyKey site parts
  | .expression | .assignExpr | .conditionalExpr | .exponentExpr | .awaitExpr | .postfixExpr | .parenExpr
  | .functionExpr | .template | .arrayLit | .objectLit | .spreadElem => expression site parts
  | _ => site.misplaced

/-- The keyword that a declaration of types goes by. -/
def typeKeyword? : Rule → Option String
  | .functionSig => some "function"
  | .interfaceDecl => some "interface"
  | .typeAliasDecl => some "type"
  | .enumDecl => some "enum"
  | .ambientDecl => some "declare"
  | _ => none

/-- How type syntax inside other syntax goes: by itself (`some true`), or with what it stands in (`some false`). -/
def erasure? : Rule → Option Bool
  | .definiteMark | .optionalMark | .statedType | .returnType | .tsTypeParams | .tsTypeArgs | .nonNull => some true
  | .tsAsSuffix => some false
  | _ => none

mutual

/-- The text of the first identifier in a tree of matches, parents before their children. -/
def firstIdentifier? : Derivation Rule → Option String
  | .node rule start stop children =>
    if rule = .identifier then some (Site.mk rule start stop).word else firstIdentifierIn? children

/-- The text of the first identifier in trees of matches. -/
def firstIdentifierIn? : List (Derivation Rule) → Option String
  | [] => none
  | t :: ts =>
    match firstIdentifier? t with
    | some name => some name
    | none => firstIdentifierIn? ts

end

/-- The rules whose matches may stand right inside a match of a rule, where any other is refused; without a list, a
    match that has no meaning there is passed over. -/
def places? : Rule → Option (List Rule)
  | .varDecl => some [.varKind, .declarator]
  | .declarator => some [.identifier, .objectPattern, .arrayPattern, .definiteMark, .statedType, .assignExpr]
  | .functionDecl | .functionExpr =>
    some [.keyword .asyncWord, .keyword .functionWord, .identifier, .tsTypeParams, .params, .returnType, .block]
  | .param => some [.restParam, .identifier, .objectPattern, .arrayPattern, .optionalMark, .statedType, .assignExpr]
  | .restParam => some [.identifier, .objectPattern, .arrayPattern, .statedType]
  | .ifStmt => some [.keyword .ifWord, .expression, .statement, .elseClause]
  | .forStmt => some [.keyword .forWord, .forInit, .forTest, .forUpdate, .statement]
  | .forInOfStmt => some [.keyword .forWord, .keyword .awaitWord, .forLeft, .forKind, .expression, .statement]
  | .forLeft => some [.varKind, .callExpr, .identifier, .objectPattern, .arrayPattern]
  | .whileStmt => some [.keyword .whileWord, .expression, .statement]
  | .doWhileStmt => some [.keyword .doWord, .statement, .keyword .whileWord, .expression]
  | .tryStmt => some [.keyword .tryWord, .block, .catchClause, .finallyClause]
  | .catchClause =>
    some [.keyword .catchWord, .identifier, .objectPattern, .arrayPattern, .statedType, .block]
  | .switchStmt => some [.keyword .switchWord, .expression, .switchCase]
  | .switchCase => some [.keyword .defaultWord, .caseTest, .statement]
  | .exportDecl =>
    some [.keyword .exportWord, .exportTypeList, .exportList, .exportAll, .exportDefault, .statement]
  | .bindingElement => some [.identifier, .objectPattern, .arrayPattern, .assignExpr]
  | .arrowFn => some [.keyword .asyncWord, .tsTypeParams, .arrowParams, .returnType, .arrowBody]
  | .arrowParams => some [.identifier, .params]
  | .callArgs | .optionalCall | .newArgs => some [.tsTypeArgs, .argList]
  | .newExpr => some [.keyword .newWord, .newCallee, .newArgs]
  | .objectMethod => some [.keyword .asyncWord, .propertyKey, .tsTypeParams, .params, .returnType, .block]
  | _ => none

/-- Refuses the first part that may not stand where it does. -/
def checkPlaces (rule : Rule) (parts : List Part) : Assembled Unit :=
  match places? rule with
  | none => .ok ()
  | some rules =>
    match parts.find? (!rules.contains ·.rule) with
    | some part => part.misplaced
    | none => .ok ()

/-- Whether a match of the rule takes up the edits of its parts in between its own. -/
def foldsEdits : Rule → Bool
  | .level _ => true
  | _ => false

/-- The edits of the parts of a match, unless it takes them up itself. A list of names that an import of types alone
    goes without keeps none. -/
def editsInside (rule : Rule) (parts : List Part) : List Edit :=
  if foldsEdits rule ∨ rule = .importDecl ∧ parts.any (·.isKeyword .typeWord) then [] else parts.flatMap (·.edits)

mutual

/-- What a tree of matches stands for. -/
def build : Derivation Rule → Assembled Part
  | .node rule start stop children =>
    let site : Site := ⟨rule, start, stop⟩
    match typeKeyword? rule, erasure? rule with
    | some keyword, _ =>
      let name := (firstIdentifierIn? children).getD ""
      .ok ⟨site, .stmt (.typeOnly keyword name site.span), [site.lineRemoval]⟩
    | none, some alone => .ok ⟨site, .erased, if alone then [site.removal] else []⟩
    | none, none => do
      let parts ← buildAll children
      checkPlaces rule parts
      let (piece, own) ← assemble site parts
      .ok ⟨site, piece, editsInside rule parts ++ own⟩

/-- What trees of matches stand for, in order. -/
def buildAll : List (Derivation Rule) → Assembled (List Part)
  | [] => .ok []
  | t :: ts => do
    let part ← build t
    let parts ← buildAll ts
    .ok (part :: parts)

end

end FlowScript.Parse
