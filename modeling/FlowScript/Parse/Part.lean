import FlowScript.Ast.Basic
import FlowScript.Grammar.Basic
import FlowScript.Source.Edit
import FlowScript.Source.Trailing
import FlowScript.Text.Escape

/-!
# Parts of a tree under assembly

A syntax tree is assembled from the matches of the grammar bottom-up. A `Part` is what one match has become: the piece
of tree it stands for, and the edits that take the types in it out of the source.
-/

namespace FlowScript.Parse
open FlowScript.Grammar (Rule)
open FlowScript.Peg (Cursor)

/-- A match of a rule: where it begins and where it ends. -/
structure Site where
  rule : Rule
  start : Cursor
  stop : Cursor

namespace Site

/-- The matched text. -/
def text (site : Site) : List Char :=
  (Text.takeBytes? site.start.rest (site.stop.offset - site.start.offset)).getD []

/-- The matched text as a string. -/
def word (site : Site) : String := String.ofList site.text

/-- The matched text without the blanks and comments after its last token. -/
def content (site : Site) : List Char := Source.dropTrivia site.text

/-- The offset where the last token of the match ends. -/
def contentStop (site : Site) : Nat := site.start.offset + Text.byteLength site.content

/-- The span of the whole match. -/
def span (site : Site) : Span := ⟨site.start.place, site.stop.place⟩

/-- Removes the match. -/
def removal (site : Site) : Edit := Edit.remove site.start.offset site.contentStop

/-- Removes the match with its line. -/
def lineRemoval (site : Site) : Edit := Edit.removeLine site.start.offset site.contentStop

end Site

/-- What a match stands for. -/
inductive Piece
  /-- A token, which its text tells all about. -/
  | token
  /-- Type syntax, which has no place in the tree. -/
  | erased
  | expr (expr : Expr)
  | stmt (stmt : Stmt)
  /-- The statements of a block. -/
  | body (body : List Stmt)
  | pattern (pattern : Pattern)
  | params (params : List Pattern)
  | patternProp (prop : PatternProp)
  | key (key : PropKey)
  | objectProp (prop : ObjectProp)
  | declarator (declarator : Declarator)
  | decl (kind : VarKind) (declarations : List Declarator)
  | args (args : List Expr)
  | property (name : String)
  | catchClause (clause : CatchClause)
  | switchCase (clause : SwitchCase)
  | forInit (init : ForInit)
  | forHead (head : ForHead)
  | arrowBody (body : ArrowBody)
  /-- A name of an import or export list; `isType` when it is marked as a type. -/
  | specifier (isType : Bool)
  /-- An import or export list, or what stands for one; `bindsValue` unless all its names are types. -/
  | specifiers (bindsValue : Bool)

/-- A match with what it stands for and the edits inside it. -/
structure Part extends Site where
  piece : Piece
  edits : List Edit

/-- A match that does not stand where its rule may stand. -/
structure Misplaced where
  rule : Rule
  span : Span

/-- A result of assembly. -/
abbrev Assembled := Except Misplaced

namespace Part

/-- Refuses the part. -/
def misplaced {α : Type} (part : Part) : Assembled α :=
  .error ⟨part.rule, part.span⟩

/-- The expression that the part stands for. -/
def toExpr (part : Part) : Assembled Expr :=
  let span := part.span
  match part.rule, part.piece with
  | .identifier, .token => .ok (.ident part.word span)
  | .number, .token => .ok (.num part.word span)
  | .string, .token =>
    .ok (.str part.word (String.ofList (Text.Escape.decode (part.text.drop 1).dropLast)) span)
  | .boolean, .token => .ok (.bool (part.word == "true") span)
  | .nullLit, .token => .ok (.null span)
  | .thisExpr, .token => .ok (.this span)
  | .regex, .token => .ok (.regex part.word span)
  | _, .expr e => .ok e
  | _, _ => part.misplaced

/-- The pattern that the part stands for. -/
def toPattern (part : Part) : Assembled Pattern :=
  match part.rule, part.piece with
  | .identifier, .token => .ok (.ident part.word part.span)
  | _, .pattern p => .ok p
  | _, _ => part.misplaced

/-- The statement that the part stands for. -/
def toStmt (part : Part) : Assembled Stmt :=
  match part.piece with
  | .stmt s => .ok s
  | .body body => .ok (.block body part.span)
  | _ => part.misplaced

/-- The statements of a block. -/
def toBody (part : Part) : Assembled (List Stmt) :=
  match part.piece with
  | .body body => .ok body
  | _ => part.misplaced

/-- The parameters of a parameter list. -/
def toParams (part : Part) : Assembled (List Pattern) :=
  match part.piece with
  | .params params => .ok params
  | _ => part.misplaced

/-- The key of an object member. -/
def toKey (part : Part) : Assembled PropKey :=
  match part.piece with
  | .key key => .ok key
  | _ => part.misplaced

/-- The arguments of a call. -/
def toArgs (part : Part) : Assembled (List Expr) :=
  match part.piece with
  | .args args => .ok args
  | _ => part.misplaced

/-- The property named after a dot. -/
def toProperty (part : Part) : Assembled String :=
  match part.piece with
  | .property name => .ok name
  | _ => part.misplaced

/-- The declaration that the part stands for. -/
def toDecl (part : Part) : Assembled (VarKind × List Declarator) :=
  match part.piece with
  | .decl kind declarations => .ok (kind, declarations)
  | _ => part.misplaced

/-- Whether the part is the token of a keyword. -/
def isKeyword (part : Part) (word : Grammar.Keyword) : Bool :=
  part.rule = .keyword word

/-- Whether the part binds something by a name or a pattern. -/
def isTarget (part : Part) : Bool :=
  match part.rule with
  | .identifier | .objectPattern | .arrayPattern => true
  | _ => false

end Part
end FlowScript.Parse
