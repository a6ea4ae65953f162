import FlowScript.Actions.Kind
import FlowScript.Printer.Render

/-!
# Groups of statements

The statements of a script fall into contiguous groups, one for each action. A `return` and a statement that branches
or repeats stand alone. A declaration takes in the expressions right after it that mention its name, if their code
hits a keyword. Any other statement stands alone.
-/

namespace FlowScript

/-- The name that a declaration binds first, if its first target is a plain name. -/
def Stmt.declaredName? : Stmt → Option String
  | .varDecl _ (.mk (.ident name _) _ _ :: _) _ => some name
  | _ => none

/-- Whether the statement is an expression. -/
def Stmt.isExpr : Stmt → Bool
  | .expr .. => true
  | _ => false

/-- The code of statements on one line. -/
def codeOf (body : List Stmt) : String := " ".intercalate (body.map Stmt.renderCompact)

/-- What a group is. -/
inductive GroupForm
  | ret
  | controlFlow
  /-- A declaration of a name with the expressions that mention it. -/
  | joint (kind : ActionKind) (name : String)
  /-- A statement that hits a keyword. -/
  | keyword (kind : ActionKind)
  /-- A statement that hits none, with the name that it declares. -/
  | computation (name : Option String)
deriving Repr, DecidableEq

/-- A group of statements, never empty. -/
structure ActionGroup where
  form : GroupForm
  first : Stmt
  others : List Stmt

namespace ActionGroup

/-- The statements of a group. -/
def statements (g : ActionGroup) : List Stmt := g.first :: g.others

/-- The expressions at the start of a list that mention a name. -/
def followers (name : String) (body : List Stmt) : List Stmt :=
  body.takeWhile fun s => s.isExpr && Text.contains s.renderCompact name

/-- The group of a statement that stands alone. -/
def single (s : Stmt) : ActionGroup :=
  match ActionKind.ofCode? s.renderCompact with
  | some kind => ⟨.keyword kind, s, []⟩
  | none => ⟨.computation s.declaredName?, s, []⟩

/-- The group of a declaration with its followers, if there are any and their code hits a keyword. -/
def joint? (s : Stmt) (rest : List Stmt) : Option ActionGroup :=
  match s.declaredName? with
  | none => none
  | some name =>
    match followers name rest with
    | [] => none
    | others => (ActionKind.ofCode? (codeOf (s :: others))).map fun kind => ⟨.joint kind name, s, others⟩

/-- The group that starts at a statement, which the rest follows. -/
def startingAt (s : Stmt) (rest : List Stmt) : ActionGroup :=
  match s with
  | .ret .. => ⟨.ret, s, []⟩
  | _ =>
    if s.isControlFlow then ⟨.controlFlow, s, []⟩
    else (joint? s rest).getD (single s)

/-- The groups of statements, without the first few, which belong to a group already. -/
def ofStmts : (taken : Nat) → List Stmt → List ActionGroup
  | _, [] => []
  | taken + 1, _ :: rest => ofStmts taken rest
  | 0, s :: rest =>
    let group := startingAt s rest
    group :: ofStmts group.others.length rest

end ActionGroup
end FlowScript
