import FlowScript.Parse.Assembly
import Mathlib.Data.List.Forall2

/-!
# What a part may be read as

A rule stands for pieces of one kind only (`roleOf?`), and for some rules more is known of the piece or of the text of
the token. Of a part for which all this holds (`Part.Sound`), each reader answers that the rule admits.
-/

namespace FlowScript.Parse
open FlowScript.Grammar (Rule)

/-- The kinds of pieces. -/
inductive Role
  | token | erased | expr | stmt | body | pattern | params | patternProp | key | objectProp | declarator | decl | args
  | property | catchClause | switchCase | forInit | forHead | arrowBody | specifier | specifiers
deriving DecidableEq

/-- The kind of a piece. -/
def Piece.role : Piece → Role
  | .token => .token
  | .erased => .erased
  | .expr _ => .expr
  | .stmt _ => .stmt
  | .body _ => .body
  | .pattern _ => .pattern
  | .params _ => .params
  | .patternProp _ => .patternProp
  | .key _ => .key
  | .objectProp _ => .objectProp
  | .declarator _ => .declarator
  | .decl _ _ => .decl
  | .args _ => .args
  | .property _ => .property
  | .catchClause _ => .catchClause
  | .switchCase _ => .switchCase
  | .forInit _ => .forInit
  | .forHead _ => .forHead
  | .arrowBody _ => .arrowBody
  | .specifier _ => .specifier
  | .specifiers _ => .specifiers

/-- The kind of piece that matches of a rule stand for; none for the rules inside type syntax, which is not looked
    into. -/
def roleOf? : Rule → Option Role
  | .endOfInput | .keyword _ | .operator _ | .identifier | .identifierName | .privateName | .number | .string
  | .templateChunk | .regex | .boolean | .nullLit | .thisExpr | .varKind | .forKind | .assignOp | .unaryOp | .updateOp
  | .arrayHole | .patternHole => some .token
  | .definiteMark | .optionalMark | .statedType | .returnType | .tsTypeParams | .tsTypeArgs | .nonNull
  | .tsAsSuffix => some .erased
  | .block | .program | .finallyClause => some .body
  | .statement | .emptyStmt | .varStmt | .functionDecl | .functionSig | .ifStmt | .elseClause | .forStmt | .forInOfStmt
  | .whileStmt | .doWhileStmt | .tryStmt | .switchStmt | .returnStmt | .throwStmt | .breakStmt | .continueStmt
  | .exprStmt | .interfaceDecl | .typeAliasDecl | .enumDecl | .ambientDecl | .importDecl | .exportDecl
  | .exportDefault => some .stmt
  | .varDecl => some .decl
  | .declarator => some .declarator
  | .forInit => some .forInit
  | .forLeft => some .forHead
  | .catchClause => some .catchClause
  | .switchCase => some .switchCase
  | .params | .arrowParams => some .params
  | .param | .restParam | .restPattern | .objectPattern | .bindingElement | .arrayPattern => some .pattern
  | .patternPair | .patternShorthand => some .patternProp
  | .importClause | .importDefault | .importNamespace | .importNamed | .exportTypeList | .exportList
  | .exportAll => some .specifiers
  | .importSpec | .exportSpec => some .specifier
  | .arrowBody => some .arrowBody
  | .callArgs | .optionalCall | .newArgs | .argList => some .args
  | .optionalMember | .memberAccess => some .property
  | .objectPair | .objectMethod | .objectShorthand => some .objectProp
  | .propertyKey => some .key
  | .forTest | .forUpdate | .caseTest | .arrowFn | .level _ | .unaryExpr | .callExpr | .newCallee | .optionalIndex
  | .indexAccess | .templateSubst | .taggedTemplate | .computedKey | .newExpr | .expression | .assignExpr
  | .conditionalExpr | .exponentExpr | .awaitExpr | .postfixExpr | .parenExpr | .functionExpr | .template | .arrayLit
  | .objectLit | .spreadElem => some .expr
  | _ => none

/-- The pieces that matches of a rule stand for. -/
structure Makes (rule : Rule) (piece : Piece) : Prop where
  role : roleOf? rule = some piece.role
  rest : rule = .restPattern → ∃ arg span, piece = .pattern (.rest arg span)
  spread : rule = .spreadElem → ∃ arg span, piece = .expr (.spread arg span)
  template : rule = .template ∨ rule = .taggedTemplate → ∃ quasis exprs span, piece = .expr (.template quasis exprs span)
  decl : rule = .varDecl → ∀ kind declarations, piece = .decl kind declarations → declarations ≠ []
  init : rule = .forInit → ∀ kind declarations, piece = .forInit (.decl kind declarations) → declarations ≠ []

/-- Whether the role of a rule's pieces is all that is known of them. -/
def knownByRole : Rule → Bool
  | .restPattern | .spreadElem | .template | .taggedTemplate | .varDecl | .forInit => false
  | _ => true

theorem Makes.of_role {rule : Rule} {piece : Piece} (role : roleOf? rule = some piece.role)
    (known : knownByRole rule = true) : Makes rule piece := by
  refine ⟨role, fun is => ?_, fun is => ?_, fun is => ?_, fun is => ?_, fun is => ?_⟩
  case refine_3 => rcases is with is | is <;> rw [is] at known <;> cases known
  all_goals rw [is] at known; cases known

theorem Makes.of_rest (arg : Pattern) (span : Span) : Makes .restPattern (.pattern (.rest arg span)) :=
  ⟨rfl, fun _ => ⟨arg, span, rfl⟩, by simp, by simp, by simp, by simp⟩

theorem Makes.of_spread (arg : Expr) (span : Span) : Makes .spreadElem (.expr (.spread arg span)) :=
  ⟨rfl, by simp, fun _ => ⟨arg, span, rfl⟩, by simp, by simp, by simp⟩

theorem Makes.of_template {rule : Rule} (is : rule = .template ∨ rule = .taggedTemplate) (quasis : List String)
    (exprs : List Expr) (span : Span) : Makes rule (.expr (.template quasis exprs span)) := by
  rcases is with rfl | rfl
  all_goals exact ⟨rfl, by simp, by simp, fun _ => ⟨quasis, exprs, span, rfl⟩, by simp, by simp⟩

theorem Makes.of_decl {kind : VarKind} {declarations : List Declarator} (some_ : declarations ≠ []) :
    Makes .varDecl (.decl kind declarations) :=
  ⟨rfl, by simp, by simp, by simp, by simpa using some_, by simp⟩

theorem Makes.of_init {init : ForInit}
    (some_ : ∀ kind declarations, init = .decl kind declarations → declarations ≠ []) :
    Makes .forInit (.forInit init) :=
  ⟨rfl, by simp, by simp, by simp, by simp, by simpa using some_⟩

/-- A token that names one of a few things names one of them. -/
structure Site.Spelled (site : Site) : Prop where
  varKind : site.rule = .varKind → ∃ kind, VarKind.ofWord? site.word = some kind
  forKind : site.rule = .forKind → ∃ kind, ForLoopKind.ofWord? site.word = some kind
  unaryOp : site.rule = .unaryOp → ∃ op, UnaryOp.ofSymbol? site.word = some op

/-- A part that stands for what its rule may stand for. -/
structure Part.Sound (part : Part) : Prop where
  makes : Makes part.rule part.piece
  spelled : part.toSite.Spelled

/-- A result of assembly that is there, with a property of it. -/
def Gives {α : Type} (x : Assembled α) (P : α → Prop) : Prop :=
  ∃ a, x = .ok a ∧ P a

namespace Gives

variable {α β : Type} {P : α → Prop} {Q : β → Prop} {x : Assembled α}

theorem ok {a : α} (h : P a) : Gives (.ok a) P := ⟨a, rfl, h⟩

theorem bind {f : α → Assembled β} (h : Gives x P) (next : ∀ a, P a → Gives (f a) Q) : Gives (x >>= f) Q := by
  obtain ⟨a, rfl, holds⟩ := h
  exact next a holds

theorem map {f : α → β} (h : Gives x P) (next : ∀ a, P a → Q (f a)) : Gives (x.map f) Q := by
  obtain ⟨a, rfl, holds⟩ := h
  exact ⟨f a, rfl, next a holds⟩

end Gives

/-! ## Pieces of one kind -/

namespace Piece

variable {piece : Piece}

theorem eq_token (h : piece.role = .token) : piece = .token := by
  cases piece <;> first | rfl | cases h

theorem eq_expr (h : piece.role = .expr) : ∃ expr, piece = .expr expr := by
  cases piece <;> first | exact ⟨_, rfl⟩ | cases h

theorem eq_stmt (h : piece.role = .stmt) : ∃ stmt, piece = .stmt stmt := by
  cases piece <;> first | exact ⟨_, rfl⟩ | cases h

theorem eq_body (h : piece.role = .body) : ∃ body, piece = .body body := by
  cases piece <;> first | exact ⟨_, rfl⟩ | cases h

theorem eq_pattern (h : piece.role = .pattern) : ∃ pattern, piece = .pattern pattern := by
  cases piece <;> first | exact ⟨_, rfl⟩ | cases h

theorem eq_params (h : piece.role = .params) : ∃ params, piece = .params params := by
  cases piece <;> first | exact ⟨_, rfl⟩ | cases h

theorem eq_patternProp (h : piece.role = .patternProp) : ∃ prop, piece = .patternProp prop := by
  cases piece <;> first | exact ⟨_, rfl⟩ | cases h

theorem eq_key (h : piece.role = .key) : ∃ key, piece = .key key := by
  cases piece <;> first | exact ⟨_, rfl⟩ | cases h

theorem eq_objectProp (h : piece.role = .objectProp) : ∃ prop, piece = .objectProp prop := by
  cases piece <;> first | exact ⟨_, rfl⟩ | cases h

theorem eq_declarator (h : piece.role = .declarator) : ∃ declarator, piece = .declarator declarator := by
  cases piece <;> first | exact ⟨_, rfl⟩ | cases h

theorem eq_args (h : piece.role = .args) : ∃ args, piece = .args args := by
  cases piece <;> first | exact ⟨_, rfl⟩ | cases h

theorem eq_property (h : piece.role = .property) : ∃ name, piece = .property name := by
  cases piece <;> first | exact ⟨_, rfl⟩ | cases h

theorem eq_catchClause (h : piece.role = .catchClause) : ∃ clause, piece = .catchClause clause := by
  cases piece <;> first | exact ⟨_, rfl⟩ | cases h

theorem eq_switchCase (h : piece.role = .switchCase) : ∃ clause, piece = .switchCase clause := by
  cases piece <;> first | exact ⟨_, rfl⟩ | cases h

theorem eq_forInit (h : piece.role = .forInit) : ∃ init, piece = .forInit init := by
  cases piece <;> first | exact ⟨_, rfl⟩ | cases h

theorem eq_forHead (h : piece.role = .forHead) : ∃ head, piece = .forHead head := by
  cases piece <;> first | exact ⟨_, rfl⟩ | cases h

theorem eq_arrowBody (h : piece.role = .arrowBody) : ∃ body, piece = .arrowBody body := by
  cases piece <;> first | exact ⟨_, rfl⟩ | cases h

theorem eq_specifiers (h : piece.role = .specifiers) : ∃ binds, piece = .specifiers binds := by
  cases piece <;> first | exact ⟨_, rfl⟩ | cases h

theorem eq_decl (h : piece.role = .decl) : ∃ kind declarations, piece = .decl kind declarations := by
  cases piece <;> first | exact ⟨_, _, rfl⟩ | cases h

end Piece

/-! ## Readers -/

/-- A result of assembly that is there. -/
abbrev Succeeds {α : Type} (x : Assembled α) : Prop := Gives x fun _ => True

namespace Succeeds

variable {α β : Type}

theorem mapM {read : α → Assembled β} {parts : List α} (each : ∀ p ∈ parts, Succeeds (read p)) :
    Succeeds (parts.mapM read) := by
  induction parts with
  | nil => exact .ok trivial
  | cons p ps ih =>
    rw [List.mapM_cons]
    refine .bind (each p (List.mem_cons_self ..)) fun a _ => ?_
    refine .bind (ih fun q mem => each q (List.mem_cons_of_mem _ mem)) fun as _ => ?_
    exact .ok trivial

theorem mapM_ne_nil {read : α → Assembled β} {parts : List α} (each : ∀ p ∈ parts, Succeeds (read p))
    (some_ : parts ≠ []) : Gives (parts.mapM read) (· ≠ []) := by
  obtain ⟨p, ps, rfl⟩ := List.exists_cons_of_ne_nil some_
  rw [List.mapM_cons]
  refine .bind (each p (List.mem_cons_self ..)) fun a _ => ?_
  refine .bind (mapM fun q mem => each q (List.mem_cons_of_mem _ mem)) fun as _ => ?_
  exact .ok (List.cons_ne_nil a as)

theorem foldlM {f : β → α → Assembled β} {parts : List α} {b : β} (each : ∀ p ∈ parts, ∀ b, Succeeds (f b p)) :
    Succeeds (parts.foldlM f b) := by
  induction parts generalizing b with
  | nil => exact .ok trivial
  | cons p ps ih =>
    rw [List.foldlM_cons]
    refine .bind (each p (List.mem_cons_self ..) b) fun b' _ => ?_
    exact ih fun q mem => each q (List.mem_cons_of_mem _ mem)

end Succeeds

/-- What is related to a list item by item comes from one of its items. -/
theorem exists_of_forall₂ {α γ : Type} {R : γ → α → Prop} {parts : List γ} {as : List α} (h : List.Forall₂ R parts as)
    {a : α} (mem : a ∈ as) : ∃ p ∈ parts, R p a := by
  induction h with
  | nil => cases mem
  | @cons p b ps bs first _ ih =>
    rcases List.mem_cons.1 mem with rfl | mem
    · exact ⟨p, List.mem_cons_self .., first⟩
    · obtain ⟨q, inside, related⟩ := ih mem
      exact ⟨q, List.mem_cons_of_mem _ inside, related⟩

/-- The rules of tokens that are expressions by themselves. -/
def isLiteral : Rule → Bool
  | .identifier | .number | .string | .boolean | .nullLit | .thisExpr | .regex => true
  | _ => false

theorem roleOf?_of_isLiteral {rule : Rule} (literal : isLiteral rule = true) : roleOf? rule = some .token := by
  unfold isLiteral at literal
  split at literal <;> first | rfl | cases literal

/-- The rules whose parts are read as expressions. -/
def readsExpr (rule : Rule) : Bool :=
  isLiteral rule || roleOf? rule = some .expr

/-- The rules whose parts are read as patterns. -/
def readsPattern (rule : Rule) : Bool :=
  rule = .identifier || roleOf? rule = some .pattern

/-- The rules whose parts are read as statements. -/
def readsStmt (rule : Rule) : Bool :=
  roleOf? rule = some .stmt || roleOf? rule = some .body

/-- The rules of what binds. -/
def isTarget : Rule → Bool
  | .identifier | .objectPattern | .arrayPattern => true
  | _ => false

namespace Part.Sound

variable {part : Part}

theorem role (h : part.Sound) {rule : Rule} (is : part.rule = rule) {role : Role} (stands : roleOf? rule = some role) :
    part.piece.role = role := by
  subst is
  exact Option.some.inj (h.makes.role.symm.trans stands)

section
variable {rule : Rule} (h : part.Sound) (is : part.rule = rule)
include h is

theorem toExpr (reads : readsExpr rule = true) : Succeeds part.toExpr := by
  rcases Bool.or_eq_true_iff.1 reads with literal | role
  · have token := Piece.eq_token (h.role is (roleOf?_of_isLiteral literal))
    unfold isLiteral at literal
    split at literal
    case h_8 => cases literal
    all_goals
      simp only [Part.toExpr, is, token]
      exact .ok trivial
  · obtain ⟨expr, piece⟩ := Piece.eq_expr (h.role is (of_decide_eq_true role))
    exact ⟨expr, by simp only [Part.toExpr, piece], trivial⟩

theorem toPattern (reads : readsPattern rule = true) : Succeeds part.toPattern := by
  rcases Bool.or_eq_true_iff.1 reads with name | role
  · have isName := is.trans (of_decide_eq_true name)
    have token := Piece.eq_token (h.role isName rfl)
    simp only [Part.toPattern, isName, token]
    exact .ok trivial
  · obtain ⟨pattern, piece⟩ := Piece.eq_pattern (h.role is (of_decide_eq_true role))
    exact ⟨pattern, by simp only [Part.toPattern, piece], trivial⟩

theorem toStmt (reads : readsStmt rule = true) : Succeeds part.toStmt := by
  rcases Bool.or_eq_true_iff.1 reads with role | role
  · obtain ⟨stmt, piece⟩ := Piece.eq_stmt (h.role is (of_decide_eq_true role))
    exact ⟨stmt, by simp only [Part.toStmt, piece], trivial⟩
  · obtain ⟨body, piece⟩ := Piece.eq_body (h.role is (of_decide_eq_true role))
    exact ⟨.block body part.span, by simp only [Part.toStmt, piece], trivial⟩

theorem toBody (stands : roleOf? rule = some .body) : Succeeds part.toBody := by
  obtain ⟨body, piece⟩ := Piece.eq_body (h.role is stands)
  exact ⟨body, by simp only [Part.toBody, piece], trivial⟩

theorem toParams (stands : roleOf? rule = some .params) : Succeeds part.toParams := by
  obtain ⟨params, piece⟩ := Piece.eq_params (h.role is stands)
  exact ⟨params, by simp only [Part.toParams, piece], trivial⟩

theorem toKey (stands : roleOf? rule = some .key) : Succeeds part.toKey := by
  obtain ⟨key, piece⟩ := Piece.eq_key (h.role is stands)
  exact ⟨key, by simp only [Part.toKey, piece], trivial⟩

theorem toArgs (stands : roleOf? rule = some .args) : Succeeds part.toArgs := by
  obtain ⟨args, piece⟩ := Piece.eq_args (h.role is stands)
  exact ⟨args, by simp only [Part.toArgs, piece], trivial⟩

theorem toProperty (stands : roleOf? rule = some .property) : Succeeds part.toProperty := by
  obtain ⟨name, piece⟩ := Piece.eq_property (h.role is stands)
  exact ⟨name, by simp only [Part.toProperty, piece], trivial⟩

theorem toDecl (stands : roleOf? rule = some .decl) : Succeeds part.toDecl := by
  obtain ⟨kind, declarations, piece⟩ := Piece.eq_decl (h.role is stands)
  exact ⟨(kind, declarations), by simp only [Part.toDecl, piece], trivial⟩

theorem declarator (stands : roleOf? rule = some .declarator) : Succeeds (Parse.declarator part) := by
  obtain ⟨d, piece⟩ := Piece.eq_declarator (h.role is stands)
  exact ⟨d, by simp only [Parse.declarator, piece], trivial⟩

theorem patternProp (stands : roleOf? rule = some .patternProp ∨ rule = .restPattern) :
    Succeeds (Parse.patternProp part) := by
  rcases stands with stands | rest
  · obtain ⟨prop, piece⟩ := Piece.eq_patternProp (h.role is stands)
    exact ⟨prop, by simp only [Parse.patternProp, piece], trivial⟩
  · obtain ⟨arg, span, piece⟩ := h.makes.rest (is.trans rest)
    exact ⟨.rest arg, by simp only [Parse.patternProp, piece], trivial⟩

theorem objectProp (stands : roleOf? rule = some .objectProp ∨ rule = .spreadElem) :
    Succeeds (Parse.objectProp part) := by
  rcases stands with stands | spread
  · obtain ⟨prop, piece⟩ := Piece.eq_objectProp (h.role is stands)
    exact ⟨prop, by simp only [Parse.objectProp, piece], trivial⟩
  · obtain ⟨arg, span, piece⟩ := h.makes.spread (is.trans spread)
    exact ⟨.spread arg, by simp only [Parse.objectProp, piece], trivial⟩

end

theorem toPattern_of_isTarget (h : part.Sound) (target : part.isTarget = true) : Succeeds part.toPattern := by
  unfold Part.isTarget at target
  split at target <;> first | (rename_i is; exact h.toPattern is rfl) | cases target

end Part.Sound

end FlowScript.Parse
