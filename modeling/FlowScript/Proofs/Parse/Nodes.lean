import FlowScript.Proofs.Parse.ExpressionNodes
import FlowScript.Proofs.Parse.Sites
import FlowScript.Proofs.Parse.StatementNodes
import FlowScript.Proofs.Parse.Total

/-!
# The nodes of a source

Every rule makes grounded parts of grounded ones, so every tree of matches in the source becomes a grounded part. The
statements of a source that is read are sound, with all that is in them, and follow each other in order.
-/

namespace FlowScript

namespace Parse
open FlowScript.Grammar (Rule ruleBody ruleKind mayBeEmpty)
open FlowScript.Peg (Cursor Derivation Fits Matches)

variable {source : List Char} {site : Site} {parts : List Part}

/-! ## Childless nodes -/

/-- A node without children is sound when it records no text but that of its match. -/
theorem leaf_between {n : Node} {slot : Slot} (stands : site.Stands source) (solid : mayBeEmpty site.rule = false)
    (formed : n.Formed source) (admits : slot.Admits n) (span : n.span = site.span) (childless : n.children = [])
    (bodiless : n.bodies = []) (records : ∀ text, n.text? = some text → text = site.word)
    (named : ∀ name, n.name? = some name → site.rule = .identifier ∧ name = site.word) :
    Child.Between source site.start.offset site.stop.offset 0 ⟨slot, n⟩ := by
  have none : ∀ c ∈ n.children, False := by
    rw [childless]
    nofun
  have placed : n.Placed source := by
    refine ⟨?_, ?_, ?_, fun c mem => (none c mem).elim, bodiless ▸ List.forall_mem_nil _, fun text recorded => ?_⟩
    all_goals rw [span]
    · exact stands.start
    · exact stands.stop
    · exact stands.solid solid
    · rw [records text recorded, Site.word, String.toList_ofList]
      exact stands.reads
  have spelled : n.Named := by
    intro name is
    obtain ⟨rule, rfl⟩ := named name is
    rw [Site.word, String.toList_ofList]
    exact stands.named rule
  refine ⟨admits, .node ⟨placed, fun c mem => (none c mem).elim, fun c mem => (none c mem).elim, spelled, formed⟩
    fun c mem => (none c mem).elim, ?_, ?_, ?_⟩
  all_goals simp only [Node.length, span]
  · exact Nat.le_refl _
  · exact Nat.le_refl _
  · exact Nat.le_refl _

/-- What a token may be read as. -/
theorem token_shows (stands : site.Stands source) : Yields (Made.plain .token) (Shows source site) := by
  refine shows_piece ?_ trivial
  let part : Part := ⟨site, .token, []⟩
  have literal : ∀ e, part.toExpr = .ok e →
      Child.Between source site.start.offset site.stop.offset 0 ⟨slotOf site.rule, .expr e⟩ := by
    intro e read
    unfold Part.toExpr at read
    split at read <;> cases read
    case h_8 piece => cases piece
    all_goals
      rename_i is _
      have solid : mayBeEmpty site.rule = false := by rw [show site.rule = _ from is]; rfl
      refine leaf_between stands solid ?_ ?_ rfl rfl rfl ?_ ?_
      · first | exact stands.complete is | trivial
      · rw [show site.rule = _ from is]
        exact Precedence.le_refl _
      · rintro _ ⟨⟩ <;> rfl
      · rintro _ ⟨⟩ <;> exact ⟨is, rfl⟩
  have name : ∀ q, part.toPattern = .ok q →
      Child.Between source site.start.offset site.stop.offset 0 (.pattern q) := by
    intro q read
    unfold Part.toPattern at read
    split at read <;> cases read
    · rename_i is _
      have solid : mayBeEmpty site.rule = false := by rw [show site.rule = _ from is]; rfl
      refine leaf_between stands solid (stands.complete is) trivial rfl rfl rfl ?_ ?_
      · rintro _ ⟨⟩
        rfl
      · rintro _ ⟨⟩
        exact ⟨is, rfl⟩
    · rename_i piece
      cases piece
  refine .append (fun c mem => ?_) fun c mem => ?_
  · obtain ⟨e, read, rfl⟩ := List.mem_map.1 mem
    refine literal e ?_
    cases result : part.toExpr <;> simp_all [Except.toOption, part]
  · obtain ⟨q, read, rfl⟩ := List.mem_map.1 mem
    refine name q ?_
    cases result : part.toPattern <;> simp_all [Except.toOption, part]

/-! ## All rules -/

/-- What assembly makes of a match is grounded when its parts are. -/
theorem assemble_shows (stands : site.Stands source)
    (h : ruleKind site.rule ≠ .token → Scene source site.rule site parts) :
    Yields (assemble site parts) (Shows source site) := by
  have scene : ∀ {rule}, site.rule = rule → ruleKind rule ≠ .token → Scene source rule site parts := by
    rintro _ rfl
    exact h
  unfold assemble
  cases is : site.rule with
  | endOfInput | keyword | operator | identifier | identifierName | privateName | number | string | templateChunk | regex
  | boolean | nullLit | thisExpr | varKind | forKind | assignOp | unaryOp | updateOp | arrayHole | patternHole =>
    exact token_shows stands
  | block => exact block_shows (scene is (by decide))
  | program => exact program_shows (scene is (by decide))
  | statement => exact .bind first_yields fun p mem => passes_stmt (scene is (by decide)) mem fun _ => trivial
  | emptyStmt => exact bareStmt_shows (scene is (by decide)) (.inl rfl)
  | breakStmt => exact bareStmt_shows (scene is (by decide)) (.inr (.inl rfl))
  | continueStmt => exact bareStmt_shows (scene is (by decide)) (.inr (.inr rfl))
  | varStmt => exact varStmt_shows (scene is (by decide))
  | functionDecl => exact functionDecl_shows (scene is (by decide))
  | ifStmt => exact ifStmt_shows (scene is (by decide))
  | forStmt => exact forStmt_shows (scene is (by decide))
  | whileStmt => exact whileStmt_shows (scene is (by decide))
  | doWhileStmt => exact doWhileStmt_shows (scene is (by decide))
  | tryStmt => exact tryStmt_shows (scene is (by decide))
  | switchStmt => exact switchStmt_shows (scene is (by decide))
  | returnStmt => exact returnStmt_shows (scene is (by decide))
  | throwStmt => exact throwStmt_shows (scene is (by decide))
  | exprStmt => exact exprStmt_shows (scene is (by decide))
  | forInOfStmt => exact forInOf_shows (scene is (by decide))
  | varDecl => exact varDecl_shows (scene is (by decide))
  | declarator => exact declarator_shows (scene is (by decide))
  | elseClause => exact .bind the_yields fun p ⟨mem, _⟩ => passes_stmt (scene is (by decide)) mem fun _ => trivial
  | forInit => exact forInit_shows (scene is (by decide))
  | forLeft => exact forLeft_shows (scene is (by decide))
  | forTest | forUpdate | caseTest => exact (scene is (by decide)).passes_the rfl
  | catchClause => exact catchClause_shows (scene is (by decide))
  | finallyClause => exact finallyClause_shows (scene is (by decide))
  | switchCase => exact switchCase_shows (scene is (by decide))
  | params => exact params_shows (scene is (by decide))
  | param => exact param_shows (scene is (by decide))
  | restParam => exact restBinding_shows (scene is (by decide)) (.inl rfl)
  | restPattern => exact restBinding_shows (scene is (by decide)) (.inr rfl)
  | importDecl => exact importDecl_shows (scene is (by decide))
  | importClause | importDefault | importNamespace | importSpec | exportSpec | exportTypeList | exportAll =>
    exact shows_piece .nil trivial
  | importNamed | exportList => exact specifiers_shows
  | exportDecl => exact exportDecl_shows (scene is (by decide))
  | exportDefault => exact exportDefault_shows (scene is (by decide))
  | objectPattern => exact objectPattern_shows (scene is (by decide))
  | patternPair => exact patternPair_shows (scene is (by decide))
  | patternShorthand => exact patternShorthand_shows (scene is (by decide))
  | bindingElement => exact bindingElement_shows (scene is (by decide))
  | arrayPattern => exact arrayPattern_shows (scene is (by decide))
  | arrowFn => exact arrow_shows (scene is (by decide))
  | arrowParams => exact arrowParams_shows (scene is (by decide))
  | arrowBody => exact arrowBody_shows (scene is (by decide))
  | level tier => exact operands_shows (scene is nofun)
  | unaryExpr => exact unary_shows (scene is (by decide))
  | callExpr => exact callExpr_shows (scene is (by decide))
  | newCallee => exact newCallee_shows (scene is (by decide))
  | callArgs | optionalCall | newArgs => exact args_shows (scene is (by decide))
  | argList => exact argList_shows (scene is (by decide))
  | optionalIndex | indexAccess | templateSubst => exact (scene is (by decide)).passes_the rfl
  | optionalMember | memberAccess => exact .bind first_yields fun p _ => shows_piece .nil trivial
  | taggedTemplate | computedKey =>
    have here := scene is (by decide)
    refine .bind first_yields fun p mem => here.passes_expr mem ?_
    rw [List.mem_singleton.1 (here.inside.called mem)]
    rfl
  | newExpr => exact newExpr_shows (scene is (by decide))
  | objectPair => exact objectPair_shows (scene is (by decide))
  | objectMethod => exact objectMethod_shows (scene is (by decide))
  | objectShorthand => exact objectShorthand_shows (scene is (by decide))
  | propertyKey => exact propertyKey_shows (scene is (by decide))
  | expression => exact expression_shows (scene is (by decide))
  | assignExpr => exact assignExpr_shows (scene is (by decide))
  | conditionalExpr => exact conditionalExpr_shows (scene is (by decide))
  | exponentExpr => exact exponentExpr_shows (scene is (by decide))
  | awaitExpr => exact awaitExpr_shows (scene is (by decide))
  | postfixExpr => exact postfixExpr_shows (scene is (by decide))
  | parenExpr => exact parenExpr_shows (scene is (by decide))
  | functionExpr => exact functionExpr_shows (scene is (by decide))
  | template => exact template_shows (scene is (by decide))
  | arrayLit => exact arrayLit_shows (scene is (by decide))
  | objectLit => exact objectLit_shows (scene is (by decide))
  | spreadElem => exact spreadElem_shows (scene is (by decide))
  | _ => exact .error

/-! ## Whole trees -/

/-- Parts are what the trees become one by one. -/
theorem buildAll_yields (ts : List (Derivation Rule)) :
    Yields (buildAll ts) (List.Forall₂ (fun t part => build t = .ok part) ts) := by
  induction ts with
  | nil => exact .ok .nil
  | cons t ts ih =>
    unfold buildAll
    refine .bind (P := fun part => build t = .ok part) (fun _ => id) fun part built => ?_
    exact .bind ih fun parts all => .ok (.cons built all)

/-- A declaration of types is a statement without children. -/
theorem typeOnly_grounded {keyword name : String} (is : typeKeyword? site.rule = some keyword)
    (stands : site.Stands source) (named : name = "" ∧ keyword = "declare" ∨ NameWithin source site.span name)
    (edits : List Edit) : Part.Grounded source ⟨site, .stmt (.typeOnly keyword name site.span), edits⟩ := by
  have plain : mayBeEmpty site.rule = false ∧ slotOf site.rule = .other := by
    unfold typeKeyword? at is
    split at is <;> first | (rename_i rule; rw [rule]; exact ⟨rfl, rfl⟩) | cases is
  refine ⟨.single ?_, trivial⟩
  refine leaf_between stands plain.1 named ?_ rfl rfl rfl nofun nofun
  show (slotOf site.rule).Admits _
  rw [plain.2]
  trivial

/-- The expression of a substitution stands between its braces. -/
theorem assemble_inset (edits : List Edit) (h : ruleKind site.rule ≠ .token → Scene source site.rule site parts) :
    Yields (assemble site parts) fun made => Part.Inset source ⟨site, made.1, edits⟩ := by
  by_cases is : site.rule = .templateSubst
  · have scene : Scene source .templateSubst site parts := is ▸ h (by rw [is]; decide)
    simp only [assemble, is]
    refine .bind the_yields fun p ⟨mem, _⟩ => ?_
    refine .bind (scene.grounded p mem).toExpr fun e between => .ok fun _ => ?_
    obtain ⟨t, inner, substitution, only⟩ := scene.braced rfl
    obtain ⟨starts, stops⟩ := only p mem
    refine ⟨t, inner, substitution, ?_⟩
    simp only [Part.toExpr, is]
    exact .ok ⟨starts ▸ between.start, stops ▸ between.stop⟩
  · exact fun made _ substitution => absurd substitution is

/-- The parts that the trees in a match become stand in it as its rule asks for. -/
theorem scene_of_becomes {rule : Rule} {start stop : Cursor} {children : List (Derivation Rule)} {before : List Char}
    (whole : Fits grammar (.node rule start stop children)) (here : (Cursor.start source).Reaches before start)
    (becomes : List.Forall₂ Becomes children parts) (sound : ∀ p ∈ parts, p.Sound)
    (grounded : ∀ p ∈ parts, p.Grounded source ∧ p.Inset source) (notToken : ruleKind rule ≠ .token) :
    Scene source rule ⟨rule, start, stop⟩ parts := by
  have words := Grammar.rules_mem_words notToken whole
  have stands := stands_of_fits whole here
  cases whole with
  | node visible body settled surrounded inside =>
    have chain := body.chain grammar_wellFormed
    have sites := sites_of_becomes becomes
    -- what is said of the trees is said of the parts
    have ofTree : ∀ p ∈ parts, ∃ t ∈ children, p.toSite = Site.ofTree t := fun p mem => by
      obtain ⟨t, among, same⟩ := List.mem_map.1 (sites ▸ List.mem_map_of_mem mem)
      exact ⟨t, among, same.symm⟩
    refine ⟨rfl, stands, ⟨sound, rules_of_becomes becomes ▸ words⟩, ?stands, fun p mem => (grounded p mem).1,
      ?contains, ?apart, ?framed, fun p mem => (grounded p mem).2, ?quoted, ?braced⟩
    case stands =>
      intro p mem
      obtain ⟨t, among, same⟩ := ofTree p mem
      obtain ⟨lead, -, reach, -⟩ := chain.exists_reaches among
      exact same ▸ stands_of_fits (inside t among) (here.append reach)
    case contains =>
      intro p mem
      obtain ⟨t, among, same⟩ := ofTree p mem
      exact same ▸ chain.contains among
    case apart =>
      have apart : (parts.map (·.toSite)).Pairwise fun s t => s.stop.offset ≤ t.start.offset := by
        rw [sites]
        exact List.pairwise_map.2 chain.apart
      exact List.pairwise_map.1 apart
    case framed =>
      intro p mem
      obtain ⟨t, among, same⟩ := ofTree p mem
      exact same ▸ ((body.framed grammar_wellFormed grammar_ranked).2 t among).2
    case quoted =>
      rintro rfl
      obtain ⟨opened, closed, opens, abut, closes⟩ := Grammar.exists_of_template body
      exact ⟨opened, closed, opens, sites ▸ sites_of_abut abut, closes⟩
    case braced =>
      rintro rfl
      obtain ⟨t, inner, substitution, rfl⟩ := substitution_braced body here
      refine ⟨t, inner, substitution, fun p mem => ?_⟩
      obtain ⟨u, among, same⟩ := ofTree p mem
      obtain rfl := List.mem_singleton.1 among
      exact ⟨congrArg Site.start same, congrArg Site.stop same⟩

/-- Every tree of matches in the source becomes a grounded part. -/
theorem build_grounded {before : List Char} {t : Derivation Rule} (fits : Fits grammar t)
    (met : (roleOf? t.rule).isSome = true) (here : (Cursor.start source).Reaches before t.start) :
    Yields (build t) fun part => part.Grounded source ∧ part.Inset source := by
  induction fits generalizing before with
  | @node rule x start stop children visible body settled surrounded inside ih =>
    have whole : Fits grammar (.node rule start stop children) := .node visible body settled surrounded inside
    have stands := stands_of_fits whole here
    have chain := body.chain grammar_wellFormed
    unfold build
    cases keywordIs : typeKeyword? rule with
    | some keyword =>
      refine .ok ⟨typeOnly_grounded keywordIs stands (typeOnly_named keywordIs whole here) _, ?_⟩
      rintro rfl
      cases keywordIs
    | none =>
      cases alone : erasure? rule with
      | some alone =>
        refine .ok ⟨⟨.nil, trivial⟩, ?_⟩
        rintro rfl
        cases alone
      | none =>
        have looked : isLookedInto rule = true := by
          rw [isLookedInto, keywordIs, alone, show (roleOf? rule).isSome = true from met]
          rfl
        have child : ∀ t ∈ children, (roleOf? t.rule).isSome = true := fun t mem =>
          isSome_roleOf?_of_called looked (Grammar.rule_mem_calls whole t mem)
        obtain ⟨parts, built, sound, becomes⟩ :=
          buildAll_gives fun t mem => build_gives (inside t mem) (child t mem)
        have inner : ∀ p ∈ parts, p.Grounded source ∧ p.Inset source := fun p mem => by
          obtain ⟨t, among, is⟩ := exists_of_forall₂ (buildAll_yields children parts built) mem
          obtain ⟨lead, -, reach, -⟩ := chain.exists_reaches among
          exact ih t among (child t among) (here.append reach) p is
        have scene := scene_of_becomes whole here becomes sound inner
        have assembled := (assemble_shows stands scene).and (assemble_inset [] scene)
        refine .bind (P := (· = parts)) ?_ ?_
        · intro parts' built'
          cases built.symm.trans built'
          rfl
        rintro _ rfl
        refine .bind (P := fun _ => True) (fun _ _ => trivial) fun _ _ => ?_
        refine .bind assembled fun made known => ?_
        obtain ⟨shows, inset⟩ := known
        exact .ok ⟨⟨shows.nodes, shows.formed⟩, inset⟩

/-- The statements of a source that is read. -/
theorem items_of_parse {fuelPerChar : Nat} {source : List Char} {tree : Derivation Rule}
    (parsed : grammar.parse fuelPerChar .program source = .ok tree) :
    Yields (do (← build tree).toBody) fun items =>
      (∀ item ∈ items, (Node.stmt item).Everywhere (Node.Sound source)) ∧ InOrder items := by
  obtain ⟨fits, isProgram, starts⟩ := fits_of_parse parsed
  have here : (Cursor.start source).Reaches [] tree.start := starts ▸ .refl _
  refine .bind (build_grounded fits (by rw [isProgram]; rfl) here) fun part ⟨grounded, _⟩ => ?_
  refine grounded.toBody.imp fun items ⟨holds, inOrder⟩ => ⟨fun item mem => ?_, inOrder⟩
  exact (holds (.stmt item) (List.mem_map_of_mem mem)).sound

end Parse

/-! ## Sources that are read -/

/-- The statements of a source that is read are sound, with all nodes in them, and in order. -/
theorem sound_of_parse {source : String} {m : Module} (read : parseModule source = .ok m) :
    (∀ item ∈ m.items, (Node.stmt item).Everywhere (Node.Sound source.toList)) ∧ InOrder m.items := by
  obtain ⟨tree, part, parsed, built, -, body, -⟩ := exists_tree_of_parse read
  refine Parse.items_of_parse parsed m.items ?_
  rw [built]
  exact body

/-- Spans form a tree: every node of a source that is read stands where its span says, around the nodes below it, and
    statements follow each other without overlap in every list. -/
theorem placed_of_parse {source : String} {m : Module} (read : parseModule source = .ok m) :
    (∀ item ∈ m.items, ∀ n, (Node.stmt item).Holds n → n.Placed source.toList) ∧ InOrder m.items := by
  obtain ⟨sound, inOrder⟩ := sound_of_parse read
  exact ⟨fun item mem n held => ((sound item mem).of_holds held).placed, inOrder⟩

/-- Whether the statements are two calls, the second of them of one string. -/
private def areTwoCalls : List Stmt → Bool
  | [.expr (.call ..) _, .expr (.call _ [.str _ _ ⟨⟨7, _, _⟩, ⟨11, _, _⟩⟩] _ _) _] => true
  | _ => false

set_option maxRecDepth 100000 in
/-- The string in the second call stands behind the first one and takes four bytes. -/
theorem placed_of_parse_twoCalls :
    ∃ m raw value span, parseModule "f(1)\ng('é')" = .ok m ∧ span.start.offset = 7 ∧ span.stop.offset = 11 ∧
      (∃ item ∈ m.items, (Node.stmt item).Holds (.expr (.str raw value span))) ∧
      (Node.expr (.str raw value span)).Placed "f(1)\ng('é')".toList ∧ InOrder m.items := by
  have calls : (parseModule "f(1)\ng('é')").toOption.map (areTwoCalls ·.items) = some true := by decide +kernel
  obtain ⟨m, read, calls⟩ := exists_of_toOption_map calls
  obtain ⟨placed, inOrder⟩ := placed_of_parse read
  unfold areTwoCalls at calls
  split at calls
  · rename_i items
    have second {s t : Stmt} : t ∈ [s, t] := List.mem_cons_of_mem _ (List.mem_singleton_self _)
    have held {callee arg : Expr} {flag : Bool} {u v : Span} :
        (Node.stmt (.expr (.call callee [arg] flag u) v)).Holds (.expr arg) :=
      .inside (List.mem_singleton_self _)
        (.inside (c := .item arg) (List.mem_cons_of_mem _ (List.mem_singleton_self _)) .self)
    exact ⟨m, _, _, _, read, rfl, rfl, ⟨_, items ▸ second, held⟩, placed _ (items ▸ second) _ held, inOrder⟩
  · cases calls

/-- Every child of a node of a source that is read is such as the grammar asks for in its place. So no operand is looser
    than its operator, and printing the tree needs no parentheses but those in it. -/
theorem canonical_of_parse {source : String} {m : Module} (read : parseModule source = .ok m) :
    ∀ item ∈ m.items, ∀ n, (Node.stmt item).Holds n → n.Canonical := by
  intro item mem n held
  obtain ⟨sound, -⟩ := sound_of_parse read
  exact ((sound item mem).of_holds held).canonical

/-- Whether the only statement is a sum whose right operand is a product. -/
private def isSumOfProduct : List Stmt → Bool
  | [.expr (.binary .add _ (.binary .mul ..) _) _] => true
  | _ => false

set_option maxRecDepth 100000 in
theorem canonical_of_parse_sum :
    ∃ m left right factor product sum span, parseModule "a + b * -c" = .ok m ∧
      m.items = [.expr (.binary .add left (.binary .mul right factor product) sum) span] ∧
      (Node.expr (.binary .mul right factor product)).Canonical := by
  have shape : (parseModule "a + b * -c").toOption.map (isSumOfProduct ·.items) = some true := by decide +kernel
  obtain ⟨m, read, shape⟩ := exists_of_toOption_map shape
  unfold isSumOfProduct at shape
  split at shape
  · rename_i items
    have held {left right : Expr} {u v : Span} :
        (Node.stmt (.expr (.binary .add left right u) v)).Holds (.expr right) :=
      .inside (List.mem_singleton_self _)
        (.inside (c := ⟨BinaryOp.add.rightSlot, .expr right⟩) (List.mem_cons_of_mem _ (List.mem_singleton_self _)) .self)
    exact ⟨m, _, _, _, _, _, _, read, items, canonical_of_parse read _ (items ▸ List.mem_singleton_self _) _ held⟩
  · cases shape

/-- Trees are well formed: templates, declarations and sequences are as long as they must be, the text of a template is
    its raw text and its substitutions in turn, and every name is a complete identifier of the source and not reserved,
    those that a pattern binds as well. And wherever a keyword is read, or an operator spelled like one, it is not the
    beginning of a longer word. -/
theorem formed_of_parse {source : String} {m : Module} (read : parseModule source = .ok m) :
    (∀ item ∈ m.items, ∀ n, (Node.stmt item).Holds n → n.Formed source.toList) ∧
      (∀ item ∈ m.items, ∀ p, (Node.stmt item).Holds (.pattern p) →
        ∀ name ∈ p.boundNames, NameWithin source.toList p.span name) ∧
      ∀ rule, Grammar.isWordRule rule = true → ∀ fuel x look c t ts c' t',
        grammar.run fuel (.call rule) x look c t = .matched ts c' t' → Grammar.WholeWord c c' := by
  obtain ⟨sound, -⟩ := sound_of_parse read
  refine ⟨fun item mem n held => ((sound item mem).of_holds held).formed, fun item mem p held => ?_, ?_⟩
  · exact nameWithin_of_mem_boundNames ((sound item mem).inside held)
  intro rule word fuel x look c t ts c' t' ran
  have told := Peg.Grammar.tells_run (g := grammar) fuel (.call rule) x look c t
  rw [ran] at told
  obtain ⟨us, matched, -⟩ := told
  exact Grammar.wholeWord_of_isWordRule word matched

/-- Whether the only statement binds a name in braces to a template of one substitution, with a tag. -/
private def declaresTemplate : List Stmt → Bool
  | [.varDecl _ [.mk (.object [.shorthand "x" _] _) (some (.taggedTemplate _ (.template ["a", "b"] [_] _) _)) _] _] => true
  | _ => false

private def templateText : String := "let \x7bx\x7d = t\x60a$\x7bin_\x7db\x60"

set_option maxRecDepth 100000 in
theorem formed_of_parse_template :
    ∃ m substituted span target, parseModule templateText = .ok m ∧
      (∃ item ∈ m.items, (Node.stmt item).Holds (.expr (.template ["a", "b"] [substituted] span))) ∧
      (Node.expr (.template ["a", "b"] [substituted] span)).Formed templateText.toList ∧
      NameWithin templateText.toList target "x" ∧
      ∃ ts c t, grammar.run 9 (.call .varKind) .loose .none (.start "let x".toList) .empty = .matched ts c t ∧
        Grammar.WholeWord (.start "let x".toList) c := by
  have shape : (parseModule templateText).toOption.map (declaresTemplate ·.items) = some true := by decide +kernel
  obtain ⟨m, read, shape⟩ := exists_of_toOption_map shape
  obtain ⟨formed, named, whole⟩ := formed_of_parse read
  unfold declaresTemplate at shape
  split at shape
  · rename_i items
    have only {s : Stmt} : s ∈ [s] := List.mem_singleton_self _
    have inDeclarator {kind : VarKind} {d : Declarator} {u : Span} :
        (Node.stmt (.varDecl kind [d] u)).Holds (.declarator d) :=
      .inside (List.mem_singleton_self _) .self
    have binding {kind : VarKind} {p : Pattern} {init : Option Expr} {u v : Span} :
        (Node.stmt (.varDecl kind [.mk p init u] v)).Holds (.pattern p) :=
      inDeclarator.child (c := .pattern p) (List.mem_cons_self ..)
    have quasi {kind : VarKind} {p : Pattern} {tag quasi : Expr} {u v w : Span} :
        (Node.stmt (.varDecl kind [.mk p (some (.taggedTemplate tag quasi u)) v] w)).Holds (.expr quasi) :=
      (inDeclarator.child (c := .expr .assign (.taggedTemplate tag quasi u))
        (List.mem_cons_of_mem _ (List.mem_singleton_self _))).child (c := .expr .primary quasi)
        (List.mem_cons_of_mem _ (List.mem_singleton_self _))
    rw [items] at formed named
    have bound := named _ only _ binding "x" (List.mem_singleton_self _)
    have word := whole .varKind rfl 9 .loose .none (.start "let x".toList) .empty _ _ _ rfl
    exact ⟨m, _, _, _, read, ⟨_, items ▸ only, quasi⟩, formed _ only _ quasi, bound, _, _, _, rfl, word⟩
  · cases shape

end FlowScript
