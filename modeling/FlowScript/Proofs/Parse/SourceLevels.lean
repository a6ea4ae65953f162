import FlowScript.Proofs.Grammar.Signs
import FlowScript.Proofs.Parse.ExpressionLevels
import FlowScript.Proofs.Parse.Nodes

/-!
# The levels in a source

The pass over the tokens finds the trees of a source where their rules say, so what a tree becomes is light: at every
node the weight of the pass is no less than the number of counted levels around it.
-/

namespace FlowScript.Parse
open FlowScript.Grammar (Rule asks bracketed isTypes isObscure ruleBody ruleKind Enclosing PairedReturns)
open FlowScript.Nesting (Chained Climbs Deeper OnLevel Reaches Signs)
open FlowScript.Nesting.Token (Outside)
open FlowScript.Peg (Cursor Derivation Fits Matches)

variable {source : List Char} {site : Site} {parts : List Part}

/-! ## All rules -/

/-- What a token may be read as has nothing in it. -/
theorem token_lights : Yields (Made.plain .token) (Lights source site) := by
  let part : Part := ⟨site, .token, []⟩
  have literal : ∀ e, part.toExpr = .ok e → (Node.expr e).Light source site.start.offset 0 := by
    intro e read
    unfold Part.toExpr at read
    split at read <;> cases read
    case h_8 piece => cases piece
    all_goals exact light_leaf rfl rfl
  have name : ∀ q, part.toPattern = .ok q → (Node.pattern q).Light source site.start.offset 0 := by
    intro q read
    unfold Part.toPattern at read
    split at read <;> cases read
    · exact light_leaf rfl rfl
    · rename_i piece
      cases piece
  refine lights_piece (.append (fun c mem => ?_) fun c mem => ?_) .nil
  · obtain ⟨e, read, rfl⟩ := List.mem_map.1 mem
    refine literal e ?_
    cases result : part.toExpr <;> simp_all [Except.toOption, part]
  · obtain ⟨q, read, rfl⟩ := List.mem_map.1 mem
    refine name q ?_
    cases result : part.toPattern <;> simp_all [Except.toOption, part]

/-- The expression of an index stands in the brackets of its match. -/
theorem index_lights {rule : Rule} (h : Scan source rule site parts) (listed : Rule.expression ∈ bracketed rule) :
    Yields (do Made.plain (.expr (← (← the site parts .expression).toExpr))) (Lights source site) := by
  refine read_yields (fun p mem is => h.exprDeep mem (is ▸ listed)) fun e light => ?_
  refine lights_piece (.single (c := ⟨slotOf site.rule, .expr e⟩) (light.less (Nat.zero_le 1))) ?_
  simp only [Part.inner]
  split
  · exact .single (c := .expr .sequence e) light
  · exact .nil

/-- What assembly makes of a match is light when its parts are and the pass over the tokens finds them where the rule
    says. A template is no matter what stands in it. -/
theorem assemble_lights
    (h : ruleKind site.rule ≠ .token → site.rule ≠ .template → Scan source site.rule site parts) :
    Yields (assemble site parts) (Lights source site) := by
  have scan : ∀ {rule}, site.rule = rule → ruleKind rule ≠ .token → rule ≠ .template → Scan source rule site parts := by
    rintro _ rfl
    exact h
  unfold assemble
  cases is : site.rule with
  | endOfInput | keyword | operator | identifier | identifierName | privateName | number | string | templateChunk | regex
  | boolean | nullLit | thisExpr | varKind | forKind | assignOp | unaryOp | updateOp | arrayHole | patternHole =>
    exact token_lights
  | block => exact block_lights (scan is (by decide) nofun)
  | program => exact program_lights (scan is (by decide) nofun)
  | statement =>
    have here := scan is (by decide) nofun
    exact .bind first_yields fun p mem => here.passes_stmt mem
  | emptyStmt => exact bareStmt_lights (scan is (by decide) nofun) (.inl rfl)
  | breakStmt => exact bareStmt_lights (scan is (by decide) nofun) (.inr (.inl rfl))
  | continueStmt => exact bareStmt_lights (scan is (by decide) nofun) (.inr (.inr rfl))
  | varStmt => exact varStmt_lights (scan is (by decide) nofun)
  | functionDecl => exact functionDecl_lights (scan is (by decide) nofun)
  | ifStmt => exact ifStmt_lights (scan is (by decide) nofun)
  | forStmt => exact forStmt_lights (scan is (by decide) nofun)
  | whileStmt => exact whileStmt_lights (scan is (by decide) nofun)
  | doWhileStmt => exact doWhileStmt_lights (scan is (by decide) nofun)
  | tryStmt => exact tryStmt_lights (scan is (by decide) nofun)
  | switchStmt => exact switchStmt_lights (scan is (by decide) nofun)
  | returnStmt => exact returnStmt_lights (scan is (by decide) nofun)
  | throwStmt => exact throwStmt_lights (scan is (by decide) nofun)
  | exprStmt => exact exprStmt_lights (scan is (by decide) nofun)
  | forInOfStmt => exact forInOf_lights (scan is (by decide) nofun)
  | varDecl => exact varDecl_lights (scan is (by decide) nofun)
  | declarator => exact declarator_lights (scan is (by decide) nofun)
  | elseClause =>
    have here := scan is (by decide) nofun
    exact .bind the_yields fun p ⟨mem, _⟩ => here.passes_stmt mem
  | forInit => exact forInit_lights (scan is (by decide) nofun)
  | forLeft => exact forLeft_lights (scan is (by decide) nofun)
  | forTest | forUpdate | caseTest =>
    have here := scan is (by decide) nofun
    exact .bind the_yields fun p ⟨mem, _⟩ => here.passes_expr mem (by decide)
  | catchClause => exact catchClause_lights (scan is (by decide) nofun)
  | finallyClause => exact finallyClause_lights (scan is (by decide) nofun)
  | switchCase => exact switchCase_lights (scan is (by decide) nofun)
  | params => exact params_lights (scan is (by decide) nofun)
  | param => exact param_lights (scan is (by decide) nofun)
  | restParam | restPattern => exact restBinding_lights (scan is (by decide) nofun)
  | importDecl => exact importDecl_lights
  | importClause | importDefault | importNamespace | importSpec | exportSpec | exportTypeList | exportAll =>
    exact lights_piece .nil .nil
  | importNamed | exportList => exact specifiers_lights
  | exportDecl => exact exportDecl_lights (scan is (by decide) nofun)
  | exportDefault => exact exportDefault_lights (scan is (by decide) nofun)
  | objectPattern => exact objectPattern_lights (scan is (by decide) nofun)
  | patternPair => exact patternPair_lights (scan is (by decide) nofun)
  | patternShorthand => exact patternShorthand_lights (scan is (by decide) nofun)
  | bindingElement => exact bindingElement_lights (scan is (by decide) nofun)
  | arrayPattern => exact arrayPattern_lights (scan is (by decide) nofun)
  | arrowFn => exact arrow_lights (scan is (by decide) nofun)
  | arrowParams => exact arrowParams_lights (scan is (by decide) nofun)
  | arrowBody => exact arrowBody_lights (scan is (by decide) nofun)
  | level tier => exact operands_lights (scan is nofun nofun)
  | unaryExpr => exact unary_lights (scan is (by decide) nofun)
  | callExpr => exact postfixes_lights (scan is (by decide) nofun) rfl (by decide)
  | newCallee => exact postfixes_lights (scan is (by decide) nofun) rfl (by decide)
  | callArgs | optionalCall | newArgs => exact args_lights (scan is (by decide) nofun) (by decide)
  | argList => exact argList_lights (scan is (by decide) nofun)
  | optionalIndex | indexAccess | templateSubst => exact index_lights (scan is (by decide) nofun) (by decide)
  | optionalMember | memberAccess => exact .bind first_yields fun p _ => lights_piece .nil .nil
  | taggedTemplate | computedKey =>
    have here := scan is (by decide) nofun
    exact .bind first_yields fun p mem => here.passes_expr mem (by decide)
  | newExpr => exact newExpr_lights (scan is (by decide) nofun)
  | objectPair => exact objectPair_lights (scan is (by decide) nofun)
  | objectMethod => exact objectMethod_lights (scan is (by decide) nofun)
  | objectShorthand => exact objectShorthand_lights (scan is (by decide) nofun)
  | propertyKey => exact propertyKey_lights (scan is (by decide) nofun)
  | expression => exact expression_lights (scan is (by decide) nofun)
  | assignExpr => exact assignExpr_lights (scan is (by decide) nofun)
  | conditionalExpr => exact conditionalExpr_lights (scan is (by decide) nofun)
  | exponentExpr => exact exponentExpr_lights (scan is (by decide) nofun)
  | awaitExpr => exact awaitExpr_lights (scan is (by decide) nofun)
  | postfixExpr => exact postfixExpr_lights (scan is (by decide) nofun)
  | parenExpr => exact parenExpr_lights (scan is (by decide) nofun)
  | functionExpr => exact functionExpr_lights (scan is (by decide) nofun)
  | template =>
    simp only [expression, is]
    exact .bind (P := fun _ => True) (fun _ _ => trivial) fun _ _ => template_lights (.inl is) rfl
  | arrayLit => exact arrayLit_lights (scan is (by decide) nofun)
  | objectLit => exact objectLit_lights (scan is (by decide) nofun)
  | spreadElem => exact spreadElem_lights (scan is (by decide) nofun)
  | _ => exact .error

/-! ## Whole trees -/

/-- The rules that are looked into are no rules of type syntax. -/
theorem isTypes_of_isLookedInto {rule : Rule} (looked : isLookedInto rule = true) : isTypes rule = false := by
  cases rule <;> first | rfl | cases looked

/-- The pass over the tokens finds the parts of a match where the match encloses its trees. -/
theorem scan_of_enclosing {rule : Rule} {start stop : Cursor} {children : List (Derivation Rule)}
    {p : Nesting.Token.Place} {ts : List Nesting.Token} (whole : Fits grammar (.node rule start stop children))
    (sites : parts.map (·.toSite) = children.map Site.ofTree) (looked : isLookedInto rule = true)
    (reached : Reaches source start p ts) (outside : Outside p start.rest) (tidy : PairedReturns start.rest)
    (enclosing : Enclosing (.node rule start stop children)) (scene : Scene source rule ⟨rule, start, stop⟩ parts)
    (light : ∀ p ∈ parts, p.Light source) : Scan source rule ⟨rule, start, stop⟩ parts := by
  -- what is said of the trees is said of the parts
  have ofTree : ∀ q ∈ parts, ∃ u ∈ children, q.toSite = Site.ofTree u := fun q mem => by
    obtain ⟨u, among, same⟩ := List.mem_map.1 (sites ▸ List.mem_map_of_mem mem)
    exact ⟨u, among, same.symm⟩
  have climbs : ∀ q ∈ parts, Climbs start 0 q.start (if (bracketed rule).contains q.rule then 1 else 0) := by
    intro q mem
    obtain ⟨u, among, same⟩ := ofTree q mem
    obtain ⟨k, asked, climbs⟩ := enclosing.climbs u among
    rw [asks, Derivation.rule, isTypes_of_isLookedInto looked, Bool.false_or, decide_eq_true_iff] at asked
    rw [congrArg Site.start same, congrArg Site.rule same]
    exact asked ▸ climbs
  have signs {q : Part} (h : Signs start q.start) : Chained source start.offset q.start.offset := by
    obtain ⟨us, p', a, t, b, stretch, -, here, before, raises, noBracket, behind⟩ := h p outside
    exact reached.chained stretch here before raises noBracket behind
  have flat : ∀ q ∈ parts, q.rule ∉ bracketed rule → Climbs start 0 q.start 0 := fun q mem unlisted => by
    simpa [unlisted] using climbs q mem
  refine ⟨scene, light, fun q mem unlisted => ?level, fun q mem listed => ?bracket, ?keyword, ?branch, ?arrow⟩
  case level =>
    obtain ⟨us, p', stretch, -, level⟩ := flat q mem unlisted p outside
    exact reached.onLevel stretch level
  case bracket =>
    have deeper : Climbs start 0 q.start 1 := by simpa [listed] using climbs q mem
    obtain ⟨us, p', stretch, -, level⟩ := deeper p outside
    exact reached.deeper stretch level
  case keyword =>
    rintro q mem unlisted later ⟨t, listed, starts, chars, isChain, kind⟩
    obtain ⟨us, p', stretch, -, level⟩ := flat q mem unlisted p outside
    have raises : t.kind.raises = true := by
      rw [kind]
      exact List.contains_iff_mem.2 isChain
    exact reached.chained_of_first stretch level later listed starts raises (kind ▸ Nesting.TokenKind.noConfusion)
  case branch =>
    rintro rfl q mem
    cases whole with
    | node visible body settled surrounded inside =>
      have tails : parts.tail.map (·.toSite) = children.tail.map Site.ofTree := by
        rw [List.map_tail, sites, List.map_tail]
      obtain ⟨u, among, same⟩ := List.mem_map.1 (tails ▸ List.mem_map_of_mem mem)
      have sign := Grammar.conditional_signs (surrounded rfl ▸ body) tidy enclosing.flat u among
      exact signs (congrArg Site.start same ▸ sign)
  case arrow =>
    rintro rfl q mem is
    cases whole with
    | node visible body settled surrounded inside =>
      obtain ⟨u, among, same⟩ := ofTree q mem
      have sign := Grammar.arrow_signs (surrounded rfl ▸ body) tidy enclosing.flat u among
        ((congrArg Site.rule same).symm.trans is)
      exact signs (congrArg Site.start same.symm ▸ sign)

/-- Every tree of matches in the source becomes a light part, if the pass over the tokens comes to it outside of quotes
    and comments, and reads through the regular expressions and templates in it. -/
theorem build_lights {before : List Char} {t : Derivation Rule} (fits : Fits grammar t)
    (met : (roleOf? t.rule).isSome = true) (here : (Cursor.start source).Reaches before t.start)
    (reached : ∃ p ts, Reaches source t.start p ts ∧ Outside p t.start.rest) (tidy : PairedReturns t.start.rest)
    (clear : ∀ u, t.Holds u → isObscure u.rule = true → Climbs u.start 0 u.stop 0) :
    Yields (build t) fun part => part.Light source := by
  induction fits generalizing before with
  | @node rule x start stop children visible body settled surrounded inside ih =>
    have whole : Fits grammar (.node rule start stop children) := .node visible body settled surrounded inside
    have chain := body.chain grammar_wellFormed
    unfold build
    cases keywordIs : typeKeyword? rule with
    | some keyword => exact .ok ⟨.single (c := ⟨slotOf rule, .stmt _⟩) (light_leaf rfl rfl), .nil⟩
    | none =>
      cases alone : erasure? rule with
      | some alone => exact .ok ⟨.nil, .nil⟩
      | none =>
        have looked : isLookedInto rule = true := by
          rw [isLookedInto, keywordIs, alone, show (roleOf? rule).isSome = true from met]
          rfl
        have child : ∀ u ∈ children, (roleOf? u.rule).isSome = true := fun u mem =>
          isSome_roleOf?_of_called looked (Grammar.rule_mem_calls whole u mem)
        obtain ⟨parts, built, sound, becomes⟩ := buildAll_gives fun u mem => build_gives (inside u mem) (child u mem)
        have from_ : ∀ p ∈ parts, ∃ u ∈ children, build u = .ok p := fun p mem =>
          exists_of_forall₂ (buildAll_yields children parts built) mem
        have grounded : ∀ p ∈ parts, p.Grounded source ∧ p.Inset source := fun p mem => by
          obtain ⟨u, among, is⟩ := from_ p mem
          obtain ⟨lead, -, reach, -⟩ := chain.exists_reaches among
          exact build_grounded (inside u among) (child u among) (here.append reach) p is
        have scene := scene_of_becomes whole here becomes sound grounded
        have scan (notToken : ruleKind rule ≠ .token) (other : rule ≠ .template) :
            Scan source rule ⟨rule, start, stop⟩ parts := by
          obtain ⟨p, ts, reached, outside⟩ := reached
          have plain : isObscure rule = false := by
            cases rule <;> first | rfl | exact absurd rfl other | exact absurd rfl notToken
          have enclosing := (Grammar.climbs_of_fits whole tidy clear fun is => notToken (by
            rw [show rule = .templateChunk from is]
            rfl)).2 plain
          have light : ∀ p ∈ parts, p.Light source := fun p' mem => by
            obtain ⟨u, among, is⟩ := from_ p' mem
            obtain ⟨lead, -, reach, -⟩ := chain.exists_reaches among
            obtain ⟨k, -, climbs⟩ := enclosing.climbs u among
            obtain ⟨us, p'', stretch, outside', -⟩ := climbs p outside
            exact ih u among (child u among) (here.append reach) ⟨p'', _, reached.append stretch, outside'⟩
              (PairedReturns.suffix (reach.rest ▸ tidy)) (fun v held => clear v (.inside among held)) p' is
          exact scan_of_enclosing whole (sites_of_becomes becomes) looked reached outside tidy enclosing
            (scene notToken) light
        refine .bind (P := (· = parts)) ?_ ?_
        · intro parts' built'
          cases built.symm.trans built'
          rfl
        rintro _ rfl
        refine .bind (P := fun _ => True) (fun _ _ => trivial) fun _ _ => ?_
        refine .bind (assemble_lights scan) fun made light => ?_
        exact .ok ⟨light.nodes, light.inner⟩

/-! ## Whole sources -/

/-- A source whose comments, regular expressions and templates end for the pass over the tokens where they do for the
    grammar: no comment ends at a carriage return alone, which is no end of a line for the pass, and it reads through each
    regular expression and template with as many brackets open behind as before. -/
structure Legible (source : List Char) : Prop where
  returns : PairedReturns source
  literals : ∀ tree, grammar.parse fuelPerChar .program source = .ok tree → ∀ t, tree.Holds t →
    isObscure t.rule = true → Climbs t.start 0 t.stop 0

/-- A source without carriage returns, slashes and backquotes is legible: it has no line comments, regular expressions or
    templates. -/
theorem legible_of_plain (returns : '\r' ∉ source) (slashes : '/' ∉ source) (backquotes : '\x60' ∉ source) :
    Legible source := by
  refine ⟨fun before after is => ?_, fun tree parsed t held obscure => ?_⟩
  · exact absurd (is ▸ List.mem_append_right _ (List.mem_cons_self ..)) returns
  obtain ⟨fits, -, starts⟩ := fits_of_parse parsed
  obtain ⟨⟨lead, read⟩, -, -⟩ := fits.exists_reaches grammar_wellFormed held
  rw [starts] at read
  -- both kinds of literals begin with a character that the source does not have
  have mem {d : Char} {e : Cursor} (comes : t.start.after? [d] = some e) : d ∈ source := by
    have whole : source = lead ++ (d :: e.rest) :=
      read.rest.trans (congrArg (lead ++ ·) (Cursor.Reaches.of_after? comes).rest)
    rw [whole]
    exact List.mem_append_right _ (List.mem_cons_self ..)
  cases fits.of_holds held with
  | @node rule x start stop children visible body =>
    cases rule with
    | regex =>
      cases body with
      | seq first _ =>
        cases first with
        | text comes => exact absurd (mem comes) slashes
    | template =>
      cases body with
      | seq first _ =>
        cases first with
        | text comes => exact absurd (mem comes) backquotes
    | _ => cases obscure

/-- The statements of a source that is read are light where the source begins. -/
theorem items_light {tree : Derivation Rule} {part : Part} {items : List Stmt} (legible : Legible source)
    (parsed : grammar.parse fuelPerChar .program source = .ok tree) (built : build tree = .ok part)
    (becomes : Becomes tree part) (body : part.toBody = .ok items) : Lit source 0 0 (items.map .stmt) := by
  obtain ⟨fits, isProgram, starts⟩ := fits_of_parse parsed
  have here : (Cursor.start source).Reaches [] tree.start := starts ▸ .refl _
  have reached : ∃ p ts, Reaches source tree.start p ts ∧ Outside p tree.start.rest := by
    rw [starts]
    exact ⟨_, _, .refl _ _, .code _⟩
  have tidy : PairedReturns tree.start.rest := by
    rw [starts]
    exact legible.returns
  have light := build_lights fits (by rw [isProgram]; rfl) here reached tidy (legible.literals tree parsed) part built
  have first : part.start = Cursor.start source := (congrArg Site.start becomes.site).trans starts
  have nodes := light.nodes
  unfold Part.toBody at body
  split at body <;> cases body
  rename_i piece
  simp only [Part.nodes, piece, first] at nodes
  exact fun c mem => nodes c (List.mem_append_left _ mem)

end FlowScript.Parse
