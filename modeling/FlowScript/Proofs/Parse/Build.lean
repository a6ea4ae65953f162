import FlowScript.Proofs.Parse.Expressions
import FlowScript.Proofs.Parse.Modules
import FlowScript.Proofs.Parse.Statements
import FlowScript.Proofs.Text.Slice

/-!
# Assembly never fails

Every tree of matches that fits the grammar becomes a part: no match lacks a part that it needs, none holds a part that
may not stand there, and every token that must name something does.
-/

namespace FlowScript.Parse
open FlowScript.Grammar (Rule ruleBody ruleKind)
open FlowScript.Peg (Cursor Derivation Fits Matches)

/-! ## The texts of tokens -/

theorem Site.text_of_reaches {rule : Rule} {start stop : Cursor} {text : List Char} (read : start.Reaches text stop) :
    Site.text ⟨rule, start, stop⟩ = text := by
  rw [Site.text, read.offset, Nat.add_sub_cancel_left, read.rest, Text.takeBytes?_append]
  rfl

/-- The text of a token is one of the spellings of its rule. -/
theorem Site.text_mem_spellings {rule : Rule} {start stop : Cursor} {children : List (Derivation Rule)}
    (token : ruleKind rule = .token) (fits : Fits grammar (.node rule start stop children)) :
    Site.text ⟨rule, start, stop⟩ ∈ (ruleBody rule).spellings := by
  cases fits with
  | node visible body settled surrounded inside =>
    obtain ⟨text, spelled, read⟩ := body.spelling (by rw [show grammar.kind rule = .token from token]; nofun)
      (Grammar.calls_of_token token)
    rw [text_of_reaches read]
    exact spelled

theorem mem_spellings_of_word {e : Grammar.Body} {text : List Char}
    (h : text ∈ (Peg.seq e Grammar.wordEnd).spellings) : text ∈ e.spellings := by
  rwa [show (Peg.seq e Grammar.wordEnd).spellings = e.spellings * 1 from rfl, mul_one] at h

theorem spelled_of_fits {rule : Rule} {start stop : Cursor} {children : List (Derivation Rule)}
    (fits : Fits grammar (.node rule start stop children)) : Site.Spelled ⟨rule, start, stop⟩ where
  varKind is := by
    cases is
    rcases mem_spellings_of_word (Site.text_mem_spellings rfl fits) with word | word | word
    all_goals rw [Site.word, word]
    · exact ⟨.const, by decide⟩
    · exact ⟨.let, by decide⟩
    · exact ⟨.var, by decide⟩
  forKind is := by
    cases is
    rcases mem_spellings_of_word (Site.text_mem_spellings rfl fits) with word | word
    all_goals rw [Site.word, word]
    · exact ⟨.values, by decide⟩
    · exact ⟨.keys, by decide⟩
  unaryOp is := by
    cases is
    rw [Site.word]
    rcases Site.text_mem_spellings rfl fits with not | bitNot | ⟨_, rfl, _, rfl, plus⟩ | ⟨_, rfl, _, rfl, minus⟩ | word
    · exact ⟨.not, by rw [not]; decide⟩
    · exact ⟨.bitNot, by rw [bitNot]; decide⟩
    · exact ⟨.plus, by rw [← plus]; decide⟩
    · exact ⟨.minus, by rw [← minus]; decide⟩
    · rcases mem_spellings_of_word word with word | word | word
      all_goals rw [word]
      · exact ⟨.typeof, by decide⟩
      · exact ⟨.void, by decide⟩
      · exact ⟨.delete, by decide⟩

/-! ## All rules -/

/-- The rules that are looked into. -/
def isLookedInto (rule : Rule) : Bool :=
  (typeKeyword? rule).isNone && (erasure? rule).isNone && (roleOf? rule).isSome

/-- A match that is looked into and is no token becomes what its rule stands for. -/
theorem assemble_fills {site : Site} {parts : List Part} (looked : isLookedInto site.rule = true)
    (h : ruleKind site.rule ≠ .token → Inside (ruleBody site.rule) parts) :
    Gives (assemble site parts) (Fills site parts) := by
  have inside : ∀ {rule}, site.rule = rule → ruleKind rule ≠ .token → Inside (ruleBody rule) parts := by
    rintro _ rfl
    exact h
  unfold assemble
  cases is : site.rule with
  | endOfInput | keyword | operator | identifier | identifierName | privateName | number | string | templateChunk | regex
  | boolean | nullLit | thisExpr | varKind | forKind | assignOp | unaryOp | updateOp | arrayHole | patternHole =>
    exact plain_fills is (.of_role rfl rfl)
  | block | program => exact body_fills is (fun _ => .of_role rfl rfl) (inside is (by decide)) (by decide)
  | statement =>
    have inside := inside is (by decide)
    refine .bind (inside.first rfl) fun part ⟨sound, called⟩ => ?_
    have all : ∀ r ∈ (ruleBody .statement).calls, readsStmt r = true := by decide
    refine .bind (sound.toStmt rfl (all _ called)) fun stmt _ => ?_
    exact plain_fills is (.of_role rfl rfl)
  | emptyStmt => exact bareStmt_fills (.inl is)
  | breakStmt => exact bareStmt_fills (.inr (.inl is))
  | continueStmt => exact bareStmt_fills (.inr (.inr is))
  | varStmt => exact varStmt_fills is (inside is (by decide))
  | functionDecl => exact functionDecl_fills is (inside is (by decide))
  | ifStmt => exact ifStmt_fills is (inside is (by decide))
  | forStmt => exact forStmt_fills is (inside is (by decide))
  | whileStmt => exact whileStmt_fills is (inside is (by decide))
  | doWhileStmt => exact doWhileStmt_fills is (inside is (by decide))
  | tryStmt => exact tryStmt_fills is (inside is (by decide))
  | switchStmt => exact switchStmt_fills is (inside is (by decide))
  | returnStmt => exact returnStmt_fills is (inside is (by decide))
  | throwStmt => exact throwStmt_fills is (inside is (by decide))
  | exprStmt => exact exprStmt_fills is (inside is (by decide))
  | forInOfStmt => exact forInOf_fills is (inside is (by decide))
  | varDecl => exact varDecl_fills is (inside is (by decide))
  | declarator =>
    have inside := inside is (by decide)
    refine .bind (inside.target rfl) fun target _ => ?_
    refine .bind inside.initial fun init _ => ?_
    exact plain_fills is (.of_role rfl rfl)
  | elseClause =>
    refine (inside is (by decide)).read rfl (fun _ sound is => sound.toStmt is rfl) fun stmt => ?_
    exact plain_fills is (.of_role rfl rfl)
  | forInit => exact forInit_fills is (inside is (by decide))
  | forLeft => exact forLeft_fills is (inside is (by decide))
  | forTest | forUpdate | caseTest =>
    refine (inside is (by decide)).read rfl (fun _ sound is => sound.toExpr is rfl) fun expr => ?_
    exact plain_fills is (.of_role rfl rfl)
  | catchClause => exact catchClause_fills is (inside is (by decide))
  | finallyClause =>
    refine (inside is (by decide)).read rfl (fun _ sound is => sound.toBody is rfl) fun body => ?_
    exact plain_fills is (.of_role rfl rfl)
  | switchCase => exact switchCase_fills is (inside is (by decide))
  | params =>
    have all : ∀ r ∈ (ruleBody .params).calls, readsPattern r = true := by decide
    refine .bind ((inside is (by decide)).mapM fun p sound called => sound.toPattern rfl (all _ called)) fun params _ => ?_
    exact plain_fills is (.of_role rfl rfl)
  | param => exact param_fills is (inside is (by decide))
  | restParam => exact restBinding_fills (.inl is) (is ▸ inside is (by decide))
  | restPattern => exact restBinding_fills (.inr is) (is ▸ inside is (by decide))
  | importDecl => exact importDecl_fills is
  | importClause | importDefault | importNamespace | importSpec | exportSpec | exportTypeList | exportAll =>
    exact plain_fills is (.of_role rfl rfl)
  | importNamed =>
    refine specifiers_fills (fun _ => is ▸ .of_role rfl rfl) ?_
    rintro _ ⟨⟩
    exact .imported is
  | exportList => exact specifiers_fills (fun _ => is ▸ .of_role rfl rfl) fun _ brace => .exported is brace
  | exportDecl => exact exportDecl_fills is (inside is (by decide))
  | exportDefault => exact exportDefault_fills is (inside is (by decide))
  | objectPattern =>
    have all : ∀ r ∈ (ruleBody .objectPattern).calls, roleOf? r = some .patternProp ∨ r = .restPattern := by decide
    refine .bind ((inside is (by decide)).mapM fun p sound called => sound.patternProp rfl (all _ called)) fun props _ => ?_
    exact plain_fills is (.of_role rfl rfl)
  | patternPair => exact patternPair_fills is (inside is (by decide))
  | patternShorthand =>
    have inside := inside is (by decide)
    refine .bind (inside.the rfl) fun name _ => ?_
    refine .bind inside.initial fun default _ => ?_
    exact plain_fills is (.of_role rfl rfl)
  | bindingElement =>
    have inside := inside is (by decide)
    refine .bind (inside.target rfl) fun target _ => ?_
    refine .bind inside.initial fun default _ => ?_
    exact plain_fills is (.of_role rfl rfl)
  | arrayPattern =>
    have inside := inside is (by decide)
    have all : ∀ r ∈ (ruleBody .arrayPattern).calls, r ≠ .patternHole → readsPattern r = true := by decide
    refine .bind (slots_succeeds fun p mem element => ?_) fun elements _ => ?_
    · exact (inside.sound p mem).toPattern rfl (all _ (inside.called mem) element)
    · exact plain_fills is (.of_role rfl rfl)
  | arrowFn => exact arrow_fills is (inside is (by decide))
  | arrowParams => exact arrowParams_fills is (inside is (by decide))
  | arrowBody => exact arrowBody_fills is (inside is (by decide))
  | level tier => exact operands_fills is (inside is nofun)
  | unaryExpr => exact unary_fills is (inside is (by decide))
  | callExpr | newCallee =>
    exact postfixes_fills is (fun _ => .of_role rfl rfl) (inside is (by decide)) rfl (by decide) (by decide)
  | callArgs | optionalCall | newArgs => exact args_fills is (fun _ => .of_role rfl rfl) (inside is (by decide))
  | argList =>
    have all : ∀ r ∈ (ruleBody .argList).calls, readsExpr r = true := by decide
    refine .bind ((inside is (by decide)).mapM fun p sound called => sound.toExpr rfl (all _ called)) fun args _ => ?_
    exact plain_fills is (.of_role rfl rfl)
  | optionalIndex | indexAccess | templateSubst =>
    refine (inside is (by decide)).read rfl (fun _ sound is => sound.toExpr is rfl) fun expr => ?_
    exact plain_fills is (.of_role rfl rfl)
  | optionalMember | memberAccess =>
    refine .bind ((inside is (by decide)).first rfl) fun part _ => ?_
    exact plain_fills is (.of_role rfl rfl)
  | taggedTemplate => exact taggedTemplate_fills is (inside is (by decide))
  | computedKey =>
    refine .bind ((inside is (by decide)).first rfl) fun part ⟨sound, called⟩ => ?_
    refine .bind (sound.toExpr (List.mem_singleton.1 called) rfl) fun expr _ => ?_
    exact plain_fills is (.of_role rfl rfl)
  | newExpr => exact newExpr_fills is (inside is (by decide))
  | objectPair =>
    have inside := inside is (by decide)
    refine inside.read rfl (fun _ sound is => sound.toKey is rfl) fun key => ?_
    refine inside.read rfl (fun _ sound is => sound.toExpr is rfl) fun value => ?_
    exact plain_fills is (.of_role rfl rfl)
  | objectMethod => exact objectMethod_fills is (inside is (by decide))
  | objectShorthand =>
    have inside := inside is (by decide)
    refine .bind (inside.the rfl) fun name _ => ?_
    refine .bind inside.initial fun default _ => ?_
    exact plain_fills is (.of_role rfl rfl)
  | propertyKey => exact propertyKey_fills is (inside is (by decide))
  | expression => exact expression_fills is (inside is (by decide))
  | assignExpr => exact assignExpr_fills is (inside is (by decide))
  | conditionalExpr => exact conditionalExpr_fills is (inside is (by decide))
  | exponentExpr => exact exponentExpr_fills is (inside is (by decide))
  | awaitExpr => exact awaitExpr_fills is (inside is (by decide))
  | postfixExpr => exact postfixExpr_fills is (inside is (by decide))
  | parenExpr => exact parenExpr_fills is (inside is (by decide))
  | functionExpr => exact functionExpr_fills is (inside is (by decide))
  | template => exact template_fills is (inside is (by decide))
  | arrayLit => exact arrayLit_fills is (inside is (by decide))
  | objectLit => exact objectLit_fills is (inside is (by decide))
  | spreadElem => exact spreadElem_fills is (inside is (by decide))
  | _ => rw [is] at looked; cases looked

/-! ## Whole trees -/

/-- The match at the root of a tree. -/
def Site.ofTree (t : Derivation Rule) : Site := ⟨t.rule, t.start, t.stop⟩

/-- What a tree of matches becomes: a declaration of types, type syntax that is not looked into, or what assembly makes
    of the parts that the trees inside it become. -/
inductive Becomes : Derivation Rule → Part → Prop
  | typeOnly {rule start stop children keyword} (is : typeKeyword? rule = some keyword) (name : String) :
    Becomes (.node rule start stop children)
      ⟨⟨rule, start, stop⟩, .stmt (.typeOnly keyword name ⟨start.place, stop.place⟩),
        [Site.lineRemoval ⟨rule, start, stop⟩]⟩
  | erased {rule start stop children alone} (is : erasure? rule = some alone) :
    Becomes (.node rule start stop children)
      ⟨⟨rule, start, stop⟩, .erased, if alone then [Site.removal ⟨rule, start, stop⟩] else []⟩
  | assembled {rule start stop children parts piece own} (looked : isLookedInto rule = true)
    (all : List.Forall₂ Becomes children parts) (inside : ruleKind rule ≠ .token → Inside (ruleBody rule) parts)
    (fills : Fills ⟨rule, start, stop⟩ parts (piece, own)) :
    Becomes (.node rule start stop children) ⟨⟨rule, start, stop⟩, piece, editsInside rule parts ++ own⟩

theorem Becomes.site {t : Derivation Rule} {part : Part} (h : Becomes t part) : part.toSite = Site.ofTree t := by
  cases h <;> rfl

/-- No part stands where it may not. -/
theorem checkPlaces_eq {rule : Rule} {parts : List Part} (called : ∀ p ∈ parts, p.rule ∈ (ruleBody rule).calls) :
    checkPlaces rule parts = .ok () := by
  have covered : ∀ rules, places? rule = some rules → ∀ r ∈ (ruleBody rule).calls, r ∈ rules := by
    intro rules listed
    unfold places? at listed
    split at listed <;> cases listed
    all_goals decide +kernel
  unfold checkPlaces
  split
  · rfl
  · rename_i rules listed
    have none : parts.find? (!rules.contains ·.rule) = none := by
      rw [List.find?_eq_none]
      intro p mem
      have := covered rules listed _ (called p mem)
      simpa using this
    simp only [none]

/-- The rules that a body calls stand for something, unless the body is that of type syntax. -/
theorem isSome_roleOf?_of_called {rule r : Rule} (looked : isLookedInto rule = true)
    (called : r ∈ (ruleBody rule).calls) : (roleOf? r).isSome = true := by
  have all : (ruleBody rule).calls.all (fun r => (roleOf? r).isSome) = true := by
    cases rule with
    | operator op => cases op <;> rfl
    | level tier => cases tier <;> rfl
    | _ => first | rfl | cases looked
  exact List.all_eq_true.1 all r called

/-- Trees become parts in order. -/
theorem buildAll_gives {ts : List (Derivation Rule)}
    (each : ∀ t ∈ ts, Gives (build t) fun part => part.Sound ∧ Becomes t part) :
    Gives (buildAll ts) fun parts => (∀ p ∈ parts, p.Sound) ∧ List.Forall₂ Becomes ts parts := by
  induction ts with
  | nil => exact .ok ⟨List.forall_mem_nil _, .nil⟩
  | cons t ts ih =>
    obtain ⟨first, rest⟩ := List.forall_mem_cons.1 each
    unfold buildAll
    refine .bind first fun part ⟨sound, becomes⟩ => ?_
    refine .bind (ih rest) fun parts ⟨sounds, all⟩ => ?_
    exact .ok ⟨List.forall_mem_cons.2 ⟨sound, sounds⟩, .cons becomes all⟩

theorem makes_of_typeKeyword? {rule : Rule} {keyword : String} (is : typeKeyword? rule = some keyword) (stmt : Stmt) :
    Makes rule (.stmt stmt) := by
  unfold typeKeyword? at is
  split at is <;> first | exact .of_role rfl rfl | cases is

theorem makes_of_erasure? {rule : Rule} {alone : Bool} (is : erasure? rule = some alone) : Makes rule .erased := by
  unfold erasure? at is
  split at is <;> first | exact .of_role rfl rfl | cases is

theorem sites_of_becomes {ts : List (Derivation Rule)} {parts : List Part} (h : List.Forall₂ Becomes ts parts) :
    parts.map (·.toSite) = ts.map Site.ofTree := by
  induction h with
  | nil => rfl
  | cons becomes _ ih => rw [List.map_cons, List.map_cons, ih, becomes.site]

theorem rules_of_becomes {ts : List (Derivation Rule)} {parts : List Part} (h : List.Forall₂ Becomes ts parts) :
    parts.map (·.rule) = ts.map Derivation.rule := by
  have sites := congrArg (List.map Site.rule) (sites_of_becomes h)
  rwa [List.map_map, List.map_map] at sites

/-- Every tree that fits the grammar and stands for something becomes a part. -/
theorem build_gives {t : Derivation Rule} (fits : Fits grammar t) (met : (roleOf? t.rule).isSome = true) :
    Gives (build t) fun part => part.Sound ∧ Becomes t part := by
  induction fits with
  | @node rule x start stop children visible body settled surrounded inside ih =>
    have whole : Fits grammar (.node rule start stop children) := .node visible body settled surrounded inside
    have spelled := spelled_of_fits whole
    unfold build
    cases keyword : typeKeyword? rule with
    | some keyword => exact .ok ⟨⟨makes_of_typeKeyword? keyword _, spelled⟩, .typeOnly keyword _⟩
    | none =>
      cases alone : erasure? rule with
      | some alone => exact .ok ⟨⟨makes_of_erasure? alone, spelled⟩, .erased alone⟩
      | none =>
        have looked : isLookedInto rule = true := by
          rw [isLookedInto, keyword, alone, show (roleOf? rule).isSome = true from met]
          rfl
        have called := Grammar.rule_mem_calls whole
        have each : ∀ t ∈ children, Gives (build t) fun part => part.Sound ∧ Becomes t part := fun t mem =>
          ih t mem (isSome_roleOf?_of_called looked (called t mem))
        obtain ⟨parts, built, sound, becomes⟩ := buildAll_gives each
        have rules := rules_of_becomes becomes
        have insideRule : ruleKind rule ≠ .token → Inside (ruleBody rule) parts := fun notToken =>
          ⟨sound, rules ▸ Grammar.rules_mem_words notToken whole⟩
        have placed : checkPlaces rule parts = .ok () := by
          refine checkPlaces_eq fun p mem => ?_
          obtain ⟨t, inside, same⟩ := List.mem_map.1 (rules ▸ List.mem_map_of_mem mem)
          exact same ▸ called t inside
        let site : Site := ⟨rule, start, stop⟩
        obtain ⟨made, assembled, fills⟩ : Gives (assemble site parts) (Fills site parts) :=
          assemble_fills looked insideRule
        refine .bind (P := (· = parts)) ⟨parts, built, rfl⟩ ?_
        rintro _ rfl
        refine .bind (P := fun _ => True) ⟨(), placed, trivial⟩ fun _ _ => ?_
        refine .bind (P := (· = made)) ⟨made, assembled, rfl⟩ ?_
        rintro _ rfl
        exact .ok ⟨⟨fills.piece, spelled⟩, .assembled looked becomes insideRule fills⟩

end FlowScript.Parse
