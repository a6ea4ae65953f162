import FlowScript.Proofs.Grammar.Script
import FlowScript.Proofs.Peg.Brackets
import FlowScript.Proofs.Peg.Greedy
import FlowScript.Proofs.Peg.Takes

/-!
# Brackets in a script

Trivia leaves the brackets as they are, as long as no line comment ends at a carriage return alone, which the pass over
the tokens does not take for the end of a line. Neither does a string, or any other match but a regular expression or a
template, whose text the pass may misread (`climbs_of_fits`).
-/

namespace FlowScript.Grammar
open FlowScript.Nesting (Climbs climb)
open FlowScript.Nesting.Token (Outside Stretch IsFlat isFlat_of_mem_none marks read_outside)
open FlowScript.Peg (Cursor Derivation Fits Matches)

/-- Every carriage return stands before a line feed. -/
def PairedReturns (text : List Char) : Prop := ∀ before after, text = before ++ '\r' :: after → after.head? = some '\n'

theorem PairedReturns.suffix {text rest : List Char} (h : PairedReturns (text ++ rest)) : PairedReturns rest :=
  fun before after is => h (text ++ before) after (by rw [is, List.append_assoc])

/-! ## Trivia -/

/-- Reading from a place goes on to another one outside of quotes and comments, and leaves the brackets as they are. -/
private def Passes (p : Nesting.Token.Place) (c c' : Cursor) : Prop :=
  ∃ ts p', Stretch c p ts c' p' ∧ Outside p' c'.rest ∧ climb 0 ts = some 0

private theorem Passes.stay {p : Nesting.Token.Place} {c : Cursor} (outside : Outside p c.rest) : Passes p c c :=
  ⟨[], p, .refl c p, outside, rfl⟩

private theorem Passes.cons {p : Nesting.Token.Place} {x : Char} {r : List Char} {n : Position} {c' : Cursor}
    (flat : ∀ begun ∈ (Nesting.Token.read p x r).1, IsFlat begun.1)
    (rest : Passes (Nesting.Token.read p x r).2 ⟨r, n.next x⟩ c') : Passes p ⟨x :: r, n⟩ c' := by
  obtain ⟨ts, p', stretch, outside, climbs⟩ := rest
  refine ⟨_, p', .char stretch, outside, ?_⟩
  cases begun : (Nesting.Token.read p x r).1 with
  | none => exact climbs
  | some token =>
    have stays := flat token begun 0
    simpa [climb, Nesting.Token.beginningAt, stays] using climbs

/-- A character that begins no token. -/
private theorem Passes.silent {p p' : Nesting.Token.Place} {x : Char} {r : List Char} {n : Position} {c' : Cursor}
    (reads : Nesting.Token.read p x r = (none, p')) (rest : Passes p' ⟨r, n.next x⟩ c') : Passes p ⟨x :: r, n⟩ c' := by
  refine .cons ?_ (reads ▸ rest)
  rw [reads]
  exact isFlat_of_mem_none

/-- Where the pass over the tokens is when the pass over trivia is at some place. Behind a line comment that ends at a
    carriage return it is still in the comment, up to the line feed. -/
private inductive Beside : Trivia.Place → Nesting.Token.Place → List Char → Prop
  | between {p : Nesting.Token.Place} {cs : List Char} (outside : Outside p cs) : Beside .between p cs
  | returned {cs : List Char} (feed : cs.head? = some '\n') : Beside .between .lineComment cs
  | line (cs : List Char) : Beside .line .lineComment cs
  | block (opened : Cursor) (cs : List Char) : Beside (.block opened) .blockComment cs

private theorem inert_of_isBlank {x : Char} (blank : Trivia.isBlank x = true) : x ∉ marks ∧ x ≠ '/' := by
  simp only [Trivia.isBlank, Bool.or_eq_true, beq_iff_eq] at blank
  rcases blank with ((((((((rfl | rfl) | rfl) | rfl) | rfl) | rfl) | rfl) | rfl) | rfl) | rfl <;> decide

/-- A blank is read outside of comments, or it ends a line comment. -/
private theorem Passes.blank {p : Nesting.Token.Place} {x : Char} {r : List Char} {n : Position} {c' : Cursor}
    (blank : Trivia.isBlank x = true) (beside : Beside .between p (x :: r))
    (rest : ∀ p, Beside .between p r → Passes p ⟨r, n.next x⟩ c') : Passes p ⟨x :: r, n⟩ c' := by
  obtain ⟨plain, slash⟩ := inert_of_isBlank blank
  cases beside with
  | between outside =>
    obtain ⟨flat, behind⟩ := read_outside outside plain fun is => absurd is slash
    exact .cons flat (rest _ (.between behind))
  | returned feed =>
    cases feed
    refine .cons ?_ (rest _ (.between (.code r)))
    rintro _ ⟨⟩ d
    rfl

/-- A comment begins where code is read. -/
private theorem Passes.comment {p : Nesting.Token.Place} {r : List Char} {n : Position} {c' : Cursor}
    (beside : Beside .between p ('/' :: r)) (rest : ∀ p, p = .code ∨ p = .word → Passes p ⟨'/' :: r, n⟩ c') :
    Passes p ⟨'/' :: r, n⟩ c' := by
  cases beside with
  | between outside =>
    cases outside with
    | code => exact rest _ (.inl rfl)
    | word => exact rest _ (.inr rfl)
    | passing r inert => simp at inert
  | returned feed => cases feed

/-- The pass over trivia and the pass over the tokens go along. -/
private theorem scan_passes {p : Nesting.Token.Place} {place : Trivia.Place} (cs : List Char) (n : Position)
    (tidy : PairedReturns cs) (beside : Beside place p cs) :
    place = .block (Trivia.scan place cs n) ∨ Passes p ⟨cs, n⟩ (Trivia.scan place cs n) := by
  have tail {x : Char} {r : List Char} (tidy : PairedReturns (x :: r)) : PairedReturns r :=
    @PairedReturns.suffix [x] r tidy
  have stop {p : Nesting.Token.Place} {c : Char} {r : List Char} {n : Position} (ink : ¬ Trivia.isBlank c = true)
      (beside : Beside .between p (c :: r)) : Passes p ⟨c :: r, n⟩ ⟨c :: r, n⟩ := by
    cases beside with
    | between outside => exact .stay outside
    | returned feed =>
      cases feed
      cases ink rfl
  fun_induction Trivia.scan place cs n generalizing p with
  | case1 n =>
    cases beside with
    | between outside => exact .inr (.stay outside)
    | returned feed => cases feed
  | case2 c n blank => exact .inr (.blank blank beside fun p beside => .stay (.done p))
  | case3 c n ink => exact .inr (stop ink beside)
  | case4 c d r n blank ih =>
    exact .inr (.blank blank beside fun p beside => (ih (tail tidy) beside).resolve_left (by simp))
  | case5 c d r n ink line ih =>
    obtain ⟨rfl, rfl⟩ := line
    have rest := (ih (tail (tail tidy)) (.line r)).resolve_left (by simp)
    refine .inr (.comment beside fun p place => ?_)
    rcases place with rfl | rfl <;> exact .silent rfl (.silent rfl rest)
  | case6 c d r n ink notLine block ih =>
    obtain ⟨rfl, rfl⟩ := block
    rcases ih (tail (tail tidy)) (.block _ r) with unclosed | rest
    · injection unclosed with unclosed
      rw [← unclosed]
      exact .inr (stop ink beside)
    · refine .inr (.comment beside fun p place => ?_)
      rcases place with rfl | rfl <;> exact .silent rfl (.silent rfl rest)
  | case7 c d r n ink notLine notBlock => exact .inr (stop ink beside)
  | case8 n => exact .inr (.stay (.done p))
  | case9 c r n ih =>
    cases beside
    have unopened {opened : Cursor} : (if Trivia.endsLine c then Trivia.Place.between else .line) ≠ .block opened := by
      split <;> simp
    by_cases feed : c = '\n'
    · subst feed
      refine .inr (.cons ?_ ((ih (tail tidy) (.between (.code r))).resolve_left unopened))
      rintro _ ⟨⟩ d
      rfl
    have stays : Nesting.Token.read .lineComment c r = (none, .lineComment) := if_neg feed
    have beside : Beside (if Trivia.endsLine c then .between else .line) .lineComment r := by
      cases returns : Trivia.endsLine c with
      | true =>
        have is : c = '\r' := by simpa [Trivia.endsLine, feed] using returns
        subst is
        exact .returned (tidy [] r rfl)
      | false => exact .line r
    have rest := (ih (tail tidy) beside).resolve_left unopened
    exact .inr (.silent stays rest)
  | case10 opened n => exact .inl rfl
  | case11 opened c n => exact .inl rfl
  | case12 opened c d r n closed ih =>
    obtain ⟨rfl, rfl⟩ := closed
    cases beside
    have rest := (ih (tail (tail tidy)) (.between (.code r))).resolve_left (by simp)
    exact .inr (.silent rfl (.silent rfl rest))
  | case13 opened c d r n inside ih =>
    cases beside
    have stays : Nesting.Token.read .blockComment c (d :: r) = (none, .blockComment) := by
      rw [Nesting.Token.read, if_neg]
      simpa using inside
    exact (ih (tail tidy) (.block opened _)).imp_right (.silent stays)

/-- Trivia leaves the brackets as they are. -/
theorem skip_climbs (c : Cursor) (tidy : PairedReturns c.rest) : Climbs c 0 (Trivia.skip c) 0 :=
  fun _ outside => (scan_passes c.rest c.place tidy (.between outside)).resolve_left nofun

/-! ## Strings and signs of division -/

section
variable {c c' : Cursor} {ts : List (Derivation Rule)}

/-- A piece of a string between two quotes. -/
private def stringPiece (quote : Char) : Body := .alt escaped (.char fun c => c != quote && c != '\\' && c != '\n')

/-- A character that begins no token. -/
private theorem stretch_one {x : Char} {r : List Char} {n : Position} {p p' : Nesting.Token.Place}
    (reads : Nesting.Token.read p x r = (none, p')) : Stretch ⟨x :: r, n⟩ p [] (Cursor.next n x r) p' := by
  have step : Stretch ⟨x :: r, n⟩ p _ (Cursor.next n x r) _ := .char (.refl _ _)
  rwa [reads] at step

private theorem stretch_of_stringPiece {quote : Char} (mark : quote ≠ '\\')
    (h : Matches grammar (stringPiece quote) .atomic c (some (ts, c'))) : Stretch c (.quote quote) [] c' (.quote quote) := by
  cases h with
  | altFirst escaped =>
    cases escaped with
    | seq backslash any =>
      cases backslash with
      | text comes =>
        obtain ⟨r, n, rfl, rfl⟩ := Cursor.exists_of_after?_singleton comes
        have first : Nesting.Token.read (.quote quote) '\\' r = (none, .passing (.quote quote)) := by
          rw [Nesting.Token.read, if_neg mark.symm, if_pos rfl]
        cases any with
        | char passes => exact (stretch_one first).append (stretch_one rfl)
  | altSecond _ other =>
    cases other with
    | char passes =>
      simp only [Bool.and_eq_true, bne_iff_ne] at passes
      obtain ⟨⟨other, bare⟩, -⟩ := passes
      exact stretch_one (by rw [Nesting.Token.read, if_neg other, if_neg bare])

/-- Pieces of a string are read in its quotes. -/
private theorem stretch_of_stringPieces {quote : Char} (mark : quote ≠ '\\') {x : Peg.Texture} (token : x = .atomic)
    (h : Matches grammar (.more (stringPiece quote)) x c (some (ts, c'))) :
    Stretch c (.quote quote) [] c' (.quote quote) := by
  generalize is : Peg.more (stringPiece quote) = e at h
  induction h using Matches.success with
  | more first _ _ ih =>
    cases is
    subst token
    exact (stretch_of_stringPiece mark first).append (ih rfl rfl)
  | moreNone => exact .refl _ _
  | _ => cases is

/-- A string opens with a token that is no bracket, and begins no other. -/
private theorem climbs_of_quoted {quote : Char} (mark : quote ∈ ['\x22', '\x27'])
    (h : Matches grammar (quoted quote) .atomic c (some (ts, c'))) : Climbs c 0 c' 0 := by
  have bare : quote ≠ '\\' := by rcases List.mem_pair.1 mark with rfl | rfl <;> decide
  have begun (r : List Char) : Nesting.Token.begins quote r = (some (.other, 1), .quote quote) := by
    rcases List.mem_pair.1 mark with rfl | rfl <;> rfl
  have plain : Nesting.Token.isWordChar quote = false ∧ quote ∉ ['?', '.', '>'] := by
    rcases List.mem_pair.1 mark with rfl | rfl <;> decide
  cases h with
  | seq opening rest =>
    cases opening with
    | text opens =>
      obtain ⟨r, n, rfl, rfl⟩ := Cursor.exists_of_after?_singleton opens
      cases rest with
      | @seq _ _ _ _ _ d _ _ inside closing =>
        have within : Stretch (Cursor.next n quote r) (.quote quote) [] d (.quote quote) := by
          cases inside with
          | star first rounds => exact (stretch_of_stringPiece bare first).append (stretch_of_stringPieces bare rfl rounds)
          | starNone => exact .refl _ _
        cases closing with
        | text closes =>
          obtain ⟨r', n', rfl, rfl⟩ := Cursor.exists_of_after?_singleton (c := d) closes
          have last : Stretch ⟨quote :: r', n'⟩ (.quote quote) [] (Cursor.next n' quote r') .code :=
            stretch_one (by rw [Nesting.Token.read, if_pos rfl])
          intro p outside
          have first : Stretch ⟨quote :: r, n⟩ p _ (Cursor.next n quote r) _ := .char (.refl _ _)
          rw [Nesting.Token.read_eq_begins outside plain.1 plain.2, begun] at first
          exact ⟨_, _, first.append (within.append last), .code _, rfl⟩

/-- A sign of division opens no comment. -/
private theorem climbs_of_division (h : Matches grammar (operatorBody .div) .atomic c (some (ts, c'))) :
    Climbs c 0 c' 0 := by
  cases h with
  | seq sign apart =>
    cases sign with
    | text comes =>
      obtain ⟨r, n, rfl, rfl⟩ := Cursor.exists_of_after?_singleton comes
      cases apart with
      | notAhead none =>
        have missing := @Matches.not_prefix_of_oneOf _ grammar _ _ ["/", "*", "="] none
        have apart (d : Char) (listed : String.ofList [d] ∈ ["/", "*", "="]) : r.head? ≠ some d := by
          intro front
          obtain ⟨rest, rfl⟩ := List.head?_eq_some_iff.1 front
          exact missing _ listed ⟨rest, by rw [String.toList_ofList]; rfl⟩
        exact .plain 0 (by decide) fun _ => ⟨apart '/' (by decide), apart '*' (by decide)⟩

end

/-! ## All matches -/

/-- The rules whose matches stand between brackets in a match of a rule, where they stand right inside it. -/
def bracketed : Rule → List Rule
  | .block => [.statement]
  | .functionDecl | .functionSig | .functionExpr | .objectMethod | .arrowParams => [.params]
  | .ifStmt | .whileStmt | .doWhileStmt | .optionalIndex | .indexAccess | .parenExpr | .templateSubst => [.expression]
  | .forStmt => [.forInit, .forTest, .forUpdate]
  | .forInOfStmt => [.forLeft, .forKind, .expression]
  | .catchClause => [.identifier, .objectPattern, .arrayPattern, .statedType]
  | .switchStmt => [.expression, .switchCase]
  | .importNamed => [.importSpec]
  | .exportTypeList | .exportList => [.exportSpec]
  | .objectPattern => [.restPattern, .patternPair, .patternShorthand]
  | .arrayPattern => [.patternHole, .restPattern, .bindingElement]
  | .callArgs | .optionalCall | .newArgs => [.argList]
  | .arrayLit => [.arrayHole, .spreadElem, .assignExpr]
  | .objectLit => [.spreadElem, .objectMethod, .objectPair, .objectShorthand]
  | .computedKey => [.assignExpr]
  | _ => []

/-- The rules of type syntax, which is not looked into. -/
def isTypes : Rule → Bool
  | .interfaceDecl | .enumDecl | .tsArraySuffix | .tsParenType | .tsTupleType | .tsFunctionType | .tsObjectType
  | .tsIndexSig | .tsMappedSig | .tsCallSig | .tsMethodSig => true
  | _ => false

/-- Whether a match of a rule may have so many brackets open in front of one of another rule. -/
def asks (rule child : Rule) (depth : Nat) : Bool :=
  isTypes rule || decide (depth = if (bracketed rule).contains child then 1 else 0)

/-- The rules of literals whose text the pass over the tokens may misread: a quote in a regular expression opens one for
    it, and a backquote in a substitution ends the template. -/
def isObscure : Rule → Bool
  | .regex | .template => true
  | _ => false

/-- The rules whose bodies do not show that the text leaves the brackets as they are. -/
private def isLiteral : Rule → Bool
  | .string | .templateChunk | .operator .div => true
  | rule => isObscure rule

/-- The body of a rule closes the brackets that it opens. -/
private theorem climbs_ruleBody {rule : Rule} (plain : isLiteral rule = false) :
    (ruleBody rule).climbs (asks rule) 0 = some 0 := by
  cases rule with
  | keyword word => cases word <;> decide +kernel
  | operator op => cases op <;> first | decide +kernel | cases plain
  | level tier => cases tier <;> decide +kernel
  | _ => first | decide +kernel | cases plain

/-- Raw text of a template stands only in a template. -/
private theorem templateChunk_not_called {rule : Rule} (other : rule ≠ .template) :
    Rule.templateChunk ∉ (ruleBody rule).calls := by
  cases rule with
  | keyword word => nofun
  | operator op => cases op <;> decide
  | level tier => cases tier <;> decide
  | template => exact absurd rfl other
  | _ => decide +kernel

/-- The trees right inside a match leave the brackets as they are, and before each of them those are open that the rule
    of the match says. -/
structure Enclosing (t : Derivation Rule) : Prop where
  flat : ∀ u ∈ t.children, Climbs u.start 0 u.stop 0
  climbs : ∀ u ∈ t.children, ∃ k, asks t.rule u.rule k = true ∧ Climbs t.start 0 u.start k

/-- A string and a sign of division leave the brackets as they are. -/
private theorem climbs_of_literal {rule : Rule} {x : Peg.Texture} {c c' : Cursor} {ts : List (Derivation Rule)}
    (literal : isLiteral rule = true) (plain : ¬ isObscure rule = true) (whole : rule ≠ .templateChunk)
    (body : Matches grammar (ruleBody rule) ((ruleKind rule).inBody x) c (some (ts, c'))) : Climbs c 0 c' 0 := by
  cases rule with
  | string =>
    cases body with
    | altFirst double => exact climbs_of_quoted (by decide) double
    | altSecond _ single => exact climbs_of_quoted (by decide) single
  | templateChunk => exact absurd rfl whole
  | operator op =>
    cases op with
    | div => exact climbs_of_division body
    | _ => cases literal
  | _ => first | exact absurd rfl plain | cases literal

/-- The body of a rule that is called where trees are kept keeps them, or calls nothing. -/
private theorem inBody_ne_atomic {rule : Rule} {x : Peg.Texture} (visible : (ruleKind rule).atCall x ≠ .atomic) :
    (ruleKind rule).inBody x ≠ .atomic ∨ (ruleBody rule).calls = [] := by
  by_cases token : ruleKind rule = .token
  · exact .inr (calls_of_token token)
  · left
    cases kind : ruleKind rule with
    | plain => rwa [kind] at visible
    | token => exact absurd kind token
    | compound | loose => nofun

/-- A match leaves the brackets as they are, and before each tree right inside it those are open that its rule says, if
    the regular expressions and templates in it are read so. -/
theorem climbs_of_fits {t : Derivation Rule} (fits : Fits grammar t) (tidy : PairedReturns t.start.rest)
    (clear : ∀ u, t.Holds u → isObscure u.rule = true → Climbs u.start 0 u.stop 0) (whole : t.rule ≠ .templateChunk) :
    Climbs t.start 0 t.stop 0 ∧ (isObscure t.rule = false → Enclosing t) := by
  induction fits with
  | @node rule x start stop children visible body settled surrounded inside ih =>
    have fits : Fits grammar (.node rule start stop children) := .node visible body settled surrounded inside
    by_cases obscure : isObscure rule = true
    · exact ⟨clear _ .self obscure, fun plain => absurd obscure (Bool.eq_false_iff.1 plain)⟩
    by_cases literal : isLiteral rule = true
    · refine ⟨climbs_of_literal literal obscure whole body, fun _ => ?_⟩
      have token : ruleKind rule = .token := by
        cases rule with
        | string | templateChunk | operator => rfl
        | _ => first | exact absurd rfl obscure | cases literal
      have none_ : (Derivation.node rule start stop children).children = [] := body.trees_eq_nil (calls_of_token token)
      refine ⟨?_, ?_⟩ <;> rw [none_] <;> exact List.forall_mem_nil _
    · have shows_ := climbs_ruleBody (Bool.eq_false_iff.2 literal)
      have other : rule ≠ .template := by
        rintro rfl
        exact obscure rfl
      have each : ∀ u ∈ children, Climbs u.start 0 u.stop 0 := fun u mem => by
        obtain ⟨lead, -, reach, -⟩ := (body.chain grammar_wellFormed).exists_reaches mem
        refine (ih u mem ?_ (fun v held => clear v (.inside mem held)) ?_).1
        · exact PairedReturns.suffix (reach.rest ▸ tidy)
        · intro is
          exact templateChunk_not_called other (is ▸ rule_mem_calls fits u mem)
      obtain ⟨level, enclosed⟩ := body.climbs grammar_wellFormed PairedReturns.suffix skip_climbs
        (inBody_ne_atomic visible) tidy shows_ each
      exact ⟨level, fun _ => ⟨each, enclosed⟩⟩

end FlowScript.Grammar
