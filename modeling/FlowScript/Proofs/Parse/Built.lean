import FlowScript.Proofs.Parse.Total

/-!
# What a match is built of

The part that a match becomes follows from the parts that the matches inside it become (`exists_of_build`). Words and
literals, and matches of nothing else, come without edits.
-/

namespace FlowScript.Parse
open FlowScript.Grammar (Rule ruleBody ruleKind)
open FlowScript.Peg (Derivation Fits)

/-- Each tree is built to its part. -/
abbrev Built : List (Derivation Rule) → List Part → Prop := List.Forall₂ fun t p => build t = .ok p

theorem built_of_buildAll {ts : List (Derivation Rule)} {ps : List Part} (h : buildAll ts = .ok ps) : Built ts ps := by
  induction ts generalizing ps with
  | nil => cases h; exact .nil
  | cons t ts ih =>
    rw [buildAll] at h
    cases first : build t with
    | error e => simp [first, bind, Except.bind] at h
    | ok p =>
      cases rest : buildAll ts with
      | error e => simp [first, rest, bind, Except.bind] at h
      | ok ps' =>
        simp only [first, rest, bind, Except.bind, Except.ok.injEq] at h
        subst h
        exact .cons first (ih rest)

/-- A match that is looked into is built from what is built of the matches inside it. -/
theorem exists_of_build {t : Derivation Rule} {p : Part} {rule : Rule} (built : build t = .ok p) (is : t.rule = rule)
    (noTypes : typeKeyword? rule = none) (stays : erasure? rule = none) :
    ∃ parts own, Built t.children parts ∧ assemble ⟨rule, t.start, t.stop⟩ parts = .ok (p.piece, own) ∧
      p.toSite = ⟨rule, t.start, t.stop⟩ ∧ p.edits = editsInside rule parts ++ own := by
  obtain ⟨rule', start, stop, children⟩ := t
  obtain rfl : rule' = rule := is
  unfold build at built
  simp only [noTypes, stays, bind, Except.bind] at built
  cases all : buildAll children with
  | error e => simp [all] at built
  | ok parts =>
    simp only [all] at built
    cases placed : checkPlaces rule' parts with
    | error e => simp [placed] at built
    | ok u =>
      simp only [placed] at built
      cases made : assemble ⟨rule', start, stop⟩ parts with
      | error e => simp [made] at built
      | ok pair =>
        simp only [made, Except.ok.injEq] at built
        subst built
        exact ⟨parts, pair.2, built_of_buildAll all, made, rfl, rfl⟩

theorem site_of_build {t : Derivation Rule} {p : Part} (built : build t = .ok p) : p.toSite = Site.ofTree t := by
  cases keyword : typeKeyword? t.rule with
  | some word =>
    obtain ⟨rule, start, stop, children⟩ := t
    simp only [build, show typeKeyword? rule = some word from keyword, Except.ok.injEq] at built
    rw [← built]
    rfl
  | none =>
    cases alone : erasure? t.rule with
    | some byItself =>
      obtain ⟨rule, start, stop, children⟩ := t
      simp only [build, show typeKeyword? rule = none from keyword, show erasure? rule = some byItself from alone,
        Except.ok.injEq] at built
      rw [← built]
      rfl
    | none =>
      obtain ⟨parts, own, -, -, site, -⟩ := exists_of_build built rfl keyword alone
      exact site

variable {t : Derivation Rule} {p : Part} {ts : List (Derivation Rule)} {ps : List Part}

theorem rule_of_build (built : build t = .ok p) : p.rule = t.rule := congrArg Site.rule (site_of_build built)

theorem Built.rules (h : Built ts ps) : ps.map (·.rule) = ts.map Derivation.rule := by
  induction h with
  | nil => rfl
  | cons built _ ih => rw [List.map_cons, List.map_cons, ih, rule_of_build built]

/-- What is asked of the rules of the parts is asked of those of the trees. -/
theorem Built.any_rule (h : Built ts ps) (P : Rule → Bool) : ps.any (fun p => P p.rule) = ts.any fun t => P t.rule := by
  have parts := List.any_map (f := fun p : Part => p.rule) (p := P) (l := ps)
  have trees := List.any_map (f := Derivation.rule) (p := P) (l := ts)
  rw [h.rules] at parts
  exact parts.symm.trans trees

/-- The rules of words and literals, which stand for their text. -/
def isWord : Rule → Bool
  | .keyword _ | .identifier | .identifierName | .string => true
  | _ => false

theorem of_isWord {rule : Rule} (word : isWord rule = true) :
    ruleKind rule = .token ∧ typeKeyword? rule = none ∧ erasure? rule = none ∧
      ∀ start stop parts, assemble ⟨rule, start, stop⟩ parts = Made.plain .token := by
  cases rule <;> first | exact ⟨rfl, rfl, rfl, fun _ _ _ => rfl⟩ | cases word

theorem editsInside_of_ne {rule : Rule} (other : rule ≠ .importDecl ∧ foldsEdits rule = false) (parts : List Part) :
    editsInside rule parts = parts.flatMap (·.edits) := by
  rw [editsInside, if_neg]
  rintro (folds | both)
  · exact Bool.eq_false_iff.1 other.2 folds
  · exact other.1 both.1

/-- A match without edits of its own has those of the matches inside it. -/
theorem exists_of_build_plain {rule : Rule} {piece : List Part → Piece} (built : build t = .ok p) (is : t.rule = rule)
    (noTypes : typeKeyword? rule = none) (stays : erasure? rule = none)
    (other : rule ≠ .importDecl ∧ foldsEdits rule = false)
    (plain : ∀ start stop parts, assemble ⟨rule, start, stop⟩ parts = Made.plain (piece parts)) :
    ∃ parts, Built t.children parts ∧ p.piece = piece parts ∧ p.edits = parts.flatMap (·.edits) := by
  obtain ⟨parts, own, all, assembled, -, edits⟩ := exists_of_build built is noTypes stays
  rw [plain, Made.plain, Except.ok.injEq, Prod.mk.injEq] at assembled
  obtain ⟨made, rfl⟩ := assembled
  exact ⟨parts, all, made.symm, by rw [edits, editsInside_of_ne other, List.append_nil]⟩

/-- A word has no edits. -/
theorem build_word (fits : Fits grammar t) (word : isWord t.rule = true) (built : build t = .ok p) :
    p.piece = .token ∧ p.edits = [] := by
  obtain ⟨token, noTypes, stays, plain⟩ := of_isWord word
  have flat : t.children = [] := by
    cases fits with
    | node visible body => exact body.trees_eq_nil (Grammar.calls_of_token token)
  have other : t.rule ≠ .importDecl ∧ foldsEdits t.rule = false := by
    revert word
    cases t.rule <;> intro word <;> first | (cases word; done) | exact ⟨nofun, rfl⟩
  obtain ⟨parts, all, piece, edits⟩ := exists_of_build_plain built rfl noTypes stays other plain
  rw [flat] at all
  cases all
  exact ⟨piece, edits⟩

theorem Built.edits_eq_nil (h : Built ts ps) (quiet : ∀ t ∈ ts, ∀ p, build t = .ok p → p.edits = []) :
    ps.flatMap (·.edits) = [] := by
  refine List.flatMap_eq_nil_iff.2 fun p mem => ?_
  obtain ⟨t, inside, built⟩ := exists_of_forall₂ h mem
  exact quiet t inside p built

/-- Words have no edits. -/
theorem Built.edits_of_words (h : Built ts ps) (words : ∀ t ∈ ts, Fits grammar t ∧ isWord t.rule = true) :
    ps.flatMap (·.edits) = [] :=
  h.edits_eq_nil fun t mem _ built => (build_word (words t mem).1 (words t mem).2 built).2

theorem inside_of_fits (fits : Fits grammar t) :
    ∀ u ∈ t.children, Fits grammar u ∧ u.rule ∈ (ruleBody t.rule).calls := by
  obtain ⟨rule, start, stop, children⟩ := t
  intro u mem
  have called := Grammar.rule_mem_calls fits u mem
  cases fits with
  | node visible body settled surrounded inside => exact ⟨inside u mem, called⟩

/-- A match of nothing but words has no edits. -/
theorem build_words {rule : Rule} {piece : List Part → Piece} (fits : Fits grammar t) (built : build t = .ok p)
    (is : t.rule = rule) (noTypes : typeKeyword? rule = none) (stays : erasure? rule = none)
    (other : rule ≠ .importDecl ∧ foldsEdits rule = false)
    (plain : ∀ start stop parts, assemble ⟨rule, start, stop⟩ parts = Made.plain (piece parts))
    (words : ∀ r ∈ (ruleBody rule).calls, isWord r = true) :
    ∃ parts, Built t.children parts ∧ p.piece = piece parts ∧ p.edits = [] := by
  obtain ⟨parts, all, made, edits⟩ := exists_of_build_plain built is noTypes stays other plain
  refine ⟨parts, all, made, edits.trans (all.edits_of_words fun u mem => ?_)⟩
  obtain ⟨fitsInside, called⟩ := inside_of_fits fits u mem
  exact ⟨fitsInside, words _ (is ▸ called)⟩

theorem becomes_of_build {t : Derivation Rule} (fits : Fits grammar t) (met : (roleOf? t.rule).isSome = true)
    (built : build t = .ok p) : Becomes t p := by
  obtain ⟨part, same, -, becomes⟩ := build_gives fits met
  rw [built] at same
  cases same
  exact becomes

theorem exists_of_build_program {t : Derivation Rule} (is : t.rule = .program) (built : build t = .ok p) :
    ∃ parts, Built t.children parts ∧ p.edits = parts.flatMap (·.edits) := by
  obtain ⟨parts, own, all, made, -, edits⟩ := exists_of_build built is rfl rfl
  refine ⟨parts, all, ?_⟩
  have none : own = [] := by
    simp only [assemble, Made.plain, bind, Except.bind] at made
    split at made
    · cases made
    · exact (Prod.mk.inj (Except.ok.inj made)).2.symm
  rw [edits, none, editsInside_of_ne (by decide), List.append_nil]

end FlowScript.Parse
