import FlowScript.Proofs.Erasure.Names
import FlowScript.Proofs.Peg.Takes

/-!
# Imports and exports with lists of names

An import has its list in its clause, an export right inside. The declaration goes as a whole when it is marked as one
of types, or binds something and types only (`vanishes`); otherwise it has the edits of its list (`edits_of_build`).
-/

namespace FlowScript.Grammar

/-- The one rule that calls a rule of declarations, if the rule is one of them; no rule calls that of the whole
    program. -/
def isCalledBy (caller called : Rule) : Bool :=
  match called with
  | .importDecl | .exportDecl => caller = .program
  | .importClause => caller = .importDecl
  | .importNamed => caller = .importClause
  | .exportTypeList | .exportList => caller = .exportDecl
  | .program => false
  | _ => true

theorem isCalledBy_of_mem_calls (r : Rule) : ∀ s ∈ (ruleBody r).calls, isCalledBy r s = true := by
  cases r with
  | keyword word => cases word <;> decide
  | operator op => cases op <;> decide
  | level tier => cases tier <;> decide
  | _ => decide +kernel

end FlowScript.Grammar

namespace FlowScript.Parse
open FlowScript.Grammar (Rule ruleBody ruleKind)
open FlowScript.Peg (Cursor Derivation Fits Matches)

/-- Whether a match is an import or an export. -/
def isDeclaration (t : Derivation Rule) : Bool := t.rule = .importDecl || t.rule = .exportDecl

/-- What a default, a namespace or a list of names binds. -/
def bindingsIn (t : Derivation Rule) : List (Derivation Rule) :=
  if isList t then names t else if t.rule = .importDefault || t.rule = .importNamespace then [t] else []

/-- What a declaration binds; in an import that stands in its clause. -/
def bindings (decl : Derivation Rule) : List (Derivation Rule) :=
  decl.children.flatMap fun t => if t.rule = .importClause then t.children.flatMap bindingsIn else bindingsIn t

/-- Whether a declaration is marked as one of types as a whole: an import by itself, an export at its list. -/
def marksTypes (decl : Derivation Rule) : Bool := isMarked decl || decl.children.any isMarked

/-- Whether a declaration goes as a whole: it is marked as one of types, or binds something and types only. -/
def vanishes (decl : Derivation Rule) : Bool :=
  marksTypes decl || !(bindings decl).isEmpty && (bindings decl).all isMarked

/-! ## Where lists stand -/

/-- A declaration has a list of names, in its clause or by itself. -/
inductive HasList (decl list : Derivation Rule) : Prop
  | imported {clause} (is : decl.rule = .importDecl) (inDecl : clause ∈ decl.children)
    (isClause : clause.rule = .importClause) (inClause : list ∈ clause.children) (named : list.rule = .importNamed)
  | exported (is : decl.rule = .exportDecl) (inDecl : list ∈ decl.children)
    (named : list.rule = .exportTypeList ∨ list.rule = .exportList)

/-- A match stands right inside one of a rule that calls its own. -/
theorem eq_or_exists_caller {t u : Derivation Rule} (fits : Fits grammar t) (held : t.Holds u) :
    t = u ∨ ∃ v, t.Holds v ∧ u ∈ v.children ∧ Grammar.isCalledBy v.rule u.rule = true := by
  refine held.eq_or_parent.imp_right ?_
  rintro ⟨v, held, child⟩
  obtain ⟨-, called⟩ := inside_of_fits (fits.of_holds held) u child
  exact ⟨v, held, child, Grammar.isCalledBy_of_mem_calls v.rule _ called⟩

/-- A whole program stands in nothing else. -/
theorem eq_of_holds_program {t u : Derivation Rule} (fits : Fits grammar t) (held : t.Holds u)
    (is : u.rule = .program) : t = u := by
  refine (eq_or_exists_caller fits held).resolve_right ?_
  rintro ⟨v, -, -, calls⟩
  rw [is] at calls
  cases calls

/-- Imports and exports stand in the program only. -/
theorem eq_or_exists_program {t decl : Derivation Rule} (fits : Fits grammar t) (held : t.Holds decl)
    (is : isDeclaration decl = true) : t = decl ∨ t.rule = .program ∧ decl ∈ t.children := by
  refine (eq_or_exists_caller fits held).imp_right ?_
  rintro ⟨v, held, child, calls⟩
  have program : v.rule = .program := by
    simp only [isDeclaration, Bool.or_eq_true, decide_eq_true_eq] at is
    rcases is with is | is <;> simpa [Grammar.isCalledBy, is] using calls
  obtain rfl := eq_of_holds_program fits held program
  exact ⟨program, child⟩

theorem lists_of_holds {decl list : Derivation Rule} (fits : Fits grammar decl) (is : isDeclaration decl = true)
    (held : decl.Holds list) (named : isList list = true) : HasList decl list := by
  have isRule : decl.rule = .importDecl ∨ decl.rule = .exportDecl := by simpa [isDeclaration] using is
  -- a declaration that holds another is that other
  have only : ∀ {t}, decl.Holds t → isDeclaration t = true → decl = t := by
    intro t held is'
    refine (eq_or_exists_program fits held is').resolve_right ?_
    rintro ⟨program, -⟩
    rcases isRule with is | is <;> cases is.symm.trans program
  have isNamed : list.rule = .importNamed ∨ list.rule = .exportTypeList ∨ list.rule = .exportList := by
    simpa [isList, or_assoc] using named
  obtain ⟨v, heldCaller, child, calls⟩ := (eq_or_exists_caller fits held).resolve_left (by
    rintro rfl
    rcases isRule with is | is <;> simp [is] at isNamed)
  rcases isNamed with isImport | isExport
  · have isClause : v.rule = .importClause := by simpa [Grammar.isCalledBy, isImport] using calls
    obtain ⟨w, heldDecl, childOfDecl, callsClause⟩ := (eq_or_exists_caller fits heldCaller).resolve_left (by
      rintro rfl
      rcases isRule with is | is <;> cases is.symm.trans isClause)
    have isDecl : w.rule = .importDecl := by simpa [Grammar.isCalledBy, isClause] using callsClause
    obtain rfl := only heldDecl (by simp [isDeclaration, isDecl])
    exact .imported isDecl childOfDecl isClause child isImport
  · have isDecl : v.rule = .exportDecl := by
      rcases isExport with is | is <;> simpa [Grammar.isCalledBy, is] using calls
    obtain rfl := only heldCaller (by simp [isDeclaration, isDecl])
    exact .exported isDecl child isExport

/-! ## What becomes of imports and exports -/

variable {list : Derivation Rule} {p : Part}

/-- A list of names stands in an import's clause alone, or after a default. -/
theorem children_of_clause {clause : Derivation Rule} (fits : Fits grammar clause) (is : clause.rule = .importClause)
    (mem : list ∈ clause.children) (named : list.rule = .importNamed) :
    clause.children = [list] ∨ ∃ default, clause.children = [default, list] ∧ default.rule = .importDefault := by
  obtain ⟨rule, start, stop, children⟩ := clause
  cases is
  change list ∈ children at mem
  -- what is one of trees with a single rule is that tree, and has the rule
  have only : ∀ {r : Rule} {ts : List (Derivation Rule)}, ts.map Derivation.rule = [r] → list ∈ ts →
      ts = [list] ∧ r = .importNamed := by
    intro r ts rules among
    obtain ⟨t, rfl, is⟩ := List.map_eq_singleton_iff.1 rules
    obtain rfl := List.mem_singleton.1 among
    exact ⟨rfl, is.symm.trans named⟩
  rcases Grammar.rules_mem_words (by decide) fits with ⟨u, rfl, v, hv, joined⟩ | word | word
  · obtain ⟨ds, rest, rfl, first, rfl⟩ := List.map_eq_append_iff.1 joined.symm
    rcases List.mem_append.1 mem with isFirst | later
    · cases (only first isFirst).2
    · obtain ⟨default, rfl, is⟩ := List.map_eq_singleton_iff.1 first
      rcases hv with none | ⟨w, rfl, x, star | word, joined⟩
      · cases List.map_eq_nil_iff.1 none
        cases later
      · cases (only (joined.symm.trans star) later).2
      · exact .inr ⟨default, by rw [(only (joined.symm.trans word) later).1]; rfl, is⟩
  · cases (only word mem).2
  · exact .inl (only word mem).1

/-- A clause with a list has the edits of the list, and binds a value unless the list is all of it and names types
    only. -/
theorem build_importClause {clause : Derivation Rule} (fits : Fits grammar clause) (is : clause.rule = .importClause)
    (mem : list ∈ clause.children) (named : list.rule = .importNamed) (built : build clause = .ok p) :
    p.edits = rewriting list list.stop.offset ∧
      (bindsValue p = false ↔ clause.children.length = 1 ∧ namesTypesOnly list = true) := by
  have inside := inside_of_fits fits
  obtain ⟨parts, all, piece, edits⟩ := exists_of_build_plain built is rfl rfl (by decide) fun _ _ _ => rfl
  rcases children_of_clause fits is mem named with alone | ⟨default, beside, isDefault⟩
  · rw [alone] at all
    obtain ⟨q, _, builtList, none, rfl⟩ := List.forall₂_cons_left_iff.1 all
    cases none
    obtain ⟨pieceList, editsList⟩ := build_importNamed (inside list mem).1 named builtList
    refine ⟨by simpa using edits.trans (by simp [editsList]), ?_⟩
    simp [bindsValue, piece, pieceList, alone]
  · rw [beside] at all
    obtain ⟨q, _, builtDefault, rest, rfl⟩ := List.forall₂_cons_left_iff.1 all
    obtain ⟨q', _, builtList, none, rfl⟩ := List.forall₂_cons_left_iff.1 rest
    cases none
    obtain ⟨pieceDefault, editsDefault⟩ :=
      build_binding (inside default (by simp [beside])).1 (.inl isDefault) builtDefault
    obtain ⟨pieceList, editsList⟩ := build_importNamed (inside list mem).1 named builtList
    refine ⟨edits.trans (by simp [editsDefault, editsList]), ?_⟩
    simp [bindsValue, piece, pieceDefault, beside]

/-- An import's clause stands among words. -/
theorem children_of_import {decl clause : Derivation Rule} (fits : Fits grammar decl) (is : decl.rule = .importDecl)
    (mem : clause ∈ decl.children) (isClause : clause.rule = .importClause) :
    ∃ before after, decl.children = before ++ clause :: after ∧
      ∀ t ∈ before ++ after, Fits grammar t ∧ isWord t.rule = true := by
  have once : (decl.children.map Derivation.rule).count .importClause ≤ 1 := by
    obtain ⟨rule, start, stop, children⟩ := decl
    cases is
    obtain ⟨u, rfl, v, ⟨w, hw, x, hx, rfl⟩, joined⟩ := Grammar.rules_mem_words (by decide) fits
    change (children.map Derivation.rule).count .importClause ≤ 1
    have none : x = [] := hx.elim id id
    rw [← joined, none]
    rcases hw with ⟨mark, hmark, y, ⟨v, rfl, z, ⟨v', rfl, v'', rfl, rfl⟩, rfl⟩, rfl⟩ | word
    · rcases hmark with rfl | rfl <;> decide
    · rw [show w = [.string] from word]
      decide
  obtain ⟨before, after, split⟩ := List.append_of_mem mem
  refine ⟨before, after, split, fun t among => ?_⟩
  have child : t ∈ decl.children := by
    rw [split]
    exact List.mem_append.2 ((List.mem_append.1 among).imp_right (List.mem_cons_of_mem _))
  obtain ⟨fitsInside, called⟩ := inside_of_fits fits t child
  rw [is] at called
  have kinds : ∀ r ∈ (ruleBody .importDecl).calls, r = .importClause ∨ isWord r = true := by decide
  refine ⟨fitsInside, (kinds _ called).resolve_left fun again => ?_⟩
  have another : 0 < ((before ++ after).map Derivation.rule).count .importClause :=
    List.count_pos_iff.2 (List.mem_map.2 ⟨t, among, again⟩)
  rw [List.map_append, List.count_append] at another
  rw [split, List.map_append, List.map_cons, isClause, List.count_append, List.count_cons_self] at once
  omega

/-- An import goes with its line when it is marked as one of types, or when its clause binds no value. -/
theorem importDecl_own {site : Site} {parts : List Part} {clause : Part} {piece : Piece} {own : List Edit}
    (found : parts.find? (·.rule = .importClause) = some clause) (made : importDecl site parts = .ok (piece, own)) :
    own = if parts.any (·.isKeyword .typeWord) || !bindsValue clause then [site.lineRemoval] else [] := by
  rw [importDecl, found] at made
  exact (Prod.mk.inj (Except.ok.inj made)).2.symm

/-- What becomes of an import with a list of names. -/
theorem build_importDecl {decl clause : Derivation Rule} (fits : Fits grammar decl) (is : decl.rule = .importDecl)
    (inDecl : clause ∈ decl.children) (isClause : clause.rule = .importClause) (inClause : list ∈ clause.children)
    (named : list.rule = .importNamed) (built : build decl = .ok p) :
    p.edits = if isMarked decl ∨ clause.children.length = 1 ∧ namesTypesOnly list then [(Site.ofTree decl).lineRemoval]
      else rewriting list list.stop.offset := by
  obtain ⟨before, after, split, words⟩ := children_of_import fits is inDecl isClause
  rw [List.forall_mem_append] at words
  obtain ⟨parts, own, all, made, -, edits⟩ := exists_of_build built is rfl rfl
  have marked : parts.any (·.isKeyword .typeWord) = isMarked decl := all.any_rule (· = .keyword .typeWord)
  rw [split] at all
  obtain ⟨ps, rest, rfl, allBefore, allRest⟩ := exists_of_forall₂_append_left all
  obtain ⟨q, qs, builtClause, allAfter, rfl⟩ := List.forall₂_cons_left_iff.1 allRest
  have fitsClause := (inside_of_fits fits clause inDecl).1
  obtain ⟨editsClause, binds⟩ := build_importClause fitsClause isClause inClause named builtClause
  have inner : (ps ++ q :: qs).flatMap (·.edits) = rewriting list list.stop.offset := by
    have quietBefore := Built.edits_of_words allBefore words.1
    have quietAfter := Built.edits_of_words allAfter words.2
    rw [List.flatMap_append, List.flatMap_cons, quietBefore, quietAfter, editsClause, List.nil_append, List.append_nil]
  have found : (ps ++ q :: qs).find? (·.rule = .importClause) = some q := by
    have none : ∀ r ∈ ps, ¬decide (r.rule = .importClause) = true := by
      intro r mem isClause
      obtain ⟨t, among, built⟩ := exists_of_forall₂ allBefore mem
      have word := (words.1 t among).2
      rw [← rule_of_build built, of_decide_eq_true isClause] at word
      cases word
    have isHere : q.rule = .importClause := (rule_of_build builtClause).trans isClause
    rw [List.find?_append, List.find?_eq_none.2 none, Option.none_or]
    simp [isHere]
  have own_ := importDecl_own found made
  rw [marked] at own_
  rw [edits, own_, editsInside, marked, inner, Site.ofTree, is]
  cases isMarked decl with
  | true => simp
  | false =>
    cases binds_ : bindsValue q with
    | true =>
      have stays : ¬(clause.children.length = 1 ∧ namesTypesOnly list = true) := fun goes => by
        rw [binds.2 goes] at binds_
        cases binds_
      simp [foldsEdits, stays]
    | false =>
      have goes := binds.1 binds_
      simp [goes, rewriting_of_namesTypesOnly goes.2]

/-- An export with a list of names has its word and the list. -/
theorem children_of_export {decl : Derivation Rule} (fits : Fits grammar decl) (is : decl.rule = .exportDecl)
    (mem : list ∈ decl.children) (named : list.rule = .exportTypeList ∨ list.rule = .exportList) :
    ∃ word, decl.children = [word, list] ∧ word.rule = .keyword .exportWord := by
  obtain ⟨rule, start, stop, children⟩ := decl
  cases is
  obtain ⟨u, rfl, v, hv, joined⟩ := Grammar.rules_mem_words (by decide) fits
  obtain ⟨r, -, rfl⟩ := Peg.exists_of_single hv rfl
  obtain ⟨word, rest, rfl, isExport, rules⟩ := List.map_eq_cons_iff.1 joined.symm
  obtain ⟨t, rfl, -⟩ := List.map_eq_singleton_iff.1 rules
  rcases List.mem_pair.1 mem with rfl | rfl
  · rcases named with is | is <;> cases is.symm.trans isExport
  · exact ⟨word, rfl, isExport⟩

/-- What becomes of an export with a list of names. -/
theorem build_exportDecl {decl : Derivation Rule} (fits : Fits grammar decl) (is : decl.rule = .exportDecl)
    (inDecl : list ∈ decl.children) (named : list.rule = .exportTypeList ∨ list.rule = .exportList)
    (built : build decl = .ok p) :
    p.edits = if list.rule = .exportTypeList ∨ namesTypesOnly list then [(Site.ofTree decl).lineRemoval]
      else rewriting list (braceStop list) := by
  have inside := inside_of_fits fits
  have fitsList := (inside list inDecl).1
  obtain ⟨word, split, isExport⟩ := children_of_export fits is inDecl named
  obtain ⟨parts, own, all, made, -, edits⟩ := exists_of_build built is rfl rfl
  rw [split] at all
  obtain ⟨q, _, builtWord, rest, rfl⟩ := List.forall₂_cons_left_iff.1 all
  obtain ⟨q', _, builtList, none, rfl⟩ := List.forall₂_cons_left_iff.1 rest
  cases none
  have inner : editsInside .exportDecl [q, q'] = q'.edits := by
    have quiet : q.edits = [] := (build_word (inside word (by simp [split])).1 (by rw [isExport]; rfl) builtWord).2
    rw [editsInside_of_ne (by decide), List.flatMap_cons, List.flatMap_singleton, quiet, List.nil_append]
  have exported : [q, q'].filter (!·.isKeyword .exportWord) = [q'] := by
    rcases named with is | is <;> simp [Part.isKeyword, rule_of_build builtWord, isExport, rule_of_build builtList, is]
  have made : exportDecl (Site.ofTree decl) [q, q'] = .ok (p.piece, own) := by
    rw [Site.ofTree, is]
    exact made
  simp only [exportDecl, exported, rule_of_build builtList] at made
  rw [edits, inner]
  rcases named with isTypes | isExport
  · have quiet := build_exportTypeList fitsList isTypes builtList
    rw [isTypes] at made
    rw [quiet, if_pos (.inl isTypes), ← (Prod.mk.inj (Except.ok.inj made)).2]
    rfl
  · obtain ⟨piece, editsList⟩ := build_exportList fitsList isExport builtList
    simp only [isExport, piece] at made
    rw [editsList, ← (Prod.mk.inj (Except.ok.inj made)).2]
    cases only : namesTypesOnly list with
    | true => simp [rewriting_of_namesTypesOnly only]
    | false => simp [isExport]

/-! ## Bindings -/

theorem isMarked_eq_false {t : Derivation Rule} (fits : Fits grammar t)
    (never : Rule.keyword .typeWord ∉ (ruleBody t.rule).calls) : isMarked t = false := by
  refine List.any_eq_false.2 fun u mem is => never ?_
  obtain ⟨-, called⟩ := inside_of_fits fits u mem
  rwa [of_decide_eq_true is] at called

theorem isMarked_of_isWord {t : Derivation Rule} (fits : Fits grammar t) (word : isWord t.rule = true) :
    isMarked t = false := by
  obtain ⟨token, -⟩ := of_isWord word
  exact isMarked_eq_false fits (by simp [Grammar.calls_of_token token])

/-- A list binds nothing but types exactly when it names types only. -/
theorem all_isMarked_names (list : Derivation Rule) :
    (!(names list).isEmpty && (names list).all isMarked) = namesTypesOnly list := by
  have none : (!namesValue list) = (names list).all isMarked := by simp [namesValue, List.all_eq_not_any_not]
  rw [namesTypesOnly, none, namesType]
  cases names list with
  | nil => rfl
  | cons name others => cases marked : isMarked name <;> simp [marked]

/-- A word binds nothing. -/
theorem bindingsIn_of_isWord {t : Derivation Rule} (word : isWord t.rule = true) :
    t.rule ≠ .importClause ∧ bindingsIn t = [] := by
  unfold bindingsIn isList
  cases is : t.rule <;> first | simp; done | (rw [is] at word; cases word)

/-- What an import binds stands in its clause, and it is marked by itself only. -/
theorem bindings_import {decl clause : Derivation Rule} (fits : Fits grammar decl) (is : decl.rule = .importDecl)
    (inDecl : clause ∈ decl.children) (isClause : clause.rule = .importClause) :
    bindings decl = clause.children.flatMap bindingsIn ∧ marksTypes decl = isMarked decl := by
  have inside := inside_of_fits fits
  obtain ⟨before, after, split, words⟩ := children_of_import fits is inDecl isClause
  have clauseUnmarked : isMarked clause = false := isMarked_eq_false (inside clause inDecl).1 (by rw [isClause]; decide)
  have unmarked : ∀ t ∈ before ++ after, isMarked t = false := fun t mem =>
    isMarked_of_isWord (words t mem).1 (words t mem).2
  rw [List.forall_mem_append] at unmarked words
  have quiet : ∀ ts : List (Derivation Rule), (∀ t ∈ ts, Fits grammar t ∧ isWord t.rule = true) →
      (ts.flatMap fun t => if t.rule = .importClause then t.children.flatMap bindingsIn else bindingsIn t) = [] := by
    intro ts words
    refine List.flatMap_eq_nil_iff.2 fun t mem => ?_
    obtain ⟨other, nothing⟩ := bindingsIn_of_isWord (words t mem).2
    rw [if_neg other, nothing]
  constructor
  · rw [bindings, split, List.flatMap_append, List.flatMap_cons, quiet before words.1, quiet after words.2,
      if_pos isClause]
    simp
  · have none : decl.children.any isMarked = false := by
      rw [split, List.any_append, List.any_cons, clauseUnmarked, List.any_eq_false.2 (by simpa using unmarked.1),
        List.any_eq_false.2 (by simpa using unmarked.2)]
      rfl
    rw [marksTypes, none, Bool.or_false]

theorem vanishes_import {decl clause : Derivation Rule} (fits : Fits grammar decl) (is : decl.rule = .importDecl)
    (inDecl : clause ∈ decl.children) (isClause : clause.rule = .importClause) (inClause : list ∈ clause.children)
    (named : list.rule = .importNamed) :
    vanishes decl = true ↔ isMarked decl = true ∨ clause.children.length = 1 ∧ namesTypesOnly list = true := by
  obtain ⟨binds, marks⟩ := bindings_import fits is inDecl isClause
  have fitsClause := (inside_of_fits fits clause inDecl).1
  have ofList : bindingsIn list = names list := by simp [bindingsIn, isList, named]
  rw [vanishes, marks, binds, Bool.or_eq_true]
  refine or_congr_right ?_
  rcases children_of_clause fitsClause isClause inClause named with alone | ⟨default, beside, isDefault⟩
  · rw [alone, List.flatMap_singleton, ofList, all_isMarked_names]
    simp
  · -- a default is a value
    have unmarked : isMarked default = false :=
      isMarked_eq_false (inside_of_fits fitsClause default (by simp [beside])).1 (by rw [isDefault]; decide)
    have ofDefault : bindingsIn default = [default] := by simp [bindingsIn, isList, isDefault]
    simp [beside, ofDefault, unmarked]

theorem vanishes_export {decl : Derivation Rule} (fits : Fits grammar decl) (is : decl.rule = .exportDecl)
    (inDecl : list ∈ decl.children) (named : list.rule = .exportTypeList ∨ list.rule = .exportList) :
    vanishes decl = true ↔ list.rule = .exportTypeList ∨ namesTypesOnly list = true := by
  obtain ⟨word, split, isExport⟩ := children_of_export fits is inDecl named
  have inside := inside_of_fits fits
  have fitsList := (inside list inDecl).1
  have isWord : isWord word.rule = true := by rw [isExport]; rfl
  obtain ⟨notClause, nothing⟩ := bindingsIn_of_isWord isWord
  have binds : bindings decl = names list := by
    have ofList : list.rule ≠ .importClause ∧ bindingsIn list = names list := by
      rcases named with is | is <;> simp [bindingsIn, isList, is]
    simp [bindings, split, notClause, nothing, ofList]
  have marks : isMarked list = true ↔ list.rule = .exportTypeList := by
    rcases named with is | is
    · obtain ⟨rule, start, stop, children⟩ := list
      cases is
      obtain ⟨u, rfl, v, -, joined⟩ := Grammar.rules_mem_words (by decide) fitsList
      obtain ⟨mark, others, rfl, isMark, -⟩ := List.map_eq_cons_iff.1 joined.symm
      exact iff_of_true (List.any_eq_true.2 ⟨mark, List.mem_cons_self, decide_eq_true isMark⟩) rfl
    · have never := isMarked_eq_false fitsList (by rw [is]; decide)
      simp [never, is]
  have wordUnmarked : isMarked word = false := isMarked_of_isWord (inside word (by simp [split])).1 isWord
  have unmarked : isMarked decl = false := isMarked_eq_false fits (by rw [is]; decide)
  rw [vanishes, binds, all_isMarked_names, marksTypes, unmarked, split, Bool.or_eq_true, ← marks]
  simp [wordUnmarked]

/-! ## The edits of a declaration -/

/-- The edits of a declaration with a list: the whole line, when it vanishes, or the list, when it names types beside
    values. -/
theorem edits_of_build {decl : Derivation Rule} (fits : Fits grammar decl) (lists : HasList decl list)
    (built : build decl = .ok p) :
    p.edits = if vanishes decl then [(Site.ofTree decl).lineRemoval] else rewriting list (listStop list) := by
  cases lists with
  | @imported clause is inDecl isClause inClause named =>
    have stop : listStop list = list.stop.offset := by simp [listStop, named]
    simp only [build_importDecl fits is inDecl isClause inClause named built, stop,
      vanishes_import fits is inDecl isClause inClause named]
  | exported is inDecl named =>
    simp only [build_exportDecl fits is inDecl named built, vanishes_export fits is inDecl named]
    rcases named with isTypes | isExport
    · rw [if_pos (.inl isTypes), if_pos (.inl isTypes)]
    · have stop : listStop list = braceStop list := by simp [listStop, isExport]
      rw [stop]

/-- Types that stay in a list stand beside a default. -/
theorem exists_default {decl : Derivation Rule} (fits : Fits grammar decl) (lists : HasList decl list)
    (remains : vanishes decl = false) (pure : mixes list = false) (types : namesType list = true) :
    ∃ default ∈ bindings decl, default.rule = .importDefault := by
  have only : namesTypesOnly list = true := by
    rw [mixes, types, Bool.true_and] at pure
    rw [namesTypesOnly, types, pure]
    rfl
  rw [Bool.eq_false_iff] at remains
  cases lists with
  | @imported clause is inDecl isClause inClause named =>
    rw [Ne, vanishes_import fits is inDecl isClause inClause named, not_or] at remains
    rcases children_of_clause (inside_of_fits fits clause inDecl).1 isClause inClause named with
      alone | ⟨default, beside, isDefault⟩
    · exact absurd ⟨by rw [alone]; rfl, only⟩ remains.2
    · refine ⟨default, ?_, isDefault⟩
      rw [(bindings_import fits is inDecl isClause).1, beside]
      simp [bindingsIn, isList, isDefault]
  | exported is inDecl named => exact absurd ((vanishes_export fits is inDecl named).2 (.inr only)) remains

end FlowScript.Parse
