import FlowScript.Proofs.Erasure.Lists

/-!
# Every edit of types takes ink away

Each edit that reading a source finds cuts the text of the match that it goes with: the edits of the match itself by
what it is, and the ones inside it by induction over the tree of matches.
-/

namespace FlowScript.Parse
open FlowScript.Grammar (Rule ruleBody ruleKind)
open FlowScript.Peg (Cursor Derivation Fits Matches)
open Text (ink)

/-! ## Parts and their trees -/

theorem exists_of_forall₂_append_right {α β : Type} {R : α → β → Prop} {as : List α} {bs cs : List β}
    (h : List.Forall₂ R as (bs ++ cs)) :
    ∃ as₁ as₂, as = as₁ ++ as₂ ∧ List.Forall₂ R as₁ bs ∧ List.Forall₂ R as₂ cs :=
  ⟨_, _, (List.take_append_drop bs.length as).symm, List.forall₂_take_append as bs cs h,
    List.forall₂_drop_append as bs cs h⟩

theorem exists_of_forall₂_append_left {α β : Type} {R : α → β → Prop} {as bs : List α} {cs : List β}
    (h : List.Forall₂ R (as ++ bs) cs) :
    ∃ cs₁ cs₂, cs = cs₁ ++ cs₂ ∧ List.Forall₂ R as cs₁ ∧ List.Forall₂ R bs cs₂ := by
  obtain ⟨cs₁, cs₂, rfl, first, second⟩ := exists_of_forall₂_append_right h.flip
  exact ⟨cs₁, cs₂, rfl, first.flip, second.flip⟩

/-! ## Lists of names -/

/-- A match of a list: its names, each followed by what belongs to the list, and what comes after the braces. -/
structure Names (start : Cursor) (specs others : List (Derivation Rule)) (stop : Cursor) : Prop where
  named : ∀ t ∈ specs, roleOf? t.rule = some .specifier
  plain : ∀ t ∈ others, roleOf? t.rule = some .token
  course : specs = [] ∨ ∃ d tail, Listed start specs specs.length d ∧ d.Reaches tail stop ∧ '\x7d' ∈ tail

theorem exists_names_of_import {start stop : Cursor} {children : List (Derivation Rule)}
    (fits : Fits grammar (.node .importNamed start stop children)) : Names start children [] stop := by
  cases fits with
  | node visible body settled surrounded inside =>
    have body : Matches grammar (Grammar.braced (.call .importSpec)) .loose start (some (children, stop)) :=
      surrounded rfl ▸ body
    obtain ⟨rules, course⟩ := braced_listed rfl body
    refine ⟨fun t mem => by rw [rules t mem]; rfl, List.forall_mem_nil _, course.imp_right ?_⟩
    rintro ⟨d, gap, listed, trail⟩
    exact ⟨d, _, listed, trail, List.mem_append_right _ (List.mem_singleton_self _)⟩

theorem exists_names_of_export {start stop : Cursor} {children : List (Derivation Rule)}
    (fits : Fits grammar (.node .exportList start stop children)) :
    ∃ specs others, children = specs ++ others ∧ Names start specs others stop ∧ ∀ t ∈ specs, t.rule = .exportSpec := by
  cases fits with
  | node visible body settled surrounded inside =>
    rename_i x
    obtain rfl := surrounded rfl
    cases body with
    | @seq _ _ _ _ specs c₁ others _ first second =>
      obtain ⟨rules, course⟩ := braced_listed rfl first
      obtain ⟨gap, skipped⟩ := grammar_wellFormed.skips c₁
      obtain ⟨rest, read⟩ := (second.chain grammar_wellFormed).reaches
      refine ⟨specs, others, rfl, ⟨fun t mem => by rw [rules t mem]; rfl, fun t mem => ?_, ?_⟩, rules⟩
      · have called := Peg.mem_calls_of_mem_words (second.words nofun) (List.mem_map_of_mem mem)
        rcases List.mem_pair.1 called with is | is <;> rw [is] <;> rfl
      · refine course.imp_right ?_
        rintro ⟨d, upTo, listed, trail⟩
        exact ⟨d, _, listed, (trail.append skipped).append read, by simp⟩

theorem isSpecifier_iff {part : Part} (sound : part.Sound) :
    isSpecifier part = true ↔ roleOf? part.rule = some .specifier := by
  rw [sound.makes.role]
  unfold isSpecifier
  split
  · rename_i isType piece
    simp [piece, Piece.role]
  · rename_i other
    refine iff_of_false (by simp) fun role => ?_
    cases piece : part.piece <;> simp_all [Piece.role]

/-- The parts of a list fall into its names and the rest. -/
theorem exists_parts {specs others : List (Derivation Rule)} {parts : List Part} (sound : ∀ p ∈ parts, p.Sound)
    (all : List.Forall₂ Becomes (specs ++ others) parts) (named : ∀ t ∈ specs, roleOf? t.rule = some .specifier)
    (plain : ∀ t ∈ others, roleOf? t.rule = some .token) :
    ∃ ps qs, parts = ps ++ qs ∧ List.Forall₂ Becomes specs ps ∧ List.Forall₂ Becomes others qs ∧
      parts.filter isSpecifier = ps ∧ parts.filter isKept = ps.filter isKept := by
  obtain ⟨ps, qs, rfl, first, second⟩ := exists_of_forall₂_append_left all
  have areNames : ∀ p ∈ ps, isSpecifier p = true := by
    intro p mem
    obtain ⟨t, inside, becomes⟩ := exists_of_forall₂ first mem
    refine (isSpecifier_iff (sound p (List.mem_append_left _ mem))).2 ?_
    rw [becomes.site]
    exact named t inside
  have areNone : ∀ q ∈ qs, isSpecifier q = false := by
    intro q mem
    obtain ⟨t, inside, becomes⟩ := exists_of_forall₂ second mem
    refine Bool.eq_false_iff.2 fun is => ?_
    have role := (isSpecifier_iff (sound q (List.mem_append_right _ mem))).1 is
    rw [becomes.site] at role
    exact absurd (role.symm.trans (plain t inside)) (by decide)
  refine ⟨ps, qs, rfl, first, second, ?_, ?_⟩
  · rw [List.filter_append, List.filter_eq_self.2 areNames, List.filter_eq_nil_iff.2 (by simpa using areNone),
      List.append_nil]
  · have none : qs.filter isKept = [] := by
      refine List.filter_eq_nil_iff.2 fun q mem kept => ?_
      have := areNone q mem
      rw [isSpecifier_of_isKept kept] at this
      cases this
    rw [List.filter_append, none, List.append_nil]

theorem exists_takeWhile_append {c : Char} {cs : List Char} (mem : c ∈ cs) :
    ∃ after, cs = cs.takeWhile (· != c) ++ c :: after := by
  induction cs with
  | nil => cases mem
  | cons d cs ih =>
    by_cases same : d = c
    · exact ⟨cs, by simp [same]⟩
    · obtain ⟨after, split⟩ := ih ((List.mem_cons.1 mem).resolve_left (Ne.symm same))
      refine ⟨after, ?_⟩
      rw [List.takeWhile_cons_of_pos (by simpa using same), List.cons_append, ← split]

theorem takeWhile_append_of_mem {c : Char} {cs : List Char} (mem : c ∈ cs) (rest : List Char) :
    (cs ++ rest).takeWhile (· != c) = cs.takeWhile (· != c) := by
  obtain ⟨after, split⟩ := exists_takeWhile_append mem
  have shorter := congrArg List.length split
  rw [List.length_append, List.length_cons] at shorter
  rw [List.takeWhile_append, if_neg (by omega)]

/-- The brace that closes a list, found in the text after its last name. -/
theorem closingBrace_eq {start stop d : Cursor} {specs others : List (Derivation Rule)} {ps qs : List Part}
    (first : List.Forall₂ Becomes specs ps) (second : List.Forall₂ Becomes others qs)
    (rules : ∀ t ∈ specs, t.rule = .exportSpec) (plain : ∀ t ∈ others, roleOf? t.rule = some .token)
    (some_ : specs ≠ []) (listed : Listed start specs specs.length d) {tail : List Char} (trail : d.Reaches tail stop)
    (brace : '\x7d' ∈ tail) {n : Nat} (found : closingBrace ⟨.exportList, start, stop⟩ (ps ++ qs) = some n) :
    ∃ more m rest, d.Reaches more m ∧ m.Reaches rest stop ∧ m.offset = n ∧ 0 < ink more := by
  obtain ⟨init, last, rfl⟩ : ∃ init last, specs = init ++ [last] :=
    ⟨_, _, (List.dropLast_append_getLast some_).symm⟩
  obtain ⟨ps', lasts, rfl, -, lastBecomes⟩ := exists_of_forall₂_append_left first
  obtain ⟨p, _, becomes, none, rfl⟩ := List.forall₂_cons_left_iff.1 lastBecomes
  cases none
  have isSpec : p.rule = .exportSpec := by
    rw [becomes.site]
    exact rules last (List.mem_append_right _ (List.mem_singleton_self last))
  have ends : p.stop = d := by
    rw [becomes.site]
    exact listed.stop_getLast List.getLast?_concat
  have notSpec : ∀ q ∈ qs.reverse, ¬decide (q.rule = .exportSpec) = true := by
    intro q mem is
    obtain ⟨t, inside, becomes⟩ := exists_of_forall₂ second (List.mem_reverse.1 mem)
    have role := plain t inside
    rw [show t.rule = q.rule from (congrArg Site.rule becomes.site).symm, of_decide_eq_true is] at role
    cases role
  have lastSpec : (ps' ++ [p] ++ qs).reverse.find? (·.rule = .exportSpec) = some p := by
    rw [List.reverse_append, List.reverse_append, List.find?_append, List.find?_eq_none.2 notSpec]
    simp [isSpec]
  obtain ⟨text, read, -⟩ := listed.exists_text
  have dropped : Text.dropBytes? start.rest (d.offset - start.offset) = some d.rest := by
    rw [read.offset, Nat.add_sub_cancel_left, read.rest, Text.dropBytes?_append]
  have inRest : '\x7d' ∈ d.rest := by
    rw [trail.rest]
    exact List.mem_append_left _ brace
  simp only [closingBrace, lastSpec, ends, dropped, List.contains_iff_mem.2 inRest, if_true] at found
  cases found
  obtain ⟨after, split⟩ := exists_takeWhile_append brace
  have same : d.rest.takeWhile (· != '\x7d') = tail.takeWhile (· != '\x7d') := by
    rw [trail.rest, takeWhile_append_of_mem brace]
  rw [same]
  generalize tail.takeWhile (· != '\x7d') = upTo at split ⊢
  rw [split, List.append_cons] at trail
  obtain ⟨m, further, rest⟩ := trail.split
  have dark : 0 < ink (upTo ++ ['\x7d']) :=
    Text.ink_pos_of_mem (List.mem_append_right upTo (List.mem_singleton_self _)) (by decide)
  refine ⟨_, m, after, further, rest, ?_, dark⟩
  rw [further.offset, Text.byteLength_append]
  rfl

/-- A list of names that is written anew has more ink before. -/
theorem list_cuts {rule : Rule} {start stop : Cursor} {children : List (Derivation Rule)} {parts : List Part}
    (fits : Fits grammar (.node rule start stop children)) (sound : ∀ p ∈ parts, p.Sound)
    (all : List.Forall₂ Becomes children parts) {n : Nat} (ends : ListEnd ⟨rule, start, stop⟩ parts n)
    (some_ : keptSpecifiers parts ≠ []) (fewer : (keptSpecifiers parts).length < (parts.filter isSpecifier).length) :
    CutsBetween start stop (Edit.replace start.offset n (braceList (keptSpecifiers parts))) := by
  -- it is enough that some ink follows the last name up to where the list ends
  have enough : ∀ {specs others : List (Derivation Rule)} {ps : List Part}, List.Forall₂ Becomes specs ps →
      Names start specs others stop → parts.filter isSpecifier = ps → parts.filter isKept = ps.filter isKept →
      (∀ d tail, specs ≠ [] → Listed start specs specs.length d → d.Reaches tail stop → '\x7d' ∈ tail →
        ∃ more m rest, d.Reaches more m ∧ m.Reaches rest stop ∧ m.offset = n ∧ 0 < ink more) →
      CutsBetween start stop (Edit.replace start.offset n (braceList (keptSpecifiers parts))) := by
    intro specs others ps all names areSpecs areKept further
    rw [keptSpecifiers_eq, areKept] at some_ fewer ⊢
    rw [areSpecs, List.length_map] at fewer
    have some' : specs ≠ [] := by
      rintro rfl
      cases all
      exact Nat.not_lt_zero _ fewer
    obtain ⟨d, tail, listed, trail, brace⟩ := names.course.resolve_left some'
    obtain ⟨text, read, less⟩ := ink_braceList_lt all (by simpa using some_) fewer listed
    obtain ⟨more, m, rest, toBrace, behind, rfl, dark⟩ := further d tail some' listed trail brace
    refine ⟨[], start, _, m, rest, .refl _, read.append toBrace, behind, rfl, rfl, ?_⟩
    rw [Text.ink_append]
    exact Nat.lt_of_lt_of_le less (Nat.add_le_add_left dark _)
  cases ends with
  | imported is =>
    cases is
    have names := exists_names_of_import fits
    have listedAll : List.Forall₂ Becomes (children ++ []) parts := by rwa [List.append_nil]
    obtain ⟨ps, qs, -, first, -, areSpecs, areKept⟩ := exists_parts sound listedAll names.named names.plain
    refine enough first names areSpecs areKept fun d tail _ _ trail brace => ⟨tail, stop, [], trail, .refl _, rfl, ?_⟩
    exact Text.ink_pos_of_mem brace (by decide)
  | exported is found =>
    cases is
    obtain ⟨specs, others, rfl, names, rules⟩ := exists_names_of_export fits
    obtain ⟨ps, qs, rfl, first, second, areSpecs, areKept⟩ := exists_parts sound all names.named names.plain
    exact enough first names areSpecs areKept fun d tail some' listed trail brace =>
      closingBrace_eq first second rules names.plain some' listed trail brace found

/-! ## All edits -/

/-- Every edit that goes with a match itself cuts its text if those in its parts do. -/
theorem ownEdit_cuts {rule : Rule} {start stop : Cursor} {children : List (Derivation Rule)} {parts : List Part}
    (fits : Fits grammar (.node rule start stop children)) (sound : ∀ p ∈ parts, p.Sound)
    (all : List.Forall₂ Becomes children parts) (cut : ∀ p ∈ parts, ∀ e ∈ p.edits, CutsBetween start stop e) {e : Edit}
    (own : OwnEdit ⟨rule, start, stop⟩ parts e) : CutsBetween start stop e := by
  cases own with
  | line whole =>
    have removable : isRemovable rule = true := by
      rcases whole with is | is <;> rw [show rule = _ from is] <;> rfl
    exact removal_cuts fits removable true
  | @suffix before after operand type split is =>
    subst split
    obtain ⟨trees, tail, rfl, -, all₁⟩ := exists_of_forall₂_append_right all
    obtain ⟨t₁, rest, first, all₂, rfl⟩ := List.forall₂_cons_right_iff.1 all₁
    obtain ⟨t₂, others, second, -, rfl⟩ := List.forall₂_cons_right_iff.1 all₂
    cases fits with
    | node visible body settled surrounded inside =>
      have removable : isRemovable t₂.rule = true := by
        rw [show t₂.rule = type.rule from (congrArg Site.rule second.site).symm, is]
        rfl
      change CutsBetween start stop (Edit.remove operand.toSite.contentStop type.toSite.contentStop)
      rw [first.site, second.site]
      exact suffix_cuts (body.chain grammar_wellFormed) (inside t₁ (by simp)) (inside t₂ (by simp)) removable
  | operand mem edit => exact cut _ mem e edit
  | list listed some_ fewer => exact list_cuts fits sound all listed some_ fewer

theorem exists_of_mem_editsInside {rule : Rule} {parts : List Part} {e : Edit} (mem : e ∈ editsInside rule parts) :
    ∃ p ∈ parts, e ∈ p.edits := by
  unfold editsInside at mem
  split at mem
  · cases mem
  · exact List.mem_flatMap.1 mem

/-- Every edit of a part cuts the text of the tree that became the part. -/
theorem cuts_of_becomes {t : Derivation Rule} {part : Part} (fits : Fits grammar t) (becomes : Becomes t part) :
    ∀ e ∈ part.edits, CutsBetween t.start t.stop e := by
  induction fits generalizing part with
  | @node rule x start stop children visible body settled surrounded inside ih =>
    have whole : Fits grammar (.node rule start stop children) := .node visible body settled surrounded inside
    intro e mem
    cases becomes with
    | typeOnly is name =>
      rw [List.mem_singleton.1 mem]
      exact removal_cuts whole (by simp [isRemovable, Derivation.rule, is]) true
    | @erased _ _ _ _ alone is =>
      cases alone with
      | true =>
        rw [List.mem_singleton.1 mem]
        exact removal_cuts whole (by simp [isRemovable, Derivation.rule, is]) false
      | false => cases mem
    | @assembled _ _ _ _ parts piece own looked all insideRule fills =>
      have cut : ∀ p ∈ parts, ∀ e ∈ p.edits, CutsBetween start stop e := fun p among e edit => by
        obtain ⟨t, child, becomes⟩ := exists_of_forall₂ all among
        obtain ⟨lead, tail, toTree, behind⟩ := (body.chain grammar_wellFormed).exists_reaches child
        exact (ih t child becomes e edit).widen toTree behind
      rcases List.mem_append.1 mem with inner | mem
      · obtain ⟨p, among, edit⟩ := exists_of_mem_editsInside inner
        exact cut p among e edit
      · refine ownEdit_cuts whole (fun p among => ?_) all cut (fills.own e mem)
        by_cases token : ruleKind rule = .token
        · cases body.trees_eq_nil (Grammar.calls_of_token token)
          cases all
          cases among
        · exact (insideRule token).sound p among

end FlowScript.Parse
