import FlowScript.Proofs.Erasure.FixedPoint
import FlowScript.Proofs.Erasure.Frame
import FlowScript.Proofs.Erasure.ImportsExports

/-!
# Erasing declarations

The edits of a source stand apart, declaration by declaration (`exists_surrounds`), and what the others leave stands
around what becomes of each. So what is left of an import or an export with a list of names can be told by itself
(`declarationEdits_of_parse`).
-/

namespace FlowScript.Parse
open FlowScript.Grammar (Rule ruleBody ruleKind)
open FlowScript.Peg (Cursor Derivation Fits Matches)

variable {list : Derivation Rule} {p : Part}

/-! ## The edits of a declaration -/

/-- The edits of a source fall into those of a declaration, those before it and those behind it. -/
structure Surrounds (edits before own after : List Edit) (decl : Derivation Rule) : Prop where
  split : edits = before ++ own ++ after
  before_le : ∀ e ∈ before, e.stop ≤ decl.start.offset
  le_after : ∀ e ∈ after, decl.stop.offset ≤ e.start

/-- The edits of a program surround those of each of its matches. -/
theorem exists_surrounds {t decl : Derivation Rule} (fits : Fits grammar t) (is : t.rule = .program)
    (mem : decl ∈ t.children) (built : build t = .ok p) :
    ∃ q before after, build decl = .ok q ∧ Surrounds p.edits before q.edits after decl := by
  obtain ⟨parts, all, edits⟩ := exists_of_build_program is built
  obtain ⟨front, back, split⟩ := List.append_of_mem mem
  have apart : t.children.Pairwise fun u v => u.stop.offset ≤ v.start.offset := by
    cases fits with
    | node visible body => exact (body.chain grammar_wellFormed).apart
  have inside : ∀ u ∈ t.children, ∀ q, build u = .ok q → ∀ e ∈ q.edits,
      u.start.offset ≤ e.start ∧ e.stop ≤ u.stop.offset := by
    intro u mem q built e edit
    obtain ⟨fitsInside, called⟩ := inside_of_fits fits u mem
    have met := isSome_roleOf?_of_called (show isLookedInto .program = true from rfl) (is ▸ called)
    exact (cuts_of_becomes fitsInside (becomes_of_build fitsInside met built) e edit).inside
  rw [split] at all apart inside
  obtain ⟨-, later, earlier⟩ := List.pairwise_append.1 apart
  obtain ⟨ps, rest, rfl, allFront, allRest⟩ := exists_of_forall₂_append_left all
  obtain ⟨q, qs, builtDecl, allBack, rfl⟩ := List.forall₂_cons_left_iff.1 allRest
  refine ⟨q, ps.flatMap (·.edits), qs.flatMap (·.edits), builtDecl, ⟨by simp [edits], ?_, ?_⟩⟩
  · intro e mem
    obtain ⟨r, among, edit⟩ := List.mem_flatMap.1 mem
    obtain ⟨u, child, built⟩ := exists_of_forall₂ allFront among
    exact (inside u (List.mem_append_left _ child) r built e edit).2.trans (earlier u child decl List.mem_cons_self)
  · intro e mem
    obtain ⟨r, among, edit⟩ := List.mem_flatMap.1 mem
    obtain ⟨u, child, built⟩ := exists_of_forall₂ allBack among
    have here := inside u (List.mem_append_right _ (List.mem_cons_of_mem _ child)) r built e edit
    exact ((List.pairwise_cons.1 later).1 u child).trans here.1

/-! ## The text of a declaration -/

/-- A declaration is gone from the text that is left, and its line with it where nothing else stands there. -/
def IsGone (source out : List Char) (before after : List Edit) (decl : Derivation Rule) : Prop :=
  ∃ upTo lead trail front back, decl.start.offset = Text.byteLength upTo ∧ lead.all Edit.isLineBlank = true ∧
    trail.all Edit.isLineBlank = true ∧
    Edit.Around source before after (upTo ++ (Site.ofTree decl).content) trail
      (front ++ lead ++ (Site.ofTree decl).content) back ∧
    out = front ++ back

/-- A list up to a place stays as it is in the text that is left. -/
def Stays (source out : List Char) (before after : List Edit) (list : Derivation Rule) (brace : Cursor) : Prop :=
  ∃ upTo part front back, list.start.offset = Text.byteLength upTo ∧
    brace.offset = Text.byteLength (upTo ++ part) ∧ Edit.Around source before after upTo part front back ∧
    out = front ++ part ++ back

/-- A list is written with its values only in the text that is left. -/
def IsWritten (source out : List Char) (before after : List Edit) (list : Derivation Rule) : Prop :=
  ∃ upTo part front back, list.start.offset = Text.byteLength upTo ∧
    listStop list = Text.byteLength (upTo ++ part) ∧ Edit.Around source before after upTo part front back ∧
    out = front ++ (braceList (written list)).toList ++ back

section Text

variable {source a out : List Char} {decl : Derivation Rule} {edits before own after : List Edit}

theorem Surrounds.cuts_before (h : Surrounds edits before own after decl) (cuts : ∀ e ∈ edits, e.Cuts source)
    (here : (Cursor.start source).Reaches a decl.start) : ∀ e ∈ before, e.Cuts a := by
  intro e mem
  have whole : source = a ++ decl.start.rest := here.rest
  have cutsHere := cuts e (by simp [h.split, mem])
  rw [whole] at cutsHere
  refine cutsHere.of_append ?_
  have place : decl.start.offset = 0 + Text.byteLength a := here.offset
  rw [Nat.zero_add] at place
  exact place ▸ h.before_le e mem

theorem Surrounds.cuts_after (h : Surrounds edits before own after decl) (cuts : ∀ e ∈ edits, e.Cuts source) :
    ∀ e ∈ after, e.Cuts source := fun e mem => cuts e (by simp [h.split, mem])

theorem exists_isGone (fits : Fits grammar decl) (removable : isRemovable decl.rule = true)
    (here : (Cursor.start source).Reaches a decl.start) (cuts : ∀ e ∈ edits, e.Cuts source)
    (h : Surrounds edits before [(Site.ofTree decl).lineRemoval] after decl)
    (applied : Edit.applyAll source edits = .ok out) : IsGone source out before after decl := by
  obtain ⟨d, s, dark, content⟩ := exists_content_cons fits removable
  obtain ⟨tail, read⟩ := exists_content fits
  have place : decl.start.offset = Text.byteLength a := here.offset.trans (Nat.zero_add _)
  have stop : (Site.ofTree decl).contentStop = Text.byteLength (a ++ d :: s) := by
    rw [Text.byteLength_append, ← content, ← place]
    rfl
  have whole : source = a ++ d :: s ++ (tail ++ decl.stop.rest) := by
    have whole : source = a ++ ((Site.ofTree decl).content ++ tail) ++ decl.stop.rest := (here.append read).rest
    simpa [content] using whole
  have inside : (Site.ofTree decl).contentStop ≤ decl.stop.offset := by
    rw [read.offset, Text.byteLength_append]
    exact Nat.add_le_add_left (Nat.le_add_right _ _) _
  have own : (Site.ofTree decl).lineRemoval ∈ edits := by simp [h.split]
  obtain ⟨lead, trail, front, back, blankLead, blankTrail, around, removed⟩ :=
    Edit.exists_around_removed (Edit.isLineBlank_eq_false dark) rfl place stop (cuts _ own) whole
      (h.cuts_before cuts here) (h.cuts_after cuts) fun e mem => inside.trans (h.le_after e mem)
  rw [h.split, List.append_assoc, List.singleton_append, removed] at applied
  exact ⟨a, lead, trail, front, back, place, blankLead, blankTrail, content ▸ around, (Except.ok.inj applied).symm⟩

/-- A declaration begins in front of the braces of its list, and with no blank. -/
theorem exists_lead (fits : Fits grammar decl) (lists : HasList decl list) {brace : Cursor}
    (closes : ClosesAt list brace) :
    ∃ d lead tail, Text.isBlank d = false ∧ decl.start.Reaches (d :: lead) list.start ∧
      list.stop.Reaches tail decl.stop := by
  -- neither keyword begins with a brace
  obtain ⟨plain, tight, opens⟩ : ruleKind decl.rule = .plain ∧ (ruleBody decl.rule).resumes = false ∧
      grammar.opens (fun c => beginsToken c && c ≠ '\x7b') 8 (ruleBody decl.rule) = true := by
    cases lists with
    | imported is | exported is => rw [is]; exact ⟨rfl, rfl, rfl⟩
  obtain ⟨d, text, begins, read⟩ := exists_opens fits plain tight opens
  obtain ⟨dark, other⟩ : Text.isBlank d = false ∧ d ≠ '\x7b' := by
    simp [beginsToken] at begins
    tauto
  obtain ⟨lead, tail, toList, behind⟩ : ∃ lead tail, decl.start.Reaches lead list.start ∧
      list.stop.Reaches tail decl.stop := by
    have within : ∀ {t u : Derivation Rule}, Fits grammar t → u ∈ t.children →
        ∃ lead tail, t.start.Reaches lead u.start ∧ u.stop.Reaches tail t.stop := by
      intro t u fits mem
      cases fits with
      | node visible body => exact (body.chain grammar_wellFormed).exists_reaches mem
    cases lists with
    | imported is inDecl isClause inClause named =>
      obtain ⟨u, v, before, after⟩ := within fits inDecl
      obtain ⟨u', v', before', after'⟩ := within (inside_of_fits fits _ inDecl).1 inClause
      exact ⟨_, _, before.append before', after'.append after⟩
    | exported is inDecl named => exact within fits inDecl
  obtain ⟨inner, fromBrace⟩ := closes.exists_inner
  cases lead with
  | nil =>
    have same := read.rest.symm.trans (toList.rest.trans (by rw [fromBrace.rest]))
    exact absurd (List.cons.inj same).1 other
  | cons c lead =>
    obtain ⟨rfl, -⟩ := List.cons.inj (read.rest.symm.trans toList.rest)
    exact ⟨d, lead, tail, dark, toList, behind⟩

theorem exists_stays (fits : Fits grammar decl) (lists : HasList decl list) {brace : Cursor}
    (closes : ClosesAt list brace) {tail : List Char} (toEnd : brace.Reaches tail list.stop)
    (here : (Cursor.start source).Reaches a decl.start) (cuts : ∀ e ∈ edits, e.Cuts source)
    (h : Surrounds edits before [] after decl) (applied : Edit.applyAll source edits = .ok out) :
    Stays source out before after list brace := by
  obtain ⟨d, lead, rest, dark, toList, behind⟩ := exists_lead fits lists closes
  obtain ⟨inner, read⟩ := closes.exists_inner
  have upTo := here.append toList
  have place : list.start.offset = Text.byteLength (a ++ d :: lead) := upTo.offset.trans (Nat.zero_add _)
  have stop : brace.offset = Text.byteLength (a ++ d :: lead ++ ('\x7b' :: inner ++ ['\x7d'])) :=
    (upTo.append read).offset.trans (Nat.zero_add _)
  have whole : source = a ++ d :: lead ++ ('\x7b' :: inner ++ ['\x7d']) ++ brace.rest := (upTo.append read).rest
  obtain ⟨front, back, around, kept⟩ := Edit.exists_around_kept (Edit.isLineBlank_eq_false dark)
    (by decide : Edit.isLineBlank '\x7d' = false) List.getLast?_concat whole (h.cuts_before cuts here)
    (h.cuts_after cuts) fun e mem => by
      have := (toEnd.append behind).offset
      have := h.le_after e mem
      omega
  rw [h.split, List.append_nil, kept] at applied
  exact ⟨_, _, front, back, place, stop, around, (Except.ok.inj applied).symm⟩

theorem exists_isWritten (fits : Fits grammar decl) (lists : HasList decl list) {brace : Cursor}
    (closes : ClosesAt list brace) (here : (Cursor.start source).Reaches a decl.start)
    (cuts : ∀ e ∈ edits, e.Cuts source)
    (h : Surrounds edits before [Edit.replace list.start.offset (listStop list) (braceList (written list))] after decl)
    (inside : listStop list ≤ decl.stop.offset) (applied : Edit.applyAll source edits = .ok out) :
    IsWritten source out before after list := by
  obtain ⟨d, lead, -, dark, toList, -⟩ := exists_lead fits lists closes
  have upTo := here.append toList
  have place : list.start.offset = Text.byteLength (a ++ d :: lead) := upTo.offset.trans (Nat.zero_add _)
  have own : Edit.Cuts source (Edit.replace list.start.offset (listStop list) (braceList (written list))) :=
    cuts _ (by simp [h.split])
  obtain ⟨before', part, rest, whole, start, stop, -⟩ := id own
  obtain rfl : a ++ d :: lead = before' := by
    refine Edit.eq_of_byteLength_eq (q := list.start.rest) (r := part ++ rest) ?_ (place.symm.trans start)
    rw [← List.append_assoc, ← whole]
    exact upTo.rest.symm
  obtain ⟨front, back, around, replaced⟩ := Edit.exists_around_replaced (Edit.isLineBlank_eq_false dark) rfl start stop
    own whole (h.cuts_before cuts here) (h.cuts_after cuts) fun e mem => inside.trans (h.le_after e mem)
  rw [h.split, List.append_assoc, List.singleton_append, replaced] at applied
  exact ⟨_, part, front, back, place, stop, around, (Except.ok.inj applied).symm⟩

end Text

end FlowScript.Parse

namespace FlowScript
open FlowScript.Grammar (Rule)
open FlowScript.Parse

theorem toList_eraseTypes {source : String} {m : Module} (read : parseModule source = .ok m) {out : List Char}
    (applied : Edit.applyAll source.toList m.typeEdits = .ok out) : (eraseTypes source).toList = out := by
  simp [eraseTypes, tryEraseTypes, read, applied]

/-- What is erased of an import or an export with a list of names, and nothing else of it: all, if it is marked as one
    of types or binds something and types only. Otherwise a list that names types beside values is written with the
    values only, and another one stays as it is; that one names types only if it stands beside a default. What is
    replaced ends with the closing brace of the list, unless the list is exported and another brace stands between its
    last name and that. -/
theorem declarationEdits_of_parse {source : String} {m : Module} (read : parseModule source = .ok m) :
    ∃ tree, grammar.parse fuelPerChar .program source.toList = .ok tree ∧ ∀ decl list, tree.Holds decl →
      isDeclaration decl = true → decl.Holds list → isList list = true →
      ∃ before own after, Surrounds m.typeEdits before own after decl ∧
        (vanishes decl = true → own = [(Site.ofTree decl).lineRemoval] ∧
          IsGone source.toList (eraseTypes source).toList before after decl) ∧
        (vanishes decl = false → ∃ brace, ClosesAt list brace ∧
          (mixes list = false → own = [] ∧
            Stays source.toList (eraseTypes source).toList before after list brace ∧
            (namesType list = true → ∃ default ∈ bindings decl, default.rule = .importDefault)) ∧
          (mixes list = true →
            own = [Edit.replace list.start.offset (listStop list) (braceList (written list))] ∧
            IsWritten source.toList (eraseTypes source).toList before after list ∧
            ∃ name gap, (names list).getLast? = some name ∧ name.stop.Reaches (gap ++ ['\x7d']) brace ∧
              listStop list ≤ brace.offset ∧
              (listStop list = brace.offset ↔ (list.rule = .exportList → '\x7d' ∉ gap)))) := by
  obtain ⟨tree, part, parsed, built, -, -, edits⟩ := exists_tree_of_parse read
  obtain ⟨fits, isProgram, starts⟩ := fits_of_parse parsed
  have cuts := typeEdits_cut read
  obtain ⟨out, applied, -⟩ := Edit.applyAll_ink cuts
  rw [toList_eraseTypes read applied]
  refine ⟨tree, parsed, fun decl list held isDecl heldList named => ?_⟩
  obtain ⟨-, child⟩ : tree.rule = .program ∧ decl ∈ tree.children := by
    refine (eq_or_exists_program fits held isDecl).resolve_left ?_
    rintro rfl
    simp [isDeclaration, isProgram] at isDecl
  have fitsDecl := fits.of_holds held
  have lists := lists_of_holds fitsDecl isDecl heldList named
  obtain ⟨q, before, after, builtDecl, around⟩ := exists_surrounds fits isProgram child built
  rw [← edits] at around
  have own := edits_of_build fitsDecl lists builtDecl
  obtain ⟨lead, here⟩ : ∃ lead, (Peg.Cursor.start source.toList).Reaches lead decl.start := by
    cases fits with
    | node visible body =>
      obtain ⟨lead, -, here, -⟩ := (body.chain grammar_wellFormed).exists_reaches child
      exact ⟨lead, starts ▸ here⟩
  refine ⟨before, q.edits, after, around, fun gone => ?_, fun remains => ?_⟩
  · rw [gone, if_pos rfl] at own
    have removable : isRemovable decl.rule = true := by
      simp only [isDeclaration, Bool.or_eq_true, decide_eq_true_eq] at isDecl
      rcases isDecl with is | is <;> rw [is] <;> rfl
    rw [own] at around ⊢
    exact ⟨rfl, exists_isGone fitsDecl removable here cuts around applied⟩
  · rw [remains, if_neg Bool.false_ne_true] at own
    have plain : list.rule = .importNamed ∨ list.rule = .exportList := by
      cases lists with
      | imported is inDecl isClause inClause named => exact .inl named
      | exported is inDecl named =>
        refine .inr (named.resolve_left fun isTypes => ?_)
        rw [(vanishes_export fitsDecl is inDecl named).2 (.inl isTypes)] at remains
        cases remains
    obtain ⟨brace, tail, closes, toEnd, ends⟩ := exists_closesAt (fitsDecl.of_holds heldList) plain
    refine ⟨brace, closes, fun pure => ?_, fun mixed => ?_⟩
    · rw [rewriting, pure, if_neg Bool.false_ne_true] at own
      rw [own] at around ⊢
      exact ⟨rfl, exists_stays fitsDecl lists closes toEnd here cuts around applied,
        exists_default fitsDecl lists remains pure⟩
    · rw [rewriting, mixed, if_pos rfl] at own
      have last := listStop_eq_iff plain closes ends mixed
      have inside : listStop list ≤ decl.stop.offset := by
        obtain ⟨-, -, -, -, le, -⟩ := last
        obtain ⟨-, -, rest, -, -, behind⟩ := exists_lead fitsDecl lists closes
        have := (toEnd.append behind).offset
        omega
      rw [own] at around ⊢
      exact ⟨rfl, exists_isWritten fitsDecl lists closes here cuts around inside applied, last⟩

set_option maxRecDepth 100000 in
theorem declarationEdits_of_parse_mixed :
    ∃ m tree decl list before after, parseModule "export \x7b type A, b \x7d" = .ok m ∧
      grammar.parse fuelPerChar .program "export \x7b type A, b \x7d".toList = .ok tree ∧ tree.Holds decl ∧
      isDeclaration decl = true ∧ decl.Holds list ∧ isList list = true ∧
      Surrounds m.typeEdits before [Edit.replace list.start.offset (listStop list) (braceList (written list))] after
        decl ∧
      IsWritten "export \x7b type A, b \x7d".toList (eraseTypes "export \x7b type A, b \x7d").toList before after
        list := by
  obtain ⟨m, read, -⟩ := exists_of_toOption_map (by decide +kernel :
    (parseModule "export \x7b type A, b \x7d").toOption.map (·.typeEdits.length) = some 1)
  obtain ⟨tree, parsed, holds⟩ := declarationEdits_of_parse read
  -- the program is one export, and that has one list, which names a type and a value
  have shape : (grammar.parse fuelPerChar .program "export \x7b type A, b \x7d".toList).toOption.map (fun tree =>
      (tree.children.filter isDeclaration).flatMap fun decl =>
        (decl.children.filter isList).map fun list => (vanishes decl, mixes list)) = some [(false, true)] := by
    decide +kernel
  rw [parsed] at shape
  have only := List.mem_singleton_self (false, true)
  rw [← Option.some.inj shape] at only
  obtain ⟨decl, inTree, inDecl⟩ := List.mem_flatMap.1 only
  obtain ⟨list, inList, same⟩ := List.mem_map.1 inDecl
  obtain ⟨remains, mixed⟩ := Prod.mk.inj same
  obtain ⟨child, isDecl⟩ := List.mem_filter.1 inTree
  obtain ⟨inside, named⟩ := List.mem_filter.1 inList
  obtain ⟨before, own, after, surrounds, -, stays⟩ := holds decl list (.of_mem child) isDecl (.of_mem inside) named
  obtain ⟨brace, -, -, writes⟩ := stays remains
  obtain ⟨rfl, isWritten, -⟩ := writes mixed
  exact ⟨m, tree, decl, list, before, after, read, parsed, .of_mem child, isDecl, .of_mem inside, named, surrounds,
    isWritten⟩

set_option maxRecDepth 100000 in
/-- A brace in a comment is taken for the one that closes an exported list, and types beside a default stay. -/
theorem eraseTypes_misses_lists :
    eraseTypes "export \x7b type A, b, /* \x7d */ \x7d" = "export \x7b b \x7d */ \x7d" ∧
      (parseModule "import A, \x7b type B \x7d from 'x'").toOption.map (·.typeEdits) = some [] ∧
      eraseTypes "import A, \x7b type B \x7d from 'x'" = "import A, \x7b type B \x7d from 'x'" := by
  decide +kernel

end FlowScript
