import FlowScript.Explain.Sentence
import FlowScript.Proofs.Printer.Visit
import FlowScript.Proofs.Text.Ink
import Mathlib.Data.List.TakeWhile

/-!
# What a declaration is said to assign

The value that a sentence tells for a declared name is cut out of the declaration's code: the text from the first equals
sign up to a semicolon. It is the code of the name's own initializer exactly when nothing else is declared behind it and
that code has no semicolon in it and no blanks around it.
-/

namespace FlowScript

/-! ## Cutting at a character -/

namespace Text

variable {sought : Char}

theorem splitAtFirst?_append {before : List Char} (apart : sought ∉ before) (after : List Char) :
    splitAtFirst? [sought] (before ++ sought :: after) = some (before, after) := by
  induction before with
  | nil => simp [splitAtFirst?]
  | cons c before ih =>
    obtain ⟨other, apart⟩ := not_or.1 (List.mem_cons.not.1 apart)
    simp [splitAtFirst?, other, ih apart]

theorem splitAtFirst?_eq_none {text : List Char} (absent : sought ∉ text) : splitAtFirst? [sought] text = none := by
  induction text with
  | nil => rfl
  | cons c text ih =>
    obtain ⟨other, absent⟩ := not_or.1 (List.mem_cons.not.1 absent)
    simp [splitAtFirst?, other, ih absent]

end Text

namespace Excerpt

/-- The text up to a semicolon, without the blanks around it. -/
def valueIn (rest : List Char) : List Char := Text.trim (rest.takeWhile (· ≠ ';'))

theorem initialValue?_append {code : String} {before rest : List Char} (apart : '=' ∉ before)
    (split : code.toList = before ++ '=' :: rest) :
    initialValue? code = if (valueIn rest).isEmpty then none else some (String.ofList (valueIn rest)) := by
  rw [initialValue?, split, Text.splitAtFirst?_append apart]
  rfl

theorem initialValue?_eq_none {code : String} (absent : '=' ∉ code.toList) : initialValue? code = none := by
  rw [initialValue?, Text.splitAtFirst?_eq_none absent]
  rfl

/-- What has no semicolon in it is passed over. -/
theorem takeWhile_append_of_not_mem {text : List Char} (whole : ';' ∉ text) (beyond : List Char) :
    (text ++ beyond).takeWhile (· ≠ ';') = text ++ beyond.takeWhile (· ≠ ';') := by
  refine List.takeWhile_append_of_pos fun c mem => ?_
  rw [decide_eq_true_iff]
  rintro rfl
  exact whole mem

theorem valueIn_of_not_mem {text : List Char} (whole : ';' ∉ text) : valueIn (' ' :: (text ++ [';'])) = Text.trim text := by
  have blank : ';' ∉ ' ' :: text := by simpa using whole
  rw [valueIn, ← List.cons_append, takeWhile_append_of_not_mem blank, List.takeWhile_cons_of_neg (by simp),
    List.append_nil, Text.trim_cons_of_isBlank Text.isBlank_space]

/-- The text behind an equals sign, up to a semicolon and trimmed, is the text of the initializer exactly when nothing
    stands between that and the end, it has no semicolon and it is trimmed. -/
theorem valueIn_eq_iff {text more : List Char} (comma : more = [] ∨ ∃ rest, more = ',' :: rest) :
    valueIn (' ' :: (text ++ (more ++ [';']))) = text ↔ more = [] ∧ ';' ∉ text ∧ Text.trim text = text := by
  constructor
  · intro same
    have whole : ';' ∉ text := by
      rw [← same, ← List.count_eq_zero, valueIn, Text.count_trim (by decide), List.count_eq_zero]
      intro mem
      simpa using List.mem_takeWhile_imp mem
    refine ⟨?_, whole, by rw [← same, valueIn, Text.trim_trim]⟩
    rcases comma with none_ | ⟨rest, rfl⟩
    · exact none_
    · -- The comma behind the initializer is one too many.
      have ahead : ';' ∉ ' ' :: (text ++ [',']) := by simpa using whole
      have commas := congrArg (List.count ',') same
      rw [valueIn, Text.count_trim (by decide), List.cons_append, List.append_cons, ← List.cons_append,
        takeWhile_append_of_not_mem ahead] at commas
      simp at commas
  · rintro ⟨rfl, whole, trimmed⟩
    rw [List.nil_append, valueIn_of_not_mem whole, trimmed]

end Excerpt

/-! ## Declarations -/

/-- The code of the declarations behind the first. -/
def printOthers (p : Printer) (indent : Nat) : List Declarator → String
  | [] => ""
  | ds => ", " ++ printDeclarators p indent ds

theorem toList_print_varDecl (p : Printer) (indent : Nat) (kind : VarKind) (name : String) (init : Expr)
    (others : List Declarator) (at_ inner outer : Span) :
    ((Stmt.varDecl kind (.mk (.ident name at_) (some init) inner :: others) outer).print p indent).toList =
      (kind.word ++ " " ++ name ++ " ").toList ++
        '=' :: ' ' :: ((init.print p indent).toList ++ ((printOthers p indent others).toList ++ [';'])) := by
  cases others with
  | nil =>
    show (kind.word ++ " " ++ (name ++ " = " ++ init.print p indent) ++ ";").toList = _
    simp [printOthers]
  | cons d ds =>
    show (kind.word ++ " " ++ (name ++ " = " ++ init.print p indent ++ ", " ++ printDeclarators p indent (d :: ds))
      ++ ";").toList = _
    simp [printOthers]

theorem valueIn_printOthers_eq_iff {p : Printer} {indent : Nat} {others : List Declarator} {text : List Char} :
    Excerpt.valueIn (' ' :: (text ++ ((printOthers p indent others).toList ++ [';']))) = text ↔
      others = [] ∧ ';' ∉ text ∧ Text.trim text = text := by
  cases others with
  | nil =>
    have nothing : (printOthers p indent []).toList = [] := rfl
    rw [Excerpt.valueIn_eq_iff (.inl nothing), nothing]
    exact and_congr_left' (iff_of_true rfl rfl)
  | cons d ds =>
    have comma : (printOthers p indent (d :: ds)).toList = ',' :: ' ' :: (printDeclarators p indent (d :: ds)).toList := by
      rw [printOthers, String.toList_append]
      · rfl
      · simp
    rw [Excerpt.valueIn_eq_iff (.inr ⟨_, comma⟩), comma]
    exact and_congr_left' (iff_of_false (by simp) (by simp))

theorem not_mem_toList_word (kind : VarKind) : '=' ∉ kind.word.toList := by
  cases kind <;> decide

/-- The words whose mention in its code decides what a declaration is for. -/
def idioms : List String := ["newPage", "title", "textContent", "innerHTML"]

namespace Explainer

theorem declaration_of_plain {name code value : String} (plain : ∀ word ∈ idioms, Text.contains code word = false)
    (found : Excerpt.initialValue? code = some value) :
    declaration name code = ⟨"explain.assign", [("name", name), ("value", value)]⟩ := by
  have page := plain "newPage" (by decide)
  have title := plain "title" (by decide)
  have text : Text.containsAny code ["textContent", "innerHTML"] = false := by
    simp [Text.containsAny, plain "textContent" (by decide), plain "innerHTML" (by decide)]
  simp [declaration, page, title, text, found]

theorem declaration_eq_of_assign {name code : String} (assigns : (declaration name code).key = "explain.assign") :
    ∃ value, Excerpt.initialValue? code = some value ∧
      declaration name code = ⟨"explain.assign", [("name", name), ("value", value)]⟩ := by
  unfold declaration at assigns ⊢
  split_ifs at assigns ⊢
  · simp at assigns
  · simp at assigns
  · simp at assigns
  · split at assigns
    · rename_i value found
      exact ⟨value, found, by simp⟩
    · simp at assigns

theorem describeMessage_eq_ok_iff {x : Explainer} {s : Stmt} {m : Message} :
    x.describeMessage s = .ok m ↔
      s.fits maxPrintDepth = true ∧ m = x.messageOf (s.print (.plain .oneLine) 0) s := by
  rw [describeMessage, Stmt.tryRender]
  cases s.fits maxPrintDepth with
  | false => exact ⟨nofun, nofun⟩
  | true => exact ⟨fun told => ⟨rfl, (Except.ok.inj told).symm⟩, fun told => congrArg _ told.2.symm⟩

end Explainer

/-- A plain name without an initializer. -/
def Declarator.IsBare (d : Declarator) : Prop :=
  ∃ name at_ inner, d = .mk (.ident name at_) none inner ∧ '=' ∉ name.toList

theorem not_mem_printDeclarators {p : Printer} {indent : Nat} {ds : List Declarator} (bare : ∀ d ∈ ds, d.IsBare) :
    '=' ∉ (printDeclarators p indent ds).toList := by
  induction ds with
  | nil => exact List.not_mem_nil
  | cons d ds ih =>
    obtain ⟨name, at_, inner, rfl, plain⟩ := bare d List.mem_cons_self
    cases ds with
    | nil => exact plain
    | cons e es =>
      have rest := ih fun d mem => bare d (List.mem_cons_of_mem _ mem)
      show '=' ∉ (name ++ ", " ++ printDeclarators p indent (e :: es)).toList
      simp [plain, rest]

section
variable {kind : VarKind} {name : String} {init : Option Expr} {others : List Declarator} {at_ inner outer : Span}

theorem renderCompact_of_fits_varDecl {e : Expr}
    (fits : (Stmt.varDecl kind (.mk (.ident name at_) (some e) inner :: others) outer).fits maxPrintDepth = true) :
    e.renderCompact = e.print (.plain .oneLine) 0 := by
  have declares : ((Declarator.mk (.ident name at_) (some e) inner).visit maxPrintDepth).finished = true :=
    Stmt.fits_child fits (c := .declarator (.mk (.ident name at_) (some e) inner)) (by simp [Stmt.children])
  rw [Declarator.finished_visit] at declares
  obtain ⟨-, fits⟩ : (Pattern.ident name at_).fits maxPrintDepth = true ∧ e.fits maxPrintDepth = true := by
    simpa [Declarator.children, Child.optional] using declares
  rw [Expr.renderCompact, Expr.render, Expr.tryRender, fits, orRenderFailed_renderIf_true]

/-- The value that is found in the code of a declaration whose first name has an initializer. -/
theorem initialValue?_print_varDecl (plain : '=' ∉ name.toList) {p : Printer} {indent : Nat} {e : Expr} :
    let found := Excerpt.valueIn (' ' :: ((e.print p indent).toList ++ ((printOthers p indent others).toList ++ [';'])))
    Excerpt.initialValue?
        ((Stmt.varDecl kind (.mk (.ident name at_) (some e) inner :: others) outer).print p indent) =
      if found.isEmpty then none else some (String.ofList found) := by
  refine Excerpt.initialValue?_append ?_ (toList_print_varDecl ..)
  simp [not_mem_toList_word, plain]

/-- What is found is the code of the initializer exactly when nothing else is declared and that code is found whole. -/
theorem print_eq_iff_of_initialValue? (plain : '=' ∉ name.toList) {p : Printer} {indent : Nat} {e : Expr} {value : String}
    (found : Excerpt.initialValue?
      ((Stmt.varDecl kind (.mk (.ident name at_) (some e) inner :: others) outer).print p indent) = some value) :
    e.print p indent = value ↔
      others = [] ∧ ';' ∉ (e.print p indent).toList ∧
        Text.trim (e.print p indent).toList = (e.print p indent).toList := by
  rw [initialValue?_print_varDecl plain] at found
  split at found
  · cases found
  · obtain rfl := Option.some.inj found
    rw [← String.toList_inj, String.toList_ofList, eq_comm, valueIn_printOthers_eq_iff]

/-- The initializer of a name that is declared alone is found, if it has no semicolon. -/
theorem initialValue?_print_of_single (plain : '=' ∉ name.toList) {p : Printer} {indent : Nat} {e : Expr}
    (whole : ';' ∉ (e.print p indent).toList) (dark : Text.trim (e.print p indent).toList ≠ []) :
    Excerpt.initialValue? ((Stmt.varDecl kind [.mk (.ident name at_) (some e) inner] outer).print p indent) =
      some (String.ofList (Text.trim (e.print p indent).toList)) := by
  rw [initialValue?_print_varDecl plain, printOthers, String.toList_empty, List.nil_append,
    Excerpt.valueIn_of_not_mem whole, if_neg (by simpa using dark)]

/-- Nothing is found where no name has an initializer. -/
theorem initialValue?_print_of_bare {p : Printer} {indent : Nat} {ds : List Declarator} (bare : ∀ d ∈ ds, d.IsBare) :
    Excerpt.initialValue? ((Stmt.varDecl kind ds outer).print p indent) = none := by
  refine Excerpt.initialValue?_eq_none ?_
  show '=' ∉ (kind.word ++ " " ++ printDeclarators p indent ds ++ ";").toList
  simp [not_mem_toList_word, not_mem_printDeclarators bare]

end

/-- A declaration of a plain name is said to assign the text of the name's own initializer exactly when nothing else is
    declared and that text has no semicolon in it and no blanks around it. Plain names without initializers are said to
    assign nothing. A name that is declared alone, by code without idioms, is said to assign its initializer if that has
    no semicolon. -/
theorem describeMessage_varDecl (x : Explainer) (kind : VarKind) {name : String} (plain : '=' ∉ name.toList)
    (init : Option Expr) (others : List Declarator) (at_ inner outer : Span) :
    let s : Stmt := .varDecl kind (.mk (.ident name at_) init inner :: others) outer
    (∀ m, x.describeMessage s = .ok m → m.key = "explain.assign" →
      ∃ value, m = ⟨"explain.assign", [("name", name), ("value", value)]⟩ ∧
        (init.map Expr.renderCompact = some value ↔
          others = [] ∧ ∃ e, init = some e ∧ ';' ∉ e.renderCompact.toList ∧
            Text.trim e.renderCompact.toList = e.renderCompact.toList)) ∧
      (init = none → (∀ d ∈ others, d.IsBare) → ∀ m, x.describeMessage s = .ok m → m.key ≠ "explain.assign") ∧
      ∀ e, init = some e → others = [] → s.fits maxPrintDepth = true → ';' ∉ e.renderCompact.toList →
        Text.trim e.renderCompact.toList ≠ [] → (∀ word ∈ idioms, Text.contains s.renderCompact word = false) →
          x.describeMessage s = .ok ⟨"explain.assign",
            [("name", name), ("value", String.ofList (Text.trim e.renderCompact.toList))]⟩ := by
  intro s
  refine ⟨fun m told assigns => ?_, fun none_ bare m told => ?_, fun e some_ single fits whole dark idiomless => ?_⟩
  · obtain ⟨fits, rfl⟩ := Explainer.describeMessage_eq_ok_iff.1 told
    obtain ⟨value, found, eq⟩ := Explainer.declaration_eq_of_assign assigns
    refine ⟨value, eq, ?_⟩
    cases init with
    | none => simp
    | some e =>
      rw [Option.map_some, Option.some.injEq, renderCompact_of_fits_varDecl fits, print_eq_iff_of_initialValue? plain found]
      simp [renderCompact_of_fits_varDecl fits]
  · obtain ⟨-, rfl⟩ := Explainer.describeMessage_eq_ok_iff.1 told
    intro assigns
    obtain ⟨value, found, -⟩ := Explainer.declaration_eq_of_assign assigns
    subst none_
    rw [initialValue?_print_of_bare (List.forall_mem_cons.2 ⟨⟨name, at_, inner, rfl, plain⟩, bare⟩)] at found
    cases found
  · subst some_ single
    refine Explainer.describeMessage_eq_ok_iff.2 ⟨fits, (Explainer.declaration_of_plain ?_ ?_).symm⟩
    · intro word idiom
      rw [← idiomless word idiom, Stmt.renderCompact, Stmt.render, Stmt.tryRender, fits, orRenderFailed_renderIf_true]
    · rw [renderCompact_of_fits_varDecl fits] at whole dark ⊢
      exact initialValue?_print_of_single plain whole dark

/-- The call `f()`. -/
private def callOfF : Expr := .call (.ident "f" .none) [] false .none

/-- The declaration `const a = f();` is said to assign the code of `f()` to `a`. -/
theorem describeMessage_varDecl_call :
    ∃ value, (⟨.standard, .echo⟩ : Explainer).describeMessage
        (.varDecl .const [.mk (.ident "a" .none) (some callOfF) .none] .none) =
        .ok ⟨"explain.assign", [("name", "a"), ("value", value)]⟩ ∧
      (some callOfF).map Expr.renderCompact = some value := by
  have all := describeMessage_varDecl ⟨.standard, .echo⟩ .const (by decide : '=' ∉ "a".toList) (some callOfF) [] .none
    .none .none
  have code : callOfF.renderCompact = "f()" := by decide +kernel
  have whole : ';' ∉ callOfF.renderCompact.toList := by rw [code]; decide
  have told := all.2.2 callOfF rfl rfl (by decide +kernel) whole (by rw [code]; decide) (by decide +kernel)
  obtain ⟨value, eq, own⟩ := all.1 _ told rfl
  exact ⟨value, told.trans (congrArg _ eq), own.2 ⟨rfl, callOfF, rfl, whole, by rw [code]; decide⟩⟩

/-- In `let a, b = 1;` the value of the other name is told, and of `let a = "x;y";` a part of the value. -/
theorem describeMessage_other_value :
    (⟨.standard, .echo⟩ : Explainer).describeMessage (.varDecl .let
        [.mk (.ident "a" .none) none .none, .mk (.ident "b" .none) (some (.num "1" .none)) .none] .none) =
        .ok ⟨"explain.assign", [("name", "a"), ("value", "1")]⟩ ∧
      (⟨.standard, .echo⟩ : Explainer).describeMessage (.varDecl .let
        [.mk (.ident "a" .none) (some (.str "\x22x;y\x22" "x;y" .none)) .none] .none) =
        .ok ⟨"explain.assign", [("name", "a"), ("value", "\x22x")]⟩ :=
  ⟨rfl, rfl⟩

end FlowScript
