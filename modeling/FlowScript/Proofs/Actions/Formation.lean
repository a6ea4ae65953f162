import FlowScript.Proofs.Actions.Partition
import FlowScript.Proofs.Text.Parts
import Mathlib.Data.List.TakeWhile

/-!
# Which statements an action covers

No keyword has a blank in it, so the code of statements hits the keywords that the single statements hit
(`containsAny_codeOf_iff`). An action covers several statements exactly when its first heads the others (`Heads`);
every other action covers one.
-/

namespace FlowScript

/-! ## What a run of statements hits -/

namespace ActionKind

/-- A keyword of the kind occurs in one of some texts, and a keyword of no kind before it occurs in any. -/
def FirstHit (kind : ActionKind) (codes : List String) : Prop :=
  ∃ before words after, keywords = before ++ (kind, words) :: after ∧
    (∃ code ∈ codes, Text.containsAny code words = true) ∧
      ∀ entry ∈ before, ∀ code ∈ codes, Text.containsAny code entry.2 = false

theorem keywords_one_word : ∀ entry ∈ keywords, ∀ word ∈ entry.2, word.toList ≠ [] ∧ ' ' ∉ word.toList := by
  decide +kernel

/-- No keyword goes beyond the end of a statement. -/
theorem containsAny_codeOf_iff {kind : ActionKind} {words : List String} (mem : (kind, words) ∈ keywords)
    (body : List Stmt) :
    Text.containsAny (codeOf body) words = true ↔
      ∃ code ∈ body.map Stmt.renderCompact, Text.containsAny code words = true := by
  have parts (word : String) (known : word ∈ words) :
      Text.contains (codeOf body) word = true ↔
        ∃ code ∈ body.map Stmt.renderCompact, Text.contains code word = true := by
    obtain ⟨some_, apart⟩ := keywords_one_word _ mem word known
    simp only [Text.contains, Text.occursIn_iff, codeOf, String.toList_intercalate]
    rw [show " ".toList = [' '] from rfl, Text.infix_intercalate_iff some_ apart]
    simp only [List.mem_map, exists_exists_and_eq_and]
  simp only [Text.containsAny, List.any_eq_true]
  constructor
  · rintro ⟨word, known, found⟩
    obtain ⟨code, among, found⟩ := (parts word known).1 found
    exact ⟨code, among, word, known, found⟩
  · rintro ⟨code, among, word, known, found⟩
    exact ⟨word, known, (parts word known).2 ⟨code, among, found⟩⟩

theorem ofCode?_codeOf_iff {kind : ActionKind} (body : List Stmt) :
    ofCode? (codeOf body) = some kind ↔ kind.FirstHit (body.map Stmt.renderCompact) := by
  rw [ofCode?, Option.map_eq_some_iff]
  constructor
  · rintro ⟨⟨_, words⟩, found, rfl⟩
    obtain ⟨hit, before, after, split, missed⟩ := List.find?_eq_some_iff_append.1 found
    have known := List.mem_of_find?_eq_some found
    refine ⟨before, words, after, split, (containsAny_codeOf_iff known body).1 hit, ?_⟩
    rintro ⟨other, words⟩ mem code among
    by_contra found
    have known : (other, words) ∈ keywords := by simp [split, mem]
    have hit := (containsAny_codeOf_iff known body).2 ⟨code, among, eq_true_of_ne_false found⟩
    simpa [hit] using missed _ mem
  · rintro ⟨before, words, after, split, hit, missed⟩
    have known : (kind, words) ∈ keywords := by simp [split]
    refine ⟨(kind, words), List.find?_eq_some_iff_append.2 ⟨(containsAny_codeOf_iff known body).2 hit, before, after,
      split, ?_⟩, rfl⟩
    rintro ⟨other, words⟩ mem
    have known : (other, words) ∈ keywords := by simp [split, mem]
    rw [Bool.not_eq_true', ← Bool.not_eq_true, containsAny_codeOf_iff known body]
    rintro ⟨code, among, found⟩
    rw [missed _ mem code among] at found
    contradiction

/-- Some text hits a keyword exactly when there is a kind that is hit first. -/
theorem exists_firstHit_iff (body : List Stmt) :
    (∃ kind : ActionKind, kind.FirstHit (body.map Stmt.renderCompact)) ↔
      ∃ t ∈ body, ∃ entry ∈ keywords, Text.containsAny t.renderCompact entry.2 = true := by
  constructor
  · rintro ⟨kind, before, words, after, split, ⟨code, among, found⟩, -⟩
    obtain ⟨t, mem, rfl⟩ := List.mem_map.1 among
    exact ⟨t, mem, (kind, words), by simp [split], found⟩
  · rintro ⟨t, mem, ⟨kind, words⟩, known, found⟩
    have hit := (containsAny_codeOf_iff known body).2 ⟨_, List.mem_map_of_mem mem, found⟩
    cases first : ofCode? (codeOf body) with
    | some kind => exact ⟨kind, (ofCode?_codeOf_iff body).1 first⟩
    | none =>
      rw [ofCode?, Option.map_eq_none_iff, List.find?_eq_none] at first
      exact absurd hit (first _ known)

end ActionKind

/-! ## Which statements are grouped -/

/-- As many expressions that mention a name as stand together at the start of a list. -/
structure MentionRun (name : String) (run rest : List Stmt) : Prop where
  ahead : run <+: rest
  mentions : ∀ t ∈ run, t.isExpr = true ∧ Text.contains t.renderCompact name = true
  maximal : ∀ t, (rest.drop run.length).head? = some t →
    ¬ (t.isExpr = true ∧ Text.contains t.renderCompact name = true)

/-- A statement heads a run: it declares a plain name first, the run is all expressions right behind it that mention the
    name, there is one at least, and one of the statements hits a keyword. -/
structure Stmt.Heads (s : Stmt) (rest : List Stmt) (name : String) (run : List Stmt) : Prop where
  declares : s.declaredName? = some name
  next : ∃ t later, rest = t :: later ∧ t.isExpr = true ∧ Text.contains t.renderCompact name = true
  follow : MentionRun name run rest
  hit : ∃ t ∈ s :: run, ∃ entry ∈ ActionKind.keywords, Text.containsAny t.renderCompact entry.2 = true

/-- What a statement that stands alone is, in the order of preference. -/
inductive Stmt.AloneAs (s : Stmt) : ActionKind → Prop
  | ret (value : Option Expr) (span : Span) : s = .ret value span → AloneAs s .ret
  | controlFlow : s.isControlFlow = true → AloneAs s .controlFlow
  | keyword {kind : ActionKind} : (∀ value span, s ≠ .ret value span) → s.isControlFlow = false →
      kind.FirstHit [s.renderCompact] → AloneAs s kind
  | computation : (∀ value span, s ≠ .ret value span) → s.isControlFlow = false →
      (∀ kind : ActionKind, ¬ kind.FirstHit [s.renderCompact]) → AloneAs s .computation

theorem mentionRun_iff {name : String} {run rest : List Stmt} :
    MentionRun name run rest ↔ run = ActionGroup.followers name rest := by
  let mention (t : Stmt) : Bool := t.isExpr && Text.contains t.renderCompact name
  have behind : rest.drop (rest.takeWhile mention).length = rest.dropWhile mention := by
    have cut : (rest.takeWhile mention ++ rest.dropWhile mention).drop (rest.takeWhile mention).length =
        rest.dropWhile mention := List.drop_left
    rwa [List.takeWhile_append_dropWhile] at cut
  constructor
  · rintro ⟨⟨later, rfl⟩, mentions, maximal⟩
    have all : ∀ t ∈ run, mention t = true := by simpa [mention] using mentions
    have stops : later.takeWhile mention = [] := by
      cases later with
      | nil => rfl
      | cons t later => exact List.takeWhile_cons_of_neg (by simpa [mention] using maximal t (by simp))
    exact ((List.takeWhile_append_of_pos all).trans (by rw [stops, List.append_nil])).symm
  · rintro rfl
    refine ⟨List.takeWhile_prefix _, fun t mem => ?_, fun t head => ?_⟩
    · simpa using List.mem_takeWhile_imp mem
    · rw [ActionGroup.followers, behind] at head
      have stops := List.head?_dropWhile_not mention rest
      rw [head] at stops
      simpa [mention] using stops

/-- What the action of a group of the form is. -/
def GroupForm.kind : GroupForm → ActionKind
  | ret => .ret
  | controlFlow => .controlFlow
  | joint kind _ | keyword kind => kind
  | computation _ => .computation

namespace ActionGroup

variable {s : Stmt} {rest : List Stmt}

theorem startingAt_of_plain (other : ∀ value span, s ≠ .ret value span) (plain : s.isControlFlow = false)
    (rest : List Stmt) : startingAt s rest = (joint? s rest).getD (single s) := by
  unfold startingAt
  split
  · exact absurd rfl (other _ _)
  · rw [if_neg (by simp [plain])]

theorem ne_nil_of_heads {name : String} {run : List Stmt} (heads : s.Heads rest name run) : run ≠ [] := by
  obtain ⟨-, ⟨t, later, rfl, next⟩, follow, -⟩ := heads
  rw [mentionRun_iff.1 follow, followers, List.takeWhile_cons_of_pos (by simpa using next)]
  simp

theorem startingAt_of_heads {name : String} {run : List Stmt} (heads : s.Heads rest name run) :
    ∃ kind : ActionKind, startingAt s rest = ⟨.joint kind name, s, run⟩ ∧
      kind.FirstHit ((s :: run).map Stmt.renderCompact) := by
  have some_ := ne_nil_of_heads heads
  obtain ⟨declares, -, follow, hit⟩ := heads
  obtain rfl := mentionRun_iff.1 follow
  obtain ⟨kind, first⟩ := (ActionKind.exists_firstHit_iff _).2 hit
  refine ⟨kind, ?_, first⟩
  have joint : joint? s rest = some ⟨.joint kind name, s, followers name rest⟩ := by
    rw [joint?_of_declaredName? declares, if_neg some_, (ActionKind.ofCode?_codeOf_iff _).2 first]
    rfl
  rw [startingAt_of_plain, joint]
  · rfl
  · rintro value span rfl
    cases declares
  · cases s <;> first | rfl | cases declares

theorem heads_of_joint? {g : ActionGroup} (found : joint? s rest = some g) : ∃ name run, s.Heads rest name run := by
  cases declares : s.declaredName? with
  | none => simp [joint?, declares] at found
  | some name =>
    rw [joint?_of_declaredName? declares] at found
    split at found
    · cases found
    · rename_i some_
      obtain ⟨kind, code, -⟩ := Option.map_eq_some_iff.1 found
      have hit := (ActionKind.exists_firstHit_iff _).1 ⟨kind, (ActionKind.ofCode?_codeOf_iff _).1 code⟩
      refine ⟨name, followers name rest, declares, ?_, mentionRun_iff.2 rfl, hit⟩
      cases rest with
      | nil => exact absurd rfl some_
      | cons t later =>
        refine ⟨t, later, rfl, ?_⟩
        by_contra stops
        exact some_ (List.takeWhile_cons_of_neg (by simpa using stops))

theorem single_aloneAs (other : ∀ value span, s ≠ .ret value span) (plain : s.isControlFlow = false) :
    ∃ form, single s = ⟨form, s, []⟩ ∧ s.AloneAs form.kind := by
  have code (kind : ActionKind) : ActionKind.ofCode? s.renderCompact = some kind ↔ kind.FirstHit [s.renderCompact] :=
    ActionKind.ofCode?_codeOf_iff [s]
  unfold single
  split
  · rename_i kind found
    exact ⟨_, rfl, .keyword other plain ((code kind).1 found)⟩
  · rename_i missed
    refine ⟨_, rfl, .computation other plain fun kind hit => ?_⟩
    rw [(code kind).2 hit] at missed
    cases missed

theorem startingAt_of_not_heads (alone : ¬ ∃ name run, s.Heads rest name run) :
    ∃ form, startingAt s rest = ⟨form, s, []⟩ ∧ s.AloneAs form.kind := by
  by_cases ret : ∃ value span, s = .ret value span
  · obtain ⟨value, span, rfl⟩ := ret
    exact ⟨.ret, rfl, .ret value span rfl⟩
  · have other : ∀ value span, s ≠ .ret value span := fun value span eq => ret ⟨value, span, eq⟩
    cases branches : s.isControlFlow with
    | true =>
      refine ⟨.controlFlow, ?_, .controlFlow branches⟩
      unfold startingAt
      split
      · exact absurd rfl (other _ _)
      · rw [if_pos branches]
    | false =>
      rw [startingAt_of_plain other branches]
      cases joint : joint? s rest with
      | none => exact single_aloneAs other branches
      | some g => exact absurd (heads_of_joint? joint) alone

/-- Every group is the one that starts at the statement behind those of the groups before it. -/
theorem startingAt_of_ofStmts {taken : Nat} {body : List Stmt} {before after : List ActionGroup} {g : ActionGroup}
    (split : ofStmts taken body = before ++ g :: after) :
    ∃ s rest, body.drop (taken + (before.flatMap statements).length) = s :: rest ∧ g = startingAt s rest := by
  -- The induction is on the list; what a group takes is passed over behind its first statement.
  induction body generalizing taken before with
  | nil => simp [ofStmts] at split
  | cons s rest ih =>
    cases taken with
    | succ taken =>
      rw [Nat.succ_add, List.drop_succ_cons]
      exact ih split
    | zero =>
      cases before with
      | nil =>
        obtain ⟨rfl, -⟩ := List.cons.inj split
        exact ⟨s, rest, rfl, rfl⟩
      | cons first before =>
        obtain ⟨rfl, others⟩ := List.cons.inj split
        have later := ih others
        obtain ⟨form, held, eq, -⟩ := startingAt_eq s rest
        rw [eq] at later
        rw [eq, List.flatMap_cons, List.length_append, statements, List.length_cons, Nat.zero_add, Nat.add_right_comm,
          List.drop_succ_cons]
        exact later

end ActionGroup

/-! ## Actions -/

namespace Explainer

variable (x : Explainer)

theorem mem_actionsFrom {place : Nat} {gs : List ActionGroup} {a : Action} (mem : a ∈ (x.actionsFrom place gs).value) :
    ∃ before g after, gs = before ++ g :: after ∧
      a = (x.actionOf (place + (before.flatMap ActionGroup.statements).length) g).value := by
  induction gs generalizing place with
  | nil => simp [actionsFrom] at mem
  | cons g gs ih =>
    rcases List.mem_cons.1 mem with rfl | later
    · exact ⟨[], g, gs, rfl, rfl⟩
    · obtain ⟨before, h, after, rfl, rfl⟩ := ih later
      refine ⟨g :: before, h, after, rfl, ?_⟩
      rw [List.flatMap_cons, List.length_append, Nat.add_assoc]

theorem action_fields (kind : ActionKind) (importance : Importance) (title description : Message)
    (names : Option (List String)) (places : List Nat) (details : List String) :
    let a := (x.action kind importance title description names places details).value
    a.kind = kind ∧ a.importance = importance ∧ a.names = names := by
  cases details <;> exact ⟨rfl, rfl, rfl⟩

theorem kind_actionOf (place : Nat) (g : ActionGroup) : (x.actionOf place g).value.kind = g.form.kind := by
  unfold actionOf
  cases g.form with
  | computation name => cases name <;> exact (x.action_fields ..).1
  | _ => exact (x.action_fields ..).1

variable {s : Stmt} {rest : List Stmt} (place : Nat)

/-- The action at a statement that heads a run. -/
theorem actionOf_of_heads {name : String} {run : List Stmt} (heads : s.Heads rest name run) :
    let a := (x.actionOf place (.startingAt s rest)).value
    a.statements = List.range' place (run.length + 1) ∧ a.kind.FirstHit ((s :: run).map Stmt.renderCompact) ∧
      a.importance = .high ∧ a.names = some [name] := by
  obtain ⟨kind, eq, first⟩ := ActionGroup.startingAt_of_heads heads
  rw [eq]
  refine ⟨x.statements_actionOf .., ?_, (x.action_fields ..).2⟩
  rwa [kind_actionOf]

/-- The action at a statement that heads none. -/
theorem actionOf_of_not_heads (alone : ¬ ∃ name run, s.Heads rest name run) :
    let a := (x.actionOf place (.startingAt s rest)).value
    a.statements = [place] ∧ s.AloneAs a.kind := by
  obtain ⟨form, eq, alone⟩ := ActionGroup.startingAt_of_not_heads alone
  rw [eq]
  refine ⟨x.statements_actionOf .., ?_⟩
  rwa [kind_actionOf]

theorem one_lt_length_actionOf_iff :
    1 < (x.actionOf place (.startingAt s rest)).value.statements.length ↔ ∃ name run, s.Heads rest name run := by
  constructor
  · intro several
    by_contra alone
    rw [(x.actionOf_of_not_heads place alone).1] at several
    exact Nat.lt_irrefl 1 several
  · rintro ⟨name, run, heads⟩
    have some_ := List.length_pos_iff.2 (ActionGroup.ne_nil_of_heads heads)
    rw [(x.actionOf_of_heads place heads).1, List.length_range']
    omega

end Explainer

/-- Every action covers statements that stand together, and every statement belongs to one. An action covers more than one
    exactly when its first statement heads the others: then it covers it and the whole run that it heads, is of the kind
    that a statement among them hits first, matters most and tells the name. Any other action covers one statement, and
    what it is depends on that alone. A keyword that the code of statements hits is hit by one of them. -/
theorem actionsOf_formation (options : ExplainOptions) (localizer : Localizer) (body : List Stmt) :
    (actionsOf options localizer body).flatMap Action.statements = List.range body.length ∧
      (∀ a ∈ actionsOf options localizer body, ∃ i s rest,
        a.statements.head? = some i ∧ body.drop i = s :: rest ∧
          (1 < a.statements.length ↔ ∃ name run, s.Heads rest name run) ∧
          (∀ name run, s.Heads rest name run →
            a.statements = List.range' i (run.length + 1) ∧ a.kind.FirstHit ((s :: run).map Stmt.renderCompact) ∧
              a.importance = .high ∧ a.names = some [name]) ∧
          ((¬ ∃ name run, s.Heads rest name run) → a.statements = [i] ∧ s.AloneAs a.kind)) ∧
      ∀ kind words, (kind, words) ∈ ActionKind.keywords → ∀ run : List Stmt,
        Text.containsAny (codeOf run) words = true ↔ ∃ s ∈ run, Text.containsAny s.renderCompact words = true := by
  let x : Explainer := ⟨options, localizer⟩
  refine ⟨?_, fun a mem => ?_, fun kind words known run => ?_⟩
  · have places := x.flatMap_statements_actionsFrom 0 (ActionGroup.ofStmts 0 body)
    rwa [ActionGroup.flatMap_statements_ofStmts, List.drop_zero, ← List.range_eq_range'] at places
  · obtain ⟨before, g, after, split, rfl⟩ := x.mem_actionsFrom mem
    obtain ⟨s, rest, here, rfl⟩ := ActionGroup.startingAt_of_ofStmts split
    refine ⟨_, s, rest, ?_, here, x.one_lt_length_actionOf_iff _, fun _ _ => x.actionOf_of_heads _,
      x.actionOf_of_not_heads _⟩
    rw [x.statements_actionOf, ActionGroup.statements, List.length_cons, List.range'_succ]
    rfl
  · rw [ActionKind.containsAny_codeOf_iff known]
    simp only [List.mem_map, exists_exists_and_eq_and]

/-- A declaration, an expression with its name, which has a keyword, and a `return`: `const n = m; n.click; return;`. -/
private def clicked : List Stmt :=
  [.varDecl .const [.mk (.ident "n" .none) (some (.ident "m" .none)) .none] .none,
    .expr (.member (.ident "n" .none) "click" false .none) .none, .ret none .none]

/-- The declaration heads the expression, so one action covers both; the `return` has its own. -/
theorem actionsOf_formation_clicked :
    (∃ a ∈ actionsOf .standard .echo clicked,
      a.statements = List.range' 0 2 ∧ a.kind.FirstHit ((clicked.take 2).map Stmt.renderCompact) ∧
        a.importance = .high ∧ a.names = some ["n"]) ∧
      (∃ a ∈ actionsOf .standard .echo clicked, a.statements = [2] ∧ (Stmt.ret none .none).AloneAs a.kind) ∧
      ∃ s ∈ clicked, Text.containsAny s.renderCompact ["click", "type", "fill", "select", "submit", "press", "hover",
        "focus"] = true := by
  have all := actionsOf_formation .standard .echo clicked
  have heads : clicked[0].Heads [clicked[1], clicked[2]] "n" [clicked[1]] := by
    refine ⟨rfl, ⟨_, _, rfl, rfl, by decide +kernel⟩, ⟨⟨[clicked[2]], rfl⟩, ?_, ?_⟩, clicked[1], by simp, (.interaction, _),
      .tail _ (.head _), by decide +kernel⟩
    · intro t mem
      rw [List.mem_singleton.1 mem]
      exact ⟨rfl, by decide +kernel⟩
    · rintro t head ⟨plain, -⟩
      obtain rfl := Option.some.inj head
      cases plain
  have alone : ¬ ∃ name run, clicked[2].Heads [] name run := by
    rintro ⟨name, run, ⟨⟩, -⟩
  refine ⟨?_, ?_, ?_⟩
  · obtain ⟨a, mem, start⟩ : ∃ a ∈ actionsOf .standard .echo clicked, a.statements.head? = some 0 := by decide +kernel
    obtain ⟨i, s, rest, head, here, -, group, -⟩ := all.2.1 a mem
    obtain rfl := Option.some.inj (start.symm.trans head)
    obtain ⟨rfl, rfl⟩ := List.cons.inj here
    exact ⟨a, mem, group _ _ heads⟩
  · obtain ⟨a, mem, start⟩ : ∃ a ∈ actionsOf .standard .echo clicked, a.statements.head? = some 2 := by decide +kernel
    obtain ⟨i, s, rest, head, here, -, -, single⟩ := all.2.1 a mem
    obtain rfl := Option.some.inj (start.symm.trans head)
    obtain ⟨rfl, rfl⟩ := List.cons.inj here
    exact ⟨a, mem, single alone⟩
  · exact (all.2.2 .interaction _ (.tail _ (.head _)) clicked).1 (by decide +kernel)

end FlowScript
