import FlowScript.Explain.Details
import FlowScript.Proofs.Steps.Visible
import Mathlib.Data.List.Perm.Basic

/-!
# Details cover every statement

A compound statement is made of clauses: a head, and a list of statements under it. The details of a statement are told
as items, independent of how anything is rendered: the heads of the clauses and the leaves, in source order, each with
the places around it. Every item has a line of its own, but a leaf without a description, and what stands before the
line depends on the places alone.
-/

namespace FlowScript

/-- What a line of details is about: the head of a clause, or a statement that is not opened. -/
inductive DetailTopic
  | condition (test : Option Expr)
  | otherwise (elseIf : Bool)
  | counting (hasInit : Bool)
  | each (kind : ForLoopKind)
  | repeating (test : Option Expr)
  | attempt
  | handler (param : Option Pattern)
  | finalizer
  | leaf (s : Stmt)

namespace DetailTopic

/-- Whether the line is the first one of its statement. -/
def opens : DetailTopic → Bool
  | otherwise _ | handler _ | finalizer => false
  | _ => true

/-- The text of a head, or the sentence about a leaf. -/
def text (x : Explainer) : DetailTopic → String
  | condition test => (x.ifHead test).value
  | otherwise elseIf => (x.label (if elseIf then "explain.else_if" else "explain.else")).value
  | counting hasInit => (x.label (if hasInit then "explain.repeat_fixed" else "explain.repeat")).value
  | each kind => (x.eachHead kind).value
  | repeating test => (x.whileHead test).value
  | attempt => (x.label "explain.try").value
  | handler param => (x.catchHead param).value
  | finalizer => (x.label "explain.finally").value
  | leaf s => (x.describe s).value

/-- One line, and none for a leaf that nothing is said of. -/
def lines (x : Explainer) : DetailTopic → List String
  | leaf s => if (x.describe s).value.isEmpty then [] else [(x.describe s).value]
  | topic => [topic.text x]

end DetailTopic

/-- The head of a clause with the place and the list under it. -/
structure DetailClause where
  topic : DetailTopic
  place : DetailPlace
  body : List Stmt

open DetailPlace in
/-- The clauses of a statement that is opened. -/
def Stmt.clauses : Stmt → List DetailClause
  | .ifElse test consequent alternate _ =>
    ⟨.condition test, .asBody branchMark, consequent.asBody⟩ :: alternate.toList.map fun s =>
      ⟨.otherwise s.isIf, if s.isIf then .afterElse else .asBody branchMark, s.asBody⟩
  | .for init _ _ body _ => [⟨.counting init.isSome, .asBody loopMark, body.asBody⟩]
  | .forEach kind _ _ _ body _ => [⟨.each kind, .asBody loopMark, body.asBody⟩]
  | .while test body _ => [⟨.repeating test, .asBody loopMark, body.asBody⟩]
  | .doWhile body test _ => [⟨.repeating test, .asBody loopMark, body.asBody⟩]
  | .try tried handler finalizer _ =>
    ⟨.attempt, .asBody tryMark, tried⟩ ::
      (handler.toList.map (fun clause => ⟨.handler clause.param, .asBody catchMark, clause.body⟩) ++
        finalizer.toList.map fun body => ⟨.finalizer, .asBody branchMark, body⟩)
  | _ => []

theorem Stmt.map_body_clauses (s : Stmt) : s.clauses.map DetailClause.body = s.sections := by
  cases s with
  | ifElse test consequent alternate span => cases alternate <;> rfl
  | «try» tried handler finalizer span => cases handler <;> cases finalizer <;> rfl
  | _ => rfl

theorem Stmt.mem_sections_of_mem_clauses {s : Stmt} {c : DetailClause} (mem : c ∈ s.clauses) : c.body ∈ s.sections := by
  rw [← map_body_clauses]
  exact List.mem_map_of_mem mem

/-! ## Items -/

/-- How far a place indents. -/
def DetailPlace.columns : DetailPlace → Nat
  | inList => 0
  | asBody _ => 4
  | afterElse => 2

/-- A topic with the bodies and conditions after an `else` around it, outer ones first. -/
structure DetailItem where
  places : List DetailPlace
  topic : DetailTopic

namespace DetailItem

/-- The item with a place around it. -/
def inside (place : DetailPlace) (i : DetailItem) : DetailItem := ⟨place :: i.places, i.topic⟩

/-- How far the places around the item indent it. -/
def columns (i : DetailItem) : Nat := i.places.foldr (fun place columns => place.columns + columns) 0

/-- The mark of the body that the item is the first line of a statement of. -/
def mark? (i : DetailItem) : Option Char :=
  if i.topic.opens then
    match i.places.getLast? with
    | some (.asBody mark) => some mark
    | _ => none
  else none

/-- What stands before the line: spaces, the last but one of which gives way to the mark. -/
def lead (i : DetailItem) : String :=
  match i.mark? with
  | some mark => String.ofList (List.replicate (i.columns - 2) ' ' ++ [mark, ' '])
  | none => String.ofList (List.replicate i.columns ' ')

/-- The line of the item, if it has one. -/
def lines (x : Explainer) (i : DetailItem) : List String := (i.topic.lines x).map (i.lead ++ ·)

end DetailItem

/-- The items of a statement: for each clause its head and the items of its list, or the statement itself. -/
def Stmt.items (s : Stmt) : List DetailItem :=
  if s.clauses.isEmpty then [⟨[], .leaf s⟩]
  else s.clauses.attach.flatMap fun ⟨c, _⟩ =>
    ⟨[], c.topic⟩ :: (c.body.attach.flatMap fun ⟨t, _⟩ => t.items).map (.inside c.place)
termination_by sizeOf s
decreasing_by
  have : sizeOf t < sizeOf c.body := List.sizeOf_lt_of_mem ‹_›
  have : sizeOf c.body < sizeOf s := Stmt.sizeOf_of_mem_sections (Stmt.mem_sections_of_mem_clauses ‹_›)
  omega

/-- The statements that are reached through branches, bodies, handlers and finalizers, outer ones first. -/
def Stmt.reachedBelow (s : Stmt) : List Stmt :=
  s :: s.sections.attach.flatMap fun ⟨body, _⟩ => body.attach.flatMap fun ⟨t, _⟩ => t.reachedBelow
termination_by sizeOf s
decreasing_by
  have : sizeOf t < sizeOf body := List.sizeOf_lt_of_mem ‹_›
  have : sizeOf body < sizeOf s := Stmt.sizeOf_of_mem_sections ‹_›
  omega

/-- The statement nests at most so many conditions, loops and `try`s in each other. -/
inductive Stmt.NestsWithin : Nat → Stmt → Prop
  | leaf {n : Nat} {s : Stmt} : s.sections = [] → NestsWithin n s
  | compound {n : Nat} {s : Stmt} : (∀ body ∈ s.sections, ∀ t ∈ body, NestsWithin n t) → NestsWithin (n + 1) s

theorem Stmt.items_of_leaf {s : Stmt} (leaf : s.clauses = []) : s.items = [⟨[], .leaf s⟩] := by
  rw [items, if_pos (by rw [leaf]; rfl)]

theorem Stmt.items_of_clauses {s : Stmt} (opened : s.clauses ≠ []) :
    s.items = s.clauses.flatMap fun c => ⟨[], c.topic⟩ :: (c.body.flatMap items).map (.inside c.place) := by
  rw [items, if_neg (by simpa using opened)]
  simp

theorem Stmt.reachedBelow_eq (s : Stmt) :
    s.reachedBelow = s :: s.sections.flatMap fun body => body.flatMap reachedBelow := by
  rw [reachedBelow]
  simp

/-! ## What stands before a line -/

section
variable {place : DetailPlace} {i : DetailItem} {x : Explainer}

theorem DetailPlace.otherLead_eq (place : DetailPlace) :
    place.otherLead = String.ofList (List.replicate place.columns ' ') := by
  cases place <;> rfl

namespace DetailItem

/-- The first line of a statement has the lead of its place. -/
theorem lead_inside_of_first (here : i.places = []) (opens : i.topic.opens = true) :
    (i.inside place).lead = place.firstLead := by
  cases place with
  | asBody mark =>
    simp [lead, mark?, inside, columns, here, opens, DetailPlace.columns, DetailPlace.firstLead]
    rw [← String.toList_inj]
    simp
  | inList | afterElse =>
    simp [lead, mark?, inside, columns, here, opens, DetailPlace.columns, DetailPlace.firstLead]

theorem four_le_columns {mark : Char} (found : i.mark? = some mark) : 4 ≤ i.columns := by
  unfold mark? at found
  split at found
  · split at found
    · next last =>
      obtain ⟨around, split⟩ := List.getLast?_eq_some_iff.1 last
      rw [columns, split, List.foldr_append]
      clear split
      -- The places around the body only add to its four columns.
      induction around with
      | nil => exact Nat.le_refl 4
      | cons place around ih => exact Nat.le_add_left_of_le ih
    · cases found
  · cases found

theorem length_lead (i : DetailItem) : i.lead.length = i.columns := by
  unfold lead
  split
  · next mark found =>
    have room := four_le_columns found
    rw [String.length_ofList, List.length_append, List.length_replicate]
    exact Nat.sub_add_cancel (by omega)
  · simp

/-- A line that is not the first one of its statement there goes further in by the columns of a place around it. -/
theorem lead_inside (later : i.places ≠ [] ∨ i.topic.opens = false) :
    (i.inside place).lead = place.otherLead ++ i.lead := by
  have same : (i.inside place).mark? = i.mark? := by
    unfold mark? inside
    rcases later with deeper | closed
    · rw [List.getLast?_cons_of_ne_nil deeper]
    · simp [closed]
  have wider : (i.inside place).columns = place.columns + i.columns := rfl
  rw [lead, lead, same, wider, DetailPlace.otherLead_eq]
  cases found : i.mark? with
  | none => simp [← String.ofList_append]
  | some mark =>
    have room := four_le_columns found
    have split : place.columns + i.columns - 2 = place.columns + (i.columns - 2) := by omega
    simp only [split]
    rw [← String.ofList_append, ← List.append_assoc, List.replicate_append_replicate]

end DetailItem
end

/-! ## Lines in a place -/

theorem DetailTopic.lines_eq (x : Explainer) (topic : DetailTopic) :
    topic.lines x = [] ∨ topic.lines x = [topic.text x] := by
  cases topic with
  | leaf s =>
    rw [lines]
    split
    · exact .inl rfl
    · exact .inr rfl
  | _ => exact .inr rfl

/-- Nothing stands before a line of a statement that no place is around. -/
theorem DetailItem.lines_mk_nil (x : Explainer) (topic : DetailTopic) : (mk [] topic).lines x = topic.lines x := by
  have bare : (mk [] topic).lead = "" := by
    unfold lead mark?
    split
    · next found => split at found <;> cases found
    · rfl
  simp [lines, bare]

/-- The lines of some items. -/
def DetailItem.linesOfAll (x : Explainer) (items : List DetailItem) : List String := items.flatMap (DetailItem.lines x)

/-- The topic of a clause is a head, which has a line whatever can be rendered. -/
theorem Stmt.lines_of_mem_clauses (x : Explainer) {s : Stmt} {c : DetailClause} (mem : c ∈ s.clauses) :
    c.topic.lines x = [c.topic.text x] := by
  cases s with
  | ifElse test consequent alternate span =>
    rcases List.mem_cons.1 mem with rfl | later
    · rfl
    · obtain ⟨s, -, rfl⟩ := List.mem_map.1 later
      rfl
  | «for» | forEach | «while» | doWhile =>
    cases List.mem_singleton.1 mem
    rfl
  | «try» tried handler finalizer span =>
    rcases List.mem_cons.1 mem with rfl | later
    · rfl
    · rcases List.mem_append.1 later with caught | ended
      · obtain ⟨clause, -, rfl⟩ := List.mem_map.1 caught
        rfl
      · obtain ⟨body, -, rfl⟩ := List.mem_map.1 ended
        rfl
  | _ => cases mem

/-- The first clause opens its statement, and no other does. -/
theorem Stmt.exists_clauses_eq_cons {s : Stmt} (opened : s.clauses ≠ []) :
    ∃ c later, s.clauses = c :: later ∧ c.topic.opens = true ∧ ∀ d ∈ later, d.topic.opens = false := by
  cases s with
  | ifElse test consequent alternate span =>
    refine ⟨_, _, rfl, rfl, fun d mem => ?_⟩
    obtain ⟨s, -, rfl⟩ := List.mem_map.1 mem
    rfl
  | «for» | forEach | «while» | doWhile => exact ⟨_, [], rfl, rfl, nofun⟩
  | «try» tried handler finalizer span =>
    refine ⟨_, _, rfl, rfl, fun d mem => ?_⟩
    rcases List.mem_append.1 mem with caught | ended
    · obtain ⟨clause, -, rfl⟩ := List.mem_map.1 caught
      rfl
    · obtain ⟨body, -, rfl⟩ := List.mem_map.1 ended
      rfl
  | _ => exact absurd rfl opened

/-- The items of a statement begin with its own first line; if it has others, that one is a head. -/
theorem Stmt.exists_items_eq_cons (s : Stmt) :
    ∃ topic later, s.items = ⟨[], topic⟩ :: later ∧ topic.opens = true ∧
      (∀ i ∈ later, i.places ≠ [] ∨ i.topic.opens = false) ∧
      (later = [] ∨ ∀ x : Explainer, topic.lines x = [topic.text x]) := by
  by_cases leaf : s.clauses = []
  · exact ⟨.leaf s, [], items_of_leaf leaf, rfl, nofun, .inl rfl⟩
  · obtain ⟨c, later, clauses, opens, closed⟩ := exists_clauses_eq_cons leaf
    have head (x : Explainer) : c.topic.lines x = [c.topic.text x] :=
      lines_of_mem_clauses x (clauses ▸ List.mem_cons_self ..)
    have inner (d : DetailClause) : ∀ i ∈ (d.body.flatMap items).map (DetailItem.inside d.place), i.places ≠ [] := by
      intro i mem
      obtain ⟨j, -, rfl⟩ := List.mem_map.1 mem
      exact List.cons_ne_nil _ _
    rw [items_of_clauses leaf, clauses, List.flatMap_cons, List.cons_append]
    refine ⟨c.topic, _, rfl, opens, fun i mem => ?_, .inr head⟩
    rcases List.mem_append.1 mem with below | behind
    · exact .inl (inner c i below)
    · obtain ⟨d, among, mem⟩ := List.mem_flatMap.1 behind
      rcases List.mem_cons.1 mem with rfl | below
      · exact .inr (closed d among)
      · exact .inl (inner d i below)

/-- In a place, the lines of a statement are those of its items with the place around them. -/
theorem Stmt.lay_items (x : Explainer) (place : DetailPlace) (s : Stmt) :
    place.lay (DetailItem.linesOfAll x s.items) = DetailItem.linesOfAll x (s.items.map (DetailItem.inside place)) := by
  obtain ⟨topic, later, items, opens, closed, head⟩ := s.exists_items_eq_cons
  have front : (DetailItem.inside place ⟨[], topic⟩).lines x = (topic.lines x).map (place.firstLead ++ ·) := by
    rw [DetailItem.lines, DetailItem.lead_inside_of_first rfl opens]
    rfl
  have behind : (later.map (DetailItem.inside place)).flatMap (DetailItem.lines x) =
      (later.flatMap (DetailItem.lines x)).map (place.otherLead ++ ·) := by
    rw [List.flatMap_map, List.map_flatMap]
    refine List.flatMap_congr fun i mem => ?_
    rw [DetailItem.lines, DetailItem.lead_inside (closed i mem), DetailItem.lines, List.map_map]
    refine List.map_congr_left fun line _ => ?_
    exact String.append_assoc ..
  rw [DetailItem.linesOfAll, DetailItem.linesOfAll, items, List.flatMap_cons, List.map_cons, List.flatMap_cons, behind,
    DetailItem.lines_mk_nil, front]
  rcases head with rfl | head
  · -- A leaf may have no line.
    rcases topic.lines_eq x with none | one
    · rw [none]
      rfl
    · rw [one]
      rfl
  · rw [head x]
    rfl

/-! ## The explainer -/

namespace Explainer

variable {x : Explainer} {depth : Nat}

@[simp] theorem lay_inList (lines : List String) : DetailPlace.inList.lay lines = lines := by
  cases lines with
  | nil => rfl
  | cons line lines => simp [DetailPlace.lay, DetailPlace.firstLead, DetailPlace.otherLead]

@[simp] theorem lay_nil (place : DetailPlace) : place.lay [] = [] := rfl

/-- Anywhere but in the place of a body, where a block gives way to its statements, the lines of a statement are those
    it has in a list, laid in the place. -/
theorem value_linesOf (x : Explainer) (place : DetailPlace) (depth : Nat) (s : Stmt)
    (whole : (∀ inner span, s ≠ .block inner span) ∨ ∀ mark, place ≠ .asBody mark) :
    (x.linesOf place depth s).value = place.lay (x.linesOf .inList depth s).value := by
  cases s with
  | block inner span =>
    cases place with
    | asBody mark => simp at whole
    | inList | afterElse =>
      simp only [linesOf, within]
      split <;> simp
  | ifElse test consequent alternate span =>
    cases alternate with
    | none | some alternate =>
      simp only [linesOf, within]
      split <;> simp
  | «try» tried handler finalizer span =>
    rcases handler with _ | ⟨param, body, at_⟩ <;> cases finalizer with
    | none | some finalizer =>
      simp only [linesOf, within]
      split <;> simp
  | _ =>
    simp only [linesOf, within]
    split <;> simp

theorem value_linesOfList (x : Explainer) (place : DetailPlace) (depth : Nat) (body : List Stmt) :
    (x.linesOfList place depth body).value = body.flatMap fun s => place.lay (x.linesOf .inList depth s).value := by
  induction body with
  | nil => rfl
  | cons s ss ih => simp [linesOfList, ih]

/-- A statement alone has the lines of the list that it stands for, if that is one statement or a body. -/
theorem value_linesOf_asBody (x : Explainer) (place : DetailPlace) (depth : Nat) (s : Stmt)
    (fits : (∀ inner span, s ≠ .block inner span) ∨ ∃ mark, place = .asBody mark) :
    (x.linesOf place depth s).value = (x.linesOfList place depth s.asBody).value := by
  by_cases block : ∃ inner span, s = .block inner span
  · obtain ⟨inner, span, rfl⟩ := block
    rcases fits with other | ⟨mark, rfl⟩
    · exact absurd rfl (other inner span)
    · rfl
  · have other : ∀ inner span, s ≠ .block inner span := fun inner span is => block ⟨inner, span, is⟩
    have single : s.asBody = [s] := by rw [Stmt.asBody]; exact other
    rw [value_linesOf x place depth s (.inl other), single, value_linesOfList]
    simp

/-- A statement that is opened has for each clause its head and the lines of its list. -/
theorem value_linesOf_of_clauses {s : Stmt} (opened : s.clauses ≠ []) (within : depth ≤ maxDetailDepth) :
    (x.linesOf .inList depth s).value =
      s.clauses.flatMap fun c => c.topic.text x :: (x.linesOfList c.place (depth + 1) c.body).value := by
  have reached (lines : Worded (List String)) : Explainer.within depth lines = lines := if_neg (Nat.not_lt.2 within)
  have body (mark : Char) (s : Stmt) : (x.linesOf (.asBody mark) (depth + 1) s).value =
      (x.linesOfList (.asBody mark) (depth + 1) s.asBody).value := value_linesOf_asBody x _ _ s (.inr ⟨mark, rfl⟩)
  cases s with
  | ifElse test consequent alternate span =>
    cases alternate with
    | none => simp [linesOf, reached, body, Stmt.clauses, DetailTopic.text]
    | some alternate =>
      have no : (x.linesOf (if alternate.isIf then .afterElse else .asBody DetailPlace.branchMark) (depth + 1)
          alternate).value = (x.linesOfList (if alternate.isIf then .afterElse else .asBody DetailPlace.branchMark)
            (depth + 1) alternate.asBody).value := by
        refine value_linesOf_asBody x _ _ alternate ?_
        cases isIf : alternate.isIf with
        | true => exact .inl (by rintro inner span rfl; cases isIf)
        | false => exact .inr ⟨_, rfl⟩
      simp [linesOf, reached, body, no, Stmt.clauses, DetailTopic.text]
  | «for» | forEach | «while» | doWhile => simp [linesOf, reached, body, Stmt.clauses, DetailTopic.text]
  | «try» tried handler finalizer span =>
    rcases handler with _ | ⟨param, inner, at_⟩ <;> cases finalizer with
    | none | some finalizer =>
      simp [linesOf, reached, Stmt.clauses, DetailTopic.text, CatchClause.param, CatchClause.body]
  | _ => exact absurd rfl opened

theorem value_linesOf_of_leaf {s : Stmt} (leaf : s.clauses = []) (within : depth ≤ maxDetailDepth) :
    (x.linesOf .inList depth s).value = (DetailTopic.leaf s).lines x := by
  have reached (lines : Worded (List String)) : Explainer.within depth lines = lines := if_neg (Nat.not_lt.2 within)
  cases s with
  | ifElse | «for» | forEach | «while» | doWhile | «try» => cases leaf
  | _ =>
    simp only [linesOf, reached, leafLines]
    simp [DetailTopic.lines]

/-- Within the depth limit, the lines of a statement are those of its items. -/
theorem value_linesOf_eq_items {s : Stmt} {n : Nat} (nests : s.NestsWithin n) (within : depth + n ≤ maxDetailDepth) :
    (x.linesOf .inList depth s).value = DetailItem.linesOfAll x s.items := by
  have leaf {s : Stmt} {depth : Nat} (none : s.clauses = []) (within : depth ≤ maxDetailDepth) :
      (x.linesOf .inList depth s).value = DetailItem.linesOfAll x s.items := by
    rw [value_linesOf_of_leaf none within, Stmt.items_of_leaf none, DetailItem.linesOfAll, List.flatMap_singleton,
      DetailItem.lines_mk_nil]
  induction nests generalizing depth with
  | @leaf n s none =>
    rw [← Stmt.map_body_clauses, List.map_eq_nil_iff] at none
    exact leaf none (by omega)
  | @compound n s _ ih =>
    by_cases none : s.clauses = []
    · exact leaf none (by omega)
    · rw [value_linesOf_of_clauses none (by omega), Stmt.items_of_clauses none, DetailItem.linesOfAll, List.flatMap_assoc]
      refine List.flatMap_congr fun c mem => ?_
      rw [List.flatMap_cons, DetailItem.lines_mk_nil, Stmt.lines_of_mem_clauses x mem, List.singleton_append,
        value_linesOfList, List.map_flatMap, List.flatMap_assoc]
      congr 1
      refine List.flatMap_congr fun t among => ?_
      rw [ih c.body (Stmt.mem_sections_of_mem_clauses mem) t among (by omega), Stmt.lay_items]
      rfl

end Explainer

/-! ## Every statement once -/

namespace Stmt

/-- What a statement has to say by itself: the heads of its clauses, or the sentence about it. -/
def topics (s : Stmt) : List DetailTopic :=
  if s.clauses.isEmpty then [.leaf s] else s.clauses.map DetailClause.topic

theorem topics_of_leaf {s : Stmt} (leaf : s.clauses = []) : s.topics = [.leaf s] := by
  rw [topics, if_pos (by rw [leaf]; rfl)]

theorem topics_of_clauses {s : Stmt} (opened : s.clauses ≠ []) :
    s.topics = s.clauses.flatMap fun c => [c.topic] := by
  rw [topics, if_neg (by simpa using opened), List.map_eq_flatMap]

theorem map_topic_items_of_clauses {s : Stmt} (opened : s.clauses ≠ []) :
    s.items.map DetailItem.topic =
      s.clauses.flatMap fun c => [c.topic] ++ c.body.flatMap fun t => t.items.map DetailItem.topic := by
  rw [items_of_clauses opened, List.map_flatMap]
  refine List.flatMap_congr fun c _ => ?_
  simp [List.map_flatMap, DetailItem.inside, Function.comp_def]

theorem flatMap_topics_reachedBelow (s : Stmt) :
    s.reachedBelow.flatMap topics =
      s.topics ++ s.clauses.flatMap fun c => c.body.flatMap fun t => t.reachedBelow.flatMap topics := by
  rw [reachedBelow_eq, List.flatMap_cons, ← map_body_clauses, List.flatMap_map, List.flatMap_assoc]
  simp only [List.flatMap_assoc]

theorem sizeOf_of_mem_body {s t : Stmt} {c : DetailClause} (mem : c ∈ s.clauses) (among : t ∈ c.body) :
    sizeOf t < sizeOf s :=
  Nat.lt_trans (List.sizeOf_lt_of_mem among) (sizeOf_of_mem_sections (mem_sections_of_mem_clauses mem))

/-- The items of a statement are the topics of all statements reached below it, each once. -/
theorem perm_topics (s : Stmt) : (s.items.map DetailItem.topic).Perm (s.reachedBelow.flatMap topics) := by
  rw [flatMap_topics_reachedBelow]
  by_cases leaf : s.clauses = []
  · rw [items_of_leaf leaf, topics_of_leaf leaf, leaf]
    rfl
  · have below : ∀ c ∈ s.clauses, (c.body.flatMap fun t => t.items.map DetailItem.topic).Perm
        (c.body.flatMap fun t => t.reachedBelow.flatMap topics) := by
      intro c mem
      refine List.Perm.flatMap_left _ fun t among => ?_
      have := sizeOf_of_mem_body mem among
      exact perm_topics t
    rw [map_topic_items_of_clauses leaf, topics_of_clauses leaf]
    -- The head of a later clause comes behind the list of an earlier one.
    exact (List.flatMap_append_perm ..).symm.trans ((List.Perm.flatMap_left _ below).append_left _)
termination_by sizeOf s

/-- The items that open a statement come in the order of the statements. -/
theorem filter_opens_items (s : Stmt) :
    (s.items.map DetailItem.topic).filter DetailTopic.opens =
      (s.reachedBelow.flatMap topics).filter DetailTopic.opens := by
  rw [flatMap_topics_reachedBelow]
  by_cases leaf : s.clauses = []
  · rw [items_of_leaf leaf, topics_of_leaf leaf, leaf]
    rfl
  · have below : ∀ c ∈ s.clauses,
        (c.body.flatMap fun t => t.items.map DetailItem.topic).filter DetailTopic.opens =
          (c.body.flatMap fun t => t.reachedBelow.flatMap topics).filter DetailTopic.opens := by
      intro c mem
      rw [List.filter_flatMap, List.filter_flatMap]
      refine List.flatMap_congr fun t among => ?_
      have := sizeOf_of_mem_body mem among
      exact filter_opens_items t
    rw [map_topic_items_of_clauses leaf, topics_of_clauses leaf, List.filter_append, List.filter_flatMap,
      List.filter_flatMap, List.filter_flatMap]
    obtain ⟨c, later, clauses, -, closed⟩ := exists_clauses_eq_cons leaf
    rw [clauses] at below ⊢
    have silent : (later.flatMap fun d => [d.topic].filter DetailTopic.opens) = [] :=
      List.flatMap_eq_nil_iff.2 fun d among => by rw [List.filter_singleton, closed d among]; rfl
    have lists : (later.flatMap fun d => ([d.topic] ++ d.body.flatMap fun t => t.items.map DetailItem.topic).filter
        DetailTopic.opens) = later.flatMap fun d => (d.body.flatMap fun t => t.reachedBelow.flatMap topics).filter
          DetailTopic.opens := by
      refine List.flatMap_congr fun d among => ?_
      rw [List.filter_append, below d (List.mem_cons_of_mem _ among), List.filter_singleton, closed d among]
      rfl
    rw [List.flatMap_cons, List.flatMap_cons, List.flatMap_cons, silent, lists, List.filter_append,
      below c (List.mem_cons_self ..), List.append_nil, List.append_assoc]
termination_by sizeOf s

end Stmt

/-- **Details leave nothing out.** The details of a statement are the lines of its items, in the order of the items and
    each behind as many columns as the places around it take: four for a body, with the mark on the first line of a
    statement, and two for the condition after an `else`. The items are the heads and leaves of all statements reached,
    each once, those that open a statement in the order of the statements. Neither the items nor what stands before
    their lines depend on what can be rendered. -/
theorem details_cover (x : Explainer) {s : Stmt} (nests : s.NestsWithin Explainer.maxDetailDepth) :
    (x.details s).value = s.items.flatMap (fun i => (i.topic.lines x).map (i.lead ++ ·)) ∧
      (s.items.map DetailItem.topic).Perm (s.reachedBelow.flatMap Stmt.topics) ∧
      (s.items.map DetailItem.topic).filter DetailTopic.opens =
        (s.reachedBelow.flatMap Stmt.topics).filter DetailTopic.opens ∧
      ∀ i ∈ s.items, i.lead.length = i.columns :=
  ⟨Explainer.value_linesOf_eq_items nests (Nat.le_of_eq (Nat.zero_add _)), s.perm_topics, s.filter_opens_items,
    fun i _ => i.length_lead⟩

/-- The condition `if () { return; continue }`. -/
private def leaving : Stmt := .ifElse none (.block [.ret none .none, .continue .none] .none) none .none

/-- The condition `if (this) ; else if () { return; continue }`. -/
private def waiting : Stmt := .ifElse (some (.this .none)) (.empty .none) (some leaving) .none

/-- Each statement is indented by the bodies around it, and what comes behind the `else` by two columns more. -/
theorem details_cover_waitingLoop :
    let loop := Stmt.while (some (.this .none)) (.block [waiting] .none) .none
    loop.NestsWithin Explainer.maxDetailDepth ∧
      (Explainer.details ⟨.standard, .keyOnly⟩ loop).value =
        ["explain.repeat_while", "  ↻ explain.if_then", "      ✓ explain.execute", "    explain.else_if",
          "      explain.if_then", "        ✓ explain.return_plain", "        ✓ explain.execute"] := by
  intro loop
  have leaf {s : Stmt} (is : s.clauses = []) : (∀ n, s.NestsWithin n) ∧ s.items = [⟨[], .leaf s⟩] :=
    ⟨fun n => .leaf (by rw [← Stmt.map_body_clauses, is]; rfl), Stmt.items_of_leaf is⟩
  have empty := leaf (s := .empty .none) rfl
  have ret := leaf (s := .ret none .none) rfl
  have next := leaf (s := .continue .none) rfl
  have inner : leaving.NestsWithin 254 ∧ leaving.items = [⟨[], .condition none⟩,
      ⟨[.asBody '✓'], .leaf (.ret none .none)⟩, ⟨[.asBody '✓'], .leaf (.continue .none)⟩] := by
    have clauses : leaving.clauses = [⟨.condition none, .asBody '✓', [.ret none .none, .continue .none]⟩] := rfl
    refine ⟨.compound ?_, ?_⟩
    · rw [← Stmt.map_body_clauses, clauses]
      simp [ret, next]
    · rw [Stmt.items_of_clauses (by simp [clauses]), clauses]
      simp [ret, next, DetailItem.inside]
  have outer : waiting.NestsWithin 255 ∧ waiting.items = [⟨[], .condition (some (.this .none))⟩,
      ⟨[.asBody '✓'], .leaf (.empty .none)⟩, ⟨[], .otherwise true⟩] ++ leaving.items.map (.inside .afterElse) := by
    have clauses : waiting.clauses = [⟨.condition (some (.this .none)), .asBody '✓', [.empty .none]⟩,
      ⟨.otherwise true, .afterElse, [leaving]⟩] := rfl
    refine ⟨.compound ?_, ?_⟩
    · rw [← Stmt.map_body_clauses, clauses]
      simp [empty, inner]
    · rw [Stmt.items_of_clauses (by simp [clauses]), clauses]
      simp [empty, DetailItem.inside]
  have whole : loop.NestsWithin 256 ∧ loop.items =
      ⟨[], .repeating (some (.this .none))⟩ :: waiting.items.map (.inside (.asBody '↻')) := by
    have clauses : loop.clauses = [⟨.repeating (some (.this .none)), .asBody '↻', [waiting]⟩] := rfl
    refine ⟨.compound ?_, ?_⟩
    · rw [← Stmt.map_body_clauses, clauses]
      simp [outer]
    · rw [Stmt.items_of_clauses (by simp [clauses]), clauses]
      simp
  refine ⟨whole.1, ?_⟩
  rw [(details_cover _ whole.1).1, whole.2, outer.2, inner.2]
  decide +kernel

end FlowScript
