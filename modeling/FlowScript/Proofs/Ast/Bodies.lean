import FlowScript.Proofs.Diagnostics.Nests
import FlowScript.Proofs.Parse.Nodes

/-!
# The lists of statements of a source

The lists inside the statements of a source that is read are sound: so are their statements, and these follow each other
in order. A list is a body of some node, or a single statement that stands alone as a branch.
-/

namespace FlowScript

/-- A list of statements of a node: the body of a node in it, or a statement in it alone. -/
structure Node.HoldsList (n : Node) (list : List Stmt) : Prop where
  each : ∀ t ∈ list, n.Holds (.stmt t)
  listed : (∃ m, n.Holds m ∧ list ∈ m.bodies) ∨ ∃ t, list = [t]

namespace Node.HoldsList

variable {n : Node} {list : List Stmt} {s : Stmt}

/-- The body of a node below, whose statements are children of that node. -/
theorem of_body {m : Node} (held : n.Holds m) (isBody : list ∈ m.bodies) (below : ∀ t ∈ list, .stmt t ∈ m.children) :
    n.HoldsList list :=
  ⟨fun t mem => held.child (below t mem), .inl ⟨m, held, isBody⟩⟩

theorem asBody (held : n.Holds (.stmt s)) : n.HoldsList s.asBody := by
  cases s with
  | block body span =>
    exact of_body held (List.mem_singleton_self _) fun t mem => List.mem_map_of_mem mem
  | _ =>
    refine ⟨fun t mem => ?_, .inr ⟨_, rfl⟩⟩
    obtain rfl := List.mem_singleton.1 mem
    exact held

end Node.HoldsList

/-- The lists inside a statement are lists of its node. -/
theorem Stmt.holdsList_of_mem_nestedBodies {s : Stmt} {list : List Stmt} (inside : list ∈ s.nestedBodies) :
    (Node.stmt s).HoldsList list := by
  have child {c : Child} (mem : c ∈ (Node.stmt s).children) : (Node.stmt s).Holds c.node := .inside mem .self
  cases s with
  | block body span =>
    obtain rfl := List.mem_singleton.1 inside
    exact .asBody .self
  | ifElse test consequent alternate span =>
    have : list = consequent.asBody ∨ ∃ a, alternate = some a ∧ a.asBody = list := by
      simpa [nestedBodies, sections] using inside
    rcases this with rfl | ⟨a, rfl, rfl⟩
    · exact .asBody (child (c := .stmt consequent) (by simp [Node.children, children]))
    · exact .asBody (child (c := .stmt a) (by simp [Node.children, children]))
  | «for» init test update body span | forEach kind isAwait left right body span | «while» test body span
  | doWhile body test span =>
    obtain rfl : list = body.asBody := by simpa [nestedBodies, sections] using inside
    exact .asBody (child (c := .stmt body) (by simp [Node.children, children]))
  | «try» tried handler finalizer span =>
    have : list = tried ∨ (∃ clause, handler = some clause ∧ clause.body = list) ∨ finalizer = some list := by
      simpa [nestedBodies, sections] using inside
    rcases this with rfl | ⟨⟨param, body, at_⟩, rfl, rfl⟩ | rfl
    · exact .of_body .self (List.mem_cons_self ..) fun t mem =>
        List.mem_append_left _ (List.mem_append_left _ (List.mem_map_of_mem mem))
    · refine .of_body (m := .catchClause (.mk param body at_)) (child (c := ⟨.other, _⟩) ?_) (List.mem_singleton_self _) ?_
      · simp [Node.children, children]
      · intro t mem
        exact List.mem_append_right _ (List.mem_map_of_mem mem)
    · exact .of_body .self (List.mem_cons_of_mem _ (List.mem_singleton_self _)) fun t mem =>
        List.mem_append_right _ (List.mem_map_of_mem (by simpa using mem))
  | switch discriminant cases span =>
    obtain ⟨⟨test, body, at_⟩, mem, rfl⟩ := List.mem_map.1 inside
    refine .of_body (m := .switchCase (.mk test body at_)) (child (c := ⟨.other, _⟩) ?_) (List.mem_singleton_self _) ?_
    · exact List.mem_cons_of_mem _ (List.mem_map_of_mem mem)
    · intro t mem
      exact List.mem_append_right _ (List.mem_map_of_mem mem)
  | function func span =>
    obtain ⟨name, isAsync, params, inner, at_⟩ := func
    obtain rfl := List.mem_singleton.1 inside
    refine .of_body (m := .function (.mk name isAsync params list at_)) (child (c := .function _) ?_)
      (List.mem_singleton_self _) ?_
    · exact List.mem_singleton_self _
    · intro t mem
      exact List.mem_append_right _ (List.mem_map_of_mem mem)
  | _ => simp [nestedBodies, sections] at inside

/-! ## Sound lists -/

/-- A list of sound statements in order. -/
structure SoundBody (source : List Char) (body : List Stmt) : Prop where
  each : ∀ s ∈ body, (Node.stmt s).Everywhere (Node.Sound source)
  inOrder : InOrder body

namespace SoundBody

variable {source : List Char} {body : List Stmt}

/-- A list of a sound node is sound. -/
theorem of_holdsList {n : Node} (sound : n.Everywhere (Node.Sound source)) (held : n.HoldsList body) :
    SoundBody source body := by
  refine ⟨fun s mem => sound.inside (held.each s mem), ?_⟩
  rcases held.listed with ⟨m, below, isBody⟩ | ⟨s, rfl⟩
  · exact (sound.of_holds below).placed.inOrder _ isBody
  · exact List.pairwise_singleton _ s

theorem nested (h : SoundBody source body) {s : Stmt} (mem : s ∈ body) {inner : List Stmt}
    (inside : inner ∈ s.nestedBodies) : SoundBody source inner :=
  of_holdsList (h.each s mem) (Stmt.holdsList_of_mem_nestedBodies inside)

/-- Every list in a sound list is sound. -/
theorem of_mem_listsIn {body list : List Stmt} (h : SoundBody source body) (within : list ∈ listsIn body) :
    SoundBody source list := by
  rcases mem_listsIn.1 within with rfl | ⟨s, mem, inner, inside, within⟩
  · exact h
  · have := List.sizeOf_lt_of_mem mem
    have := Stmt.sizeOf_of_mem_nestedBodies inside
    exact of_mem_listsIn (h.nested mem inside) within
termination_by sizeOf body

end SoundBody

/-- The entry point of a source is one of its functions. -/
theorem Workflow.exists_function_of_find? {items : List Stmt} {w : Workflow} (found : Workflow.find? items = some w) :
    ∃ func span, .function func span ∈ items ∧ w.body = func.body := by
  obtain ⟨item, mem, is⟩ := List.exists_of_findSome?_eq_some found
  cases item with
  | function func span =>
    refine ⟨func, span, mem, ?_⟩
    simp only [Option.ite_none_right_eq_some, Option.some.injEq] at is
    rw [← is.2]
  | _ => cases is

/-- The body of the entry point of a source that is read is sound. -/
theorem soundBody_of_parse {source : String} {w : Workflow} (read : parseWorkflow source = .ok w) :
    SoundBody source.toList w.body := by
  unfold parseWorkflow at read
  cases readModule : parseModule source with
  | error e =>
    rw [readModule] at read
    contradiction
  | ok m =>
    rw [readModule] at read
    cases found : Workflow.find? m.items with
    | none => simp [found, bind, Except.bind] at read
    | some workflow =>
      obtain rfl : workflow = w := by simpa [found, bind, Except.bind] using read
      obtain ⟨func, span, mem, body⟩ := Workflow.exists_function_of_find? found
      rw [body]
      exact .of_holdsList ((sound_of_parse readModule).1 _ mem)
        (Stmt.holdsList_of_mem_nestedBodies (s := .function func span) (List.mem_singleton_self _))

end FlowScript
