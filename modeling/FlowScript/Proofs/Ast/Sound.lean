import FlowScript.Proofs.Ast.Formed
import FlowScript.Proofs.Source.Place
import FlowScript.Text.Blank
import Mathlib.Data.List.ReduceOption

/-!
# Sound nodes

What is true of every node that is read from a source: its span is where it stands (`Node.Placed`), its children are no
looser than their slots ask (`Node.Canonical`), each of them leaves room for the signs around it (`Node.Roomy`), a
name is one word (`Node.Named`), and the rest of what the grammar promises of it holds (`Node.Formed`).
-/

namespace FlowScript

/-- Statements that follow each other without overlap. -/
def InOrder (body : List Stmt) : Prop := body.Pairwise fun s t => s.span.stop.offset ≤ t.span.start.offset

namespace Node

/-- A node whose span lies in the source, covers the spans of its children and the text that the node records, and whose
    lists of statements are in order. -/
structure Placed (source : List Char) (n : Node) : Prop where
  start : n.span.start.Within source
  stop : n.span.stop.Within source
  nonempty : n.span.start.offset < n.span.stop.offset
  covers : ∀ c ∈ n.children,
    n.span.start.offset ≤ c.node.span.start.offset ∧ c.node.span.stop.offset ≤ n.span.stop.offset
  inOrder : ∀ body ∈ n.bodies, InOrder body
  text : ∀ text, n.text? = some text → Text.slice? source n.span.start.offset n.span.stop.offset = some text.toList

/-- A node whose children are such as their slots admit. -/
def Canonical (n : Node) : Prop := ∀ c ∈ n.children, c.slot.Admits c.node

/-- The bytes of a node that stand beside each of its children at least. -/
def margin : Node → Nat
  | function _ | expr (.arrow ..) => 2
  | declarator _ | expr (.function ..) | stmt (.varDecl ..) | stmt (.function ..) | stmt (.ret ..) | stmt (.throw ..)
  | stmt (.expr ..) => 0
  | _ => 1

/-- A node whose children leave room for its margin. -/
def Roomy (n : Node) : Prop := ∀ c ∈ n.children, c.node.length + n.margin ≤ n.length

/-- A node that has no blank in its name, if it has one. -/
def Named (n : Node) : Prop := ∀ name, n.name? = some name → ∀ c ∈ name.toList, Text.isBlank c = false

/-- A node that is read from a source. -/
structure Sound (source : List Char) (n : Node) : Prop where
  placed : n.Placed source
  canonical : n.Canonical
  roomy : n.Roomy
  named : n.Named
  formed : n.Formed source

end Node

/-! ## Nodes between two offsets -/

variable {source : List Char} {lo hi lo' hi' room room' : Nat} {c : Child}

/-- A child between two offsets that leaves room for so many bytes: it is as its slot asks, and sound. -/
structure Child.Between (source : List Char) (lo hi room : Nat) (c : Child) : Prop where
  admits : c.slot.Admits c.node
  sound : c.node.Everywhere (Node.Sound source)
  start : lo ≤ c.node.span.start.offset
  stop : c.node.span.stop.offset ≤ hi
  room : c.node.length + room ≤ hi - lo

namespace Child.Between

theorem nonempty (h : c.Between source lo hi room) : c.node.span.start.offset < c.node.span.stop.offset :=
  h.sound.here.placed.nonempty

/-- Between offsets further apart there is as much room. -/
theorem widen (h : c.Between source lo hi room) (starts : lo' ≤ lo) (stops : hi ≤ hi')
    (more : hi - lo + room' ≤ hi' - lo' + room) : c.Between source lo' hi' room' := by
  obtain ⟨admits, sound, start, stop, fits⟩ := h
  exact ⟨admits, sound, by omega, by omega, by omega⟩

theorem wider (h : c.Between source lo hi 0) (starts : lo' ≤ lo) (stops : hi ≤ hi') : c.Between source lo' hi' 0 :=
  h.widen starts stops (by omega)

/-- A node stands between its own ends. -/
theorem own (h : c.Between source lo hi room) :
    c.Between source c.node.span.start.offset c.node.span.stop.offset 0 :=
  ⟨h.admits, h.sound, Nat.le_refl _, Nat.le_refl _, Nat.le_refl _⟩

/-- A slot that asks less. -/
theorem weaken {s t : Slot} {n : Node} (h : Child.Between source lo hi room ⟨s, n⟩) (implied : s.implies t = true) :
    Child.Between source lo hi room ⟨t, n⟩ :=
  ⟨h.admits.weaken implied, h.sound, h.start, h.stop, h.room⟩

/-- A child of what stands between the offsets stands there too. -/
theorem child (h : c.Between source lo hi room) {d : Child} (mem : d ∈ c.node.children) : d.Between source lo hi room := by
  have := h.nonempty
  have start := h.start
  have stop := h.stop
  have fits := h.room
  have below := h.sound.child mem
  have covers := h.sound.here.placed.covers d mem
  refine ⟨h.sound.here.canonical d mem, below, by omega, by omega, ?_⟩
  have := below.here.placed.nonempty
  simp only [Node.length] at fits ⊢
  omega

end Child.Between

/-- A node with the given span is sound when its children stand between the ends, and take no room of its margin. -/
theorem Node.everywhere_sound {n : Node} (start : n.span.start.Within source) (stop : n.span.stop.Within source)
    (nonempty : n.span.start.offset < n.span.stop.offset) (records : n.text? = none) (formed : n.Formed source)
    (inOrder : ∀ body ∈ n.bodies, InOrder body)
    (children : ∀ c ∈ n.children, c.Between source n.span.start.offset n.span.stop.offset n.margin) :
    n.Everywhere (Node.Sound source) := by
  refine .node ⟨⟨start, stop, nonempty, fun c mem => ?_, inOrder, ?_⟩, fun c mem => ?_, fun c mem => ?_, ?_, formed⟩
    fun c mem => ?_
  · exact ⟨(children c mem).start, (children c mem).stop⟩
  · rw [records]
    nofun
  · exact (children c mem).admits
  · exact (children c mem).room
  · rw [Node.Named, Node.name?_of_text? records]
    nofun
  · exact (children c mem).sound

/-! ## Names that patterns bind -/

theorem exists_of_mem_boundNamesOfProps {name : String} {props : List PatternProp} (bound : name ∈ boundNamesOfProps props) :
    ∃ prop ∈ props, name ∈ prop.boundNames := by
  induction props with
  | nil => cases bound
  | cons prop props ih =>
    rw [boundNamesOfProps, List.mem_append] at bound
    rcases bound with first | later
    · exact ⟨prop, List.mem_cons_self .., first⟩
    · obtain ⟨other, mem, bound⟩ := ih later
      exact ⟨other, List.mem_cons_of_mem _ mem, bound⟩

theorem exists_of_mem_boundNamesOfElements {name : String} {elements : List (Option Pattern)}
    (bound : name ∈ boundNamesOfElements elements) : ∃ p, some p ∈ elements ∧ name ∈ p.boundNames := by
  induction elements with
  | nil => cases bound
  | cons element elements ih =>
    have later (bound : name ∈ boundNamesOfElements elements) : ∃ p, some p ∈ element :: elements ∧ name ∈ p.boundNames := by
      obtain ⟨p, mem, bound⟩ := ih bound
      exact ⟨p, List.mem_cons_of_mem _ mem, bound⟩
    cases element with
    | none => exact later bound
    | some p =>
      rw [boundNamesOfElements, List.mem_append] at bound
      rcases bound with first | rest
      · exact ⟨p, List.mem_cons_self .., first⟩
      · exact later rest

/-- A pattern that is read from a source binds complete identifiers in its text. -/
theorem nameWithin_of_mem_boundNames {p : Pattern} (sound : (Node.pattern p).Everywhere (Node.Sound source)) :
    ∀ name ∈ p.boundNames, NameWithin source p.span name := by
  generalize is : Node.pattern p = n at sound
  induction sound generalizing p with
  | node here _ ih =>
    subst is
    have inner (q : Pattern) (mem : .pattern q ∈ p.children) : ∀ name ∈ q.boundNames, NameWithin source p.span name := by
      intro name bound
      obtain ⟨starts, stops⟩ := here.placed.covers _ mem
      exact (ih _ mem rfl name bound).widen starts stops
    intro name bound
    cases p with
    | ident own span =>
      obtain rfl := List.mem_singleton.1 bound
      exact ⟨_, _, Nat.le_refl _, Nat.le_refl _, here.formed⟩
    | object props span =>
      obtain ⟨prop, among, bound⟩ := exists_of_mem_boundNamesOfProps bound
      have child (c : Child) (mem : c ∈ prop.children) : c ∈ (Pattern.object props span).children :=
        List.mem_flatMap.2 ⟨prop, among, mem⟩
      cases prop with
      | keyValue key value => exact inner value (child _ (List.mem_append_right _ (List.mem_singleton_self _))) name bound
      | shorthand own default =>
        obtain rfl := List.mem_singleton.1 bound
        exact here.formed _ default among
      | rest arg => exact inner arg (child _ (List.mem_singleton_self _)) name bound
    | array elements span =>
      obtain ⟨q, among, bound⟩ := exists_of_mem_boundNamesOfElements bound
      exact inner q (List.mem_map_of_mem (List.reduceOption_mem_iff.2 among)) name bound
    | rest arg span => exact inner arg (List.mem_singleton_self _) name bound
    | assign target default span => exact inner target (List.mem_cons_self ..) name bound

end FlowScript
