import FlowScript.Proofs.Printer.Visit

/-!
# Paths down a tree

A path goes from a node to one of its printed children, and so on. A node fits in some levels exactly when no
path down from it has more levels on it (`Node.fits_iff_paths`), so it does not matter in which order, how often and
beside how many others a child stands.
-/

namespace FlowScript
open Child (allFit)

/-! ## Children that are printed -/

/-- The children of an expression that are printed. The substitutions of a template that no text precedes are not. -/
def Expr.printed : Expr → List Child
  | template quasis exprs _ => (exprs.take quasis.length).map (.expr .sequence)
  | e => e.children

namespace Node

/-- The children of a node that are printed. -/
def printed : Node → List Child
  | expr e => e.printed
  | n => n.children

end Node

section
variable {k : Nat}

theorem finished_visitTemplate_eq (count : Nat) (es : List Expr) :
    (visitTemplate k count es).finished = (es.take count).all (·.fits k) := by
  induction es generalizing count with
  | nil => cases count <;> rfl
  | cons e es ih =>
    cases count with
    | zero => rfl
    | succ count =>
      rw [visitTemplate, Visit.finished_append, ih]
      rfl

theorem Expr.fits_succ_eq (e : Expr) : e.fits (k + 1) = allFit k e.printed := by
  cases e with
  | template quasis exprs span =>
    rw [printed, Child.allFit_map]
    exact finished_visitTemplate_eq quasis.length exprs
  | _ => exact fits_succ (by simp)

namespace Node

/-- A node fits when there is a level for itself, if it is one, and its printed children fit in the rest. -/
theorem fits_eq (n : Node) (k : Nat) : n.fits k = (decide (n.own ≤ k) && allFit (k - n.own) n.printed) := by
  cases light : n.own with
  | zero =>
    have plain : n.printed = n.children := by
      cases n with
      | expr => simp [own] at light
      | _ => rfl
    simp [fits_of_own_eq_zero light, plain]
  | succ one =>
    obtain rfl : one = 0 := by
      have := n.own_le
      omega
    cases k with
    | zero => simpa using not_fits_zero light
    | succ k =>
      simp only [Nat.zero_add, Nat.le_add_left, decide_true, Bool.true_and, Nat.add_sub_cancel]
      cases n with
      | expr e => exact e.fits_succ_eq
      | pattern p => exact p.fits_succ
      | stmt s => exact s.fits_succ
      | _ => simp [own] at light

/-! ## Paths -/

/-- The paths down a tree: from a node to a child that is printed, and so on. -/
inductive Path : Node → List Node → Prop
  | stop (n : Node) : Path n [n]
  | down {n : Node} {c : Child} {path : List Node} : c ∈ n.printed → Path c.node path → Path n (n :: path)

/-- The statements, expressions and patterns on a path. -/
def levels : List Node → Nat
  | [] => 0
  | n :: path => n.own + levels path

theorem levels_le_of_fits {n : Node} {path : List Node} (goes : n.Path path) {k : Nat} (fits : n.fits k = true) :
    levels path ≤ k := by
  induction goes generalizing k with
  | stop n =>
    rw [fits_eq, Bool.and_eq_true, decide_eq_true_iff] at fits
    simpa [levels] using fits.1
  | @down n c path mem _ ih =>
    rw [fits_eq, Bool.and_eq_true, decide_eq_true_iff] at fits
    have below := ih (List.all_eq_true.1 fits.2 c mem)
    simp only [levels] at below ⊢
    omega

/-- The printed children of what is no level itself are levels. -/
theorem own_printed {n : Node} (light : n.own = 0) : ∀ c ∈ n.printed, c.node.own = 1 := by
  cases n with
  | expr => simp [own] at light
  | _ => exact own_child light

theorem fits_of_paths {n : Node} {k : Nat} (short : ∀ path, n.Path path → levels path ≤ k) : n.fits k = true := by
  have room : n.own ≤ k := by simpa [levels] using short [n] (.stop n)
  rw [fits_eq, decide_eq_true room, Bool.true_and]
  refine List.all_eq_true.2 fun c mem => fits_of_paths fun path goes => ?_
  have := short (n :: path) (.down mem goes)
  simp only [levels] at this ⊢
  omega
-- A child has fewer levels left, or is the level that its parent is not.
termination_by 2 * k + 1 - n.own
decreasing_by
  have := n.own_le
  have := fun light : n.own = 0 => own_printed light c mem
  omega

/-- A node fits in some levels exactly when no path down it has more. -/
theorem fits_iff_paths {n : Node} {k : Nat} : n.fits k = true ↔ ∀ path, n.Path path → levels path ≤ k :=
  ⟨fun fits _ goes => levels_le_of_fits goes fits, fits_of_paths⟩

/-- Two nodes that print the same children, in whatever order and however often, fit in the same levels. -/
theorem fits_congr {n m : Node} (own : n.own = m.own)
    (same : ∀ x, x ∈ n.printed.map Child.node ↔ x ∈ m.printed.map Child.node) (k : Nat) : n.fits k = m.fits k := by
  have children (k : Nat) : allFit k n.printed = allFit k m.printed := by
    have nodes (cs : List Child) : allFit k cs = (cs.map Child.node).all (·.fits k) := by
      rw [List.all_map]
      rfl
    rw [nodes, nodes, Bool.eq_iff_iff, List.all_eq_true, List.all_eq_true]
    exact forall_congr' fun x => by rw [same]
  rw [fits_eq, fits_eq, own, children]

end Node
end
end FlowScript
