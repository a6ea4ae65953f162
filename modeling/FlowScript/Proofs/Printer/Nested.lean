import FlowScript.Proofs.Printer.OneLine
import FlowScript.Proofs.Printer.Visit
import FlowScript.Proofs.Steps.Visible

/-!
# Code inside code

On one line, the code of a statement occurs in the code of every statement that shows it: a block, or what has it in a
section.
-/

namespace FlowScript

/-! ## Parts of a text -/

namespace Text

/-- A text stands somewhere in another. -/
def PartOf (part text : String) : Prop := part.toList <:+: text.toList

variable {part text other : String}

theorem PartOf.refl : PartOf text text := List.infix_rfl

theorem PartOf.append_left (h : PartOf part text) : PartOf part (text ++ other) := by
  rw [PartOf, String.toList_append]
  exact List.infix_append_of_infix_left h

theorem PartOf.append_right (h : PartOf part text) : PartOf part (other ++ text) := by
  rw [PartOf, String.toList_append]
  exact List.infix_append_of_infix_right h

end Text

open Printer (oneLine)
open Text (PartOf)

/-! ## Statements of a list -/

section
variable {t : Stmt} {body : List Stmt} (i j : Nat)

theorem partOf_printBody (mem : t ∈ body) : PartOf (t.print oneLine j) (printBody oneLine i body) := by
  induction body with
  | nil => simp at mem
  | cons s ss ih =>
    rw [printBody]
    rcases List.mem_cons.1 mem with rfl | later
    · rw [t.print_oneLine j i]
      exact PartOf.refl.append_right.append_left
    · exact (ih later).append_right

theorem partOf_printBlock (mem : t ∈ body) : PartOf (t.print oneLine j) (printBlock oneLine i body) := by
  cases body with
  | nil => simp at mem
  | cons s ss =>
    rw [printBlock]
    rcases List.mem_cons.1 mem with rfl | later
    · rw [t.print_oneLine j (i + 1)]
      exact PartOf.refl.append_right.append_left.append_left.append_left
    · exact (partOf_printBody (i + 1) j later).append_right.append_left.append_left

/-- A branch or body has in its code that of its statements, whether it is a block or a statement alone. -/
theorem Stmt.partOf_of_mem_asBody {s : Stmt} (mem : t ∈ s.asBody) :
    PartOf (t.print oneLine j) (s.print oneLine i) := by
  unfold asBody at mem
  split at mem
  · exact partOf_printBlock i j mem
  · obtain rfl := List.mem_singleton.1 mem
    rw [t.print_oneLine j i]
    exact .refl

theorem Stmt.print_try (p : Printer) (tried : List Stmt) (handler : Option CatchClause) (finalizer : Option (List Stmt))
    (span : Span) :
    (Stmt.try tried handler finalizer span).print p i =
      "try " ++ printBlock p i tried ++ handler.elim "" (fun clause => " catch " ++ clause.print p i) ++
        finalizer.elim "" fun body => " finally " ++ printBlock p i body := by
  cases handler <;> cases finalizer <;> rfl

/-- The code of a statement has in it that of the statements in its sections. -/
theorem Stmt.partOf_of_mem_sections {s : Stmt} (inside : body ∈ s.sections) (mem : t ∈ body) :
    PartOf (t.print oneLine j) (s.print oneLine i) := by
  cases s with
  | ifElse test consequent alternate span =>
    cases alternate with
    | none =>
      obtain rfl : body = consequent.asBody := by simpa [sections] using inside
      exact (partOf_of_mem_asBody i j mem).append_right
    | some alternate =>
      obtain rfl | rfl : body = consequent.asBody ∨ body = alternate.asBody := by simpa [sections] using inside
      · exact (partOf_of_mem_asBody i j mem).append_right.append_left.append_left
      · exact (partOf_of_mem_asBody i j mem).append_right
  | «for» init test update inner span =>
    obtain rfl : body = inner.asBody := by simpa [sections] using inside
    cases init <;> exact (partOf_of_mem_asBody i j mem).append_right
  | forEach kind isAwait left right inner span =>
    obtain rfl : body = inner.asBody := by simpa [sections] using inside
    exact (partOf_of_mem_asBody i j mem).append_right
  | «while» test inner span =>
    obtain rfl : body = inner.asBody := by simpa [sections] using inside
    exact (partOf_of_mem_asBody i j mem).append_right
  | doWhile inner test span =>
    obtain rfl : body = inner.asBody := by simpa [sections] using inside
    exact (partOf_of_mem_asBody i j mem).append_right.append_left.append_left.append_left
  | «try» tried handler finalizer span =>
    have : body = tried ∨ (∃ h, handler = some h ∧ h.body = body) ∨ finalizer = some body := by
      simpa [sections] using inside
    rw [print_try]
    rcases this with rfl | ⟨⟨param, inner, at_⟩, rfl, rfl⟩ | rfl
    · exact (partOf_printBlock i j mem).append_right.append_left.append_left
    · cases param with
      | none =>
        rw [Option.elim_some]
        exact (partOf_printBlock i j mem).append_right.append_right.append_left
      | some param =>
        rw [Option.elim_some]
        exact (partOf_printBlock i j mem).append_right.append_right.append_right.append_left
    · exact (partOf_printBlock i j mem).append_right.append_right
  | _ => simp [sections] at inside

end

/-! ## Nesting -/

section
variable {k : Nat} {s t : Stmt} {body : List Stmt}

theorem Stmt.fits_of_mem_block {span : Span} (h : (block body span).fits k = true) (mem : t ∈ body) :
    t.fits k = true := by
  refine fits_child h (c := .stmt t) ?_
  simpa [children] using ⟨t, mem, rfl⟩

theorem Stmt.fits_of_mem_asBody (h : s.fits k = true) (mem : t ∈ s.asBody) : t.fits k = true := by
  unfold asBody at mem
  split at mem
  · exact fits_of_mem_block h mem
  · obtain rfl := List.mem_singleton.1 mem
    exact h

theorem Stmt.fits_of_mem_sections (h : s.fits k = true) (inside : body ∈ s.sections) (mem : t ∈ body) :
    t.fits k = true := by
  have branch {b : Stmt} (child : .stmt b ∈ s.children) (mem : t ∈ b.asBody) : t.fits k = true := by
    have inner : b.fits k = true := fits_child h child
    exact fits_of_mem_asBody inner mem
  cases s with
  | ifElse test consequent alternate span =>
    have : body = consequent.asBody ∨ ∃ b, alternate = some b ∧ b.asBody = body := by simpa [sections] using inside
    rcases this with rfl | ⟨b, rfl, rfl⟩
    · exact branch (by simp [children]) mem
    · exact branch (by simp [children]) mem
  | «for» | forEach | «while» | doWhile =>
    obtain rfl := List.mem_singleton.1 inside
    exact branch (by simp [children]) mem
  | «try» tried handler finalizer span =>
    have : body = tried ∨ (∃ c, handler = some c ∧ c.body = body) ∨ finalizer = some body := by
      simpa [sections] using inside
    rcases this with rfl | ⟨⟨param, inner, at_⟩, rfl, rfl⟩ | rfl
    · refine fits_child h (c := .stmt t) ?_
      simp only [children, List.mem_append]
      exact .inl (.inl (List.mem_map_of_mem mem))
    · have clause : (Node.catchClause ⟨param, inner, at_⟩).fits k = true :=
        fits_child h (c := ⟨.other, .catchClause ⟨param, inner, at_⟩⟩) (by simp [children])
      rw [Node.fits_of_own_eq_zero rfl] at clause
      refine List.all_eq_true.1 clause (.stmt t) ?_
      exact List.mem_append_right _ (List.mem_map_of_mem mem)
    · refine fits_child h (c := .stmt t) ?_
      simp only [children, List.mem_append]
      exact .inr (List.mem_map_of_mem (by simpa using mem))
  | _ => simp [sections] at inside

end

end FlowScript
