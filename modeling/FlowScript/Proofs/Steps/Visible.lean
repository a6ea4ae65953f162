import FlowScript.Steps.Basic
import Mathlib.Data.List.Basic

/-!
# What the steps view has to show

The visible statements of a list, told without steps: a block that stands alone gives way to its statements, an invalid
statement hides what is below it, and an `if`, a loop or a `try` is followed by the statements of its branches, bodies and
handlers. A list is reached by going down the same ways. With a limit, a list below it has one entry, which
covers the whole list.
-/

namespace FlowScript

/-- Why the steps view takes a statement for invalid. -/
def Stmt.fault? : Stmt → Option StepFault
  | .varDecl _ [] _ => some .noDeclarations
  | .ifElse none _ _ _ => some .missingCondition
  | .while none _ _ => some .missingLoopCondition
  | .doWhile _ none _ => some .missingLoopCondition
  | .try _ none none _ => some .missingHandler
  | _ => none

/-- The branches of an `if`, the body of a loop, the body and the handlers of a `try`. -/
def Stmt.sections : Stmt → List (List Stmt)
  | .ifElse _ consequent alternate _ => consequent.asBody :: alternate.toList.map asBody
  | .for _ _ _ body _ => [body.asBody]
  | .forEach _ _ _ _ body _ => [body.asBody]
  | .while _ body _ => [body.asBody]
  | .doWhile body _ _ => [body.asBody]
  | .try tried handler finalizer _ => tried :: (handler.toList.map CatchClause.body ++ finalizer.toList)
  | _ => []

/-- A statement alone is a list that is larger by two. -/
theorem Stmt.sizeOf_asBody (s : Stmt) : sizeOf s.asBody ≤ sizeOf s + 2 := by
  unfold asBody
  split
  · simp; omega
  · simp; omega

/-- What a statement shows in sections stands inside it. -/
theorem Stmt.sizeOf_of_mem_sections {s : Stmt} {body : List Stmt} (inside : body ∈ s.sections) : sizeOf body < sizeOf s := by
  have spans (span : Span) : 0 < sizeOf span := by
    cases span
    rw [Span.mk.sizeOf_spec]
    omega
  cases s with
  | ifElse test consequent alternate span =>
    have := consequent.sizeOf_asBody
    have := spans span
    cases alternate with
    | none =>
      obtain rfl : body = consequent.asBody := by simpa [sections] using inside
      cases test <;> simp <;> omega
    | some alternate =>
      have := alternate.sizeOf_asBody
      obtain rfl | rfl : body = consequent.asBody ∨ body = alternate.asBody := by simpa [sections] using inside
      all_goals cases test <;> simp <;> omega
  | «for» init test update inner span =>
    have := inner.sizeOf_asBody
    obtain rfl : body = inner.asBody := by simpa [sections] using inside
    cases init <;> cases test <;> simp <;> omega
  | forEach kind isAwait left right inner span =>
    have := inner.sizeOf_asBody
    obtain rfl : body = inner.asBody := by simpa [sections] using inside
    cases left <;> simp <;> omega
  | «while» test inner span =>
    have := inner.sizeOf_asBody
    have := spans span
    obtain rfl : body = inner.asBody := by simpa [sections] using inside
    cases test <;> simp <;> omega
  | doWhile inner test span =>
    have := inner.sizeOf_asBody
    have := spans span
    obtain rfl : body = inner.asBody := by simpa [sections] using inside
    cases test <;> simp <;> omega
  | «try» tried handler finalizer span =>
    have : body = tried ∨ (∃ h, handler = some h ∧ h.body = body) ∨ finalizer = some body := by
      simpa [sections] using inside
    rcases this with rfl | ⟨⟨param, inner, at_⟩, rfl, rfl⟩ | rfl
    · simp; omega
    · simp [CatchClause.body]; omega
    · simp; omega
  | _ => simp [sections] at inside

/-! ## Entries -/

/-- Something that the steps view has to show: a visible statement, or a list below the limit. -/
structure StepEntry where
  span : Span
  depth : Nat
  /-- Why an error is shown instead of what stands at the span. -/
  fault : Option StepFault

/-- The entry in place of a list below the limit; an empty list has none. -/
def entryForAll (limit depth : Nat) (body : List Stmt) : List StepEntry :=
  match body.head?, body.getLast? with
  | some first, some last => [⟨first.span.merge last.span, depth, some (.tooDeep limit)⟩]
  | _, _ => []

mutual

/-- The entries of one statement at a depth. -/
def entriesOf (limit : Option Nat) (depth : Nat) (s : Stmt) : List StepEntry :=
  match s with
  | .block body _ => entriesOfList limit (depth + 1) body
  | s =>
    ⟨s.span, depth, s.fault?⟩ ::
      if s.fault?.isSome then []
      else s.sections.attach.flatMap fun ⟨body, _⟩ => entriesOfList limit (depth + 2) body
termination_by sizeOf s
decreasing_by
  · simp; omega
  · exact Stmt.sizeOf_of_mem_sections ‹_›

/-- The entries of a list at a depth, one statement after another, or one entry for the whole list below the limit. -/
def entriesOfList (limit : Option Nat) (depth : Nat) (body : List Stmt) : List StepEntry :=
  match limit.filter (· < depth) with
  | some limit => entryForAll limit depth body
  | none => body.attach.flatMap fun ⟨s, _⟩ => entriesOf limit depth s
termination_by sizeOf body
decreasing_by exact List.sizeOf_lt_of_mem ‹_›

end

theorem entriesOf_block (limit : Option Nat) (depth : Nat) (body : List Stmt) (span : Span) :
    entriesOf limit depth (.block body span) = entriesOfList limit (depth + 1) body := by
  rw [entriesOf]

theorem entriesOf_of_fault {s : Stmt} {fault : StepFault} (limit : Option Nat) (depth : Nat)
    (invalid : s.fault? = some fault) : entriesOf limit depth s = [⟨s.span, depth, some fault⟩] := by
  cases s with
  | block body span => simp [Stmt.fault?] at invalid
  | _ => simp [entriesOf, invalid]

/-- A valid statement that is no block has an entry of its own, followed by those of its sections. -/
theorem entriesOf_of_valid {s : Stmt} (limit : Option Nat) (depth : Nat) (other : ∀ body span, s ≠ .block body span)
    (valid : s.fault? = none) :
    entriesOf limit depth s = ⟨s.span, depth, none⟩ :: s.sections.flatMap (entriesOfList limit (depth + 2)) := by
  cases s with
  | block body span => exact absurd rfl (other body span)
  | _ => simp [entriesOf, valid]

theorem entriesOfList_of_le {limit depth : Nat} (body : List Stmt) (within : depth ≤ limit) :
    entriesOfList (some limit) depth body = body.flatMap (entriesOf (some limit) depth) := by
  rw [entriesOfList]
  simp [Option.filter, Nat.not_lt.2 within]

theorem entriesOfList_of_lt {limit depth : Nat} (body : List Stmt) (below : limit < depth) :
    entriesOfList (some limit) depth body = entryForAll limit depth body := by
  rw [entriesOfList]
  simp [Option.filter, below]

theorem entriesOfList_none (depth : Nat) (body : List Stmt) :
    entriesOfList none depth body = body.flatMap (entriesOf none depth) := by
  rw [entriesOfList]
  simp

/-- The visible statements of a list at a depth, with the depth of each. -/
def visibleStatements (depth : Nat) (body : List Stmt) : List StepEntry := entriesOfList none depth body

/-! ## Lists within the limit -/

/-- The lists that are reached from a list at a depth, with the depth of each. -/
inductive Reached (depth : Nat) (body : List Stmt) : Nat → List Stmt → Prop
  | here : Reached depth body depth body
  /-- The statements of a block that stands alone. -/
  | spliced {d : Nat} {list inner : List Stmt} {span : Span} :
      Reached depth body d list → .block inner span ∈ list → Reached depth body (d + 1) inner
  /-- A branch, body or handler of a valid statement. -/
  | shown {d : Nat} {list inner : List Stmt} {s : Stmt} :
      Reached depth body d list → s ∈ list → s.fault? = none → inner ∈ s.sections → Reached depth body (d + 2) inner

theorem Reached.trans {depth d e : Nat} {body list inner : List Stmt} (first : Reached depth body d list)
    (second : Reached d list e inner) : Reached depth body e inner := by
  induction second with
  | here => exact first
  | spliced _ member ih => exact .spliced ih member
  | shown _ member valid inside ih => exact .shown ih member valid inside

/-- A list is reached at most as deep as the list that it is reached from is large. -/
theorem Reached.add_sizeOf_le {depth d : Nat} {body list : List Stmt} (reached : Reached depth body d list) :
    d + sizeOf list ≤ depth + sizeOf body := by
  induction reached with
  | here => exact Nat.le_refl _
  | spliced _ member ih =>
    have := List.sizeOf_lt_of_mem member
    rw [Stmt.block.sizeOf_spec] at this
    omega
  | shown _ member _ inside ih =>
    have := List.sizeOf_lt_of_mem member
    have := Stmt.sizeOf_of_mem_sections inside
    omega

/-- Either a statement is spliced, or it is shown as an error, or it is shown with its sections. -/
theorem Stmt.block_or_fault_or_valid (s : Stmt) :
    (∃ inner span, s = .block inner span) ∨ (∃ fault, s.fault? = some fault) ∨
      ((∀ inner span, s ≠ .block inner span) ∧ s.fault? = none) := by
  by_cases block : ∃ inner span, s = .block inner span
  · exact .inl block
  · cases fault : s.fault? with
    | some _ => exact .inr (.inl ⟨_, rfl⟩)
    | none => exact .inr (.inr ⟨fun inner span h => block ⟨inner, span, h⟩, rfl⟩)

/-- Induction on a list at a depth along the ways on which other lists are reached from it. -/
theorem reached_induction {motive : Nat → List Stmt → Prop}
    (list : ∀ depth body, (∀ inner span, .block inner span ∈ body → motive (depth + 1) inner) →
      (∀ s ∈ body, ∀ inner ∈ s.sections, motive (depth + 2) inner) → motive depth body)
    (depth : Nat) (body : List Stmt) : motive depth body := by
  refine list depth body (fun inner span member => ?_) fun s member inner inside => ?_
  · have : sizeOf inner < sizeOf body := Nat.lt_trans (by simp; omega) (List.sizeOf_lt_of_mem member)
    exact reached_induction list (depth + 1) inner
  · have : sizeOf inner < sizeOf body :=
      Nat.lt_trans (Stmt.sizeOf_of_mem_sections inside) (List.sizeOf_lt_of_mem member)
    exact reached_induction list (depth + 2) inner
termination_by sizeOf body

/-- If no list below the limit is reached, the limit makes no difference. -/
theorem entriesOfList_eq_visibleStatements {limit depth : Nat} {body : List Stmt}
    (within : ∀ d list, Reached depth body d list → d ≤ limit) :
    entriesOfList (some limit) depth body = visibleStatements depth body := by
  induction depth, body using reached_induction with
  | list depth body spliced shown =>
    rw [visibleStatements, entriesOfList_of_le body (within depth body .here), entriesOfList_none]
    refine List.flatMap_congr fun s member => ?_
    rcases s.block_or_fault_or_valid with ⟨inner, span, rfl⟩ | ⟨fault, invalid⟩ | ⟨other, valid⟩
    · rw [entriesOf_block, entriesOf_block]
      exact spliced inner span member fun d list reached => within d list (Reached.trans (.spliced .here member) reached)
    · rw [entriesOf_of_fault _ _ invalid, entriesOf_of_fault _ _ invalid]
    · rw [entriesOf_of_valid _ _ other valid, entriesOf_of_valid _ _ other valid]
      refine congrArg _ (List.flatMap_congr fun inner inside => ?_)
      exact shown s member inner inside fun d list reached =>
        within d list (Reached.trans (.shown .here member valid inside) reached)

end FlowScript
