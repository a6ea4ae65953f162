import FlowScript.Proofs.Steps.Visible

/-!
# Where steps come from

Every step other than a branch, body or handler comes from one statement, or from a list below the limit. The origins
of a list are told without steps, for a view that keeps some statements and leaves the others out with all that is in
them.
-/

namespace FlowScript

/-- The kind of step that stands for a statement. -/
def Stmt.stepKind (s : Stmt) : StepKind :=
  if s.fault?.isSome then .error
  else
    match s with
    | .varDecl .. => .declaration
    | .ret .. => .ret
    | .expr e _ =>
      match e.unwrapAwait with
      | .call .. => .call
      | _ => .expression
    | .ifElse .. => .condition
    | .for .. | .forEach .. | .while .. | .doWhile .. => .loop
    | .try .. => .errorHandling
    | .block .. => .block
    | _ => .unknown

theorem Stmt.stepKind_eq_error_iff {s : Stmt} : s.stepKind = .error ↔ s.fault?.isSome = true := by
  unfold stepKind
  split
  · simp_all
  · split <;> (try split) <;> simp_all

theorem Stmt.stepKind_ne_block {s : Stmt} (other : ∀ inner span, s ≠ .block inner span) : s.stepKind ≠ .block := by
  unfold stepKind
  split
  · nofun
  · cases s with
    | block inner span => exact absurd rfl (other inner span)
    | expr e span => cases call : e.unwrapAwait <;> simp [call]
    | _ => simp

/-- What a step comes from. -/
inductive StepOrigin
  | stmt (s : Stmt) (depth : Nat)
  /-- A list below the limit, with its first and its last statement. -/
  | deep (first last : Stmt) (limit depth : Nat)

namespace StepOrigin

def depth : StepOrigin → Nat
  | stmt _ depth => depth
  | deep _ _ _ depth => depth

def span : StepOrigin → Span
  | stmt s _ => s.span
  | deep first last _ _ => first.span.merge last.span

def fault? : StepOrigin → Option StepFault
  | stmt s _ => s.fault?
  | deep _ _ limit _ => some (.tooDeep limit)

def kind : StepOrigin → StepKind
  | stmt s _ => s.stepKind
  | deep .. => .error

/-- Whether the step stands for an important statement; a list has no code of its own. -/
def isImportant : StepOrigin → Bool
  | stmt s _ => s.isImportant
  | deep .. => false

@[simp] theorem isImportant_stmt (s : Stmt) (depth : Nat) : (stmt s depth).isImportant = s.isImportant := rfl

def entry (o : StepOrigin) : StepEntry := ⟨o.span, o.depth, o.fault?⟩

/-- The origin of the step for a list below the limit; an empty list has none. -/
def ofList (limit depth : Nat) (body : List Stmt) : List StepOrigin :=
  match body.head?, body.getLast? with
  | some first, some last => [deep first last limit depth]
  | _, _ => []

theorem stmt_not_mem_ofList {limit depth d : Nat} {body : List Stmt} {s : Stmt} : stmt s d ∉ ofList limit depth body := by
  unfold ofList
  split <;> simp

end StepOrigin

mutual

/-- The origins of the steps of one statement at a depth, where lists keep some of their statements. -/
def originsOf (keep : Stmt → Bool) (limit depth : Nat) (s : Stmt) : List StepOrigin :=
  match s with
  | .block body _ => originsOfList keep limit (depth + 1) body
  | s =>
    .stmt s depth ::
      if s.fault?.isSome then []
      else s.sections.attach.flatMap fun ⟨body, _⟩ => originsOfList keep limit (depth + 2) body
termination_by sizeOf s
decreasing_by
  · simp; omega
  · exact Stmt.sizeOf_of_mem_sections ‹_›

/-- The origins of the steps of a list at a depth. -/
def originsOfList (keep : Stmt → Bool) (limit depth : Nat) (body : List Stmt) : List StepOrigin :=
  if limit < depth then StepOrigin.ofList limit depth body
  else body.attach.flatMap fun ⟨s, _⟩ => if keep s then originsOf keep limit depth s else []
termination_by sizeOf body
decreasing_by exact List.sizeOf_lt_of_mem ‹_›

end

section
variable (keep : Stmt → Bool) (limit depth : Nat)

theorem originsOf_block (body : List Stmt) (span : Span) :
    originsOf keep limit depth (.block body span) = originsOfList keep limit (depth + 1) body := by
  rw [originsOf]

theorem originsOf_of_fault {s : Stmt} {fault : StepFault} (invalid : s.fault? = some fault) :
    originsOf keep limit depth s = [.stmt s depth] := by
  cases s with
  | block body span => simp [Stmt.fault?] at invalid
  | _ => simp [originsOf, invalid]

theorem originsOf_of_valid {s : Stmt} (other : ∀ body span, s ≠ .block body span) (valid : s.fault? = none) :
    originsOf keep limit depth s = .stmt s depth :: s.sections.flatMap (originsOfList keep limit (depth + 2)) := by
  cases s with
  | block body span => exact absurd rfl (other body span)
  | _ => simp [originsOf, valid]

variable {limit depth}

theorem originsOfList_of_lt (body : List Stmt) (below : limit < depth) :
    originsOfList keep limit depth body = StepOrigin.ofList limit depth body := by
  rw [originsOfList, if_pos below]

theorem originsOfList_of_le (body : List Stmt) (within : depth ≤ limit) :
    originsOfList keep limit depth body = (body.filter keep).flatMap (originsOf keep limit depth) := by
  have filtered (ss : List Stmt) : (ss.flatMap fun s => if keep s then originsOf keep limit depth s else []) =
      (ss.filter keep).flatMap (originsOf keep limit depth) := by
    induction ss with
    | nil => rfl
    | cons s ss ih => by_cases kept : keep s = true <;> simp [kept, ih]
  rw [originsOfList, if_neg (Nat.not_lt.2 within), ← filtered]
  simp

end

/-! ## Origins and entries -/

theorem StepOrigin.map_entry_ofList (limit depth : Nat) (body : List Stmt) :
    (ofList limit depth body).map entry = entryForAll limit depth body := by
  unfold ofList entryForAll
  cases body.head? <;> cases body.getLast? <;> rfl

/-- Where all statements are kept, the origins are those of the entries. -/
theorem map_entry_originsOfList (limit depth : Nat) (body : List Stmt) :
    (originsOfList (fun _ => true) limit depth body).map StepOrigin.entry = entriesOfList (some limit) depth body := by
  induction depth, body using reached_induction with
  | list depth body spliced shown =>
    by_cases below : limit < depth
    · rw [originsOfList_of_lt _ body below, entriesOfList_of_lt body below, StepOrigin.map_entry_ofList]
    · have within := Nat.le_of_not_lt below
      rw [originsOfList_of_le _ body within, entriesOfList_of_le body within, List.filter_true, List.map_flatMap]
      refine List.flatMap_congr fun s member => ?_
      rcases s.block_or_fault_or_valid with ⟨inner, span, rfl⟩ | ⟨fault, invalid⟩ | ⟨other, valid⟩
      · rw [originsOf_block, entriesOf_block, spliced inner span member]
      · rw [originsOf_of_fault _ _ _ invalid, entriesOf_of_fault _ _ invalid, ← invalid]
        rfl
      · rw [originsOf_of_valid _ _ _ other valid, entriesOf_of_valid _ _ other valid, List.map_cons, List.map_flatMap,
          StepOrigin.entry, StepOrigin.fault?, valid]
        exact congrArg _ (List.flatMap_congr (shown s member))

end FlowScript
