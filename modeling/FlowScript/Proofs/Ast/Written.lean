import FlowScript.Ast.Json
import FlowScript.Proofs.Ast.Node
import FlowScript.Proofs.Json.Reading

/-!
# How trees are written

Lists of parts are arrays and absent parts are null, whatever the parts are. A span is left out when no source text
stands behind it; its numbers must be in the range of sizes to be read again.
-/

namespace FlowScript

open Json (ReadsBack ofOption)

/-! ## Lists and absent parts -/

theorem eq_map_of_cons {α : Type} {write : α → Json} {all : List α → List Json} (nil : all [] = [])
    (cons : ∀ a as, all (a :: as) = write a :: all as) (as : List α) : all as = as.map write := by
  induction as with
  | nil => rw [nil, List.map_nil]
  | cons a as ih => rw [cons, ih, List.map_cons]

theorem exprsToJson_eq (es : List Expr) : exprsToJson es = es.map Expr.toJson :=
  eq_map_of_cons rfl (fun _ _ => rfl) es

theorem slotsToJson_eq (es : List (Option Expr)) : slotsToJson es = es.map (ofOption Expr.toJson) :=
  eq_map_of_cons rfl (fun e _ => by cases e <;> rfl) es

theorem objectPropsToJson_eq (ps : List ObjectProp) : objectPropsToJson ps = ps.map ObjectProp.toJson :=
  eq_map_of_cons rfl (fun _ _ => rfl) ps

theorem patternsToJson_eq (ps : List Pattern) : patternsToJson ps = ps.map Pattern.toJson :=
  eq_map_of_cons rfl (fun _ _ => rfl) ps

theorem patternSlotsToJson_eq (ps : List (Option Pattern)) : patternSlotsToJson ps = ps.map (ofOption Pattern.toJson) :=
  eq_map_of_cons rfl (fun p _ => by cases p <;> rfl) ps

theorem patternPropsToJson_eq (ps : List PatternProp) : patternPropsToJson ps = ps.map PatternProp.toJson :=
  eq_map_of_cons rfl (fun _ _ => rfl) ps

theorem declaratorsToJson_eq (ds : List Declarator) : declaratorsToJson ds = ds.map Declarator.toJson :=
  eq_map_of_cons rfl (fun _ _ => rfl) ds

theorem casesToJson_eq (cs : List SwitchCase) : casesToJson cs = cs.map SwitchCase.toJson :=
  eq_map_of_cons rfl (fun _ _ => rfl) cs

theorem stmtsToJson_eq (ss : List Stmt) : stmtsToJson ss = ss.map Stmt.toJson :=
  eq_map_of_cons rfl (fun _ _ => rfl) ss

theorem optionToJson_eq (e : Option Expr) : optionToJson e = ofOption Expr.toJson e := by
  cases e <;> rfl

theorem Expr.toJson_new (callee : Expr) (args : Option (List Expr)) (span : Span) :
    (Expr.new callee args span).toJson =
      jsonSpanned "New"
        [("callee", callee.toJson), ("args", ofOption (fun args => .arr (args.map Expr.toJson)) args)] span := by
  cases args with
  | none => rw [toJson]; rfl
  | some args => rw [toJson, exprsToJson_eq]; rfl

theorem CatchClause.toJson_mk (param : Option Pattern) (body : List Stmt) (span : Span) :
    (CatchClause.mk param body span).toJson =
      .obj ([("param", ofOption Pattern.toJson param), ("body", .arr (body.map Stmt.toJson))] ++ span.jsonMember) := by
  cases param <;> rw [toJson, stmtsToJson_eq] <;> rfl

namespace Stmt

theorem toJson_ifElse (test : Option Expr) (consequent : Stmt) (alternate : Option Stmt) (span : Span) :
    (ifElse test consequent alternate span).toJson =
      jsonSpanned "If"
        [("test", ofOption Expr.toJson test), ("consequent", consequent.toJson),
          ("alternate", ofOption toJson alternate)] span := by
  cases alternate <;> rw [toJson, optionToJson_eq] <;> rfl

theorem toJson_for (init : Option ForInit) (test update : Option Expr) (body : Stmt) (span : Span) :
    (Stmt.for init test update body span).toJson =
      jsonSpanned "For"
        [("init", ofOption ForInit.toJson init), ("test", ofOption Expr.toJson test),
          ("update", ofOption Expr.toJson update), ("body", body.toJson)] span := by
  cases init <;> rw [toJson, optionToJson_eq, optionToJson_eq] <;> rfl

theorem toJson_try (tried : List Stmt) (handler : Option CatchClause) (finalizer : Option (List Stmt)) (span : Span) :
    (Stmt.try tried handler finalizer span).toJson =
      jsonSpanned "Try"
        [("block", .arr (tried.map toJson)), ("handler", ofOption CatchClause.toJson handler),
          ("finalizer", ofOption (fun body => .arr (body.map toJson)) finalizer)] span := by
  cases handler <;> cases finalizer <;> rw [toJson] <;> simp only [stmtsToJson_eq] <;> rfl

theorem toJson_exportDecl (declaration : Option Stmt) (clause : Option String) (isDefault : Bool) (span : Span) :
    (exportDecl declaration clause isDefault span).toJson =
      jsonSpanned "Export"
        [("declaration", ofOption toJson declaration), ("clause", ofOption .str clause),
          ("is_default", .bool isDefault)] span := by
  cases declaration <;> rw [toJson] <;> rfl

/-- A statement tells its form by name. -/
theorem mark?_toJson (s : Stmt) : ∃ form, s.toJson.mark? = some (.str form) := by
  have spanned (form : String) (members : List (String × Json)) (span : Span) :
      (jsonSpanned form members span).mark? = some (.str form) := by
    simp [jsonSpanned, jsonNode, Json.mark?]
  cases s with
  | ifElse => rw [toJson_ifElse]; exact ⟨_, spanned _ _ _⟩
  | «for» => rw [toJson_for]; exact ⟨_, spanned _ _ _⟩
  | «try» => rw [toJson_try]; exact ⟨_, spanned _ _ _⟩
  | exportDecl => rw [toJson_exportDecl]; exact ⟨_, spanned _ _ _⟩
  | _ => rw [toJson]; exact ⟨_, spanned _ _ _⟩

end Stmt

/-! ## Spans -/

/-- Whether the numbers of a position are in the range of sizes. -/
def Position.Sized (p : Position) : Prop :=
  p.offset ≤ Json.maxSize ∧ p.line ≤ Json.maxSize ∧ p.column ≤ Json.maxSize

instance (p : Position) : Decidable p.Sized := inferInstanceAs (Decidable (_ ∧ _ ∧ _))

namespace Span

/-- Whether the numbers of a span are in the range of sizes. -/
def Sized (span : Span) : Prop := span.start.Sized ∧ span.stop.Sized

instance (span : Span) : Decidable span.Sized := inferInstanceAs (Decidable (_ ∧ _))

theorem ofJson?_toJson {span : Span} (sized : span.Sized) : ofJson? span.toJson = some span := by
  obtain ⟨⟨start, startLine, startColumn⟩, ⟨stop, stopLine, stopColumn⟩⟩ := span
  obtain ⟨⟨startLe, startLineLe, startColumnLe⟩, ⟨stopLe, stopLineLe, stopColumnLe⟩⟩ := sized
  simp only at startLe startLineLe startColumnLe stopLe stopLineLe stopColumnLe
  simp [toJson, ofJson?, Json.size?, startLe, startLineLe, startColumnLe, stopLe, stopLineLe, stopColumnLe]

@[simp] theorem ofMember?_cons_of_ne {key : String} {v : Json} {ms : List (String × Json)} (other : key ≠ "span") :
    ofMember? (.obj ((key, v) :: ms)) = ofMember? (.obj ms) := by
  rw [ofMember?, Json.default?_cons_of_ne other, ofMember?]

/-- A span that is left out is the one that is read where there is none. -/
theorem ofMember?_jsonMember {span : Span} (sized : span.Sized) : ofMember? (.obj span.jsonMember) = some span := by
  unfold jsonMember
  split
  · rename_i absent
    rw [absent]
    rfl
  · rw [ofMember?, Json.default?_cons_self, ofJson?_toJson sized]

end Span

/-! ## Nodes -/

section
variable {α : Type} {read : Nat → Json → Option α} {write : α → Json} {a : α} {form : String}
  {members : List (String × Json)}

/-- A node without a span is read back if it is read back once its members may be read. -/
theorem Json.ReadsBack.of_node (written : write a = jsonNode form members)
    (reads : ∀ n, (∀ m ∈ members, m.2.depth ≤ n) → read (n + 1) (.obj (("t", .str form) :: members)) = some a) :
    ReadsBack read write a :=
  .of_obj written fun n deep => reads n fun m mem => deep m (List.mem_cons_of_mem _ mem)

/-- A record with a span is read back if it is read back once its members and the span may be read. -/
theorem Json.ReadsBack.of_record (span : Span) (written : write a = .obj (members ++ span.jsonMember)) (sized : span.Sized)
    (reads : ∀ n, (∀ m ∈ members, m.2.depth ≤ n) → Span.ofMember? (.obj span.jsonMember) = some span →
      read (n + 1) (.obj (members ++ span.jsonMember)) = some a) :
    ReadsBack read write a :=
  .of_obj written fun n deep =>
    reads n (fun m mem => deep m (List.mem_append_left _ mem)) (Span.ofMember?_jsonMember sized)

/-- A node with a span is read back if it is read back once its members and the span may be read. -/
theorem Json.ReadsBack.of_spanned (span : Span) (written : write a = jsonSpanned form members span) (sized : span.Sized)
    (reads : ∀ n, (∀ m ∈ members, m.2.depth ≤ n) → Span.ofMember? (.obj span.jsonMember) = some span →
      read (n + 1) (.obj (("t", .str form) :: members ++ span.jsonMember)) = some a) :
    ReadsBack read write a := by
  have record : write a = .obj ((("t", .str form) :: members) ++ span.jsonMember) := written
  exact .of_record span record sized fun n deep at_ => reads n (fun m mem => deep m (List.mem_cons_of_mem _ mem)) at_

end

/-! ## Names -/

@[simp] theorem named?_binaryOp (op : BinaryOp) : named? BinaryOp.ofName? (.str op.name) = some op := op.ofName?_name

@[simp] theorem named?_unaryOp (op : UnaryOp) : named? UnaryOp.ofName? (.str op.name) = some op := op.ofName?_name

@[simp] theorem named?_updateOp (op : UpdateOp) : named? UpdateOp.ofName? (.str op.name) = some op := op.ofName?_name

@[simp] theorem named?_varKind (kind : VarKind) : named? VarKind.ofWord? (.str kind.word) = some kind := kind.ofWord?_word

@[simp] theorem named?_forLoopKind (kind : ForLoopKind) :
    named? ForLoopKind.ofWord? (.str kind.word) = some kind := kind.ofWord?_word

end FlowScript
