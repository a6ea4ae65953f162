import FlowScript.Proofs.Printer.Emit
import FlowScript.Proofs.Printer.Paths

/-!
# What printing with counters writes

A stretch of printing writes a text if enough levels are left for it, and leaves the counters as it found them
(`Writes`).
-/

namespace FlowScript

/-- Where `k` levels are left, the stretch writes a text, which may depend on the indentation, if the text fits in them,
    and changes no counter. -/
def Writes (k : Nat) (m : Emit) (fits : Bool) (text : Nat → String) : Prop :=
  ∀ st : PrintState, maxPrintDepth - st.depth = k →
    m st = if fits then .ok ((), { st with out := st.out ++ text st.indent }) else .error .tooDeep

/-- A space follows an operator that is a word, and one goes before an operand that begins with the sign it follows. -/
theorem UnaryOp.before_eq (op : UnaryOp) (text : String) :
    op.before text =
      op.symbol ++ ((if op.isWord then " " else "") ++
        if (op = .plus ∨ op = .minus) ∧ op.symbol.toList.isPrefixOf text.toList then " " ++ text else text) := by
  cases op with
  | plus | minus =>
    simp only [before, signed, isWord]
    split_ifs <;> simp_all [String.append_assoc]
  | _ => simp [before, isWord, String.append_assoc]

namespace Writes
open Emit

variable {k : Nat} {m n : Emit} {f g : Bool} {t u : Nat → String}

theorem congr (h : Writes k m f t) (fits : f = g) (text : ∀ i, t i = u i) : Writes k m g u := by
  rw [← fits, ← funext text]
  exact h

theorem skip : Writes k (pure ()) true fun _ => "" := by
  intro st _
  rw [String.append_empty]
  rfl

theorem push (text : String) : Writes k (push text) true fun _ => text := fun _ _ => rfl

theorem pushIf (asked : Bool) (text : String) : Writes k (pushIf asked text) true fun _ => if asked then text else "" := by
  cases asked with
  | false => exact skip
  | true => exact push text

theorem newline (p : Printer) : Writes k (newline p) true p.style.newline := fun _ _ => rfl

theorem objectBreak (p : Printer) : Writes k (Emit.objectBreak p) true p.objectBreak := fun _ _ => rfl

theorem seq (first : Writes k m f t) (second : Writes k n g u) :
    Writes k (do m; n) (f && g) fun i => t i ++ u i := by
  intro st left
  show (m st >>= fun r => n r.2) = _
  rw [first st left]
  cases f with
  | false => rfl
  | true =>
    have := second { st with out := st.out ++ t st.indent } left
    rw [String.append_assoc] at this
    exact this

theorem indented (h : Writes k m f t) : Writes k (Emit.indented m) f fun i => t (i + 1) := by
  intro st left
  show (m { st with indent := st.indent + 1 } >>= _) = _
  rw [h { st with indent := st.indent + 1 } left]
  cases f <;> rfl

theorem level (h : Writes k m f t) : Writes (k + 1) (level m) f t := by
  intro st left
  have room : ¬ st.depth + 1 > maxPrintDepth := by omega
  have inside := h { st with depth := st.depth + 1 } (by simp only; omega)
  show (enter st >>= _) = _
  rw [enter, if_neg room]
  show (m { st with depth := st.depth + 1 } >>= _) = _
  rw [inside]
  cases f <;> rfl

/-- Where no level is left, nothing that is a level is printed. -/
theorem level_zero (m : Emit) (t : Nat → String) : Writes 0 (Emit.level m) false t := by
  intro st left
  have full : st.depth + 1 > maxPrintDepth := by omega
  show (enter st >>= _) = _
  rw [enter, if_pos full]
  rfl

theorem operand (op : UnaryOp) (h : Writes k m f t) :
    Writes k (operand op m) f fun i =>
      if (op = .plus ∨ op = .minus) ∧ op.symbol.toList.isPrefixOf (t i).toList then " " ++ t i else t i := by
  intro st left
  show (m st >>= _) = _
  rw [h st left]
  cases f with
  | false => rfl
  | true =>
    have parts : (st.out ++ t st.indent).toList.splitAt st.out.length = (st.out.toList, (t st.indent).toList) := by
      rw [List.splitAt_eq, String.toList_append, ← String.length_toList, List.take_left, List.drop_left]
    show (Except.ok ((), _) : Except RenderError _) = _
    simp only [parts]
    split_ifs with same
    · simp
    · rfl

/-! ## Lists -/

section
variable {α : Type} {each : α → Emit} {fits : α → Bool} {print : Nat → α → String}

/-- Items with a text between them, where `emits` and `prints` take the items one after another. -/
theorem separated (mark : String) {emits : List α → List Emit} {prints : Nat → List α → String}
    (emits_nil : emits [] = []) (emits_cons : ∀ a as, emits (a :: as) = each a :: emits as)
    (prints_nil : ∀ i, prints i [] = "") (prints_one : ∀ i a, prints i [a] = print i a)
    (prints_cons : ∀ i a b as, prints i (a :: b :: as) = print i a ++ mark ++ prints i (b :: as))
    (h : ∀ a, Writes k (each a) (fits a) (print · a)) (as : List α) :
    Writes k (Emit.separated mark (emits as)) (as.all fits) (prints · as) := by
  induction as with
  | nil =>
    rw [emits_nil]
    exact skip.congr rfl fun i => (prints_nil i).symm
  | cons a as ih =>
    cases as with
    | nil =>
      rw [emits_cons, emits_nil]
      exact (h a).congr (by simp) fun i => (prints_one i a).symm
    | cons b as =>
      rw [emits_cons] at ih ⊢
      rw [emits_cons]
      refine ((h a).seq ((push mark).seq ih)).congr (by simp) fun i => ?_
      rw [prints_cons, String.append_assoc]

/-- Elements and holes, where `emits` and `prints` take them one after another. -/
theorem elements {emits : List (Option α) → List (Option Emit)} {prints : Nat → List (Option α) → String}
    (emits_nil : emits [] = []) (emits_cons : ∀ a as, emits (a :: as) = a.map each :: emits as)
    (prints_nil : ∀ i, prints i [] = "") (prints_one : ∀ i a, prints i [a] = a.elim "," (print i))
    (prints_cons : ∀ i a b as, prints i (a :: b :: as) = a.elim "" (print i) ++ ", " ++ prints i (b :: as))
    (h : ∀ a, Writes k (each a) (fits a) (print · a)) (as : List (Option α)) :
    Writes k (Emit.elements (emits as)) (as.reduceOption.all fits) (prints · as) := by
  have item (a : Option α) : Writes k ((a.map each).getD (pure ())) (a.all fits) fun i => a.elim "" (print i) := by
    cases a with
    | none => exact skip
    | some a => exact h a
  induction as with
  | nil =>
    rw [emits_nil]
    exact (skip.seq (pushIf false ",")).congr rfl fun i => (prints_nil i).symm
  | cons a as ih =>
    cases as with
    | nil =>
      rw [emits_cons, emits_nil]
      refine ((item a).seq (pushIf (a.map each).isNone ",")).congr ?_ fun i => ?_
      · cases a <;> simp
      · rw [prints_one]
        cases a <;> simp
    | cons b as =>
      have later : Emit.elements (emits (a :: b :: as)) =
          ((a.map each).getD (pure ()) >>= fun _ => Emit.push ", " >>= fun _ => Emit.elements (emits (b :: as))) := by
        simp [emits_cons, Emit.elements, Emit.separated]
      rw [later]
      refine ((item a).seq ((push ", ").seq ih)).congr ?_ fun i => ?_
      · cases a <;> simp
      · rw [prints_cons, String.append_assoc]

end

end Writes

/-! ## Levels -/

/-- With `k` levels left, all that is a level is printed as its visit says. -/
structure PrintsIn (p : Printer) (k : Nat) : Prop where
  expr (e : Expr) : Writes k (e.emit p) (e.visit k).finished fun i => e.print p i
  pattern (x : Pattern) : Writes k (x.emit p) (x.visit k).finished fun i => x.print p i
  stmt (s : Stmt) : Writes k (s.emit p) (s.visit k).finished fun i => s.print p i

namespace PrintsIn
open Writes

variable {p : Printer} {k : Nat} (inner : PrintsIn p k)
include inner

theorem exprs (es : List Expr) :
    Writes k (Emit.separated ", " (emitExprs p es)) (visitExprs k es).finished fun i => printExprs p i es := by
  rw [finished_visitExprs]
  exact separated ", " rfl (fun _ _ => rfl) (fun _ => rfl) (fun _ _ => rfl) (fun _ _ _ _ => rfl) inner.expr es

theorem patterns (xs : List Pattern) :
    Writes k (Emit.separated ", " (emitPatterns p xs)) (visitPatterns k xs).finished fun i => printPatterns p i xs := by
  rw [finished_visitPatterns]
  exact separated ", " rfl (fun _ _ => rfl) (fun _ => rfl) (fun _ _ => rfl) (fun _ _ _ _ => rfl) inner.pattern xs

theorem slots (es : List (Option Expr)) :
    Writes k (Emit.elements (emitSlots p es)) (visitSlots k es).finished fun i => printSlots p i es := by
  rw [finished_visitSlots]
  refine elements rfl (fun a _ => ?_) (fun _ => rfl) (fun _ a => ?_) (fun _ a _ _ => ?_) inner.expr es
  · cases a <;> rfl
  · cases a <;> rfl
  · cases a
    · simp [printSlots]
    · rfl

theorem patternSlots (xs : List (Option Pattern)) :
    Writes k (Emit.elements (emitPatternSlots p xs)) (visitPatternSlots k xs).finished fun i =>
      printPatternSlots p i xs := by
  rw [finished_visitPatternSlots]
  refine elements rfl (fun a _ => ?_) (fun _ => rfl) (fun _ a => ?_) (fun _ a _ _ => ?_) inner.pattern xs
  · cases a <;> rfl
  · cases a <;> rfl
  · cases a
    · simp [printPatternSlots]
    · rfl

theorem template (quasis : List String) (es : List Expr) :
    Writes k (emitTemplate p quasis es) (visitTemplate k quasis.length es).finished fun i =>
      printTemplate p i quasis es := by
  induction es generalizing quasis with
  | nil =>
    induction quasis with
    | nil => exact skip
    | cons quasi quasis ih =>
      have later : emitTemplate p (quasi :: quasis) [] = (do Emit.push quasi; emitTemplate p quasis []) := by
        simp only [emitTemplate, List.forM_eq_forM, List.forM_cons]
      rw [later]
      refine ((push quasi).seq ih).congr ?_ fun i => ?_
      · simp [visitTemplate]
      · simp [printTemplate]
  | cons e es ih =>
    cases quasis with
    | nil => exact skip
    | cons quasi quasis =>
      refine ((push quasi).seq ((push _).seq ((inner.expr e).seq ((push _).seq (ih quasis))))).congr ?_ fun i => ?_
      · simp [visitTemplate]
      · simp [printTemplate, String.append_assoc]

theorem body (ss : List Stmt) : Writes k (emitBody p ss) (visitStmts k ss).finished fun i => printBody p i ss := by
  induction ss with
  | nil => exact skip
  | cons s ss ih =>
    refine ((newline p).seq ((inner.stmt s).seq ih)).congr ?_ fun i => ?_
    · simp [visitStmts]
    · rw [printBody, String.append_assoc]

/-- Statements in braces, whether there are any or not. -/
theorem block (ss : List Stmt) :
    Writes k (Emit.braces p ss (emitBody p ss)) (visitStmts k ss).finished fun i => printBlock p i ss := by
  cases ss with
  | nil => exact push _
  | cons s ss =>
    refine ((push _).seq ((inner.body (s :: ss)).indented.seq ((newline p).seq (push _)))).congr ?_ fun i => ?_
    · simp
    · simp [printBlock, printBody, String.append_assoc]

theorem option (lead : String) (e : Option Expr) :
    Writes k (emitOption p lead e) (visitOption k e).finished fun i => e.elim "" fun e => lead ++ e.print p i := by
  cases e with
  | none => exact skip
  | some e => exact ((push lead).seq (inner.expr e)).congr (Bool.true_and _) fun _ => rfl

theorem condition (e : Option Expr) :
    Writes k (emitOption p "" e) (visitOption k e).finished fun i => printOption p i e := by
  refine (inner.option "" e).congr rfl fun i => ?_
  cases e with
  | none => rfl
  | some e => exact String.empty_append

theorem spaced (e : Option Expr) :
    Writes k (emitOption p " " e) (visitOption k e).finished fun i => printSpaced p i e := by
  refine (inner.option " " e).congr rfl fun i => ?_
  cases e <;> rfl

theorem propKey (key : PropKey) : Writes k (key.emit p) (key.visit k).finished fun i => key.print p i := by
  cases key with
  | computed e => 
    refine ((push _).seq ((inner.expr e).seq (push _))).congr ?_ fun i => ?_
    · simp [PropKey.visit]
    · simp [PropKey.print, String.append_assoc]
  | _ => exact push _

theorem function (f : Function) : Writes k (f.emit p) (f.visit k).finished fun i => f.print p i := by
  obtain ⟨name, isAsync, params, ss, span⟩ := f
  refine ((pushIf _ _).seq ((push _).seq ((pushIf _ _).seq ((push _).seq ((inner.patterns params).seq ((push _).seq
    ((push _).seq (inner.block ss)))))))).congr ?_ fun i => ?_
  · simp [Function.visit]
  · simp only [← String.append_assoc]
    cases name <;> rfl

theorem declarator (d : Declarator) : Writes k (d.emit p) (d.visit k).finished fun i => d.print p i := by
  obtain ⟨target, init, span⟩ := d
  refine ((inner.pattern target).seq (inner.option _ init)).congr ?_ fun i => ?_
  · cases init <;> simp [Declarator.visit, Child.optional]
  · cases init
    · rw [Declarator.print, Option.elim_none, String.append_empty]
    · rw [Declarator.print, Option.elim_some, String.append_assoc]

theorem declarators (ds : List Declarator) :
    Writes k (Emit.separated ", " (emitDeclarators p ds)) (visitDeclarators k ds).finished fun i =>
      printDeclarators p i ds := by
  rw [finished_visitDeclarators]
  exact separated ", " rfl (fun _ _ => rfl) (fun _ => rfl) (fun _ _ => rfl) (fun _ _ _ _ => rfl) inner.declarator ds

theorem objectProp (prop : ObjectProp) :
    Writes k (prop.emit p) (prop.visit k).finished fun i => prop.print p i := by
  cases prop with
  | keyValue key value =>
    refine ((inner.propKey key).seq ((push _).seq (inner.expr value))).congr ?_ fun i => ?_
    · simp [ObjectProp.visit]
    · simp only [← String.append_assoc]
      rfl
  | shorthand name default =>
    refine ((push name).seq (inner.option _ default)).congr ?_ fun i => ?_
    · cases default <;> rfl
    · cases default
      · rw [ObjectProp.print, Option.elim_none, String.append_empty]
      · rw [ObjectProp.print, Option.elim_some, String.append_assoc]
  | method key func =>
    obtain ⟨name, isAsync, params, ss, span⟩ := func
    refine ((pushIf _ _).seq ((inner.propKey key).seq ((push _).seq ((inner.patterns params).seq ((push _).seq
      ((push _).seq (inner.block ss))))))).congr ?_ fun i => ?_
    · simp [ObjectProp.visit, Function.visit]
    · simp only [← String.append_assoc]
      rfl
  | spread arg =>
    exact ((push _).seq (inner.expr arg)).congr (Bool.true_and _) fun _ => rfl

theorem objectProps (props : List ObjectProp) :
    Writes k (Emit.separated "," (emitObjectProps p props)) (visitObjectProps k props).finished fun i =>
      printObjectProps p i props := by
  have each (prop : ObjectProp) : Writes k (do Emit.objectBreak p; prop.emit p) (prop.visit k).finished fun i =>
      p.objectBreak i ++ prop.print p i :=
    ((objectBreak p).seq (inner.objectProp prop)).congr (Bool.true_and _) fun _ => rfl
  rw [finished_all (ObjectProp.visit k) rfl (fun _ _ => rfl) props]
  exact separated "," rfl (fun _ _ => rfl) (fun _ => rfl) (fun _ _ => rfl) (fun _ _ _ _ => rfl) each props

theorem patternProp (prop : PatternProp) :
    Writes k (prop.emit p) (prop.visit k).finished fun i => prop.print p i := by
  cases prop with
  | keyValue key value =>
    refine ((inner.propKey key).seq ((push _).seq (inner.pattern value))).congr ?_ fun i => ?_
    · simp [PatternProp.visit]
    · simp only [← String.append_assoc]
      rfl
  | shorthand name default =>
    refine ((push name).seq (inner.option _ default)).congr ?_ fun i => ?_
    · cases default <;> rfl
    · cases default
      · rw [PatternProp.print, Option.elim_none, String.append_empty]
      · rw [PatternProp.print, Option.elim_some, String.append_assoc]
  | rest arg =>
    exact ((push _).seq (inner.pattern arg)).congr (Bool.true_and _) fun _ => rfl

theorem patternProps (props : List PatternProp) :
    Writes k (Emit.separated ", " (emitPatternProps p props)) (visitPatternProps k props).finished fun i =>
      printPatternProps p i props := by
  rw [finished_all (PatternProp.visit k) rfl (fun _ _ => rfl) props]
  exact separated ", " rfl (fun _ _ => rfl) (fun _ => rfl) (fun _ _ => rfl) (fun _ _ _ _ => rfl) inner.patternProp props

theorem arrowBody (body : ArrowBody) : Writes k (body.emit p) (body.visit k).finished fun i => body.print p i := by
  cases body with
  | block ss => exact inner.block ss
  | expr e => exact inner.expr e

theorem forInit (init : Option ForInit) :
    Writes k (emitInit p init) (init.elim .nothing (·.visit k)).finished fun i => init.elim "" (·.print p i) := by
  cases init with
  | none => exact skip
  | some init =>
    cases init with
    | decl kind ds =>
      refine ((push _).seq ((push _).seq (inner.declarators ds))).congr ?_ fun i => ?_
      · simp [ForInit.visit]
      · rw [Option.elim_some, ForInit.print, String.append_assoc]
    | expr e => exact inner.expr e

theorem forHead (head : ForHead) : Writes k (head.emit p) (head.visit k).finished fun i => head.print p i := by
  cases head with
  | decl kind x =>
    refine ((push _).seq ((push _).seq (inner.pattern x))).congr ?_ fun i => ?_
    · simp [ForHead.visit]
    · rw [ForHead.print, String.append_assoc]
  | target e => exact inner.expr e

theorem catchClause (c : CatchClause) : Writes k (c.emit p) (c.visit k).finished fun i => c.print p i := by
  obtain ⟨param, ss, span⟩ := c
  cases param with
  | none => exact inner.block ss
  | some param =>
    refine ((push _).seq ((inner.pattern param).seq ((push _).seq (inner.block ss)))).congr ?_ fun i => ?_
    · simp [CatchClause.visit]
    · simp only [← String.append_assoc]
      rfl

theorem switchCase (c : SwitchCase) : Writes k (c.emit p) (c.visit k).finished fun i => c.print p i := by
  obtain ⟨test, ss, span⟩ := c
  cases test with
  | none =>
    refine ((newline p).seq ((push _).seq (inner.body ss).indented)).congr ?_ fun i => ?_
    · simp [SwitchCase.visit]
    · simp only [← String.append_assoc]
      rfl
  | some test =>
    refine ((newline p).seq ((push _).seq ((inner.expr test).seq ((push _).seq (inner.body ss).indented)))).congr ?_
      fun i => ?_
    · simp [SwitchCase.visit]
    · simp only [← String.append_assoc]
      rfl

theorem cases (cs : List SwitchCase) :
    Writes k (emitCases p cs) (visitCases k cs).finished fun i => printCases p i cs := by
  induction cs with
  | nil => exact skip
  | cons c cs ih =>
    refine ((inner.switchCase c).seq ih).congr ?_ fun i => ?_
    · simp [visitCases]
    · rw [printCases]

theorem handler (c : Option CatchClause) :
    Writes k (emitHandler p c) (c.elim .nothing (·.visit k)).finished fun i =>
      c.elim "" fun c => " catch " ++ c.print p i := by
  cases c with
  | none => exact skip
  | some c => exact ((push _).seq (inner.catchClause c)).congr (Bool.true_and _) fun _ => rfl

theorem finalizer (ss : Option (List Stmt)) :
    Writes k (emitFinalizer p ss) (ss.elim .nothing (visitStmts k)).finished fun i =>
      ss.elim "" fun ss => " finally " ++ printBlock p i ss := by
  cases ss with
  | none => exact skip
  | some ss => exact ((push _).seq (inner.block ss)).congr (Bool.true_and _) fun _ => rfl

/-! ## One more level -/

theorem pattern_succ (x : Pattern) : Writes (k + 1) (x.emit p) (x.visit (k + 1)).finished fun i => x.print p i := by
  cases x with
  | ident name span => exact .level (push name)
  | object props span =>
    cases props with
    | nil => exact .level (push _)
    | cons prop props =>
      refine .level (((push _).seq ((inner.patternProps (prop :: props)).seq (push _))).congr ?_ fun i => ?_)
      · simp [Pattern.fits_succ, Pattern.children]
      · simp only [← String.append_assoc]
        rfl
  | array items span =>
    refine .level (((push _).seq ((inner.patternSlots items).seq (push _))).congr ?_ fun i => ?_)
    · simp [Pattern.fits_succ, Pattern.children]
    · simp only [← String.append_assoc]
      rfl
  | rest arg span => exact .level (((push _).seq (inner.pattern arg)).congr (Bool.true_and _) fun _ => rfl)
  | assign target default span =>
    refine .level (((inner.pattern target).seq ((push _).seq (inner.expr default))).congr ?_ fun i => ?_)
    · simp [Pattern.fits_succ, Pattern.children]
    · simp only [← String.append_assoc]
      rfl

theorem expr_succ (e : Expr) : Writes (k + 1) (e.emit p) (e.visit (k + 1)).finished fun i => e.print p i := by
  cases e with
  | ident | this | num | str | bool | null | regex => exact .level (push _)
  | template quasis exprs span =>
    refine .level (((push _).seq ((inner.template quasis exprs).seq (push _))).congr ?_ fun i => ?_)
    · exact (Bool.true_and _).trans (Bool.and_true _)
    · simp only [← String.append_assoc]
      rfl
  | taggedTemplate tag quasi span =>
    refine .level (((inner.expr tag).seq (inner.expr quasi)).congr ?_ fun _ => rfl)
    simp [Expr.fits_succ_eq, Expr.printed, Expr.children]
  | array items span =>
    refine .level (((push _).seq ((inner.slots items).seq (push _))).congr ?_ fun i => ?_)
    · simp [Expr.fits_succ_eq, Expr.printed, Expr.children]
    · simp only [← String.append_assoc]
      rfl
  | object props span =>
    cases props with
    | nil => exact .level (push _)
    | cons prop props =>
      refine .level (((push _).seq ((inner.objectProps (prop :: props)).indented.seq ((objectBreak p).seq
        (push _)))).congr ?_ fun i => ?_)
      · simp [Expr.fits_succ_eq, Expr.printed, Expr.children]
      · simp only [← String.append_assoc]
        rfl
  | spread arg | await arg =>
    exact .level (((push _).seq (inner.expr arg)).congr (Bool.true_and _) fun _ => rfl)
  | function func span => exact .level (inner.function func)
  | arrow isAsync params body span =>
    refine .level (((pushIf _ _).seq ((push _).seq ((inner.patterns params).seq ((push _).seq ((push _).seq
      (inner.arrowBody body)))))).congr ?_ fun i => ?_)
    · simp [Expr.fits_succ_eq, Expr.printed, Expr.children]
    · simp only [← String.append_assoc]
      rfl
  | unary op arg span =>
    refine .level (((push _).seq ((pushIf _ _).seq (operand op (inner.expr arg)))).congr ?_ fun i => ?_)
    · simp [Expr.fits_succ_eq, Expr.printed, Expr.children]
    · exact (op.before_eq _).symm
  | update op before arg span =>
    cases before with
    | true => exact .level (((push _).seq (inner.expr arg)).congr (Bool.true_and _) fun _ => rfl)
    | false => exact .level (((inner.expr arg).seq (push _)).congr (Bool.and_true _) fun _ => rfl)
  | binary op left right span =>
    refine .level (((inner.expr left).seq ((push _).seq ((push _).seq ((push _).seq (inner.expr right))))).congr ?_
      fun i => ?_)
    · simp [Expr.fits_succ_eq, Expr.printed, Expr.children]
    · simp only [← String.append_assoc]
      rfl
  | assign op target value span =>
    refine .level (((inner.expr target).seq ((push _).seq ((push _).seq ((push _).seq (inner.expr value))))).congr ?_
      fun i => ?_)
    · simp [Expr.fits_succ_eq, Expr.printed, Expr.children]
    · simp only [← String.append_assoc]
      rfl
  | conditional test consequent alternate span =>
    refine .level (((inner.expr test).seq ((push _).seq ((inner.expr consequent).seq ((push _).seq
      (inner.expr alternate))))).congr ?_ fun i => ?_)
    · simp [Expr.fits_succ_eq, Expr.printed, Expr.children]
    · simp only [← String.append_assoc]
      rfl
  | call callee args optional span =>
    refine .level (((inner.expr callee).seq ((pushIf _ _).seq ((push _).seq ((inner.exprs args).seq
      (push _))))).congr ?_ fun i => ?_)
    · simp [Expr.fits_succ_eq, Expr.printed, Expr.children]
    · simp only [← String.append_assoc]
      rfl
  | «new» callee args span =>
    cases args with
    | none =>
      refine .level (((push _).seq (inner.expr callee)).congr ?_ fun _ => rfl)
      simp [Expr.fits_succ_eq, Expr.printed, Expr.children]
    | some args =>
      refine .level (((push _).seq ((inner.expr callee).seq ((push _).seq ((inner.exprs args).seq
        (push _))))).congr ?_ fun i => ?_)
      · simp [Expr.fits_succ_eq, Expr.printed, Expr.children]
      · simp only [← String.append_assoc]
        rfl
  | member object property optional span =>
    refine .level (((inner.expr object).seq ((push _).seq (push _))).congr ?_ fun i => ?_)
    · simp [Expr.fits_succ_eq, Expr.printed, Expr.children]
    · simp only [← String.append_assoc]
      rfl
  | index object index optional span =>
    refine .level (((inner.expr object).seq ((push _).seq ((inner.expr index).seq (push _)))).congr ?_ fun i => ?_)
    · simp [Expr.fits_succ_eq, Expr.printed, Expr.children]
    · simp only [← String.append_assoc]
      rfl
  | sequence exprs span => exact .level (inner.exprs exprs)
  | paren e span =>
    refine .level (((push _).seq ((inner.expr e).seq (push _))).congr ?_ fun i => ?_)
    · simp [Expr.fits_succ_eq, Expr.printed, Expr.children]
    · simp only [← String.append_assoc]
      rfl

theorem stmt_succ (s : Stmt) : Writes (k + 1) (s.emit p) (s.visit (k + 1)).finished fun i => s.print p i := by
  cases s with
  | empty | «break» | «continue» => exact .level (push _)
  | block ss span => exact .level (inner.block ss)
  | varDecl kind ds span =>
    refine .level (((push _).seq ((push _).seq ((inner.declarators ds).seq (push _)))).congr ?_ fun i => ?_)
    · simp [Stmt.fits_succ, Stmt.children]
    · simp only [← String.append_assoc]
      rfl
  | function func span => exact .level (inner.function func)
  | ifElse test consequent alternate span =>
    cases alternate with
    | none =>
      refine .level (((push _).seq ((inner.condition test).seq ((push _).seq (inner.stmt consequent)))).congr ?_
        fun i => ?_)
      · simp [Stmt.fits_succ, Stmt.children]
      · simp only [← String.append_assoc]
        rfl
    | some alternate =>
      refine .level (((push _).seq ((inner.condition test).seq ((push _).seq ((inner.stmt consequent).seq ((push _).seq
        (inner.stmt alternate)))))).congr ?_ fun i => ?_)
      · simp [Stmt.fits_succ, Stmt.children]
      · simp only [← String.append_assoc]
        rfl
  | «for» init test update body span =>
    refine .level (((push _).seq ((inner.forInit init).seq ((push _).seq ((inner.spaced test).seq ((push _).seq
      ((inner.spaced update).seq ((push _).seq ((push _).seq (inner.stmt body))))))))).congr ?_ fun i => ?_)
    · cases init <;> simp [Stmt.fits_succ, Stmt.children]
    · simp only [← String.append_assoc]
      cases init <;> rfl
  | forEach kind isAwait left right body span =>
    refine .level (((push _).seq ((inner.forHead left).seq ((push _).seq ((push _).seq ((push _).seq
      ((inner.expr right).seq ((push _).seq ((push _).seq (inner.stmt body))))))))).congr ?_ fun i => ?_)
    · simp [Stmt.fits_succ, Stmt.children]
    · simp only [← String.append_assoc]
      rfl
  | «while» test body span =>
    refine .level (((push _).seq ((inner.condition test).seq ((push _).seq ((push _).seq
      (inner.stmt body))))).congr ?_ fun i => ?_)
    · simp [Stmt.fits_succ, Stmt.children]
    · simp only [← String.append_assoc]
      rfl
  | doWhile body test span =>
    refine .level (((push _).seq ((inner.stmt body).seq ((push _).seq ((inner.condition test).seq
      (push _))))).congr ?_ fun i => ?_)
    · simp [Stmt.fits_succ, Stmt.children]
    · simp only [← String.append_assoc]
      rfl
  | «try» tried handler finalizer span =>
    refine .level (((push _).seq ((inner.block tried).seq ((inner.handler handler).seq
      (inner.finalizer finalizer)))).congr ?_ fun i => ?_)
    · cases handler <;> cases finalizer <;> simp [Stmt.fits_succ, Stmt.children]
    · have prints : (Stmt.try tried handler finalizer span).print p i = "try " ++ printBlock p i tried ++
          handler.elim "" (fun c => " catch " ++ c.print p i) ++
          finalizer.elim "" (fun ss => " finally " ++ printBlock p i ss) := by
        cases handler <;> cases finalizer <;> rfl
      simp only [prints, String.append_assoc]
  | switch discriminant cs span =>
    cases cs with
    | nil =>
      refine .level (((push _).seq ((inner.expr discriminant).seq ((push _).seq (push _)))).congr ?_ fun i => ?_)
      · simp [Stmt.fits_succ, Stmt.children]
      · show _ = "switch (" ++ discriminant.print p i ++ ") \x7b\x7d"
        simp [String.append_assoc]
    | cons c cs =>
      refine .level (((push _).seq ((inner.expr discriminant).seq ((push _).seq ((inner.cases (c :: cs)).indented.seq
        ((newline p).seq (push _)))))).congr ?_ fun i => ?_)
      · simp [Stmt.fits_succ, Stmt.children]
      · simp only [← String.append_assoc]
        rfl
  | ret value span =>
    cases value with
    | none => exact .level (push _)
    | some value =>
      refine .level (((push _).seq ((inner.expr value).seq (push _))).congr ?_ fun i => ?_)
      · simp [Stmt.fits_succ, Stmt.children, Child.optional]
      · simp only [← String.append_assoc]
        rfl
  | throw value span =>
    refine .level (((push _).seq ((inner.expr value).seq (push _))).congr ?_ fun i => ?_)
    · simp [Stmt.fits_succ, Stmt.children]
    · simp only [← String.append_assoc]
      rfl
  | expr e span =>
    refine .level (((inner.expr e).seq (push _)).congr ?_ fun _ => rfl)
    simp [Stmt.fits_succ, Stmt.children]
  | importDecl clause source span =>
    refine .level (((push _).seq ((pushIf _ _).seq ((push _).seq (push _)))).congr rfl fun i => ?_)
    cases clause with
    | none => exact congrArg _ String.empty_append
    | some clause =>
      simp only [← String.append_assoc]
      rfl
  | exportDecl declaration clause isDefault span =>
    cases declaration with
    | none =>
      refine .level (((push _).seq (pushIf _ _)).congr rfl fun i => ?_)
      cases clause <;> rfl
    | some declaration =>
      refine .level (((push _).seq (inner.stmt declaration)).congr ?_ fun _ => rfl)
      simp [Stmt.fits_succ, Stmt.children]
  | typeOnly keyword name span =>
    refine .level (((push _).seq (pushIf _ _)).congr rfl fun i => ?_)
    show _ = if name.isEmpty then keyword else keyword ++ " " ++ name
    cases name.isEmpty <;> simp [String.append_assoc]

end PrintsIn

/-- The induction is on the levels that are left: what is inside a level is printed with one less. -/
theorem printsIn (p : Printer) (k : Nat) : PrintsIn p k := by
  induction k with
  | zero =>
    refine ⟨fun e => ?_, fun x => ?_, fun s => ?_⟩
    · cases e with
      | object props => cases props <;> exact .level_zero _ _
      | update _ before => cases before <;> exact .level_zero _ _
      | «new» _ args => cases args <;> exact .level_zero _ _
      | _ => exact .level_zero _ _
    · cases x with
      | object props => cases props <;> exact .level_zero _ _
      | _ => exact .level_zero _ _
    · cases s with
      | ifElse _ _ alternate => cases alternate <;> exact .level_zero _ _
      | switch _ cs => cases cs <;> exact .level_zero _ _
      | ret value => cases value <;> exact .level_zero _ _
      | exportDecl declaration => cases declaration <;> exact .level_zero _ _
      | _ => exact .level_zero _ _
  | succ k inner => exact ⟨inner.expr_succ, inner.pattern_succ, inner.stmt_succ⟩

/-- The text of a node. -/
def Node.print (p : Printer) (indent : Nat) : Node → String
  | expr e => e.print p indent
  | pattern x => x.print p indent
  | stmt s => s.print p indent
  | declarator d => d.print p indent
  | function f => f.print p indent
  | catchClause c => c.print p indent
  | switchCase c => c.print p indent

theorem Node.writes (n : Node) (p : Printer) (k : Nat) : Writes k (n.emit p) (n.fits k) fun i => n.print p i := by
  have inner := printsIn p k
  cases n with
  | expr e => exact inner.expr e
  | pattern x => exact inner.pattern x
  | stmt s => exact inner.stmt s
  | declarator d => exact inner.declarator d
  | function f => exact inner.function f
  | catchClause c => exact inner.catchClause c
  | switchCase c => exact inner.switchCase c

end FlowScript
