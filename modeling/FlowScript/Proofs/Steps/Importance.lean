import FlowScript.Proofs.Printer.Nested
import FlowScript.Proofs.Steps.Coverage
import FlowScript.Proofs.Text.LowerCase
import Mathlib.Data.List.Infix

/-!
# A view of important statements

The code of a statement holds the code of what it shows, so a statement is important if something in it is. A view that
leaves out what is not important therefore leaves out nothing else.
-/

namespace FlowScript

open Printer (oneLine)
open Text (PartOf)

/-! ## Importance goes outwards -/

/-- Whatever full lower case is taken, the same code is important, as all keywords are ASCII. -/
theorem isImportantCode_eq (full : Text.LowerCase) (code : String) :
    isImportantCode code = Text.containsAny (full.lower code) importantKeywords := by
  have ascii : ∀ k ∈ importantKeywords, k.toList.all Text.isAscii = true := by decide
  rw [isImportantCode, Text.containsAny_lower full code ascii]

theorem isImportantCode_of_partOf {part code : String} (inside : PartOf part code)
    (important : isImportantCode part = true) : isImportantCode code = true := by
  have lowered : (Text.lower part).toList <:+: (Text.lower code).toList := by
    rw [Text.lower, Text.lower, String.toList_ofList, String.toList_ofList]
    exact List.IsInfix.flatMap inside Text.lowerChar
  exact Text.containsAny_of_infix lowered important

theorem Stmt.renderCompact_of_fits {s : Stmt} (fits : s.fits maxPrintDepth = true) :
    s.renderCompact = s.print oneLine 0 := by
  rw [renderCompact, render, tryRender, fits, orRenderFailed_renderIf_true]

section
variable {s t : Stmt} {body : List Stmt}

/-- A statement that nests too deep has no code, so what is in it could be important alone. -/
theorem Stmt.isImportant_of_partOf (outer : s.fits maxPrintDepth = true) (inner : t.fits maxPrintDepth = true)
    (inside : PartOf (t.print oneLine 0) (s.print oneLine 0)) (important : t.isImportant = true) :
    s.isImportant = true := by
  rw [isImportant, renderCompact_of_fits inner] at important
  rw [isImportant, renderCompact_of_fits outer]
  exact isImportantCode_of_partOf inside important

theorem Stmt.isImportant_of_mem_block {span : Span} (fits : (block body span).fits maxPrintDepth = true)
    (mem : t ∈ body) (important : t.isImportant = true) : (block body span).isImportant = true := by
  refine isImportant_of_partOf fits (fits_of_mem_block fits mem) ?_ important
  exact partOf_printBlock 0 0 mem

theorem Stmt.isImportant_of_mem_sections (fits : s.fits maxPrintDepth = true) (inside : body ∈ s.sections)
    (mem : t ∈ body) (important : t.isImportant = true) : s.isImportant = true :=
  isImportant_of_partOf fits (fits_of_mem_sections fits inside mem) (partOf_of_mem_sections 0 0 inside mem) important

end

/-! ## Origins of important statements -/

/-- A list none of whose statements is kept has no origins. -/
theorem originsOfList_eq_nil {keep : Stmt → Bool} {limit depth : Nat} {body : List Stmt} (within : depth ≤ limit)
    (dropped : ∀ s ∈ body, ¬ keep s = true) : originsOfList keep limit depth body = [] := by
  rw [originsOfList_of_le keep body within, List.filter_eq_nil_iff.2 dropped]
  rfl

theorem filter_flatMap_eq {α β : Type} {keep : α → Bool} {p : β → Bool} {f g : α → List β} {as : List α}
    (each : ∀ a ∈ as, (f a).filter p = if keep a then g a else []) :
    (as.flatMap f).filter p = (as.filter keep).flatMap g := by
  induction as with
  | nil => rfl
  | cons a as ih =>
    have rest := ih fun b mem => each b (List.mem_cons_of_mem _ mem)
    rw [List.flatMap_cons, List.filter_append, rest, each a List.mem_cons_self]
    by_cases kept : keep a = true <;> simp [kept]

/-- The origins of important statements, where all others are left out with what is in them, are the origins of all
    statements without the unimportant ones. -/
theorem originsOfList_isImportant {limit depth : Nat} {body : List Stmt}
    (fits : ∀ s ∈ body, s.fits maxPrintDepth = true) (within : ∀ d list, Reached depth body d list → d ≤ limit) :
    originsOfList Stmt.isImportant limit depth body =
      (originsOfList (fun _ => true) limit depth body).filter StepOrigin.isImportant := by
  induction depth, body using reached_induction with
  | list depth body spliced shown =>
    rw [originsOfList_of_le _ body (within depth body .here), originsOfList_of_le _ body (within depth body .here),
      List.filter_true]
    refine (filter_flatMap_eq fun s member => ?_).symm
    rcases s.block_or_fault_or_valid with ⟨inner, span, rfl⟩ | ⟨fault, invalid⟩ | ⟨other, valid⟩
    · have reached : Reached depth body (depth + 1) inner := .spliced .here member
      have below := spliced inner span member (fun t mem => Stmt.fits_of_mem_block (fits _ member) mem)
        fun d list more => within d list (reached.trans more)
      rw [originsOf_block, originsOf_block, ← below]
      split
      · rfl
      · -- The block hides what is in it, but then nothing in it is important.
        rename_i unimportant
        refine originsOfList_eq_nil (within _ _ reached) fun t mem important => unimportant ?_
        exact Stmt.isImportant_of_mem_block (fits _ member) mem important
    · rw [originsOf_of_fault _ _ _ invalid, originsOf_of_fault _ _ _ invalid, List.filter_singleton,
        StepOrigin.isImportant_stmt, Bool.cond_eq_ite]
    · have reached (inner : List Stmt) (inside : inner ∈ s.sections) : Reached depth body (depth + 2) inner :=
        .shown .here member valid inside
      have below : (s.sections.flatMap (originsOfList (fun _ => true) limit (depth + 2))).filter StepOrigin.isImportant =
          s.sections.flatMap (originsOfList Stmt.isImportant limit (depth + 2)) := by
        rw [List.filter_flatMap]
        refine List.flatMap_congr fun inner inside => (shown s member inner inside ?_ ?_).symm
        · exact fun t mem => Stmt.fits_of_mem_sections (fits s member) inside mem
        · exact fun d list more => within d list ((reached inner inside).trans more)
      rw [originsOf_of_valid _ _ _ other valid, originsOf_of_valid _ _ _ other valid, List.filter_cons, below]
      by_cases important : s.isImportant = true
      · rw [StepOrigin.isImportant_stmt, if_pos important, if_pos important]
      · have none_ : s.sections.flatMap (originsOfList Stmt.isImportant limit (depth + 2)) = [] := by
          refine List.flatMap_eq_nil_iff.2 fun inner inside => ?_
          refine originsOfList_eq_nil (within _ _ (reached inner inside)) fun t mem found => important ?_
          exact Stmt.isImportant_of_mem_sections (fits s member) inside mem found
        rw [StepOrigin.isImportant_stmt, if_neg important, if_neg important, none_]

/-- Where no list below the limit is reached, all steps come from statements. -/
theorem exists_stmt_of_mem_originsOfList {keep : Stmt → Bool} {limit depth : Nat} {body : List Stmt}
    (within : ∀ d list, Reached depth body d list → d ≤ limit) :
    ∀ o ∈ originsOfList keep limit depth body, ∃ s d, o = .stmt s d := by
  induction depth, body using reached_induction with
  | list depth body spliced shown =>
    intro o mem
    rw [originsOfList_of_le _ body (within depth body .here)] at mem
    obtain ⟨s, kept, mem⟩ := List.mem_flatMap.1 mem
    have member := (List.mem_filter.1 kept).1
    rcases s.block_or_fault_or_valid with ⟨inner, span, rfl⟩ | ⟨fault, invalid⟩ | ⟨other, valid⟩
    · rw [originsOf_block] at mem
      exact spliced inner span member (fun d list more => within d list (Reached.trans (.spliced .here member) more)) o mem
    · rw [originsOf_of_fault _ _ _ invalid] at mem
      exact ⟨s, depth, List.mem_singleton.1 mem⟩
    · rw [originsOf_of_valid _ _ _ other valid] at mem
      rcases List.mem_cons.1 mem with rfl | later
      · exact ⟨s, depth, rfl⟩
      · obtain ⟨inner, inside, mem⟩ := List.mem_flatMap.1 later
        refine shown s member inner inside (fun d list more => ?_) o mem
        exact within d list (Reached.trans (.shown .here member valid inside) more)

/-- A view of important statements is the view of all statements without the steps of unimportant ones, if all
    statements have code and no list below the limit is reached. -/
theorem traces_stepsOf_importantOnly (options : StepOptions) (localizer : Localizer) (depth : Nat) (body : List Stmt)
    (fits : ∀ s ∈ body, s.fits maxPrintDepth = true)
    (within : ∀ d list, Reached depth body d list → d ≤ options.maxDepth) :
    let origins := originsOfList (fun _ => true) options.maxDepth depth body
    Step.traces (stepsOf { options with importantOnly := false } localizer depth body) =
        origins.map (·.trace localizer) ∧
      Step.traces (stepsOf { options with importantOnly := true } localizer depth body) =
        (origins.filter StepOrigin.isImportant).map (·.trace localizer) ∧
      ∀ o ∈ origins, ∃ s d, o = .stmt s d := by
  intro origins
  refine ⟨?_, ?_, exists_stmt_of_mem_originsOfList within⟩
  · rw [traces_stepsOf, StepOptions.keeps_of_all rfl]
  · rw [traces_stepsOf, StepOptions.keeps_of_importantOnly rfl, originsOfList_isImportant fits within]

/-- A block around `if (this) page;`, then a statement that is not important: `{ if (this) page; } return;`. -/
private def pageInBlock : List Stmt :=
  [.block [.ifElse (some (.this (at_ 6 10))) (.expr (.ident "page" (at_ 12 16)) (at_ 12 17)) none (at_ 2 17)] (at_ 0 19),
    .ret none (at_ 20 27)]
where at_ (start stop : Nat) : Span := ⟨⟨start, 0, start⟩, ⟨stop, 0, stop⟩⟩

theorem traces_stepsOf_importantOnly_pageInBlock :
    Step.traces (stepsOf { StepOptions.standard with maxDepth := 1000, importantOnly := true } .echo 0 pageInBlock) =
      [⟨.condition, some (pageInBlock.at_ 2 17), 1, none⟩, ⟨.expression, some (pageInBlock.at_ 12 17), 3, none⟩] := by
  have fits : ∀ s ∈ pageInBlock, s.fits maxPrintDepth = true := by decide +kernel
  have within (d : Nat) (list : List Stmt) (reached : Reached 0 pageInBlock d list) : d ≤ 1000 := by
    have bound := reached.add_sizeOf_le
    have small : sizeOf pageInBlock ≤ 1000 := by decide +kernel
    omega
  have filtered := (traces_stepsOf_importantOnly { StepOptions.standard with maxDepth := 1000 } .echo 0 pageInBlock
    fits within).2.1
  refine filtered.trans ?_
  simp [pageInBlock, originsOfList, originsOf, Stmt.fault?, Stmt.sections, Stmt.asBody]
  decide +kernel

end FlowScript
