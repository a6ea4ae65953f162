import FlowScript.Proofs.Parse.Inside

/-!
# What assembly makes of a match

Assembly makes of a match a piece that its rule stands for, and few matches come with edits of their own (`OwnEdit`):
a module statement that goes with its line, a type after an operand with the edits around it, a list of names written
anew.
-/

namespace FlowScript.Parse
open FlowScript.Grammar (Rule)

/-- The names in a list. -/
def isSpecifier (part : Part) : Bool :=
  match part.piece with
  | .specifier _ => true
  | _ => false

/-- The names that are not marked as types. -/
def isKept (part : Part) : Bool :=
  match part.piece with
  | .specifier isType => !isType
  | _ => false

theorem isSpecifier_of_isKept {part : Part} (kept : isKept part = true) : isSpecifier part = true := by
  unfold isKept at kept
  split at kept
  · rename_i piece
    simp [isSpecifier, piece]
  · cases kept

theorem keptSpecifiers_eq (parts : List Part) : keptSpecifiers parts = (parts.filter isKept).map (·.content) := rfl

/-- Where a list of names ends. -/
inductive ListEnd (site : Site) (parts : List Part) : Nat → Prop
  | imported (list : site.rule = .importNamed) : ListEnd site parts site.stop.offset
  | exported {stop} (list : site.rule = .exportList) (brace : closingBrace site parts = some stop) :
    ListEnd site parts stop

/-- An edit that goes with a match, those of the matches inside it apart unless the match takes them up itself. -/
inductive OwnEdit (site : Site) (parts : List Part) : Edit → Prop
  /-- An import or export of types alone. -/
  | line (whole : site.rule = .importDecl ∨ site.rule = .exportDecl) : OwnEdit site parts site.lineRemoval
  /-- A type stated after an operand, with the space between them. -/
  | suffix {before after : List Part} {operand type : Part} (here : parts = before ++ operand :: type :: after)
    (is : type.rule = .tsAsSuffix) : OwnEdit site parts (Edit.remove operand.contentStop type.contentStop)
  /-- An edit in an operand. -/
  | operand {part : Part} {e : Edit} (mem : part ∈ parts) (edit : e ∈ part.edits) : OwnEdit site parts e
  /-- A list of which some names are types and some are not. -/
  | list {stop} (listed : ListEnd site parts stop) (some_ : keptSpecifiers parts ≠ [])
    (fewer : (keptSpecifiers parts).length < (parts.filter isSpecifier).length) :
    OwnEdit site parts (Edit.replace site.start.offset stop (braceList (keptSpecifiers parts)))

/-- A piece that the rule stands for, with edits that go with the match. -/
structure Fills (site : Site) (parts : List Part) (made : Piece × List Edit) : Prop where
  piece : Makes site.rule made.1
  own : ∀ e ∈ made.2, OwnEdit site parts e

theorem plain_fills {site : Site} {parts : List Part} {rule : Rule} {piece : Piece} (is : site.rule = rule)
    (makes : Makes rule piece) : Gives (Made.plain piece) (Fills site parts) :=
  .ok ⟨is ▸ makes, List.forall_mem_nil _⟩

end FlowScript.Parse
