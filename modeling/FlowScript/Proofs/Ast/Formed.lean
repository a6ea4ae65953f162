import FlowScript.Proofs.Ast.Node
import FlowScript.Proofs.Grammar.Lexical
import FlowScript.Text.Slice

/-!
# Well-formed nodes

What the grammar promises of a node and its text beyond the shape of the tree: its lists are as long as they must be, a
template is written as raw text and substitutions in turn, and every name is a complete identifier of the source.
-/

namespace FlowScript
open FlowScript.Grammar (IsIdentifier EndsName RawText Rule)
open FlowScript.Peg (Cursor Derivation Matches)

/-! ## Names -/

/-- An identifier that stands between two offsets of a source and goes on no further. -/
structure NameAt (source : List Char) (lo hi : Nat) (name : String) : Prop where
  identifier : IsIdentifier name
  stands : ∃ before after, source = before ++ name.toList ++ after ∧ lo = Text.byteLength before ∧
    hi = Text.byteLength (before ++ name.toList) ∧ EndsName after

theorem NameAt.of_reaches {source before : List Char} {c d : Cursor} {name : String} (identifier : IsIdentifier name)
    (here : (Cursor.start source).Reaches before c) (read : c.Reaches name.toList d) (ends : EndsName d.rest) :
    NameAt source c.offset d.offset name := by
  have whole := here.append read
  have from_ : (Cursor.start source).offset = 0 := rfl
  refine ⟨identifier, before, d.rest, whole.rest, ?_, ?_, ends⟩
  · rw [here.offset, from_, Nat.zero_add]
  · rw [whole.offset, from_, Nat.zero_add]

/-- A complete identifier somewhere in the text of a span. -/
def NameWithin (source : List Char) (span : Span) (name : String) : Prop :=
  ∃ lo hi, span.start.offset ≤ lo ∧ hi ≤ span.stop.offset ∧ NameAt source lo hi name

/-- A name in the text of a span is one in that of a wider span. -/
theorem NameWithin.widen {source : List Char} {span span' : Span} {name : String} (h : NameWithin source span name)
    (starts : span'.start.offset ≤ span.start.offset) (stops : span.stop.offset ≤ span'.stop.offset) :
    NameWithin source span' name := by
  obtain ⟨lo, hi, begins, ends, stands⟩ := h
  exact ⟨lo, hi, Nat.le_trans starts begins, Nat.le_trans ends stops, stands⟩

/-! ## Templates -/

/-- A substitution of the source from one place to another: what the grammar matches there, with the match of its
    expression and the text between its braces. -/
structure SubstitutionAt (source : List Char) (c d : Cursor) (t : Derivation Rule) (inner : List Char) : Prop where
  here : ∃ before, (Cursor.start source).Reaches before c
  matched : Matches grammar (.call .templateSubst) .compound c (some ([.node .templateSubst c d [t]], d))
  text : c.Reaches (['$', '\x7b'] ++ inner ++ ['\x7d']) d

/-- A text, from an offset of the source on, in which raw text and substitutions take turns. Each expression is read off
    the match in one substitution. -/
inductive Alternates (source : List Char) : Nat → List String → List Expr → List Char → Prop
  | last (lo : Nat) {quasi : String} (raw : RawText ['\x60'] quasi.toList) : Alternates source lo [quasi] [] quasi.toList
  | hole {lo : Nat} {quasi : String} {c d : Cursor} {t : Derivation Rule} {inner : List Char} {e : Expr}
    {quasis : List String} {exprs : List Expr} {text : List Char} (raw : RawText ['$', '\x7b'] quasi.toList)
    (opens : c.offset = lo + Text.byteLength quasi.toList) (substitution : SubstitutionAt source c d t inner)
    (begins : t.start.offset ≤ e.span.start.offset) (ends : e.span.stop.offset ≤ t.stop.offset)
    (more : Alternates source d.offset quasis exprs text) :
    Alternates source lo (quasi :: quasis) (e :: exprs)
      (quasi.toList ++ (['$', '\x7b'] ++ inner ++ ['\x7d']) ++ text)

/-- Raw text stands before, between and after the substitutions. -/
theorem Alternates.length {source : List Char} {lo : Nat} {quasis : List String} {exprs : List Expr} {text : List Char}
    (h : Alternates source lo quasis exprs text) : quasis.length = exprs.length + 1 := by
  induction h with
  | last => rfl
  | hole _ _ _ _ _ _ ih => rw [List.length_cons, ih, List.length_cons]

/-! ## Nodes -/

namespace Node

/-- What the text of the source says of a node. The names in the lists of imports and exports are no nodes, and those of
    members are no identifiers of their own. -/
def Formed (source : List Char) : Node → Prop
  | expr (.ident name span) | pattern (.ident name span) => NameAt source span.start.offset span.stop.offset name
  | expr (.template quasis exprs span) =>
    quasis.length = exprs.length + 1 ∧ ∃ text, Alternates source (span.start.offset + 1) quasis exprs text ∧
      Text.slice? source span.start.offset span.stop.offset = some ('\x60' :: text ++ ['\x60'])
  | expr (.taggedTemplate _ quasi _) => ∃ quasis exprs span, quasi = .template quasis exprs span
  | expr (.sequence exprs _) => 2 ≤ exprs.length
  | expr (.object props span) => ∀ name default, .shorthand name default ∈ props → NameWithin source span name
  | pattern (.object props span) => ∀ name default, .shorthand name default ∈ props → NameWithin source span name
  | function f => ∀ name, f.name = some name → NameWithin source f.span name
  | stmt (.varDecl _ declarations _) | stmt (.for (some (.decl _ declarations)) _ _ _ _) => declarations ≠ []
  | stmt (.typeOnly keyword name span) => name = "" ∧ keyword = "declare" ∨ NameWithin source span name
  | _ => True

end Node
end FlowScript
