/-!
# Templates

A template is text with placeholders, names in braces. It is read into pieces once, and filling replaces each piece;
what is filled in is not read again.
-/

namespace FlowScript.Template

/-- A piece of a template. -/
inductive Piece
  /-- A character that stands for itself. -/
  | char (c : Char)
  /-- A name in braces. -/
  | placeholder (name : List Char)
  /-- What follows an opening brace that is never closed. -/
  | unclosed (rest : List Char)
deriving Repr, DecidableEq

mutual

/-- The pieces of a template. -/
def pieces : List Char → List Piece
  | [] => []
  | c :: r => if c = '\x7b' then piecesAfterBrace [] r else .char c :: pieces r

/-- The pieces from inside braces on; `name` is the part of the name read so far. -/
def piecesAfterBrace (name : List Char) : List Char → List Piece
  | [] => [.unclosed name]
  | c :: r => if c = '\x7d' then .placeholder name :: pieces r else piecesAfterBrace (name ++ [c]) r

end

/-- The text of a piece as written. -/
def Piece.written : Piece → List Char
  | char c => [c]
  | placeholder name => '\x7b' :: name ++ ['\x7d']
  | unclosed rest => '\x7b' :: rest

/-- The text that a piece is filled with: the first argument of a placeholder's name, else the piece as written. -/
def Piece.fill (args : List (String × String)) : Piece → List Char
  | placeholder name =>
    match args.lookup (String.ofList name) with
    | some value => value.toList
    | none => (placeholder name).written
  | p => p.written

/-- The template with its placeholders filled. -/
def fill (template : String) (args : List (String × String)) : String :=
  String.ofList ((pieces template.toList).flatMap (·.fill args))

@[simp] theorem Piece.fill_nil (p : Piece) : p.fill [] = p.written := by
  cases p <;> rfl

mutual

/-- Nothing is lost by reading a template. -/
theorem flatMap_written_pieces (cs : List Char) : (pieces cs).flatMap Piece.written = cs := by
  match cs with
  | [] => simp [pieces]
  | c :: r =>
    unfold pieces
    split
    · rename_i h
      simpa [h] using flatMap_written_piecesAfterBrace [] r
    · simp [Piece.written, flatMap_written_pieces r]

theorem flatMap_written_piecesAfterBrace (name cs : List Char) :
    (piecesAfterBrace name cs).flatMap Piece.written = '\x7b' :: (name ++ cs) := by
  match cs with
  | [] => simp [piecesAfterBrace, Piece.written]
  | c :: r =>
    unfold piecesAfterBrace
    split
    · rename_i h
      simp [Piece.written, flatMap_written_pieces r, h]
    · simpa using flatMap_written_piecesAfterBrace (name ++ [c]) r

end

end FlowScript.Template
