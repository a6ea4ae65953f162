/-!
# Operators and keywords of the tree

Each operator has its symbol, the text it is written with, and its name, the text it is called by in exchanged trees.
-/

namespace FlowScript

/-- How a variable declaration begins. -/
inductive VarKind
  | const | let | var
deriving Repr, DecidableEq, Inhabited

/-- What a `for` loop over a collection visits: keys (`in`) or values (`of`). -/
inductive ForLoopKind
  | keys | values
deriving Repr, DecidableEq, Inhabited

/-- Operators written before their operand. -/
inductive UnaryOp
  | not | bitNot | plus | minus | typeof | void | delete
deriving Repr, DecidableEq, Inhabited

/-- Operators that change their operand by one. -/
inductive UpdateOp
  | increment | decrement
deriving Repr, DecidableEq, Inhabited

/-- Operators between two operands. -/
inductive BinaryOp
  | nullish | or | and | bitOr | bitXor | bitAnd
  | strictEq | strictNe | eq | ne
  | lt | lte | gt | gte | instanceOf | inside
  | shl | shr | ushr | add | sub | mul | div | mod | exp
deriving Repr, DecidableEq, Inhabited

def VarKind.word : VarKind → String
  | .const => "const"
  | .let => "let"
  | .var => "var"

def ForLoopKind.word : ForLoopKind → String
  | .keys => "in"
  | .values => "of"

def UnaryOp.symbol : UnaryOp → String
  | .not => "!"
  | .bitNot => "~"
  | .plus => "+"
  | .minus => "-"
  | .typeof => "typeof"
  | .void => "void"
  | .delete => "delete"

/-- Whether the operator is a word, which needs a space before its operand. -/
def UnaryOp.isWord : UnaryOp → Bool
  | .typeof | .void | .delete => true
  | _ => false

def UpdateOp.symbol : UpdateOp → String
  | .increment => "++"
  | .decrement => "--"

namespace BinaryOp

/-- The text between the operands. -/
def symbol : BinaryOp → String
  | nullish => "??"
  | or => "||"
  | and => "&&"
  | bitOr => "|"
  | bitXor => "^"
  | bitAnd => "&"
  | strictEq => "==="
  | strictNe => "!=="
  | eq => "=="
  | ne => "!="
  | lt => "<"
  | lte => "<="
  | gt => ">"
  | gte => ">="
  | instanceOf => "instanceof"
  | inside => "in"
  | shl => "<<"
  | shr => ">>"
  | ushr => ">>>"
  | add => "+"
  | sub => "-"
  | mul => "*"
  | div => "/"
  | mod => "%"
  | exp => "**"

/-- Every operator, once. -/
def all : List BinaryOp :=
  [nullish, or, and, bitOr, bitXor, bitAnd, strictEq, strictNe, eq, ne, lt, lte, gt, gte, instanceOf, inside,
    shl, shr, ushr, add, sub, mul, div, mod, exp]

/-- The operator's name in exchanged trees. -/
def name : BinaryOp → String
  | nullish => "Nullish"
  | or => "Or"
  | and => "And"
  | bitOr => "BitOr"
  | bitXor => "BitXor"
  | bitAnd => "BitAnd"
  | strictEq => "StrictEq"
  | strictNe => "StrictNe"
  | eq => "Eq"
  | ne => "Ne"
  | lt => "Lt"
  | lte => "Lte"
  | gt => "Gt"
  | gte => "Gte"
  | instanceOf => "InstanceOf"
  | inside => "In"
  | shl => "Shl"
  | shr => "Shr"
  | ushr => "UShr"
  | add => "Add"
  | sub => "Sub"
  | mul => "Mul"
  | div => "Div"
  | mod => "Mod"
  | exp => "Exp"

/-- The operator of a name. -/
def ofName? (text : String) : Option BinaryOp :=
  all.find? (·.name == text)

theorem ofName?_name (op : BinaryOp) : ofName? op.name = some op := by cases op <;> decide

end BinaryOp

namespace UnaryOp

def all : List UnaryOp := [not, bitNot, plus, minus, typeof, void, delete]

/-- The operator's name in exchanged trees. -/
def name : UnaryOp → String
  | not => "Not"
  | bitNot => "BitNot"
  | plus => "Plus"
  | minus => "Minus"
  | typeof => "Typeof"
  | void => "Void"
  | delete => "Delete"

/-- The operator of a name. -/
def ofName? (text : String) : Option UnaryOp :=
  all.find? (·.name == text)

/-- The operator of a symbol. -/
def ofSymbol? (text : String) : Option UnaryOp :=
  all.find? (·.symbol == text)

theorem ofName?_name (op : UnaryOp) : ofName? op.name = some op := by cases op <;> decide

end UnaryOp

namespace UpdateOp

/-- The operator's name in exchanged trees. -/
def name : UpdateOp → String
  | increment => "Increment"
  | decrement => "Decrement"

/-- The operator of a name. -/
def ofName? (text : String) : Option UpdateOp :=
  [increment, decrement].find? (·.name == text)

theorem ofName?_name (op : UpdateOp) : ofName? op.name = some op := by cases op <;> decide

end UpdateOp

/-- The declaration kind of a keyword. -/
def VarKind.ofWord? (text : String) : Option VarKind :=
  [VarKind.const, .let, .var].find? (·.word == text)

/-- The loop kind of a keyword. -/
def ForLoopKind.ofWord? (text : String) : Option ForLoopKind :=
  [ForLoopKind.keys, .values].find? (·.word == text)

theorem VarKind.ofWord?_word (kind : VarKind) : VarKind.ofWord? kind.word = some kind := by cases kind <;> decide

theorem ForLoopKind.ofWord?_word (kind : ForLoopKind) : ForLoopKind.ofWord? kind.word = some kind := by
  cases kind <;> decide

end FlowScript
