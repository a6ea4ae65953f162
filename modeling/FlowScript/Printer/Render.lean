import FlowScript.Printer.Basic
import FlowScript.Printer.Visit

/-!
# Rendering

Rendering is printing with a bound on the nesting. The `render` functions put a fixed text in place of a tree that
nests too deep.
-/

namespace FlowScript

/-- Why a tree was not rendered. -/
inductive RenderError
  /-- More than `maxPrintDepth` nodes lie inside one another. -/
  | tooDeep
deriving Repr, DecidableEq

/-- The wording of the error. -/
def RenderError.message : RenderError → String
  | .tooDeep => "node nesting exceeds " ++ toString maxPrintDepth ++ " levels"

/-- What stands for a tree that nests too deep. -/
def renderFailed : String := "[code generation failed]"

/-- The text, if the tree fits. -/
def renderIf (fits : Bool) (text : String) : Except RenderError String :=
  if fits then .ok text else .error .tooDeep

/-- The text, or what stands for it. -/
def orRenderFailed : Except RenderError String → String
  | .ok text => text
  | .error _ => renderFailed

namespace Stmt

/-- The text of a statement in a style. -/
def tryRender (s : Stmt) (style : CodeStyle) : Except RenderError String :=
  renderIf (s.fits maxPrintDepth) (s.print (.plain style) 0)

def render (s : Stmt) (style : CodeStyle) : String := orRenderFailed (s.tryRender style)

/-- The statement on one line. -/
def renderCompact (s : Stmt) : String := s.render .oneLine

/-- The head of a loop on one line, empty for anything else. -/
def renderLoopHead (s : Stmt) : String :=
  orRenderFailed (renderIf (s.visitLoopHead maxPrintDepth).finished (s.printLoopHead (.plain .oneLine)))

end Stmt

namespace Expr

/-- The text of an expression in a style. -/
def tryRender (e : Expr) (style : CodeStyle) : Except RenderError String :=
  renderIf (e.fits maxPrintDepth) (e.print (.plain style) 0)

def render (e : Expr) (style : CodeStyle) : String := orRenderFailed (e.tryRender style)

/-- The expression on one line. -/
def renderCompact (e : Expr) : String := e.render .oneLine

/-- The expression on one line with words in place of some operators. -/
def tryRenderWithWords (e : Expr) (words : BinaryOp → Option String) : Except RenderError String :=
  renderIf (e.fits maxPrintDepth) (e.print ⟨.oneLine, words⟩ 0)

/-- The binary operators met when the expression is rendered, in order. -/
def operatorsMet (e : Expr) : List BinaryOp := (e.visit maxPrintDepth).operators

def renderWithWords (e : Expr) (words : BinaryOp → Option String) : String :=
  orRenderFailed (e.tryRenderWithWords words)

end Expr

namespace Pattern

/-- The text of a pattern in a style. -/
def tryRender (p : Pattern) (style : CodeStyle) : Except RenderError String :=
  renderIf (p.fits maxPrintDepth) (p.print (.plain style) 0)

def render (p : Pattern) (style : CodeStyle) : String := orRenderFailed (p.tryRender style)

/-- The pattern on one line. -/
def renderCompact (p : Pattern) : String := p.render .oneLine

end Pattern

@[simp] theorem orRenderFailed_renderIf_true (text : String) : orRenderFailed (renderIf true text) = text := rfl

end FlowScript
