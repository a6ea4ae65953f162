/-!
# Arguments of the command line

A command line names a view and a script, and may choose a format, a settings file and, for two of the views, that only
what is important is shown. An option may stand once; only the settings file may be named before and after the view,
and then the second name counts.
-/

namespace FlowScript.CommandLine

/-- What is to be shown of a script. -/
inductive View
  | steps | actions | raw | check | analysis
deriving Repr, DecidableEq

def View.name : View → String
  | steps => "steps"
  | actions => "actions"
  | raw => "raw"
  | check => "check"
  | analysis => "analyze"

def View.all : List View := [steps, actions, raw, check, analysis]

/-- The view of a name. -/
def View.ofName? (name : String) : Option View := View.all.find? (·.name = name)

/-- Whether a view may be restricted to what is important. -/
def View.isFilterable : View → Bool
  | steps | analysis => true
  | actions | raw | check => false

/-- How a view is written. -/
inductive Format
  | text | json
deriving Repr, DecidableEq

def Format.ofName? (name : String) : Option Format :=
  if name = "text" then some text else if name = "json" then some json else none

/-- What a command line asks for. -/
structure Request where
  settingsPath : Option String
  view : View
  /-- The script; a dash stands for standard input. -/
  file : String
  format : Format
  importantOnly : Bool
deriving Repr, DecidableEq

/-! ## Words -/

/-- A word of a command line, by its dashes. -/
inductive Word
  | plain (text : String)
  /-- Two dashes and a name, and what follows an equals sign. -/
  | long (name : String) (value : Option String)
  /-- A dash and letters. -/
  | short (letters : List Char)
  /-- Two dashes: no options follow. -/
  | escape
deriving Repr, DecidableEq

/-- The parts of a text around its first equals sign. -/
def splitAtEquals (cs : List Char) : String × Option String :=
  let (name, rest) := cs.span (· ≠ '=')
  (String.ofList name, if rest.isEmpty then none else some (String.ofList rest.tail))

def Word.ofText (text : String) : Word :=
  match text.toList with
  | [] => .plain text
  | c :: r =>
    if c ≠ '-' then .plain text
    else
      match r with
      | [] => .plain text
      | d :: s =>
        if d ≠ '-' then .short (d :: s)
        else if s.isEmpty then .escape
        else
          let (name, value) := splitAtEquals s
          .long name value

/-! ## Reading word by word -/

/-- An option that takes a value. -/
inductive ValueOption
  | settings | format
deriving Repr, DecidableEq

/-- What has been read so far. -/
structure Reading where
  /-- The settings file named before the view. -/
  outerPath : Option String
  view : Option View
  /-- The settings file named after the view. -/
  innerPath : Option String
  file : Option String
  format : Option Format
  importantOnly : Bool
  /-- The option whose value comes next. -/
  awaited : Option ValueOption
  /-- Whether no options follow. -/
  escaped : Bool
deriving Repr, DecidableEq

namespace Reading

def start : Reading := ⟨none, none, none, none, none, false, none, false⟩

/-- Takes the value of an option. -/
def give? (r : Reading) (o : ValueOption) (value : String) : Option Reading :=
  let r := { r with awaited := none }
  match o with
  | .settings =>
    if value.isEmpty then none
    else if r.view.isNone then
      if r.outerPath.isSome then none else some { r with outerPath := some value }
    else if r.innerPath.isSome then none else some { r with innerPath := some value }
  | .format =>
    if r.format.isSome then none else (Format.ofName? value).map fun f => { r with format := some f }

/-- Takes an option, with its value if that is attached. -/
def option? (r : Reading) (o : ValueOption) (value : Option String) : Option Reading :=
  match value with
  | some value => r.give? o value
  | none => some { r with awaited := some o }

/-- Takes a word that is no option: the view, then the script. -/
def plain? (r : Reading) (text : String) : Option Reading :=
  match r.view, r.file with
  | none, _ => if r.escaped then none else (View.ofName? text).map fun v => { r with view := some v }
  | some _, none => some { r with file := some text }
  | some _, some _ => none

/-- Takes an option of a long name. -/
def long? (r : Reading) (name : String) (value : Option String) : Option Reading :=
  if name = "config" then r.option? .settings value
  else
    match r.view with
    | none => none
    | some view =>
      if name = "format" then r.option? .format value
      else if name = "important-only" && view.isFilterable && value.isNone && !r.importantOnly then
        some { r with importantOnly := true }
      else none

/-- Takes an option of a single letter; its value may be attached, also by an equals sign. -/
def short? (r : Reading) (letters : List Char) : Option Reading :=
  match r.view, letters with
  | some _, c :: rest =>
    if c ≠ 'f' then none
    else if rest.isEmpty then r.option? .format none
    else r.option? .format (some (String.ofList (if rest.head? = some '=' then rest.tail else rest)))
  | _, _ => none

/-- Takes the next word. -/
def next? (r : Reading) (text : String) : Option Reading :=
  match r.awaited, r.escaped, Word.ofText text with
  | some o, false, .plain value => r.give? o value
  | some _, _, _ => none
  | none, true, _ => r.plain? text
  | none, false, .plain text => r.plain? text
  | none, false, .long name value => r.long? name value
  | none, false, .short letters => r.short? letters
  | none, false, .escape => some { r with escaped := true }

/-- The request, when nothing is missing. -/
def finish? (r : Reading) : Option Request :=
  match r.awaited, r.view, r.file with
  | none, some view, some file =>
    some
      { settingsPath := r.innerPath <|> r.outerPath
        view, file
        format := r.format.getD .text
        importantOnly := r.importantOnly }
  | _, _, _ => none

end Reading

/-- What a command line asks for; nothing if it is refused. -/
def Request.ofArgs? (args : List String) : Option Request :=
  (args.foldlM Reading.next? Reading.start).bind Reading.finish?

end FlowScript.CommandLine
