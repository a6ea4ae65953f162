import FlowScript.Environment.File
import FlowScript.Message.Flatten
import FlowScript.Settings.Basic
import FlowScript.Surroundings
import FlowScript.Toml.Document

/-!
# Loading settings

Settings are laid over one another in this order: the standard ones, a settings file, environment variables, and what
the caller asks for. Before all of them a file of environment variables is read, which sets what is not set.
-/

namespace FlowScript

namespace Variables

/-- What the names of variables with settings start with, in lower case. -/
def settingMark : String := "scriptlens__"

/-- A name with a dot for each pair of underscores. -/
def dotted : List Char → List Char
  | c :: d :: r => if c = '_' && d = '_' then '.' :: dotted r else c :: dotted (d :: r)
  | cs => cs

/-- The key of the setting that a variable holds. -/
def settingKey? (name : String) : Option String :=
  let lower := (Text.lower name).toList
  let mark := settingMark.toList
  if mark.isPrefixOf lower then some (String.ofList (dotted (lower.drop mark.length))) else none

/-- The layer of the settings that variables hold. -/
def toLayer (vs : Variables) : List (String × Setting) :=
  vs.filterMap fun (name, value) => (settingKey? name).map (·, Setting.ofText value)

end Variables

namespace Settings

/-- The settings file that is read when none is named. -/
def defaultPath : String := "scriptlens.toml"

/-- The variable that names a settings file. -/
def pathVariable : String := "SCRIPTLENS_CONFIG_PATH"

/-- The file of environment variables. -/
def variablesPath : String := ".env"

/-- The settings of a settings file, environment variables, and the wish to see only what is important. -/
def ofLayers (file : List (String × Setting)) (environment : Variables) (importantOnly : Option Bool) :
    Except SettingsError Settings :=
  let base := Setting.layer standard.toLayer (.table [])
  let set := Setting.layer environment.toLayer (Setting.layer file base)
  let wish := match importantOnly with
    | none => []
    | some b => [("render.important_only", Setting.bool b)]
  match ofSetting? (Setting.layer wish set) with
  | none => .error .malformed
  | some s =>
    match s.fault? with
    | some cause => .error (.invalid cause)
    | none => .ok s

/-- The layer of a settings file; a byte order mark before it is not a part of it. -/
def fileLayer (text : String) : Except SettingsError (List (String × Setting)) :=
  let cs := text.toList
  match Toml.parse? (if cs.head? = some '\ufeff' then String.ofList cs.tail else text) with
  | none => .error .malformed
  | some table => .ok (Setting.ofTomlEntries table)

section
variable {m : Type → Type} [Monad m]

/-- The variables with those that a file of environment variables sets. -/
def environmentIn (world : Surroundings m) : m Variables := do
  match ← world.read variablesPath with
  | .ok text => return world.environment.withFile text
  | .error _ => return world.environment

/-- The text of a settings file. Its name may be given without the ending. -/
def settingsText? (world : Surroundings m) (path : String) : m (Option String) := do
  match ← world.read path with
  | .ok text => return some text
  | .error _ =>
    match ← world.read (path ++ ".toml") with
    | .ok text => return some text
    | .error _ => return none

/-- The layer of the settings file: the one that is named, which must be there, or the default one. -/
def layerIn (world : Surroundings m) (path : Option String) : m (Except SettingsError (List (String × Setting))) := do
  match path with
  | none =>
    match ← settingsText? world defaultPath with
    | some text => return fileLayer text
    | none => return .ok []
  | some path =>
    match ← world.read path with
    | .error .notFound | .error .notDirectory => return .error (.notFound path)
    | _ =>
      match ← settingsText? world path with
      | some text => return fileLayer text
      | none => return .error .malformed

/-- Loads settings; `path` names a settings file, `importantOnly` the wish to see only what is important. -/
def load (world : Surroundings m) (path : Option String) (importantOnly : Option Bool) :
    m (Except SettingsError Settings) := do
  let environment ← environmentIn world
  match ← layerIn world (path <|> environment.get? pathVariable) with
  | .error e => return .error e
  | .ok file => return ofLayers file environment importantOnly

end
end Settings

/-! ## Catalogs -/

/-- Why a catalog was not loaded. -/
inductive CatalogFailure
  | unreadable (path : String) (cause : FileError)
  | malformed (cause : CatalogError)
deriving Repr, DecidableEq

/-- The failure with its causes. -/
def CatalogFailure.message : CatalogFailure → String
  | unreadable path cause => "failed to read catalog " ++ path ++ ": " ++ cause.message ++ ": " ++ cause.message
  | malformed cause => cause.message

/-- The catalog that settings ask for: the English one, extended by the file that they name. -/
def Settings.catalog {m : Type → Type} [Monad m] (s : Settings) (world : Surroundings m) :
    m (Except CatalogFailure Catalog) := do
  match s.catalogPath with
  | none => return .ok .english
  | some path =>
    match ← world.read path with
    | .error cause => return .error (.unreadable path cause)
    | .ok text =>
      match Catalog.ofToml text with
      | .error cause => return .error (.malformed cause)
      | .ok catalog => return .ok (Catalog.english.extend catalog)

end FlowScript
