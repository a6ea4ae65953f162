import FlowScript.Environment.Basic

/-!
# Surroundings of the program

The program sees its surroundings only through files, standard input and environment variables. What reading them means
is left to a monad: it may read the real ones, or fixed ones as here.
-/

namespace FlowScript

/-- Why a file was not read. -/
inductive FileError
  | notFound
  | isDirectory
  /-- A name on the way to the file is that of a file. -/
  | notDirectory
  /-- The bytes are not UTF-8. -/
  | notText
deriving Repr, DecidableEq

namespace FileError

def message : FileError → String
  | notFound => "No such file or directory (os error 2)"
  | isDirectory => "Is a directory (os error 21)"
  | notDirectory => "Not a directory (os error 20)"
  | notText => "stream did not contain valid UTF-8"

end FileError

/-- What the program may ask its surroundings. -/
structure Surroundings (m : Type → Type) where
  /-- Reads the file of a path. -/
  read : String → m (Except FileError String)
  /-- Reads standard input to its end. -/
  input : m (Except FileError String)
  environment : Variables

namespace Surroundings

/-- The names on a path, without those that stay where they are. -/
def namesOf (path : String) : List String :=
  ((path.splitOn "/").filter fun name => name ≠ "" && name ≠ ".")

/-- Reads a path relative to the directory that holds some files. -/
def readFrom (files : List (String × String)) (path : String) : Except FileError String :=
  let sought := namesOf path
  let known := files.map fun (name, text) => (namesOf name, text)
  if path.isEmpty || path.startsWith "/" then .error .notFound
  else if sought.isEmpty then .error .isDirectory
  else
    match known.lookup sought with
    | some text => if path.endsWith "/" then .error .notDirectory else .ok text
    | none =>
      if known.any fun (name, _) => sought.isPrefixOf name then .error .isDirectory
      else if known.any fun (name, _) => name.isPrefixOf sought then .error .notDirectory
      else .error .notFound

/-- Surroundings of which everything is known: the files of a directory, standard input, and the variables. -/
def ofFiles (files : List (String × String)) (input : String) (environment : Variables) : Surroundings Id where
  read path := readFrom files path
  input := pure (.ok input)
  environment

end Surroundings
end FlowScript
