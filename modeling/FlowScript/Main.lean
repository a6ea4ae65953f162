import FlowScript.CommandLine.Run

/-!
# The program

Reads the real surroundings, runs the command line, and writes what the run leaves behind.
-/

namespace FlowScript

/-- The code of the error that a name on the way to a file is that of a file. -/
def notDirectoryCode : UInt32 := 20

/-- Why reading a file failed. -/
def FileError.ofError : IO.Error → FileError
  | .inappropriateType _ code _ =>
    if code = notDirectoryCode then .notDirectory else .isDirectory
  | _ => .notFound

/-- The text of some bytes. -/
def decodeText (bytes : ByteArray) : Except FileError String :=
  match String.fromUTF8? bytes with
  | some text => .ok text
  | none => .error .notText

/-- Reads the file of a path. -/
def readText (path : String) : IO (Except FileError String) := do
  try
    return decodeText (← IO.FS.readBinFile path)
  catch e =>
    return .error (FileError.ofError e)

/-- The environment variables of this process. -/
def processVariables : IO Variables := do
  match ← readText "/proc/self/environ" with
  | .error _ => return []
  | .ok text =>
    return (text.splitOn "\x00").filterMap fun binding =>
      match binding.splitOn "=" with
      | [] | [_] => none
      | name :: value => some (name, "=".intercalate value)

/-- Reads a stream to its end. -/
partial def readStream (stream : IO.FS.Stream) (read : ByteArray) : IO ByteArray := do
  let bytes ← stream.read 65536
  if bytes.isEmpty then return read
  readStream stream (read ++ bytes)

/-- The surroundings of this process. -/
def processSurroundings : IO (Surroundings IO) := do
  return {
    read := readText
    input := do return decodeText (← readStream (← IO.getStdin) .empty)
    environment := ← processVariables }

end FlowScript

open FlowScript in
/-- Runs the command line. -/
def main (args : List String) : IO UInt32 := do
  match CommandLine.Request.ofArgs? args with
  | none =>
    IO.eprintln <| "usage: scriptlens [--config PATH] (steps|actions|raw|check|analyze) FILE " ++
      "[-f text|json] [--important-only]"
    return 2
  | some request =>
    let outcome ← CommandLine.run (← processSurroundings) request
    IO.print outcome.output
    IO.eprint outcome.complaint
    if let some failure := outcome.failure then IO.eprintln ("Error: " ++ failure.message)
    return if outcome.success then 0 else 1
