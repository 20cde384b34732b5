import TemplateCensus.CommandLine.Program

/-!
The executable. It collects what a run may look at, lets `CommandLine.run` decide, and then prints
and writes what that leaves behind.

No front end is started from here. The dump of a source is read from the file beside it whose name
has `.ast.json` appended, where a front end has left it.
-/

namespace TemplateCensus.Main

open CommandLine

def text? (path : String) : IO (Option String) := do
  let .ok text ← (IO.FS.readFile ⟨path⟩).toBaseIO | return none
  return some text

/-- What stands at a path, as an entry of a file tree. Something that is there and cannot be read as
a file counts as a directory. -/
def entry? (path : String) : IO (Option (String × String)) := do
  match ← (IO.FS.readFile ⟨path⟩).toBaseIO with
  | .ok text => return some (path, text)
  | .error (.noFileOrDirectory ..) => return none
  | .error _ => return some (path ++ "/", "")

def probes (o : Options) : List String :=
  let outputs := [o.definitions, o.declarations].filter (· ≠ "")
  [".env", Settings.usualFile, o.config, o.buildPath, Path.join o.buildPath Database.fileName] ++
    outputs ++ outputs.map (Path.join · "..")

def identifiers (text : String) : List String :=
  Text.wordsOf (text.map fun c => if c.isAlphanum || c = '_' then c else ' ')

partial def readAll (stream : IO.FS.Stream) (acc : String) : IO String := do
  let line ← stream.getLine
  if line.isEmpty then return acc else readAll stream (acc ++ line)

def dumpFile (source : String) : String := source ++ ".ast.json"

def respond (workingDirectory : String) (dumps : Keyed String) (i : Invocation) : Response :=
  match dumps.find? (Path.within workingDirectory i.file) with
  | some dump => ⟨dump, "", 0⟩
  | none => ⟨"", "no dump at " ++ dumpFile i.file, 1⟩

def surroundings (p : Parsed) : IO World := do
  let here := (← IO.currentDir).toString
  let o := p.options
  let entries ← ((probes o).filter (· ≠ "")).filterMapM entry?
  let input ← if Path.lastComponent o.config = "-" then readAll (← IO.getStdin) "" else pure ""
  let names := ["NO_COLOR", Settings.clangVariable, Toml.Edition.switch, Request.ownVariable,
      Request.bareVariable, Request.commonVariable] ++
    (input :: entries.map (·.2)).flatMap identifiers
  let env ← names.filterMapM fun n => return (← IO.getEnv n).map (n, ·)
  let dumps ← p.sources.filterMapM fun s =>
    return (← text? (dumpFile s)).map (Path.within here s, ·)
  return {
    files := .ofList here entries
    workingDirectory := here
    env := .ofList env
    input := input
    hasProgram := fun _ => true
    respond := respond here (.ofList dumps) }

def save (before after : FileSystem) : IO Unit := do
  for (path, text) in after.files.entries do
    if before.files.find? path ≠ some text then IO.FS.writeFile ⟨path⟩ text

end TemplateCensus.Main

open TemplateCensus in
def main (args : List String) : IO UInt32 := do
  let parsed := CommandLine.parse CommandLine.Action.census.flags args
  let w ← Main.surroundings (parsed.toOption.getD {})
  match CommandLine.run w args with
  | none =>
    IO.eprintln "error: something is missing where it must stand"
    return 2
  | some e =>
    IO.print e.stdout
    IO.eprint e.stderr
    Main.save w.files e.files
    return e.status.toUInt32
