import TemplateCensus.Settings.Format
import TemplateCensus.Settings.Dotenv
import TemplateCensus.Settings.Expansion
import TemplateCensus.World.Basic

/-!
Loading the settings of a run: from a named file, from standard input, or from the usual file in the
working directory if it is there. Variables of a `.env` file count as environment.
-/

namespace TemplateCensus.Settings

def usualFile : String := "llcpptpl.cfg"

def clangVariable : String := "LLCPPTPL_CLANG"

inductive LoadFault where
  | unreadable (fault : PathFault)
  | unparsable (file : String) (format : Format)
  | negativeJobs (file : String)
  | blankCommand
  deriving DecidableEq, Repr

def LoadFault.message : LoadFault → String
  | unreadable f => f.message
  | unparsable file format => file ++ ": " ++ format.message
  | negativeJobs file => file ++ ": config error: jobs must not be negative"
  | blankCommand => "blank command in compile flags"

def formatOf (file : String) : Format :=
  if Json.sameName (Path.extension file) ".toml" then .toml else .json

def readFile (w : World) (file : String) : Except PathFault String :=
  let file := if file = "" then usualFile else file
  if Path.lastComponent file = "-" then .ok w.input else w.read file

def editionOf (env : Keyed String) : Toml.Edition := .select (env.contains Toml.Edition.switch)

def ofFile (w : World) (file : String) : Except LoadFault Settings :=
  match readFile w file with
  | .error f => .error (.unreadable f)
  | .ok text =>
    match (formatOf file).parse? (editionOf w.env) text with
    | some s => .ok s
    | none => .error (.unparsable file (formatOf file))

def environment (w : World) : Keyed String :=
  match w.read ".env" with
  | .error _ => w.env
  | .ok text =>
    match Dotenv.parse? text with
    | some vars => Dotenv.extend w.env vars
    | none => w.env

structure Loaded where
  settings : Settings
  env : Keyed String
  notes : List String

def expanded (s : Settings) (env : Keyed String) : Except LoadFault Loaded :=
  match Expansion.expand? env s.cflags with
  | none => .error .blankCommand
  | some e =>
    let named := Text.trimmed ((env.find? clangVariable).getD "")
    let clang := if named ≠ "" then named else if s.clang = "" then "clang" else s.clang
    .ok ⟨{ s with cflags := e.text, clang := clang }, env, e.notes⟩

def load (w : World) (file : String) : Except LoadFault Loaded := do
  let env := environment w
  let isThere := w.files.isPresent w.workingDirectory usualFile
  let file := if file = "" && isThere then usualFile else file
  let s ← if file = "" then .ok {} else ofFile { w with env := env } file
  if s.jobs < 0 then .error (.negativeJobs file)
  else expanded s env

end TemplateCensus.Settings
