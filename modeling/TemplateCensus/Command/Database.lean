import TemplateCensus.Command.Entry
import TemplateCensus.Json.Parser
import TemplateCensus.Json.Field
import TemplateCensus.Keyed

/-!
Compilation databases: lists of compile commands, looked up by source file. Of several commands for
one file the first counts.
-/

namespace TemplateCensus

open Json

structure Database where
  commands : List CompileCommand
  deriving Repr

namespace Database

inductive Fault where
  | malformed
  | wrongType
  | gap
  deriving DecidableEq, Repr

def Fault.message : Fault → String
  | malformed => "failed to parse compilation database: <syntax>"
  | wrongType => "failed to parse compilation database: <type>"
  | gap => "missing entry in the compilation database"

structure Draft where
  command : CompileCommand := {}
  arguments : Slots String := {}

def field? (d : Draft) (k : String) (v : Json) : Option Draft :=
  let c := d.command
  if sameName k "directory" then
    (text? c.directory v).map fun s => { d with command := { c with directory := s } }
  else if sameName k "file" then
    (text? c.file v).map fun s => { d with command := { c with file := s } }
  else if sameName k "arguments" then
    (list? "" text? d.arguments v).map fun a => { d with arguments := a }
  else if sameName k "command" then
    (text? c.command v).map fun s => { d with command := { c with command := s } }
  else if sameName k "output" then
    (text? c.output v).map fun s => { d with command := { c with output := s } }
  else some d

def entry? : Json → Option (Option CompileCommand)
  | .null => some none
  | .object ms => (ms.foldlM (fun d (k, v) => field? d k v) {}).map fun (d : Draft) =>
      some { d.command with arguments := d.arguments.items }
  | _ => none

def entries? : Json → Option (List (Option CompileCommand))
  | .null => some []
  | .array vs => vs.mapM entry?
  | _ => none

def ofEntries (es : List (Option CompileCommand)) : Except Fault Database :=
  match es.mapM id with
  | some cs => .ok ⟨cs⟩
  | none => .error .gap

def parse (text : String) : Except Fault Database :=
  match Json.parse? text with
  | none => .error .malformed
  | some v =>
    match entries? v with
    | none => .error .wrongType
    | some es => ofEntries es

def enter (table : Keyed CompileCommand) (c : CompileCommand) : Keyed CompileCommand :=
  if table.contains c.path then table else table.insert c.path c

def table (db : Database) : Keyed CompileCommand := db.commands.foldl enter .empty

def size (db : Database) : Nat := db.table.size

def find? (db : Database) (workingDirectory file : String) : Option CompileCommand :=
  db.table.find? (Path.within workingDirectory file)

def fileName : String := "compile_commands.json"

end Database

end TemplateCensus
