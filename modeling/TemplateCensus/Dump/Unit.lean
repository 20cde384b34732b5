import TemplateCensus.Dump.Decode
import TemplateCensus.Dump.Lookup
import TemplateCensus.Text.Quoted

/-!
The source unit of a dump. Only the first value of the text counts; what follows it is not
looked at.
-/

namespace TemplateCensus.Dump

inductive Fault where
  | malformed
  | wrongType
  | blank
  | cut
  | unexpectedRoot (kind : String)
  | gap
  deriving DecidableEq, Repr

def Fault.cause : Fault → String
  | malformed => "<syntax>"
  | wrongType => "<type>"
  | blank => "EOF"
  | cut => "unexpected EOF"
  | unexpectedRoot kind => "unexpected root " ++ Text.quote kind
  | gap => "missing node in a template argument list"

def Fault.message (main : String) (f : Fault) : String :=
  "failed to decode ast of " ++ main ++ ": " ++ f.cause

structure Surveyed where
  main : String
  constructions : List Construction
  tables : Tables
  remarks : List Remark

namespace Surveyed

/-- A position lies in the main file when it names it, or when no file includes it and it belongs to
a file at all; buffers of the front end itself are written in angle brackets. -/
def inMain (main : String) (l : Option Location) : Bool :=
  l.any fun l => l.file ≠ "" &&
    (l.file = main || (l.includedFrom = "" && l.file.toList.head? ≠ some '<'))

def unit (s : Surveyed) : SourceUnit where
  main := s.main
  inMain := inMain s.main
  constructions := s.constructions.map some

def log (s : Surveyed) : List String :=
  s.remarks.map Remark.text ++
    ["parsed " ++ s.main ++ ": " ++ Text.natDecimal s.constructions.length ++
      " construct exprs, " ++ Text.natDecimal s.tables.nameCount ++ " class templates"]

end Surveyed

def ofNode (main : String) (root : Node) : Except Fault Surveyed :=
  match root with
  | .null => .error (.unexpectedRoot "")
  | .mk a children =>
    if a.kind = rootKind then
      let found := (surveyAll {} {} children).1
      if found.hasGap then .error .gap
      else
        let (constructions, remarks) := found.tables.attach .empty found.constructions
        .ok ⟨main, constructions, found.tables, remarks⟩
    else .error (.unexpectedRoot a.kind)

def ofJson (main : String) (v : Json) : Except Fault Surveyed :=
  match node? v with
  | none => .error .wrongType
  | some root => ofNode main root

def ofText (main text : String) : Except Fault Surveyed :=
  match Json.readFirst text with
  | .empty => .error .blank
  | .cut => .error .cut
  | .malformed => .error .malformed
  | .value v _ => ofJson main v

end TemplateCensus.Dump
