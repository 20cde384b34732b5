import TemplateCensus.Text.Decimal

/-!
Resolved source positions.
-/

namespace TemplateCensus

/-- A position in a source file. The file is named as the front end named it, which may be relative
to the directory of the compilation; `includedFrom` is the file that included it, empty for the
main file. -/
structure Location where
  file : String
  line : Int
  column : Int
  includedFrom : String
  deriving DecidableEq, Repr, Inhabited

namespace Location

def text (l : Location) : String :=
  l.file ++ ":" ++ Text.decimal l.line ++ ":" ++ Text.decimal l.column

def textOf : Option Location → String
  | some l => l.text
  | none => "<invalid loc>"

end Location

end TemplateCensus
