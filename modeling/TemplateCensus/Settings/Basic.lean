import TemplateCensus.Text.Blank
import TemplateCensus.Keyed

/-!
The settings of a run.
-/

namespace TemplateCensus

structure Settings where
  cflags : String := ""
  std : String := ""
  clang : String := "clang"
  headers : Keyed String := .empty
  jobs : Int := 0
  deriving Repr

namespace Settings

def compileFlags (s : Settings) : List String :=
  Text.wordsOf s.cflags ++ if s.std = "" then [] else ["-std=" ++ s.std]

end Settings

end TemplateCensus
