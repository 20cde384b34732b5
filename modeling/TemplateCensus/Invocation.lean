/-!
Invocations of the compiler front end.
-/

namespace TemplateCensus

structure Invocation where
  clang : String
  file : String
  directory : String
  flags : List String
  isCpp : Bool
  deriving DecidableEq, Repr

namespace Invocation

def program (i : Invocation) : String := if i.clang = "" then "clang" else i.clang

def arguments (i : Invocation) : List String :=
  ["-x", if i.isCpp then "c++" else "c", "-fsyntax-only", "-fno-color-diagnostics", "-Xclang",
    "-ast-dump=json"] ++ i.flags ++ [i.file]

def key (i : Invocation) : String :=
  "\x00".intercalate (i.program :: i.directory :: i.arguments)

end Invocation

end TemplateCensus
