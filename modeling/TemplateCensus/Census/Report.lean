import TemplateCensus.Census.Registry

/-!
The texts made from a registry: the report of types and headers, a source file of explicit
instantiation definitions, and a header of the matching declarations.
-/

namespace TemplateCensus.Registry

def includeLine (header : String) : String := "#include \"" ++ header ++ "\"\n"

def report (r : Registry) : String :=
  String.join (r.sorted.map fun i => "template " ++ i.type ++ "\n") ++ "\n" ++
    String.join (r.headers.map includeLine)

def definitions (r : Registry) : String :=
  String.join ((r.headers.filter (· ≠ "")).map includeLine) ++ "\n" ++
    String.join (r.sorted.map fun i => "template class " ++ i.type ++ ";\n")

def declarations (r : Registry) : String :=
  "#pragma once\n\n" ++
    String.join (r.sorted.map fun i => "extern template class " ++ i.type ++ ";\n")

def generatedHeader : String := "// Code generated by llcpptpl. DO NOT EDIT.\n\n"

end TemplateCensus.Registry
