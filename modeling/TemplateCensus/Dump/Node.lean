import TemplateCensus.Source.Declaration

/-!
The tree of a syntax dump. Only the attributes that the analysis needs are kept. A position in a
dump leaves out file and line when they equal those of the position before it, so positions mean
something in document order only.
-/

namespace TemplateCensus.Dump

structure Point where
  offset : Option Int := none
  file : String := ""
  line : Int := 0
  column : Int := 0
  includedFrom : String := ""
  deriving DecidableEq, Repr, Inhabited

def Point.isValid (p : Point) : Bool := p.offset.isSome || p.column ≠ 0 || p.file ≠ ""

/-- A printed position: a point or, inside a macro expansion, the spot where the text is spelled and
the spot where it is expanded. -/
inductive Spot where
  | mk (point : Point) (spelling expansion : Option Spot)
  deriving Inhabited, Repr

namespace Spot

def point : Spot → Point
  | mk p _ _ => p

def spelling : Spot → Option Spot
  | mk _ s _ => s

def expansion : Spot → Option Spot
  | mk _ _ e => e

end Spot

structure Attributes where
  id : String := ""
  kind : String := ""
  name : String := ""
  location : Option Spot := none
  start : Option Spot := none
  stop : Option Spot := none
  type : Option TypeText := none
  value : String := ""
  tag : String := ""
  isInline : Bool := false
  isImplicit : Bool := false
  isComplete : Bool := false
  deriving Inhabited, Repr

/-- A node of the dump; `null` stands where the dump has no node. -/
inductive Node where
  | null
  | mk (attrs : Attributes) (children : List Node)
  deriving Inhabited, Repr

inductive Role where
  | construction
  | parameter
  | classTemplate
  | scope
  | record
  | specialization
  | partialSpecialization
  | callable
  | other
  deriving DecidableEq, Repr

def rootKind : String := "TranslationUnitDecl"

def argumentKind : String := "TemplateArgument"

def Role.ofKind (kind : String) : Role :=
  if ["CXXConstructExpr", "CXXTemporaryObjectExpr"].contains kind then construction
  else if ["TemplateTypeParmDecl", "NonTypeTemplateParmDecl",
      "TemplateTemplateParmDecl"].contains kind then parameter
  else if kind = "ClassTemplateDecl" then classTemplate
  else if kind = "NamespaceDecl" then scope
  else if kind = "CXXRecordDecl" then record
  else if kind = "ClassTemplateSpecializationDecl" then specialization
  else if kind = "ClassTemplatePartialSpecializationDecl" then partialSpecialization
  else if ["FunctionDecl", "CXXMethodDecl", "CXXConstructorDecl", "CXXDestructorDecl",
      "CXXConversionDecl"].contains kind then callable
  else other

end TemplateCensus.Dump
