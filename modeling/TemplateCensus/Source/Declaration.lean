import TemplateCensus.Source.Location
import TemplateCensus.Spelling.Bare

/-!
The declarations that the analysis looks at.

An implicit instantiation is a record whose pattern is the templated record it was generated from.
Only the pattern is described by a class template, never the instantiated record.
-/

namespace TemplateCensus

inductive Enclosing where
  | named (kind name : String)
  | record (tag name : String)
  deriving DecidableEq, Repr

namespace Enclosing

def name : Enclosing → String
  | named _ n => n
  | record _ n => n

def text : Enclosing → String
  | named k n => k ++ " " ++ n
  | record t n => "record " ++ t ++ " " ++ n

end Enclosing

abbrev Context := List Enclosing

structure TemplatedRecord where
  name : String
  tag : String
  isDefinition : Bool
  location : Option Location
  parent : Context
  deriving DecidableEq, Repr

structure ClassTemplate where
  name : String
  params : List String
  location : Option Location
  parent : Context
  record : Option TemplatedRecord
  deriving DecidableEq, Repr

/-- A record from which instantiations are generated, with the class template that describes it. -/
structure Pattern where
  record : TemplatedRecord
  described : Option ClassTemplate
  deriving DecidableEq, Repr

def ClassTemplate.pattern? (t : ClassTemplate) : Option Pattern :=
  t.record.map (⟨·, some t⟩)

inductive RecordKind where
  | ordinary
  | instantiation
  deriving DecidableEq, Repr

namespace RecordKind

def text : RecordKind → String
  | ordinary => "ordinary"
  | instantiation => "template-instantiation"

def ofNumber? (k : Int) : Option RecordKind :=
  if k = 0 then some ordinary else if k = 1 then some instantiation else none

def numberText (k : Int) : String :=
  match ofNumber? k with
  | some kind => kind.text
  | none => "RecordKind(" ++ Text.decimal k ++ ")"

end RecordKind

structure RecordDecl where
  name : String
  tag : String := ""
  args : List String := []
  parent : Context := []
  pattern : Option Pattern := none
  described : Option ClassTemplate := none
  deriving DecidableEq, Repr

def RecordDecl.kind (r : RecordDecl) : RecordKind :=
  if r.pattern.isSome then .instantiation else .ordinary

structure TypeText where
  spelling : String
  desugared : String
  deriving DecidableEq, Repr

def TypeText.canonical (t : TypeText) : String :=
  Spelling.bare (if t.desugared = "" then t.spelling else t.desugared)

structure Construction where
  type : Option TypeText
  record : Option RecordDecl
  location : Option Location
  context : Context
  deriving DecidableEq, Repr

def Construction.canonical (c : Construction) : String :=
  (c.type.map TypeText.canonical).getD ""

structure SourceUnit where
  main : String
  inMain : Option Location → Bool
  constructions : List (Option Construction)

def SourceUnit.ofConstructions (main : String) (cs : List (Option Construction)) :
    SourceUnit where
  main := main
  inMain := fun l => l.any fun l => l.file = main
  constructions := cs

end TemplateCensus
