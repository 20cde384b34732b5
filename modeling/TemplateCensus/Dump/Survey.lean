import TemplateCensus.Dump.Cursor
import TemplateCensus.Dump.Specialization
import TemplateCensus.Spelling.Scope

/-!
The survey of a dump: one pass over the tree in document order that collects constructor calls,
class templates, specializations and the locations of partial specializations. What a node finds is
the finding of its children with its own added, so findings are combined by `++`.
-/

namespace TemplateCensus.Dump

/-- A name in the way of a qualified name. Inline and anonymous namespaces are transparent: printed
names usually leave them out. -/
structure Scope where
  name : String
  isTransparent : Bool
  deriving DecidableEq, Repr

structure Surroundings where
  scopes : List Scope := []
  context : Context := []
  inTemplate : Bool := false

def Surroundings.fullName (s : Surroundings) (name : String) : String :=
  Spelling.qualify (s.scopes.map (·.name) ++ [name])

def Surroundings.visibleName (s : Surroundings) (name : String) : String :=
  Spelling.qualify ((s.scopes.filter (!·.isTransparent)).map (·.name) ++ [name])

structure Named (α : Type) where
  full : String
  visible : String
  name : String
  item : α
  deriving Repr

def Named.answersTo {α : Type} (n : Named α) (q : String) : Bool := n.full = q || n.visible = q

/-- What a part of the dump holds. The last four fields are for the nodes around it: the location of
the first injected name, what a class template takes from its direct children, and whether an
argument list has a gap. -/
structure Findings where
  constructions : List Construction := []
  templates : List (Named ClassTemplate) := []
  specializations : List (Named Specialization) := []
  partials : List Location := []
  injected : Option Location := none
  params : List String := []
  record : Option TemplatedRecord := none
  hasGap : Bool := false

instance : Append Findings where
  append a b :=
    { constructions := a.constructions ++ b.constructions
      templates := a.templates ++ b.templates
      specializations := a.specializations ++ b.specializations
      partials := a.partials ++ b.partials
      injected := a.injected.or b.injected
      params := a.params ++ b.params
      record := a.record.or b.record
      hasGap := a.hasGap || b.hasGap }

def Findings.apart (f : Findings) : Findings := { f with params := [], record := none }

def Findings.enclosed (f : Findings) : Findings := { f.apart with injected := none }

def Surroundings.inside (s : Surroundings) (e : Enclosing) (scope : Option Scope) :
    Surroundings where
  scopes := s.scopes ++ scope.toList
  context := s.context ++ [e]

def Surroundings.plain (s : Surroundings) : Surroundings := { s with inTemplate := false }

def Scope.ofNamespace (a : Attributes) : Scope :=
  if a.name = "" then ⟨"(anonymous namespace)", true⟩ else ⟨a.name, a.isInline⟩

def Surroundings.below (s : Surroundings) (a : Attributes) : Surroundings :=
  match Role.ofKind a.kind with
  | .scope => s.inside (.named a.kind a.name) (some (.ofNamespace a))
  | .record =>
    if a.isImplicit then s.plain else s.inside (.record a.tag a.name) (some ⟨a.name, false⟩)
  | .specialization | .partialSpecialization =>
    s.inside (.record a.tag a.name) (some ⟨a.name, false⟩)
  | .callable => s.inside (.named a.kind a.name) none
  | .classTemplate => { s with inTemplate := true }
  | .construction | .parameter | .other => s.plain

def report (s : Surroundings) (a : Attributes) (children : List Node) (here : Place)
    (inner : Findings) : Findings :=
  match Role.ofKind a.kind with
  | .construction =>
    { inner.apart with
      constructions := ⟨a.type, none, here.start, s.context⟩ :: inner.constructions }
  | .parameter => { inner.apart with params := [a.name] }
  | .classTemplate =>
    let t : ClassTemplate := ⟨a.name, inner.params, here.location, s.context, inner.record⟩
    { inner.apart with
      templates := inner.templates ++ [⟨s.fullName a.name, s.visibleName a.name, a.name, t⟩] }
  | .record =>
    if a.isImplicit then { inner.apart with injected := here.location.or inner.injected }
    else { inner.enclosed with
      record := some ⟨a.name, a.tag, a.isComplete, here.location, s.context⟩ }
  | .partialSpecialization =>
    { inner.enclosed with
      partials := inner.partials ++ here.location.toList ++ inner.injected.toList }
  | .specialization =>
    match argumentsOf? children with
    | none => { inner.enclosed with hasGap := true }
    | some args =>
      { inner.enclosed with
        specializations := inner.specializations ++
          [⟨s.fullName a.name, s.visibleName a.name, a.name,
            ⟨args, here.location, inner.injected, s.inTemplate⟩⟩] }
  | .scope | .callable | .other => inner.apart

mutual

def survey (s : Surroundings) (c : Cursor) : Node → Findings × Cursor
  | .null => ({}, c)
  | .mk a children =>
    let (here, c) := c.passNode a
    let (inner, c) := surveyAll (s.below a) c children
    (report s a children here inner, c)

def surveyAll (s : Surroundings) (c : Cursor) : List Node → Findings × Cursor
  | [] => ({}, c)
  | n :: ns =>
    let (first, c) := survey s c n
    let (others, c) := surveyAll s c ns
    (first ++ others, c)

end

end TemplateCensus.Dump
