import TemplateCensus.Dump.Survey
import TemplateCensus.Spelling.Arguments
import TemplateCensus.Keyed

/-!
Which record a canonical spelling names. The spelling is taken apart into scopes, template name and
arguments; the class template is found by its qualified name or, when no template has that name, by
its bare name as long as that is unambiguous. The specializations in the dump decide whether the
record was generated from the template.
-/

namespace TemplateCensus.Dump

structure Tables where
  templates : List (Named ClassTemplate)
  specializations : List (Named Specialization)
  partials : List String

def Findings.tables (f : Findings) : Tables :=
  ⟨f.templates, f.specializations, f.partials.map Location.text⟩

namespace Tables

def templatesNamed (t : Tables) (q : String) : List ClassTemplate :=
  (t.templates.filter (·.answersTo q)).map (·.item)

def templatesCalled (t : Tables) (name : String) : List ClassTemplate :=
  (t.templates.filter (·.name = name)).map (·.item)

def nameCount (t : Tables) : Nat :=
  (ascending (t.templates.flatMap fun n => [n.full, n.visible])).length

end Tables

def preferred (decls : List ClassTemplate) : Option ClassTemplate :=
  (decls.find? fun d => d.record.any (·.isDefinition)).or decls.head?

def declaredName (d : ClassTemplate) : String :=
  Spelling.qualify ((d.parent.map Enclosing.name ++ [d.name]).filter (· ≠ ""))

def agree : List ClassTemplate → Bool
  | [] => true
  | d :: ds => ds.all fun e => declaredName e = declaredName d

def lastPart (q : String) : String := (Spelling.scopeParts q).getLastD q

def Tables.template? (t : Tables) (q : String) : Option ClassTemplate :=
  match t.templatesNamed q with
  | [] =>
    let called := t.templatesCalled (lastPart q)
    if agree called then preferred called else none
  | decls => preferred decls

/-- The specializations to choose from: those under the qualified name, and those with the bare name
only when neither a specialization nor a template is known by the qualified name. -/
def Tables.candidates (t : Tables) (q name : String) : List Specialization :=
  let known := (t.specializations.filter (·.answersTo q)).map (·.item)
  if known.isEmpty && (t.templatesNamed q).isEmpty then
    (t.specializations.filter (·.name = name)).map (·.item)
  else known

def Tables.specialization? (t : Tables) (q name : String) (args : List String) :
    Option Specialization :=
  select? (t.candidates q name) args

def Tables.isInstantiation (t : Tables) (decl : ClassTemplate) (q name : String)
    (args : List String) : Bool :=
  (t.specialization? q name args).all fun s => s.isInstantiation decl t.partials

inductive Remark where
  | noTemplate (spelling : String)
  | isSpecialization (spelling template : String)
  deriving DecidableEq, Repr

def Remark.text : Remark → String
  | noTemplate s => "no class template found for " ++ s
  | isSpecialization s t => s ++ " is a specialization of " ++ t ++ ", not an instantiation"

def namesRecord (spelling : String) : Bool :=
  spelling ≠ "" && spelling.toList.getLast? ≠ some ']' && spelling.toList.getLast? ≠ some '*'

def Tables.resolve (t : Tables) (spelling : String) : RecordDecl × Option Remark :=
  let parts := Spelling.scopeParts spelling
  let last := parts.getLastD spelling
  match Spelling.template? last with
  | none => ({ name := last }, none)
  | some (name, args) =>
    let q := Spelling.qualify (parts.dropLast.map Spelling.templateName ++ [name])
    match t.template? q with
    | none => ({ name := name }, some (.noTemplate spelling))
    | some decl =>
      match decl.record with
      | none => ({ name := name }, some (.noTemplate spelling))
      | some r =>
        let rec' : RecordDecl := { name := name, tag := r.tag, args := args, parent := decl.parent }
        if t.isInstantiation decl q name args then
          ({ rec' with pattern := decl.pattern? }, none)
        else (rec', some (.isSpecialization spelling decl.name))

abbrev Memo := Keyed RecordDecl

def Tables.recall (t : Tables) (memo : Memo) (spelling : String) :
    Option RecordDecl × Memo × List Remark :=
  if namesRecord spelling then
    match memo.find? spelling with
    | some r => (some r, memo, [])
    | none =>
      let (r, remark) := t.resolve spelling
      (some r, memo.insert spelling r, remark.toList)
  else (none, memo, [])

def Tables.attach (t : Tables) (memo : Memo) : List Construction → List Construction × List Remark
  | [] => ([], [])
  | c :: cs =>
    if c.type.isSome then
      let (r, memo, noted) := t.recall memo c.canonical
      let (cs, more) := t.attach memo cs
      ({ c with record := r } :: cs, noted ++ more)
    else
      let (cs, more) := t.attach memo cs
      (c :: cs, more)

end TemplateCensus.Dump
