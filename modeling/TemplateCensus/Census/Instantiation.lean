import TemplateCensus.Source.Declaration

/-!
The verdict on a constructor call. It counts when it stands in the main file and constructs an
implicit instantiation of a class template that is declared elsewhere.
-/

namespace TemplateCensus

structure Instantiation where
  type : String
  source : String
  template : String
  params : List String
  location : Option Location
  deriving DecidableEq, Repr

def Instantiation.paragraph (i : Instantiation) : String :=
  Location.textOf i.location ++ ":\n  " ++ i.type ++ "\n    " ++ i.template ++ " <" ++
    ", ".intercalate i.params ++ ">   @ " ++ i.source ++ "\n\n"

inductive Rejection where
  | noRecord
  | ordinary
  | undescribed (record : String)
  | declaredInMain (template : String)
  | unnamed
  deriving DecidableEq, Repr

inductive Verdict where
  | outside
  | rejected (site : Construction) (why : Rejection)
  | accepted (site : Construction) (inst : Instantiation)
  deriving DecidableEq, Repr

/-- Traces a constructed type back to the class template it instantiates. The template is the one
that describes the pattern of the record, never one that describes the record itself. -/
def Construction.resolve (u : SourceUnit) (c : Construction) :
    Except Rejection Instantiation :=
  match c.record with
  | none => .error .noRecord
  | some r =>
    match r.pattern with
    | none => .error .ordinary
    | some p =>
      match p.described with
      | none => .error (.undescribed r.name)
      | some t =>
        if u.inMain t.location then .error (.declaredInMain t.name)
        else if c.canonical = "" then .error .unnamed
        else .ok ⟨c.canonical, (t.location.map (·.file)).getD "", t.name, t.params, c.location⟩

def SourceUnit.judge (u : SourceUnit) : Option Construction → Verdict
  | none => .outside
  | some c =>
    if u.inMain c.location then
      match c.resolve u with
      | .ok inst => .accepted c inst
      | .error why => .rejected c why
    else .outside

def Verdict.accepted? : Verdict → Option Instantiation
  | accepted _ i => some i
  | _ => none

structure Trace where
  sites : Bool := false
  resolution : Bool := false
  decoding : Bool := false

def Trace.all (b : Bool) : Trace := ⟨b, b, b⟩

def Construction.matchLine (c : Construction) : String :=
  "match " ++ Location.textOf c.location ++ " " ++ c.canonical

def Rejection.text? : Rejection → Option String
  | noRecord => some "no record type"
  | undescribed r => some (r ++ " has no described class template")
  | declaredInMain t => some (t ++ " is declared in the main file")
  | ordinary | unnamed => none

def Verdict.log (t : Trace) : Verdict → List String
  | outside => []
  | accepted c _ => if t.sites then [c.matchLine] else []
  | rejected c why =>
    (if t.sites then [c.matchLine] else []) ++
      (if t.resolution then
        why.text?.toList.map (Location.textOf c.location ++ ": " ++ ·)
      else [])

end TemplateCensus
