import TemplateCensus.Dump.Node

/-!
Specializations listed in a dump.

The dump does not say which pattern a specialization was generated from, but the members of an
instantiation keep the positions of the pattern's members. The name that a class injects into itself
stands at the class's own name in an explicit specialization; in an instantiation it stands at the
primary template, or at the partial specialization it was instantiated from.
-/

namespace TemplateCensus.Dump

structure Specialization where
  args : List String
  location : Option Location
  injected : Option Location
  isListed : Bool
  deriving DecidableEq, Repr

/-- Was it generated from the templated record of `t`? `partials` holds the texts of the locations
of all partial specializations. -/
def Specialization.isInstantiation (s : Specialization) (t : ClassTemplate)
    (partials : List String) : Bool :=
  match s.injected with
  | none => true
  | some inj =>
    if partials.contains inj.text then false
    else if s.isListed || inj.text ≠ Location.textOf s.location then true
    else t.record.any fun r => Location.textOf r.location = inj.text

/-- Recorded arguments match the printed ones as far as these go; an empty recorded argument matches
anything. Printed types leave out trailing default arguments. -/
def matchArguments : List String → List String → Bool
  | _, [] => true
  | [], _ :: _ => false
  | r :: rs, a :: as => (r = "" || r = a) && matchArguments rs as

def select? (candidates : List Specialization) (args : List String) : Option Specialization :=
  let matching := candidates.filter fun s => matchArguments s.args args
  (matching.find? fun s => s.args.length = args.length).or matching.head?

mutual

/-- The texts of one argument: a type, a value, the elements of a pack, or an unknown argument,
whose text is empty. `none` where the list has no node. -/
def argumentTexts? : Node → Option (List String)
  | .null => none
  | .mk a children =>
    if a.kind = argumentKind then
      match a.type with
      | some t => some [Spelling.normal (if t.desugared = "" then t.spelling else t.desugared)]
      | none =>
        if a.value ≠ "" then some [a.value]
        else if children.isEmpty then some [""]
        else argumentsOf? children
    else some []

def argumentsOf? : List Node → Option (List String)
  | [] => some []
  | n :: ns =>
    match argumentTexts? n, argumentsOf? ns with
    | some xs, some ys => some (xs ++ ys)
    | _, _ => none

end

end TemplateCensus.Dump
