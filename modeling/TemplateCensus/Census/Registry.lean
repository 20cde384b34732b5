import TemplateCensus.Keyed
import TemplateCensus.Census.Instantiation
import TemplateCensus.Census.HeaderTable

/-!
The registry of a run: instantiations under their canonical types.
-/

namespace TemplateCensus

abbrev Registry := Keyed Instantiation

namespace Registry

def add (r : Registry) (i : Instantiation) : Registry := r.insert i.type i

def sorted (r : Registry) : List Instantiation :=
  r.values.mergeSort fun i j => i.type ≤ j.type

def headers (r : Registry) : List String := ascending (r.values.map (·.source))

def publish (t : HeaderTable) (i : Instantiation) : Instantiation :=
  { i with source := (t.find? (HeaderTable.fileName i.source)).getD i.source }

def canonicalize (r : Registry) (t : HeaderTable) : Registry := r.map (publish t)

end Registry

structure Census where
  accepted : List Instantiation
  log : List String

def Census.registry (c : Census) : Registry := c.accepted.foldl Registry.add Keyed.empty

def Census.paragraphs (c : Census) : String :=
  String.join (c.accepted.map Instantiation.paragraph)

def SourceUnit.census (u : SourceUnit) (t : Trace) : Census :=
  let verdicts := u.constructions.map u.judge
  ⟨verdicts.filterMap Verdict.accepted?, verdicts.flatMap (Verdict.log t)⟩

end TemplateCensus
