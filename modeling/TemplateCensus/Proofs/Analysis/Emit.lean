import TemplateCensus.Analysis.Emit
import TemplateCensus.Proofs.Keyed

/-! What a run puts out, said of all results at once: a file that fails leaves its message and
nothing else, so that the reports and the generated files are those of the other files alone. -/

namespace TemplateCensus

namespace Outcome

def registry? (r : Outcome) : Option Registry := r.result.toOption

def failure? (r : Outcome) : Option String :=
  match r.result with
  | .ok _ => none
  | .error m => some m

def remark (isColoured : Bool) (r : Outcome) : String :=
  r.paragraphs ++ String.join (r.failure?.toList.map (errorLine isColoured))

end Outcome

def unionFound (rs : List Outcome) : Registry :=
  (rs.filterMap Outcome.registry?).foldl Keyed.merge .empty

def unwritten (o : Output) (fs : FileSystem) (wd : String) (rs : List Outcome) : List String :=
  let first := generate fs wd o.definitions (unionFound rs).definitions
  first.2.toList ++ (generate first.1 wd o.declarations (unionFound rs).declarations).2.toList

end TemplateCensus
