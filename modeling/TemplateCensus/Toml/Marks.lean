import TemplateCensus.Toml.Document

/-!
Marks on the names of a document: whether a value is an array, and whether a table is implicit. They
form a tree along the names, so that a mark is found in as many steps as its name has parts. Marks
stay when the value under a name changes.
-/

namespace TemplateCensus.Toml

structure Mark where
  isArray : Bool := false
  isImplicit : Bool := false
  deriving DecidableEq, Repr

inductive Marks where
  | node (mark : Mark) (longer : List (String × Marks))
  deriving Repr

namespace Marks

def empty : Marks := node {} []

def here : Marks → Mark
  | node m _ => m

def behind (k : String) : Marks → Marks
  | node _ ms => (ms.lookup k).getD empty

def put (k : String) (n : Marks) : List (String × Marks) → List (String × Marks)
  | [] => [(k, n)]
  | (l, o) :: ms => if k = l then (l, n) :: ms else (l, o) :: put k n ms

def set (m : Marks) (k : String) (n : Marks) : Marks :=
  match m with
  | node a ms => node a (put k n ms)

def get (m : Marks) : Key → Mark
  | [] => m.here
  | k :: ks => (m.behind k).get ks

def update (f : Mark → Mark) : Marks → Key → Marks
  | node a ms, [] => node (f a) ms
  | m, k :: ks => m.set k ((m.behind k).update f ks)

def imply (m : Marks) (isImplicit : Bool) (path : Key) : Marks :=
  if (m.get path).isImplicit = isImplicit then m
  else m.update (fun a => { a with isImplicit := isImplicit }) path

def array (m : Marks) (isArray : Bool) (path : Key) : Marks :=
  if (m.get path).isArray = isArray then m
  else m.update (fun a => { a with isArray := isArray }) path

end Marks

end TemplateCensus.Toml
