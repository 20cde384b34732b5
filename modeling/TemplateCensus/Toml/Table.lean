import TemplateCensus.Toml.Marks

/-!
The table that the statements of a document build up.

A table can be opened once; one that exists only because a longer name mentions it is implicit and
can still be opened. A dotted key makes the tables on its way, each of which may be reopened once in
this way. An array may be written over, and may write over what was there.
-/

namespace TemplateCensus.Toml

inductive Value where
  | text (s : String)
  | integer (n : Int)
  | other
  | array
  | table (entries : List (String × Value))
  | tables (last : List (String × Value)) (earlier : List (List (String × Value)))
  deriving Inhabited, Repr

abbrev Table := List (String × Value)

def Table.set (k : String) (v : Value) : Table → Table
  | [] => [(k, v)]
  | (l, w) :: es => if k = l then (l, v) :: es else (l, w) :: Table.set k v es

structure Builder where
  root : Table := []
  marks : Marks := .empty

def changeAt (f : Table → Option Table) : Key → Table → Option Table
  | [], t => f t
  | k :: ks, t =>
    match t.lookup k with
    | some (.table u) => (changeAt f ks u).map fun u => Table.set k (.table u) t
    | some (.tables u us) => (changeAt f ks u).map fun u => Table.set k (.tables u us) t
    | _ => none

def tableAt? : Key → Table → Option Table
  | [], t => some t
  | k :: ks, t =>
    match t.lookup k with
    | some (.table u) => tableAt? ks u
    | some (.tables u _) => tableAt? ks u
    | _ => none

def pave : Key → Table → Marks → Option (Table × Marks)
  | [], t, m => some (t, m)
  | k :: ks, t, m =>
    match t.lookup k with
    | none =>
      (pave ks [] ((m.behind k).imply true [])).map fun (u, n) =>
        (Table.set k (.table u) t, m.set k n)
    | some (.table u) =>
      (pave ks u (m.behind k)).map fun (u, n) => (Table.set k (.table u) t, m.set k n)
    | some (.tables u us) =>
      (pave ks u (m.behind k)).map fun (u, n) => (Table.set k (.tables u us) t, m.set k n)
    | some _ => none

namespace Builder

def imply (b : Builder) (path : Key) : Builder := { b with marks := b.marks.imply true path }

def settle (b : Builder) (path : Key) : Builder := { b with marks := b.marks.imply false path }

def kindPath (context : Key) (k : String) : Key :=
  if k ≠ "" then context ++ [k] else if context.isEmpty then [""] else context

def note (b : Builder) (context : Key) (k : String) (isArray : Bool) : Builder :=
  { b with marks := b.marks.array isArray (kindPath context k) }

/-- Puts a value under a key of the table at `context`. What is there stays when it is implicit,
gives way when it is an array, and is in the way otherwise. -/
def put (b : Builder) (context : Key) (k : String) (v : Value) : Option Builder := do
  let path := context ++ [k]
  let t ← tableAt? context b.root
  let write (b : Builder) : Option Builder :=
    (changeAt (fun t => some (t.set k v)) context b.root).map ({ b with root := · })
  if (t.lookup k).isNone then write b
  else
    let mark := b.marks.get path
    if mark.isArray then (write b).map (·.settle path)
    else if mark.isImplicit then some (b.settle path)
    else none

def makeWay (b : Builder) (context : Key) : Option Builder :=
  if (tableAt? context b.root).isSome then some b
  else (pave context b.root b.marks).map fun (root, marks) => ⟨root, marks⟩

def openTable (b : Builder) (name : Key) : Option Builder := do
  let context := name.dropLast
  let b ← b.makeWay context
  b.put context (name.getLastD "") (.table [])

def appendTable (b : Builder) (name : Key) : Option Builder := do
  let context := name.dropLast
  let k := name.getLastD ""
  let b ← b.makeWay context
  let root ← changeAt (fun t =>
    match t.lookup k with
    | none => some (t.set k (.tables [] []))
    | some (.tables u us) => some (t.set k (.tables [] (u :: us)))
    | some _ => none) context b.root
  some { b with root := root }

def openDotted (b : Builder) (context : Key) : Key → Option Builder
  | [] => some b
  | k :: ks => do
    let path := context ++ [k]
    let b ← (b.imply path).openTable path
    openDotted b path ks

mutual

/-- The value of an expression that is assigned to `k` in the table at `context`. An inline table is
built up in its place; an array only leaves behind that it is one. -/
def eval (b : Builder) (context : Key) (k : String) (inArray : Bool) :
    Expr → Option (Builder × Value)
  | .text s => some (b, .text s)
  | .integer n => some (b, .integer n)
  | .other => some (b, .other)
  | .array items => (evalItems (b.note context k true) context k items).map (·, .array)
  | .inline entries => do
    let path := context ++ [k]
    let b := b.imply path
    let b ← if inArray then b.appendTable path else b.openTable path
    evalEntries b path [] entries

def evalItems (b : Builder) (context : Key) (k : String) : List Expr → Option Builder
  | [] => some b
  | e :: es =>
    match eval b context k true e with
    | none => none
    | some (b, _) => evalItems b context k es

def evalEntries (b : Builder) (context : Key) (seen : Table) :
    List (Key × Expr) → Option (Builder × Value)
  | [] => some (b, .table seen)
  | (key, e) :: es => do
    let inside := context ++ key.dropLast
    let k := key.getLastD ""
    let b ← b.openDotted context key.dropLast
    let (b, v) ← eval b inside k false e
    let b ← b.put inside k v
    evalEntries (b.note inside k (v matches .array)) context (seen.set k v) es

end

def run (b : Builder) (context : Key) : Statement → Option (Builder × Key)
  | .table name => (b.openTable name).map fun b => (b.note name "" false, name)
  | .tables name => (b.appendTable name).map fun b => (b.note name "" false, name)
  | .assign key e => do
    let inside := context ++ key.dropLast
    let k := key.getLastD ""
    let b ← b.openDotted context key.dropLast
    let (b, v) ← b.eval inside k false e
    let b ← b.put inside k v
    some (b.note inside k (v matches .array), context)

def runAll (b : Builder) (context : Key) : List Statement → Option Table
  | [] => some b.root
  | s :: ss =>
    match b.run context s with
    | none => none
    | some (b, context) => runAll b context ss

end Builder

def table? (e : Edition) (text : String) : Option Table :=
  (parse? e text).bind (Builder.runAll {} [])

end TemplateCensus.Toml
