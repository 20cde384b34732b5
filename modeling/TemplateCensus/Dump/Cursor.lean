import TemplateCensus.Dump.Node

/-!
Undoing the de-duplication of positions. The cursor holds file and line of the last valid point;
a point that leaves one of them out takes it from there. Every position has to pass the cursor once,
in document order, also those of nodes that are otherwise ignored.
-/

namespace TemplateCensus.Dump

structure Cursor where
  file : String := ""
  line : Int := 0
  deriving DecidableEq, Repr, Inhabited

namespace Cursor

def pass (c : Cursor) (p : Point) : Option Location × Cursor :=
  if p.isValid then
    let file := if p.file = "" then c.file else p.file
    let line := if p.line = 0 then c.line else p.line
    (some ⟨file, line, p.column, p.includedFrom⟩, ⟨file, line⟩)
  else (none, c)

def passPoint (c : Cursor) (s : Option Spot) : Option Location × Cursor :=
  match s with
  | none => (none, c)
  | some s => c.pass s.point

/-- Passes a position. Inside a macro expansion the spelling passes first, and the expansion is the
location. -/
def passSpot (c : Cursor) (s : Option Spot) : Option Location × Cursor :=
  match s with
  | none => (none, c)
  | some s =>
    if s.spelling.isSome || s.expansion.isSome then
      (c.passPoint s.spelling).2.passPoint s.expansion
    else c.pass s.point

end Cursor

structure Place where
  location : Option Location
  start : Option Location

def Cursor.passNode (c : Cursor) (a : Attributes) : Place × Cursor :=
  let (location, c) := c.passSpot a.location
  let (start, c) := c.passSpot a.start
  let (_, c) := c.passSpot a.stop
  (⟨location, start⟩, c)

end TemplateCensus.Dump
