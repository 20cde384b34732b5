import TemplateCensus.Text.Pieces

/-!
Paths with `/` between their components. A clean path has no empty and no `.` components, and `..`
only at its start; an absolute one has none at all.
-/

namespace TemplateCensus.Path

def isAbsolute (p : String) : Bool := p.toList.head? = some '/'

def components (p : String) : List String := (Text.pieces '/' p.toList).map String.ofList

/-- Walks one component on from a clean path, whose components are given last first. Above the root
there is nothing; above the start of a relative path there is. -/
def enter (rooted : Bool) (up : List String) (component : String) : List String :=
  if component = "" || component = "." then up
  else if component = ".." then
    match up with
    | [] => if rooted then [] else [".."]
    | ".." :: _ => ".." :: up
    | _ :: rest => rest
  else component :: up

def cleanComponents (rooted : Bool) (cs : List String) : List String :=
  (cs.foldl (enter rooted) []).reverse

def render (rooted : Bool) (cs : List String) : String :=
  if rooted then "/" ++ "/".intercalate cs
  else if cs.isEmpty then "." else "/".intercalate cs

def clean (p : String) : String :=
  render (isAbsolute p) (cleanComponents (isAbsolute p) (components p))

def join (dir file : String) : String :=
  if dir = "" then (if file = "" then "" else clean file)
  else if file = "" then clean dir
  else clean (dir ++ "/" ++ file)

def within (dir file : String) : String :=
  clean (if isAbsolute file then file else join dir file)

def absolute (dir file : String) : String :=
  if isAbsolute file then clean file else join dir file

def lastComponent (p : String) : String := (components p).getLastD ""

def extension (p : String) : String :=
  let cs := (lastComponent p).toList.reverse
  if cs.contains '.' then String.ofList ('.' :: (cs.takeWhile (· ≠ '.')).reverse) else ""

end TemplateCensus.Path
