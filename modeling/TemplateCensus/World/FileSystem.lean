import TemplateCensus.Keyed
import TemplateCensus.Path

/-!
A tree of files. Names are followed component by component, so that a path through something that is
not there, or that is no directory, fails even if it comes back.
-/

namespace TemplateCensus

structure FileSystem where
  files : Keyed String
  directories : List String

inductive SystemFault where
  | noEntry
  | notDirectory
  | isDirectory
  | denied
  | invalid
  | nameTooLong
  deriving DecidableEq, Repr

def SystemFault.text : SystemFault → String
  | noEntry => "no such file or directory"
  | notDirectory => "not a directory"
  | isDirectory => "is a directory"
  | denied => "permission denied"
  | invalid => "invalid argument"
  | nameTooLong => "file name too long"

structure PathFault where
  operation : String
  path : String
  cause : SystemFault
  deriving DecidableEq, Repr

def PathFault.message (f : PathFault) : String :=
  f.operation ++ " " ++ f.path ++ ": " ++ f.cause.text

namespace FileSystem

inductive Found where
  | file (path content : String)
  | directory (path : String)
  | free (path : String)
  | fault (cause : SystemFault)
  deriving Repr

def child (dir name : String) : String := if dir = "/" then "/" ++ name else dir ++ "/" ++ name

def look (fs : FileSystem) (path : String) : Found :=
  match fs.files.find? path with
  | some content => .file path content
  | none => if fs.directories.contains path then .directory path else .free path

def nameLimit : Nat := 255

def pathLimit : Nat := 4095

def step (fs : FileSystem) (here : Found) (component : String) : Found :=
  match here with
  | .file _ _ => .fault .notDirectory
  | .free p => if component = "" then .free p else .fault .noEntry
  | .fault c => .fault c
  | .directory d =>
    if component = "" || component = "." then .directory d
    else if component = ".." then .directory (Path.within d "..")
    else if nameLimit < component.utf8ByteSize then .fault .nameTooLong
    else fs.look (child d component)

def refusal? (path : String) : Option SystemFault :=
  if path = "" then some .noEntry
  else if path.toList.contains '\x00' then some .invalid
  else if pathLimit < path.utf8ByteSize then some .nameTooLong
  else none

def walk (fs : FileSystem) (workingDirectory path : String) (components : List String) : Found :=
  match refusal? path with
  | some c => .fault c
  | none =>
    components.foldl fs.step (.directory (if Path.isAbsolute path then "/" else workingDirectory))

def follow (fs : FileSystem) (workingDirectory path : String) : Found :=
  fs.walk workingDirectory path (Path.components path)

/-- Follows a path at whose end a file is to be written. A separator behind the last name asks for a
directory, whatever the name stands for. -/
def followToWrite (fs : FileSystem) (workingDirectory path : String) : Found :=
  let names := (Path.components path).filter (· ≠ "")
  let name := names.getLastD "."
  if Path.lastComponent path = "" && name ≠ "." && name ≠ ".." then
    match fs.walk workingDirectory path names.dropLast with
    | .directory _ => .fault .isDirectory
    | here => fs.step here name
  else fs.follow workingDirectory path

def read (fs : FileSystem) (workingDirectory path : String) : Except PathFault String :=
  match fs.follow workingDirectory path with
  | .file _ content => .ok content
  | .directory _ => .error ⟨"read", path, .isDirectory⟩
  | .free _ => .error ⟨"open", path, .noEntry⟩
  | .fault c => .error ⟨"open", path, c⟩

def isPresent (fs : FileSystem) (workingDirectory path : String) : Bool :=
  match fs.follow workingDirectory path with
  | .file _ _ | .directory _ => true
  | .free _ | .fault _ => false

def isDirectory (fs : FileSystem) (workingDirectory path : String) : Bool :=
  fs.follow workingDirectory path matches .directory _

def update (fs : FileSystem) (workingDirectory path : String) (content : String → String) :
    Except PathFault FileSystem :=
  match fs.followToWrite workingDirectory path with
  | .file p old => .ok { fs with files := fs.files.insert p (content old) }
  | .free p => .ok { fs with files := fs.files.insert p (content "") }
  | .directory _ => .error ⟨"open", path, .isDirectory⟩
  | .fault c => .error ⟨"open", path, c⟩

def write (fs : FileSystem) (workingDirectory path content : String) :
    Except PathFault FileSystem :=
  fs.update workingDirectory path fun _ => content

def append (fs : FileSystem) (workingDirectory path text : String) :
    Except PathFault FileSystem :=
  fs.update workingDirectory path (· ++ text)

def ancestors (path : String) : List String :=
  let parts := (Path.components path).filter (· ≠ "")
  (List.range parts.length).map fun n => "/" ++ "/".intercalate (parts.take n)

def ofList (root : String) (entries : List (String × String)) : FileSystem :=
  -- a path that ends with a separator is a directory
  let isDir (p : String) : Bool := p.toList.getLast? = some '/'
  let files := (entries.filter (!isDir ·.1)).map fun e => (Path.within root e.1, e.2)
  let dirs := root :: (entries.filter (isDir ·.1)).map fun e => Path.within root e.1
  { files := Keyed.ofList files
    directories := ascending (dirs ++ dirs.flatMap ancestors ++ files.flatMap (ancestors ·.1)) }

end FileSystem

end TemplateCensus
