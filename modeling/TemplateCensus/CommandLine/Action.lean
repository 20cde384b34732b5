import TemplateCensus.CommandLine.Flags

/-!
The actions of the program. The census is what it is for; the others help a shell to complete its
command line. An action is named by the first word among the arguments, and what may look like a
word there depends on which flags take a value.
-/

namespace TemplateCensus.CommandLine

inductive Shell where
  | bash
  | fish
  | powershell
  | zsh
  deriving DecidableEq, Repr

namespace Shell

def all : List Shell := [bash, fish, powershell, zsh]

def name : Shell → String
  | bash => "bash"
  | fish => "fish"
  | powershell => "powershell"
  | zsh => "zsh"

def ofName? (n : String) : Option Shell := all.find? (·.name = n)

end Shell

inductive Action where
  | census
  | overview
  | script (shell : Shell)
  deriving DecidableEq, Repr

namespace Action

def name : Action → String
  | census => "llcpptpl"
  | overview => "completion"
  | script s => s.name

def path : Action → String
  | census => "llcpptpl"
  | overview => "llcpptpl completion"
  | script s => "llcpptpl completion " ++ s.name

def ownFlags : Action → List Flag
  | census =>
    [.buildPath, .clang, .color, .config, .debug, .declarations, .definitions, .extraArg, .help,
      .jobs, .merge, .verbose]
  | overview => [.help]
  | script _ => [.help, .noDescriptions]

def sharedFlags : Action → List Flag
  | census => []
  | overview | script _ => [.color]

def flags (a : Action) : List Flag := a.sharedFlags ++ a.ownFlags

def parts : Action → List Action
  | census => [overview]
  | overview => Shell.all.map script
  | script _ => []

def summary : Action → String
  | census => "Report the class template instantiations constructed in C++ sources"
  | overview => "Generate the autocompletion script for the specified shell"
  | script s => "Generate the autocompletion script for " ++ s.name

end Action

/-- Does an argument look like a flag whose value is the next argument? A flag that is not known
does. -/
def takesNext (known : List Flag) (arg : String) : Bool :=
  match arg.toList with
  | '-' :: '-' :: body =>
    !body.contains '=' && !(Flag.ofName? known (String.ofList body)).any Flag.isSwitch
  | ['-', c] => c.toNat < 128 && c ≠ '=' && !(Flag.ofLetter? known c).any Flag.isSwitch
  | _ => false

def firstWord? (known : List Flag) : List String → Option String
  | [] => none
  | [arg] => if arg = "" || arg.toList.head? = some '-' then none else some arg
  | arg :: next :: args =>
    if arg = "--" then none
    else if takesNext known arg then firstWord? known args
    else if arg = "" || arg.toList.head? = some '-' then firstWord? known (next :: args)
    else some arg

def dropWord (known : List Flag) (word : String) : List String → List String
  | [] => []
  | [arg] => if arg = word then [] else [arg]
  | arg :: next :: args =>
    if arg = "--" then arg :: next :: args
    else if takesNext known arg then arg :: next :: dropWord known word args
    else if arg = word then next :: args
    else arg :: dropWord known word (next :: args)

namespace Action

def leadingFlags (a : Action) : List Flag := a.flags.filter (· ≠ .help)

def descend (a : Action) (args : List String) : Action × List String :=
  match firstWord? a.leadingFlags args with
  | none => (a, args)
  | some word =>
    match a.parts.find? (·.name = word) with
    | none => (a, args)
    | some b => (b, dropWord a.leadingFlags word args)

def ofArgs (args : List String) : Action × List String :=
  let (a, args) := descend .census args
  a.descend args

end Action

end TemplateCensus.CommandLine
