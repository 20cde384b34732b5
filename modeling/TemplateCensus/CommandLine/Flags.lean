import TemplateCensus.Analysis.Setup
import TemplateCensus.Text.Integer

/-!
The command line. Flags have long names, and some a letter; letters can be grouped behind one dash,
the last of a group may have a value. Flags may stand between the sources. Everything behind the
first `--` is compile flags.
-/

namespace TemplateCensus.CommandLine

open Text

inductive Flag where
  | buildPath
  | clang
  | color
  | config
  | debug
  | declarations
  | definitions
  | extraArg
  | help
  | jobs
  | merge
  | noDescriptions
  | verbose
  deriving DecidableEq, Repr

namespace Flag

def name : Flag → String
  | buildPath => "build-path"
  | clang => "clang"
  | color => "color"
  | config => "config"
  | debug => "debug"
  | declarations => "emit-extern"
  | definitions => "emit-instances"
  | extraArg => "extra-arg"
  | help => "help"
  | jobs => "jobs"
  | merge => "merge"
  | noDescriptions => "no-descriptions"
  | verbose => "verbose"

def letter? : Flag → Option Char
  | buildPath => some 'p'
  | help => some 'h'
  | jobs => some 'j'
  | verbose => some 'v'
  | _ => none

def isSwitch : Flag → Bool
  | debug | help | merge | noDescriptions | verbose => true
  | _ => false

def valueName : Flag → String
  | buildPath | clang | color | config => "string"
  | declarations | definitions => "file"
  | extraArg => "stringArray"
  | jobs => "int"
  | debug | help | merge | noDescriptions | verbose => ""

def isRepeatable : Flag → Bool
  | extraArg => true
  | _ => false

def purpose (action : String) : Flag → String
  | buildPath => "directory containing compile_commands.json"
  | clang => "clang binary"
  | color => "colorize output (auto|on|off)"
  | config => "config file, llcpptpl.cfg (JSON) or *.toml, - reads stdin"
  | debug => "enable debug logging"
  | declarations => "write extern template declarations to `file`"
  | definitions => "write explicit instantiation definitions to `file`"
  | extraArg => "additional argument to append to the compiler command line"
  | help => "help for " ++ action
  | jobs => "number of sources analysed in parallel"
  | merge => "print one report for all sources"
  | noDescriptions => "disable completion descriptions"
  | verbose => "print every accepted construction site to stderr"

def defaultValue? : Flag → Option String
  | color => some "auto"
  | _ => none

def title (f : Flag) : String :=
  match f.letter? with
  | some c => "-" ++ c.toString ++ ", --" ++ f.name
  | none => "--" ++ f.name

def ofName? (known : List Flag) (n : String) : Option Flag := known.find? (·.name = n)

def ofLetter? (known : List Flag) (c : Char) : Option Flag := known.find? (·.letter? = some c)

end Flag

inductive ValueFault where
  | noInteger (fault : IntegerFault)
  | noTruth
  deriving DecidableEq, Repr

def ValueFault.text (value : String) : ValueFault → String
  | noInteger f => "strconv.ParseInt: parsing " ++ quote value ++ ": " ++ f.text
  | noTruth => "strconv.ParseBool: parsing " ++ quote value ++ ": invalid syntax"

inductive Fault where
  | badSyntax (arg : String)
  | unknownName (name : String)
  | unknownLetter (group : String)
  | missingValue (name : String)
  | missingLetterValue (letter : Char)
  | badValue (flag : Flag) (value : String) (why : ValueFault)
  | badColor (value : String)
  | noSource
  | unknownCommand (word action : String)
  | nothingToComplete
  deriving DecidableEq, Repr

def quoteChar (c : Char) : String :=
  let body := if c = '\x27' then ['\\', '\x27'] else if c = '\x22' then [c] else quotedChar c
  String.ofList ('\x27' :: body ++ ['\x27'])

def firstByte (c : Char) : Char := Char.ofNat ((String.utf8EncodeChar c).headD 0).toNat

/-- The letter that a message shows for a group: the first byte of the character that the first byte
of the group stands for. -/
def leadingLetter (group : String) : Char := firstByte (firstByte (group.toList.headD ' '))

def Fault.message : Fault → String
  | badSyntax arg => "bad flag syntax: " ++ arg
  | unknownName name => "unknown flag: --" ++ name
  | unknownLetter group =>
    "unknown shorthand flag: " ++ quoteChar (leadingLetter group) ++ " in -" ++ group
  | missingValue name => "flag needs an argument: --" ++ name
  | missingLetterValue c => "flag needs an argument: " ++ quoteChar c ++ " in -" ++ c.toString
  | badValue flag value why =>
    "invalid argument " ++ quote value ++ " for " ++ quote flag.title ++ " flag: " ++ why.text value
  | badColor value => "invalid --color " ++ quote value ++ ", want auto, on or off"
  | noSource => "no source file, see llcpptpl --help"
  | unknownCommand word action => "unknown command " ++ quote word ++ " for " ++ quote action
  | nothingToComplete => "requires at least 1 arg(s), only received 0"

structure Parsed where
  options : Options := {}
  color : String := "auto"
  help : Bool := false
  descriptions : Bool := true
  given : List Flag := []
  sources : List String := []
  compileFlags : List String := []
  deriving Repr

def truth? (s : String) : Option Bool :=
  if ["1", "t", "T", "TRUE", "true", "True"].contains s then some true
  else if ["0", "f", "F", "FALSE", "false", "False"].contains s then some false
  else none

def Parsed.words (p : Parsed) : List String := p.sources ++ p.compileFlags

def Parsed.set (p : Parsed) (f : Flag) (value : String) : Except Fault Parsed :=
  let p := { p with given := f :: p.given }
  let o := p.options
  let truth (set : Bool → Parsed) : Except Fault Parsed :=
    match truth? value with
    | some b => .ok (set b)
    | none => .error (.badValue f value .noTruth)
  match f with
  | .buildPath => .ok { p with options := { o with buildPath := value } }
  | .clang => .ok { p with options := { o with clang := value } }
  | .color => .ok { p with color := value }
  | .config => .ok { p with options := { o with config := value } }
  | .debug => truth fun b => { p with options := { o with debug := b } }
  | .declarations => .ok { p with options := { o with declarations := value } }
  | .definitions => .ok { p with options := { o with definitions := value } }
  | .extraArg => .ok { p with options := { o with extraArgs := o.extraArgs ++ [value] } }
  | .help => truth fun b => { p with help := b }
  | .jobs =>
    match integer? value with
    | .ok n => .ok { p with options := { o with jobs := n } }
    | .error w => .error (.badValue f value (.noInteger w))
  | .merge => truth fun b => { p with options := { o with merge := b } }
  | .noDescriptions => truth fun b => { p with descriptions := !b }
  | .verbose => truth fun b => { p with options := { o with verbose := b } }

inductive Pending where
  | none
  | value (flag : Flag) (missing : Fault)

def readName (known : List Flag) (p : Parsed) (arg : String) (body : List Char) :
    Except Fault (Parsed × Pending) :=
  if body.head? = some '-' || body.head? = some '=' then .error (.badSyntax arg)
  else
    let name := String.ofList (body.takeWhile (· ≠ '='))
    match Flag.ofName? known name with
    | none => .error (.unknownName name)
    | some f =>
      match body.dropWhile (· ≠ '=') with
      | _ :: value => (p.set f (String.ofList value)).map (·, .none)
      | [] =>
        if f.isSwitch then (p.set f "true").map (·, .none)
        else .ok (p, .value f (.missingValue name))

/-- Reads a group of letters. A group that starts like an option of a test run is passed over. -/
def readLetters (known : List Flag) (p : Parsed) : List Char → Except Fault (Parsed × Pending)
  | [] => .ok (p, .none)
  | c :: cs =>
    if "test.".toList.isPrefixOf (c :: cs) then .ok (p, .none)
    else
      match Flag.ofLetter? known c with
      | none => .error (.unknownLetter (String.ofList (c :: cs)))
      | some f =>
        if cs.head? = some '=' && 1 < cs.length then
          (p.set f (String.ofList cs.tail)).map (·, .none)
        else if f.isSwitch then
          match p.set f "true" with
          | .ok p => readLetters known p cs
          | .error e => .error e
        else if cs.isEmpty then .ok (p, .value f (.missingLetterValue c))
        else (p.set f (String.ofList cs)).map (·, .none)

def readArg (known : List Flag) (p : Parsed) (arg : String) : Except Fault (Parsed × Pending) :=
  match arg.toList with
  | '-' :: '-' :: body => readName known p arg body
  | '-' :: c :: cs => readLetters known p (c :: cs)
  | _ => .ok ({ p with sources := p.sources ++ [arg] }, .none)

def read (known : List Flag) (p : Parsed) : List String → Except Fault Parsed
  | [] => .ok p
  | [arg] =>
    if arg = "--" then .ok p
    else
      match readArg known p arg with
      | .error e => .error e
      | .ok (p, .none) => .ok p
      | .ok (_, .value _ missing) => .error missing
  | arg :: next :: args =>
    if arg = "--" then .ok { p with compileFlags := next :: args }
    else
      match readArg known p arg with
      | .error e => .error e
      | .ok (p, .none) => read known p (next :: args)
      | .ok (p, .value f _) =>
        match p.set f next with
        | .error e => .error e
        | .ok p => read known p args

def parse (known : List Flag) (args : List String) : Except Fault Parsed := read known {} args

/-- Sources and compile flags, divided at the position of `--`; a negative one means there is none.
`none` when the position lies behind the last argument. -/
def divide? (args : List String) (dash : Int) : Option (List String × List String) :=
  if dash < 0 then some (args, [])
  else if dash.toNat ≤ args.length then some (args.take dash.toNat, args.drop dash.toNat)
  else none

end TemplateCensus.CommandLine
