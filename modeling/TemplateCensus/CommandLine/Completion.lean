import TemplateCensus.CommandLine.Action
import TemplateCensus.Text.Blank

/-!
Completing a command line. A shell sends the arguments typed so far, the last of them unfinished,
and gets the texts that may stand there, with a directive on what else it may offer.
-/

namespace TemplateCensus.CommandLine

inductive Directive where
  | files
  | nothing
  deriving DecidableEq, Repr

def Directive.code : Directive → Nat
  | files => 0
  | nothing => 4

def Directive.name : Directive → String
  | files => "ShellCompDirectiveDefault"
  | nothing => "ShellCompDirectiveNoFileComp"

structure Suggestion where
  text : String
  meaning : String
  deriving Repr

inductive CompletionFault where
  | unparsable (args : List String) (why : Fault)
  | unsupported (action flag : String)
  | unknownWord (args : List String)
  deriving Repr

def CompletionFault.message : CompletionFault → String
  | unparsable args why =>
    "Error while parsing flags from args [" ++ " ".intercalate args ++ "]: " ++ why.message
  | unsupported action flag =>
    "Subcommand '" ++ action ++ "' does not support flag '" ++ flag ++ "'"
  | unknownWord args =>
    "unable to find a command for arguments: [" ++ " ".intercalate args ++ "]"

structure Completion where
  suggestions : List Suggestion := []
  directive : Directive := .files
  fault : Option CompletionFault := none

structure Target where
  flag : Option Flag := none
  args : List String
  text : String
  unsupported : Option String := none

def flagNamed? (known : List Flag) (name : String) : Option Flag :=
  match name.toList with
  | [c] => if c.toNat < 128 then Flag.ofLetter? known c else Flag.ofName? known name
  | _ => Flag.ofName? known name

/-- The flag that an argument without `=` ends with: a long name, or the last letter of a group.
A letter beyond ASCII shows only its last byte, which is no character. -/
def endingFlag (arg : List Char) : String :=
  match arg with
  | '-' :: '-' :: name => String.ofList name
  | cs => String.ofList (cs.getLast?.toList.map fun c => if c.toNat < 128 then c else '\ufffd')

def isFlagArg : List Char → Bool
  | '-' :: '-' :: _ :: _ => true
  | '-' :: c :: _ => c ≠ '-'
  | _ => false

/-- The target of an unfinished argument behind the others. `value` is the part of it behind `=` if
it has an `=` and no flag in front of that. -/
def targetBehind (known : List Flag) (args : List String) (text : String) (value : Option String) :
    Target :=
  let before := (args.getLast?.getD "").toList
  let alone : Target := { args := args, text := value.getD text }
  if isFlagArg before && !before.contains '=' then
    match flagNamed? known (endingFlag before) with
    | none => { args := args, text := text, unsupported := some (endingFlag before) }
    | some f =>
      if f.isSwitch && value.isNone then alone
      else { flag := some f, args := args.dropLast, text := value.getD text }
  else alone

def targetOf (known : List Flag) (args : List String) (text : String) : Target :=
  let cs := text.toList
  if cs.head? ≠ some '-' then targetBehind known args text none
  else if !cs.contains '=' then { args := args, text := text }
  else
    let name := endingFlag (cs.takeWhile (· ≠ '='))
    let value := String.ofList (cs.dropWhile (· ≠ '=')).tail
    if name = "" then targetBehind known args text (some value)
    else
      match flagNamed? known name with
      | none => { args := args, text := text, unsupported := some name }
      | some f => { flag := some f, args := args, text := value }

def Flag.spellings (f : Flag) (start : String) : List String :=
  (("--" ++ f.name) :: f.letter?.toList.map fun c => "-" ++ c.toString).filter fun s =>
    start.toList.isPrefixOf s.toList

namespace Action

def suggestedFlags (a : Action) (given : List Flag) (start : String) : List Suggestion :=
  (a.flags.filter fun f => f.isRepeatable || !given.contains f).flatMap fun f =>
    (f.spellings start).map fun s => ⟨s, f.purpose a.name⟩

def suggestedParts (parts : List Action) (start : String) : List Suggestion :=
  (parts.filter fun b => start.toList.isPrefixOf b.name.toList).map fun b => ⟨b.name, b.summary⟩

def suggestWord (a : Action) (parts : List Action) (p : Parsed) (start : String) : Completion :=
  let parts := if p.words.isEmpty && p.given.all (· = .color) then parts else []
  { suggestions := suggestedParts parts start
    directive := if a = .census && parts.isEmpty then .files else .nothing }

def complete (a : Action) (parts : List Action) (args : List String) (text : String) :
    Completion :=
  let t := targetOf a.flags args text
  match parse a.flags t.args with
  | .error why => { fault := some (.unparsable t.args why) }
  | .ok p =>
    let width (r : Except Fault Parsed) : Nat := (r.toOption.map (·.words.length)).getD 0
    let behindDash : Bool := p.words.length < width (parse a.flags (t.args ++ ["--"]))
    match t.unsupported, behindDash with
    | some flag, false => { fault := some (.unsupported a.name flag) }
    | _, _ =>
      if p.given.contains .help then { directive := .nothing }
      else if t.flag.isSome && !behindDash then {}
      else if t.flag.isNone && !behindDash && t.text.toList.head? = some '-' &&
          !t.text.toList.contains '=' then
        { suggestions := a.suggestedFlags p.given t.text, directive := .nothing }
      else if t.flag.isSome then { directive := if a = .census then .files else .nothing }
      else a.suggestWord parts p t.text

end Action

structure Request where
  isTerse : Bool
  hasActions : Bool
  args : List String

namespace Request

def word : String := "__complete"

def terseWord : String := "__completeNoDesc"

def ofArgs? (args : List String) : Option Request :=
  let known := Action.census.leadingFlags
  match firstWord? known args with
  | none => none
  | some w =>
    if w = word || w = terseWord then
      -- the other actions are offered if the first of them is named right behind the word
      some ⟨w = terseWord, args[1]? = some Action.overview.name, dropWord known w args⟩
    else none

def answer (r : Request) : Completion :=
  let text := r.args.getLastD ""
  if r.hasActions then
    let (a, args) := Action.ofArgs r.args.dropLast
    if a = .census && (firstWord? a.leadingFlags args).isSome then
      { fault := some (.unknownWord r.args.dropLast) }
    else a.complete a.parts args text
  else Action.census.complete [] r.args.dropLast text

def ownVariable : String := "LLCPPTPL_COMPLETION_DESCRIPTIONS"

def bareVariable : String := "__COMPLETE_COMPLETION_DESCRIPTIONS"

def commonVariable : String := "COBRA_COMPLETION_DESCRIPTIONS"

def debugVariable : String := "BASH_COMP_DEBUG_FILE"

def isDescribed (r : Request) (env : Keyed String) : Bool :=
  let names := [if r.hasActions then ownVariable else bareVariable, commonVariable]
  let values := names.map fun v => (env.find? v).getD ""
  !r.isTerse && (truth? ((values.find? (· ≠ "")).getD "")).getD true

def line (isDescribed : Bool) (s : Suggestion) : String :=
  if isDescribed then Text.trimmed (s.text ++ "\t" ++ s.meaning) else Text.trimmed s.text

end Request

namespace Completion

def stdout (c : Completion) (isDescribed : Bool) : String :=
  String.join (c.suggestions.map fun s => Request.line isDescribed s ++ "\n") ++
    ":" ++ Text.natDecimal c.directive.code ++ "\n"

def complaint (c : Completion) : String :=
  match c.fault with
  | some f => "[Debug] [Error] " ++ f.message ++ "\n"
  | none => ""

def stderr (c : Completion) : String :=
  c.complaint ++ "Completion ended with directive: " ++ c.directive.name ++ "\n"

end Completion

end TemplateCensus.CommandLine
