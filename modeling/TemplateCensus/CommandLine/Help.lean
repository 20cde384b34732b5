import TemplateCensus.CommandLine.Action

/-!
The help texts: a description, how the action is called, the actions below it, and its flags.
-/

namespace TemplateCensus.CommandLine

def Shell.description : Shell → String
  | bash =>
    "Generate the autocompletion script for the bash shell.\n\n" ++
    "This script depends on the 'bash-completion' package.\n" ++
    "If it is not installed already, you can install it via your OS's package manager.\n\n" ++
    "To load completions in your current shell session:\n\n" ++
    "\tsource <(llcpptpl completion bash)\n\n" ++
    "To load completions for every new session, execute once:\n\n" ++
    "#### Linux:\n\n" ++
    "\tllcpptpl completion bash > /etc/bash_completion.d/llcpptpl\n\n" ++
    "#### macOS:\n\n" ++
    "\tllcpptpl completion bash > $(brew --prefix)/etc/bash_completion.d/llcpptpl\n\n" ++
    "You will need to start a new shell for this setup to take effect.\n"
  | fish =>
    "Generate the autocompletion script for the fish shell.\n\n" ++
    "To load completions in your current shell session:\n\n" ++
    "\tllcpptpl completion fish | source\n\n" ++
    "To load completions for every new session, execute once:\n\n" ++
    "\tllcpptpl completion fish > ~/.config/fish/completions/llcpptpl.fish\n\n" ++
    "You will need to start a new shell for this setup to take effect.\n"
  | powershell =>
    "Generate the autocompletion script for powershell.\n\n" ++
    "To load completions in your current shell session:\n\n" ++
    "\tllcpptpl completion powershell | Out-String | Invoke-Expression\n\n" ++
    "To load completions for every new session, add the output of the above command\n" ++
    "to your powershell profile.\n"
  | zsh =>
    "Generate the autocompletion script for the zsh shell.\n\n" ++
    "If shell completion is not already enabled in your environment you will need\n" ++
    "to enable it.  You can execute the following once:\n\n" ++
    "\techo \"autoload -U compinit; compinit\" >> ~/.zshrc\n\n" ++
    "To load completions in your current shell session:\n\n" ++
    "\tsource <(llcpptpl completion zsh)\n\n" ++
    "To load completions for every new session, execute once:\n\n" ++
    "#### Linux:\n\n" ++
    "\tllcpptpl completion zsh > \"$\x7bfpath[1]\x7d/_llcpptpl\"\n\n" ++
    "#### macOS:\n\n" ++
    "\tllcpptpl completion zsh > $(brew --prefix)/share/zsh/site-functions/_llcpptpl\n\n" ++
    "You will need to start a new shell for this setup to take effect.\n"

def Action.description : Action → String
  | census =>
    "llcpptpl parses each source with clang and prints, for every class template\n" ++
    "instantiated by a constructor call in that source, the canonical instantiated\n" ++
    "type and the public header that declares its template.\n"
  | overview =>
    "Generate the autocompletion script for llcpptpl for the specified shell.\n" ++
    "See each sub-command's help for details on how to use the generated script.\n"
  | script s => s.description

def Action.usage : Action → String
  | census => "llcpptpl [flags] <source>... [-- <compile flags>]"
  | overview => "llcpptpl completion [command]"
  | script .bash => "llcpptpl completion bash"
  | script s => "llcpptpl completion " ++ s.name ++ " [flags]"

def Flag.synopsis (f : Flag) : String :=
  let letter := match f.letter? with
    | some c => "  -" ++ c.toString ++ ", "
    | none => "      "
  letter ++ "--" ++ f.name ++ if f.valueName = "" then "" else " " ++ f.valueName

def Flag.explanation (action : String) (f : Flag) : String :=
  let plain := String.ofList ((f.purpose action).toList.filter (· ≠ '\x60'))
  match f.defaultValue? with
  | some v => plain ++ " (default " ++ Text.quote v ++ ")"
  | none => plain

def padded (width : Nat) (s : String) : String :=
  s ++ String.ofList (List.replicate (width - s.length) ' ')

def flagLines (action : String) (flags : List Flag) : String :=
  let width := (flags.map fun f => f.synopsis.length).foldl max 0
  String.join (flags.map fun f =>
    padded (width + 3) f.synopsis ++ f.explanation action ++ "\n")

def titled (title body : String) : String := if body = "" then "" else "\n" ++ title ++ "\n" ++ body

def Action.listed : Action → List Action
  -- every word of its command line can be a source
  | census => []
  | a => a.parts

def Action.helpText (a : Action) : String :=
  let names := a.listed.map fun b => "  " ++ padded 12 b.name ++ b.summary ++ "\n"
  a.description ++ "\nUsage:\n  " ++ a.usage ++ "\n" ++
    titled "Available Commands:" (String.join names) ++
    titled "Flags:" (flagLines a.name a.ownFlags) ++
    titled "Global Flags:" (flagLines a.name a.sharedFlags) ++
    if names.isEmpty then ""
    else "\nUse \"" ++ a.path ++ " [command] --help\" for more information about a command.\n"

end TemplateCensus.CommandLine
