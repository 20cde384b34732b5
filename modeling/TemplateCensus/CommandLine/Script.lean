import TemplateCensus.CommandLine.Completion

/-!
The completion scripts. Each makes its shell pass the words typed so far to a request and offer the
lines of the answer, up to the directive.
-/

namespace TemplateCensus.CommandLine.Shell

def scriptText (ask : String) : Shell → String
  | bash =>
    "_llcpptpl() \x7b\n" ++
    "    local IFS=$'\\n' words=(\"$\x7bCOMP_WORDS[@]:1:COMP_CWORD\x7d\")\n" ++
    "    COMPREPLY=($(llcpptpl " ++ ask ++ " \"$\x7bwords[@]\x7d\" 2>/dev/null |\n" ++
    "        sed -e '/^:/d' -e 's/\\t.*//'))\n" ++
    "\x7d\n" ++
    "complete -o default -F _llcpptpl llcpptpl\n"
  | fish =>
    "function __llcpptpl\n" ++
    "    llcpptpl " ++ ask ++ " (commandline -opc)[2..] (commandline -ct) 2>/dev/null |\n" ++
    "        string match -v -r '^:'\n" ++
    "end\n" ++
    "complete -c llcpptpl -a '(__llcpptpl)'\n"
  | powershell =>
    "Register-ArgumentCompleter -Native -CommandName llcpptpl -ScriptBlock \x7b\n" ++
    "    param($word, $ast, $position)\n" ++
    "    $words = @($ast.CommandElements | Select-Object -Skip 1 |\n" ++
    "        ForEach-Object \x7b \"$_\" \x7d)\n" ++
    "    if ($word -eq '') \x7b $words += '' \x7d\n" ++
    "    llcpptpl " ++ ask ++ " @words 2>$null | Where-Object \x7b $_ -notmatch '^:' \x7d |\n" ++
    "        ForEach-Object \x7b ($_ -split \"\x60t\")[0] \x7d\n" ++
    "\x7d\n"
  | zsh =>
    "#compdef llcpptpl\n" ++
    "_llcpptpl() \x7b\n" ++
    "    compadd -- $\x7b(f)\"$(\n" ++
    "        llcpptpl " ++ ask ++ " \"$\x7b(@)words[2,CURRENT]\x7d\" 2>/dev/null |\n" ++
    "        sed -e '/^:/d' -e 's/\\t.*//')\"\x7d\n" ++
    "\x7d\n" ++
    "compdef _llcpptpl llcpptpl\n"

def script (s : Shell) (descriptions : Bool) : String :=
  s.scriptText (if descriptions then Request.word else Request.terseWord)

end TemplateCensus.CommandLine.Shell
