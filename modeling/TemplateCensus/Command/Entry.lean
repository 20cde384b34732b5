import TemplateCensus.Command.Words
import TemplateCensus.Path

/-!
Compile commands. A command names a directory, a source file and the words of the compiler's command
line, as a list or as one text. The flags of a command are its words without the compiler, the
source file and the options that select an output.
-/

namespace TemplateCensus

structure CompileCommand where
  directory : String := ""
  file : String := ""
  arguments : List String := []
  command : String := ""
  output : String := ""
  deriving DecidableEq, Repr

namespace CompileCommand

def path (c : CompileCommand) : String := Path.within c.directory c.file

def argv? (c : CompileCommand) : Option (List String) :=
  if c.arguments.isEmpty then Command.words? c.command else some c.arguments

def lonelyOptions : List String := ["-c", "-MD", "-MMD"]

def pairedOptions : List String := ["-o", "-MF", "-MT", "-MQ"]

def isDropped (c : CompileCommand) (word : String) : Bool :=
  lonelyOptions.contains word || "-o".toList.isPrefixOf word.toList ||
    (word.toList.head? ≠ some '-' && Path.within c.directory word = c.path) || word = "--"

def kept (c : CompileCommand) : List String → List String
  | [] => []
  | [w] => if pairedOptions.contains w || c.isDropped w then [] else [w]
  | w :: v :: ws =>
    if pairedOptions.contains w then c.kept ws
    else if c.isDropped w then c.kept (v :: ws)
    else w :: c.kept (v :: ws)

def flags? (c : CompileCommand) : Option (List String) :=
  c.argv?.map fun argv => c.kept argv.tail

end CompileCommand

end TemplateCensus
