import ScriptSyntax.Command.Folder
import ScriptSyntax.Command.Options
import ScriptSyntax.Diagnostic
import ScriptSyntax.Outline
import ScriptSyntax.Program
import ScriptSyntax.Scanner

/-!
What the program answers: the outline of a source, its diagnostic if it does
not parse, and an exit code. What a verbose run logs has the time in it, and is no
part of the answer.
-/

namespace ScriptSyntax.Command

structure Report where
  exitCode : UInt32
  stdout : String := ""
  stderr : String := ""
  deriving DecidableEq, Repr

def helpText : String :=
  unlines
    ["Lex and parse a script, printing its syntax tree",
      "",
      "Usage: luafront [OPTIONS] [PATH]",
      "",
      "Arguments:",
      "  [PATH]  Source file to read; stdin when omitted",
      "",
      "Options:",
      "      --tokens      Print the lexeme stream before the tree",
      "      --trivia      Include whitespace and comments in the printed tree",
      "  -v, --verbose...  Increase log verbosity (-v debug, -vv trace)",
      "  -h, --help        Print help",
      "  -V, --version     Print version"]

def versionText : String := "luafront 0.1.0\n"

/-- A misuse is told by its exit code; the wording of its message is not fixed here. -/
def Halt.report : Halt → Report
  | .help => { exitCode := 0, stdout := helpText }
  | .version => { exitCode := 0, stdout := versionText }
  | .misuse _ => { exitCode := 2 }

namespace Options

/-- The name under which diagnostics know the source. -/
def sourceName (options : Options) : String := (options.path.map fileName).getD "stdin"

/-- The name under which a failure to read it is reported. -/
def inputName (options : Options) : String := options.path.getD "stdin"

/-- What the program prints about a source. -/
def reportSource (options : Options) (source : String) : Report :=
  let lexemes := scan source (some options.sourceName)
  let (root, fault) := parsePartial lexemes
  let tokens := if options.tokens then lexemesOutline lexemes ++ "\n" else ""
  { exitCode := if fault.isSome then 1 else 0
    stdout := tokens ++ root.outline options.trivia
    stderr := (fault.map fun f => f.diagnostic source).getD "" }

/-- A source must be UTF-8 text. -/
def decode (content : ByteArray) : Except ReadFailure String :=
  match String.fromUTF8? content with
  | some source => .ok source
  | none => .error .notUtf8

/-- The report on what reading the source gave. -/
def report (options : Options) (content : Except ReadFailure ByteArray) : Report :=
  match content.bind decode with
  | .ok source => options.reportSource source
  | .error failure =>
      { exitCode := 1
        stderr := unlines
          ["Error: failed to read " ++ options.inputName, "", "Caused by:",
            "    " ++ failure.reason] }

end Options

/-- A whole run in a working folder. -/
def run (arguments : List String) (stdin : ByteArray) (folder : Folder) : Report :=
  match Options.ofArguments arguments with
  | .error halt => halt.report
  | .ok options =>
      match options.path with
      | some path => options.report (folder.read path)
      | none => options.report (.ok stdin)

end ScriptSyntax.Command
