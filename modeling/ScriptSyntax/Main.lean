import ScriptSyntax.Command.Report

/-!
The program: it takes its input from the system, and leaves every decision to
`ScriptSyntax.Command`.
-/

namespace ScriptSyntax.Command

/-- A failed read by the number of its error, which some calls give negated. -/
def ReadFailure.ofCode (code : UInt32) (reason : String) : ReadFailure :=
  match min code (-code) with
  | 2 => .missing
  | 20 => .notFolder
  | 21 => .isFolder
  | number => .system number reason

/-- The answer of the system to a failed read. -/
def ReadFailure.ofError : IO.Error → ReadFailure
  | .noFileOrDirectory _ code reason
  | .inappropriateType _ code reason
  | .permissionDenied _ code reason
  | .invalidArgument _ code reason
  | .otherError code reason => .ofCode code reason
  | error => .system 0 (toString error)

def readInput : Option String → IO ByteArray
  | some path => IO.FS.readBinFile path
  | none => do (← IO.getStdin).readBinToEnd

def Report.print (report : Report) : IO UInt32 := do
  IO.print report.stdout
  IO.eprint report.stderr
  return report.exitCode

end ScriptSyntax.Command

open ScriptSyntax.Command in
def main (arguments : List String) : IO UInt32 :=
  match Options.ofArguments arguments with
  | .error halt => halt.report.print
  | .ok options => do
      let content ← try .ok <$> readInput options.path
        catch error => pure (.error (ReadFailure.ofError error))
      (options.report content).print
