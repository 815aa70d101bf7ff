/-!
The arguments of the command line. They are read from left to right, and the
first that asks for help or the version, or that cannot be accepted, decides.
-/

namespace ScriptSyntax.Command

structure Options where
  /-- The source to read; standard input if there is none. -/
  path : Option String := none
  tokens : Bool := false
  trivia : Bool := false
  /-- How much is logged; the answer does not depend on it. -/
  verbosity : Nat := 0
  deriving DecidableEq, Repr

inductive Misuse where
  | unknown (argument : String)
  | repeated (option : String)
  | secondPath (path : String)
  | emptyPath
  deriving DecidableEq, Repr

/-- Why there is nothing to run. -/
inductive Halt where
  | help
  | version
  | misuse (reason : Misuse)
  deriving DecidableEq, Repr

namespace Options

def addPath (options : Options) (path : String) : Except Halt Options :=
  if options.path.isSome then .error (.misuse (.secondPath path))
  else if path = "" then .error (.misuse .emptyPath)
  else .ok { options with path := some path }

/-- An argument that begins with two dashes. No option takes a value. -/
def addLong (options : Options) (argument : String) : Except Halt Options :=
  if argument = "--tokens" then
    if options.tokens then .error (.misuse (.repeated argument))
    else .ok { options with tokens := true }
  else if argument = "--trivia" then
    if options.trivia then .error (.misuse (.repeated argument))
    else .ok { options with trivia := true }
  else if argument = "--verbose" then .ok { options with verbosity := options.verbosity + 1 }
  else if argument = "--help" then .error .help
  else if argument = "--version" then .error .version
  else .error (.misuse (.unknown argument))

/-- The letters behind a single dash. -/
def addShort (options : Options) : List Char → Except Halt Options
  | [] => .ok options
  | 'v' :: letters => addShort { options with verbosity := options.verbosity + 1 } letters
  | 'h' :: _ => .error .help
  | 'V' :: _ => .error .version
  | letter :: _ => .error (.misuse (.unknown (String.ofList ['-', letter])))

/-- A dash alone is a path. -/
def add (options : Options) (argument : String) : Except Halt Options :=
  match argument.toList with
  | '-' :: '-' :: _ => options.addLong argument
  | '-' :: letter :: letters => options.addShort (letter :: letters)
  | _ => options.addPath argument

/-- Behind two dashes alone, every argument is a path. -/
def addAll (options : Options) : List String → Except Halt Options
  | [] => .ok options
  | argument :: arguments =>
      if argument = "--" then arguments.foldlM addPath options
      else do
        let options ← options.add argument
        options.addAll arguments

def ofArguments (arguments : List String) : Except Halt Options :=
  ({} : Options).addAll arguments

end Options

end ScriptSyntax.Command
