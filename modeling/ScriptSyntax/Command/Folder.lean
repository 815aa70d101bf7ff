/-!
The working folder, as far as the program can see it: files below it and
nothing above it. A path is walked part by part, and every part but the last
must lead to a folder.
-/

namespace ScriptSyntax.Command

/-- Why a source could not be read. -/
inductive ReadFailure where
  | missing
  | notFolder
  | isFolder
  | notUtf8
  /-- Any other answer of the system. -/
  | system (code : UInt32) (reason : String)
  deriving DecidableEq, Repr

def ReadFailure.reason : ReadFailure → String
  | missing => "No such file or directory (os error 2)"
  | notFolder => "Not a directory (os error 20)"
  | isFolder => "Is a directory (os error 21)"
  | notUtf8 => "stream did not contain valid UTF-8"
  | system code reason => reason ++ " (os error " ++ toString code.toNat ++ ")"

/-- The parts of a path between its slashes. -/
def pathParts (path : String) : List String :=
  (path.toList.splitOn '/').map String.ofList

/-- The last part of a path. -/
def fileName (path : String) : String := (pathParts path).getLast?.getD path

/-- Files with the names that lead to them. -/
structure Folder where
  files : List (List String × ByteArray)

namespace Folder

/-- A folder of files at relative paths. -/
def ofFiles (files : List (String × ByteArray)) : Folder :=
  ⟨files.map fun (path, content) =>
    ((pathParts path).filter fun part => part != "" && part != ".", content)⟩

/-- Where a walk stands. -/
inductive Place where
  /-- In a folder below the working folder, or in that itself. -/
  | inside (names : List String)
  /-- In a folder that holds the working folder. -/
  | above
  | file (content : ByteArray)

/-- What a name stands for in a folder. -/
def entry (folder : Folder) (names : List String) : Except ReadFailure Place :=
  match folder.files.lookup names with
  | some content => .ok (.file content)
  | none =>
      if folder.files.any fun (path, _) => names.isPrefixOf path then .ok (.inside names)
      else .error .missing

def walk (folder : Folder) (place : Place) (part : String) : Except ReadFailure Place :=
  match place with
  | .file _ => .error .notFolder
  | .inside names =>
      if part = "" ∨ part = "." then .ok (.inside names)
      else if part = ".." then .ok (if names = [] then .above else .inside names.dropLast)
      else folder.entry (names ++ [part])
  | .above => if part = "" ∨ part = "." ∨ part = ".." then .ok .above else .error .missing

/-- Where a path begins: one that starts with a slash, above. -/
def start (path : String) : Place :=
  if path.toList.head? = some '/' then .above else .inside []

/-- The content of the file at a path. -/
def read (folder : Folder) (path : String) : Except ReadFailure ByteArray := do
  match ← (pathParts path).foldlM folder.walk (start path) with
  | .file content => return content
  | .inside _ | .above => throw .isFolder

end Folder

end ScriptSyntax.Command
