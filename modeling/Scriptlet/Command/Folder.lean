import Scriptlet.Command

/-!
Contract: a folder held in memory, for running the command without a file
system.

A folder holds texts by name and no folders of its own.  Paths are relative to
it; one that leads out of it finds directories only.
-/

namespace Scriptlet

/-- Texts by file name. -/
abbrev Folder := Std.ExtTreeMap String String

namespace Folder

/-- The steps of a path, those that stay in place left out. -/
def pathSteps (path : String) : List String :=
  (path.toList.splitOn '/').map String.ofList |>.filter fun step => step ≠ "" ∧ step ≠ "."

/-- Whether a path names a directory by its form. -/
def namesDirectory (path : String) : Bool :=
  path.endsWith "/" || path.endsWith "/."

/-- What reading a path gives. -/
def read (folder : Folder) (path : String) : Except ReadError String :=
  if path = "" then
    .error .notFound
  else
    match pathSteps path with
    | [] => .error .isDirectory
    | step :: rest =>
        if (step :: rest).all (· == "..") then
          .error .isDirectory
        else if path.startsWith "/" then
          .error .notFound
        else
          match folder[step]? with
          | none => .error .notFound
          | some text =>
              if rest.isEmpty && !namesDirectory path then .ok text else .error .notDirectory

/-- What a source holds when the command runs in a folder. -/
def readSource (folder : Folder) (standardInput : Except ReadError String) :
    InputSource → Except ReadError String
  | .file path => folder.read path
  | .standardInput => standardInput

end Folder

end Scriptlet
