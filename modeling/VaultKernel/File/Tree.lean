import VaultKernel.File.Error
import VaultKernel.File.Path
import VaultKernel.Wire.Word

/-!
# File trees

A finite set of files under absolute paths and a working directory. A directory exists if a file is
below it. Paths are followed component by component, so a file in the middle of a path and a missing
directory are told apart.
-/

namespace VaultKernel

/-- Files by the components of their absolute path, and the working directory. -/
structure FileTree where
  files : List (List String × Wire.Bytes) := []
  workingDirectory : List String := []

namespace FileTree

/-- The content of the file with exactly these components. -/
def file? (t : FileTree) (components : List String) : Option Wire.Bytes := t.files.lookup components

/-- Whether a directory exists; the working directory and its ancestors always do. -/
def isDirectory (t : FileTree) (components : List String) : Bool :=
  components.isPrefixOf t.workingDirectory ||
    t.files.any fun (path, _) => components.isPrefixOf path && components.length < path.length

/-- What a path leads to. -/
inductive Place where
  | directory (components : List String)
  | file (content : Wire.Bytes)

/-- The most bytes of a component. -/
def componentLimit : Nat := 255

/-- The most bytes of a path. -/
def pathLimit : Nat := 4095

/-- Takes one step from a place. A file has nothing below it, not even itself. -/
def step (t : FileTree) (place : Place) (component : String) : Except FileError Place :=
  match place with
  | .file _ => .error .notDirectory
  | .directory here =>
    if Path.isIdle component then .ok place
    else if component = ".." then .ok (.directory here.dropLast)
    else if componentLimit < component.utf8ByteSize then .error .nameTooLong
    else
      let there := here ++ [component]
      match t.file? there with
      | some content => .ok (.file content)
      | none => if t.isDirectory there then .ok (.directory there) else .error .notFound

/-- Follows a path. -/
def follow (t : FileTree) (path : String) : Except FileError Place :=
  if path.toList.contains '\x00' then .error .nulInPath
  else if path.isEmpty then .error .notFound
  else if pathLimit < path.utf8ByteSize then .error .nameTooLong
  else
    let start := if Path.isAbsolute path then [] else t.workingDirectory
    (Path.components path).foldlM t.step (.directory start)

/-- Whether a path leads anywhere. -/
def pathExists (t : FileTree) (path : String) : Bool :=
  match t.follow path with
  | .ok _ => true
  | .error _ => false

/-- Whether a path leads to a file. -/
def isFile (t : FileTree) (path : String) : Bool :=
  match t.follow path with
  | .ok (.file _) => true
  | _ => false

/-- The content of the file at a path. -/
def read (t : FileTree) (path : String) : Except FileError Wire.Bytes :=
  match t.follow path with
  | .ok (.file content) => .ok content
  | .ok (.directory _) => .error .isDirectory
  | .error e => .error e

/-- The components that a path leads to from a directory, without regard to what is there. -/
def resolveFrom (start : List String) (path : String) : List String :=
  (Path.components path).foldl (fun here component =>
    if Path.isIdle component then here
    else if component = ".." then here.dropLast
    else here ++ [component]) (if Path.isAbsolute path then [] else start)

/-- A tree without files whose working directory is the given one. -/
def startingAt (directory : String) : FileTree := { workingDirectory := resolveFrom [] directory }

/-- Adds a file at a path. -/
def insert (t : FileTree) (path : String) (content : Wire.Bytes) : FileTree :=
  { t with files := (resolveFrom t.workingDirectory path, content) :: t.files }

/-- The text of the working directory. -/
def workingPath (t : FileTree) : String := "/" ++ Text.join "/" t.workingDirectory

end FileTree

end VaultKernel
