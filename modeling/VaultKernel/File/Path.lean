import VaultKernel.Text.Split

/-!
# Paths

Paths are texts with slashes. Joining keeps the text of both parts and an absolute path replaces
what it is joined to; the parent of a path drops its last component, where empty components and dots
after the first component do not count.
-/

namespace VaultKernel.Path

/-- Whether a path starts at the root. -/
def isAbsolute (path : String) : Bool := path.toList.head? = some '/'

/-- A path taken relative to a directory. -/
def join (directory path : String) : String :=
  if isAbsolute path then path
  else if directory.isEmpty then path
  else if directory.toList.getLast? = some '/' then directory ++ path
  else directory ++ "/" ++ path

/-- The texts between the slashes. -/
def components (path : String) : List String := (Text.pieces '/' path.toList).map String.ofList

/-- Whether a component leads nowhere else. -/
def isIdle (component : String) : Bool := component.isEmpty || component = "."

/-- Drops components from the end that do not count; the list is reversed. A first component counts
unless it is empty. -/
def dropIdle : List String → List String
  | [] => []
  | [first] => [first]
  | last :: rest => if isIdle last then dropIdle rest else last :: rest

/-- The path without its last component; the root and the empty path have no parent. -/
def parent? (path : String) : Option String :=
  match dropIdle (components path).reverse with
  | [] => none
  | [only] => if only.isEmpty then none else some ""
  | _ :: rest =>
    match dropIdle rest with
    | [""] => some (if isAbsolute path then "/" else "")
    | rest => some (Text.join "/" rest.reverse)

/-- The parent of a path, unless it is the empty path. -/
def directory? (path : String) : Option String := (parent? path).filter (!·.isEmpty)

/-- A path and its ancestors, nearest first, at most `fuel` of them. -/
def ancestorsUpTo : (fuel : Nat) → String → List String
  | 0, _ => []
  | fuel + 1, path =>
    path :: (match parent? path with
      | some parent => ancestorsUpTo fuel parent
      | none => [])

/-- A path and its ancestors, nearest first. -/
def ancestors (path : String) : List String := ancestorsUpTo (components path).length path

end VaultKernel.Path
