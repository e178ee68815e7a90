import VaultKernel.File.Tree
import VaultKernel.Vault.Load

/-!
# Searching for modules

A searcher supplies dependencies from images in memory and from files in search directories. A
loaded module with the right name and version is used again, and a module that is asked for while it
is being loaded is a cycle. Every nested load marks the name in the header of another image as being
loaded, so the number of images bounds the nesting.
-/

namespace VaultKernel

/-- Where modules are looked for. -/
structure Searcher where
  /-- Search directories in order. -/
  paths : List String := []
  /-- Images in memory by module name; these come first. -/
  images : List (String × Wire.Bytes) := []
  files : FileTree := {}

namespace Searcher

/-- The path of a module in a directory. -/
def modulePath (directory name : String) : String := Path.join directory (name ++ ".qmod")

/-- The first file of a module in the search directories. -/
def locate? (s : Searcher) (name : String) : Option String :=
  (s.paths.map fun directory => modulePath directory name).find? s.files.isFile

/-- The image of a module. -/
def image (s : Searcher) (name : String) : Except Failure Wire.Bytes :=
  match s.images.lookup name with
  | some bytes => .ok bytes
  | none =>
    match s.locate? name with
    | some path => (s.files.read path).mapError .file
    | none => .error (.fatal (.imageNotFound name s.paths.length))

/-- Refuses a module of another version than the one asked for. -/
def checkVersion (name : String) (version : Version) (id : ModuleId) : Run ModuleId := do
  match (← get).module? id with
  | none => Run.fatal (.moduleVanished id)
  | some m =>
    if m.version = version then return id
    else Run.fatal (.versionMismatch name m.version version)

/-- Supplies a module with at most `depth` loads nested in each other. A deeper request can only
come from a cycle. -/
def resolveWithin (s : Searcher) : (depth : Nat) → Resolver
  | 0, name, _ => throw (.dependencyCycle name)
  | depth + 1, name, version => do
    let v ← get
    match v.findModule? name version with
    | some id => return id
    | none =>
      if v.isLoading name then throw (.dependencyCycle name)
      else
        let bytes ← Run.answer (s.image name)
        checkVersion name version (← Run.loadImage (s.resolveWithin depth) bytes)

/-- The number of loads that can be nested in each other. -/
def depth (s : Searcher) : Nat := s.images.length + s.files.files.length + 2

/-- Supplies a module. -/
def resolve (s : Searcher) : Resolver := s.resolveWithin s.depth

/-- Loads a module and its dependencies. -/
def load (s : Searcher) (bytes : Wire.Bytes) : Run ModuleId := Run.loadImage s.resolve bytes

/-- Loads a module from a file. -/
def loadFile (s : Searcher) (path : String) : Run ModuleId := do
  s.load (← Run.answer ((s.files.read path).mapError .file))

end Searcher

end VaultKernel
