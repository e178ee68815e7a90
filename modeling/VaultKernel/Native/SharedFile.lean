import VaultKernel.File.Tree
import VaultKernel.Native.Registry

/-!
# Shared libraries in files

What opening a library says on a system whose files are known and of which none is a library. A name
with a slash is a path; any other name is looked for in the directories of the system.
-/

namespace VaultKernel

namespace SharedFile

/-- The name that a text gives to the system: a zero character may close it and stands nowhere
else. -/
def name (text : String) : Except String String :=
  let cs := text.toList
  if cs.getLast? = some '\x00' then
    if cs.dropLast.contains '\x00' then
      .error "could not create a C string from bytes with trailing null"
    else .ok (String.ofList cs.dropLast)
  else if cs.contains '\x00' then .error "could not create a C string from bytes"
  else .ok text

/-- The number of bytes of the header of a library. -/
def headerSize : Nat := 64

/-- Why a file error keeps a library from being opened. -/
def unopened (e : FileError) : String := "cannot open shared object file: " ++ e.reason

/-- Why the content of a file is no library. -/
def refusal (content : Wire.Bytes) : String :=
  if content.length < headerSize then "file too short" else "invalid ELF header"

/-- Why there is no library with a name. -/
def reason (files : FileTree) (name : String) : String :=
  if name.toList.contains '/' then
    match files.follow name with
    | .ok (.file content) => refusal content
    | .ok (.directory _) => "cannot read file data: " ++ FileError.isDirectory.reason
    | .error e => unopened e
  else if FileTree.componentLimit < name.utf8ByteSize then unopened .nameTooLong
  else unopened .notFound

end SharedFile

/-- The loader of a system that has only the given files, none of which is a library. -/
def LibraryLoader.ofFiles (files : FileTree) : LibraryLoader where
  openLibrary _ path := do
    let name ← SharedFile.name path
    throw (name ++ ": " ++ SharedFile.reason files name)
  findSymbol _ _ symbol := .error ("undefined symbol: " ++ symbol)

end VaultKernel
