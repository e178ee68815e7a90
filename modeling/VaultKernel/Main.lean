import VaultKernel.Command.Execution
import VaultKernel.Native.SharedFile

/-!
# The program

Reads the files that a request may need, as long as the known ones point to others, and prints the
result. A file that cannot be read counts as missing.
-/

namespace VaultKernel

/-- Adds the files that a request may read, except those that were tried. -/
partial def gather (i : Invocation) (tried : List String) (files : FileTree) : IO FileTree := do
  match (i.wanted files).filter (· ∉ tried) with
  | [] => return files
  | new =>
    let mut files := files
    for path in new do
      try
        let content ← IO.FS.readBinFile path
        files := files.insert path content.data.toList
      catch _ => pure ()
    gather i (new ++ tried) files

/-- The files that the arguments lead to. -/
def filesFor (arguments : List String) : IO FileTree := do
  let directory := (← IO.currentDir).toString
  let start := FileTree.startingAt directory
  match Invocation.read? arguments with
  | some i => gather i [] start
  | none => return start

end VaultKernel

/-- Runs the program and returns its exit code. -/
def main (arguments : List String) : IO UInt32 := do
  let files ← VaultKernel.filesFor arguments
  let result := VaultKernel.CommandResult.of arguments files (.ofFiles files)
  IO.print result.output
  IO.eprint result.diagnostics
  return UInt32.ofNat result.exitCode
