/-!
# File errors

Why a file cannot be read.
-/

namespace VaultKernel

/-- Why a path leads to no content. -/
inductive FileError where
  | notFound
  /-- A component that is not the last is a file. -/
  | notDirectory
  | isDirectory
  /-- A component or the whole path is too long. -/
  | nameTooLong
  /-- The path holds the character with the code zero. -/
  | nulInPath
  /-- The content is not UTF-8 text. -/
  | invalidText
  deriving DecidableEq, Repr

namespace FileError

/-- What is wrong. -/
def reason : FileError → String
  | .notFound => "No such file or directory"
  | .notDirectory => "Not a directory"
  | .isDirectory => "Is a directory"
  | .nameTooLong => "File name too long"
  | .nulInPath => "file name contained an unexpected NUL byte"
  | .invalidText => "stream did not contain valid UTF-8"

/-- The number of an error that the system tells, as it follows the reason. -/
def numbering : FileError → String
  | .notFound => " (os error 2)"
  | .notDirectory => " (os error 20)"
  | .isDirectory => " (os error 21)"
  | .nameTooLong => " (os error 36)"
  | .nulInPath | .invalidText => ""

/-- The wording of a file error. -/
def message (e : FileError) : String := e.reason ++ e.numbering

end FileError

end VaultKernel
