import VaultKernel.Text.Numeral

/-!
# Codec errors

Why bytes cannot be read, or a value cannot be written, with the position and the quantity that the
diagnostic names. `Error.message` is the only place where the wording stands.
-/

namespace VaultKernel.Wire

/-- Why reading or writing an image failed. -/
inductive Error where
  /-- The image has another format version than `expected`. -/
  | unsupportedVersion (found expected : Int32)
  /-- A read of `needed` bytes at `offset` ran past the end. -/
  | unexpectedEnd (offset needed : Nat)
  /-- A length prefix is negative. -/
  | invalidLength (length : Int) (offset : Nat)
  /-- A count promises more entries than the bytes that follow it can hold. -/
  | countOverflow (count offset remaining : Nat)
  /-- A length does not fit in its prefix of `width` bits. -/
  | lengthOverflow (length width : Nat)
  /-- The bytes of a text are not UTF-8. -/
  | invalidText (offset : Nat)
  /-- A type code is unknown. -/
  | invalidTypeCode (code : Int32)
  /-- The kind of a generic constraint is unknown. -/
  | invalidConstraint (kind : Int32)
  /-- The text of a constant does not have its declared type. -/
  | invalidConstant (name : String) (typeCode : Nat) (text : String)
  /-- A block has bytes that its content did not use. -/
  | blockMismatch (offset declared used : Nat)
  deriving DecidableEq, Repr

/-- The name of the kind of a codec error. -/
def Error.name : Error → String
  | .unsupportedVersion _ _ => "UnsupportedVersion"
  | .unexpectedEnd _ _ => "UnexpectedEnd"
  | .invalidLength _ _ => "InvalidLength"
  | .countOverflow _ _ _ => "CountOverflow"
  | .lengthOverflow _ _ => "LengthOverflow"
  | .invalidText _ => "InvalidUtf8"
  | .invalidTypeCode _ => "InvalidTypeCode"
  | .invalidConstraint _ => "InvalidConstraint"
  | .invalidConstant _ _ _ => "InvalidConstant"
  | .blockMismatch _ _ _ => "BlockMismatch"

/-- The wording of a codec error. -/
def Error.message : Error → String
  | .unsupportedVersion found expected =>
    "Unsupported format version: " ++ Text.integer found.toInt ++ " (expected "
      ++ Text.integer expected.toInt ++ ")"
  | .unexpectedEnd offset needed =>
    "Unexpected end of bytecode at offset " ++ Text.natural offset ++ " (needed "
      ++ Text.natural needed ++ " bytes)"
  | .invalidLength length offset =>
    "Invalid length " ++ Text.integer length ++ " at offset " ++ Text.natural offset
  | .countOverflow count offset remaining =>
    "Count " ++ Text.natural count ++ " at offset " ++ Text.natural offset ++ " exceeds the "
      ++ Text.natural remaining ++ " bytes left"
  | .lengthOverflow length width =>
    "Length " ++ Text.natural length ++ " does not fit in an i" ++ Text.natural width ++ " prefix"
  | .invalidText offset => "Invalid UTF-8 string at offset " ++ Text.natural offset
  | .invalidTypeCode code => "Invalid type code: " ++ Text.integer code.toInt
  | .invalidConstraint kind => "Invalid generic constraint kind: " ++ Text.integer kind.toInt
  | .invalidConstant name typeCode text =>
    "Invalid constant '" ++ name ++ "' of type " ++ Text.natural typeCode ++ ": '" ++ text ++ "'"
  | .blockMismatch offset declared used =>
    "Block at offset " ++ Text.natural offset ++ " declared " ++ Text.natural declared
      ++ " bytes but used " ++ Text.natural used

end VaultKernel.Wire
