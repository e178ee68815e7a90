import VaultKernel.Wire.Error

/-!
# Names that nothing defines

While a module is linked, every index must be in its table and every type name must be visible.
-/

namespace VaultKernel

/-- What a module refers to in vain; `module` is the name of the module. -/
inductive Unresolved where
  | type (name module : String)
  | typeIndex (index : Int32) (module : String)
  | fieldIndex (index : Int32) (module : String)
  | stringIndex (index : Int32) (module : String)
  | genericKey (key : Int32) (module : String)
  /-- A method block of the class cannot be read. -/
  | malformed (className : String) (error : Wire.Error)
  deriving DecidableEq, Repr

/-- The name of the kind of a missing name; a malformed method block is fatal. -/
def Unresolved.name : Unresolved → String
  | .type _ _ => "TypeNotFound"
  | .typeIndex _ _ => "TypeNameNotFound"
  | .fieldIndex _ _ => "FieldNameNotFound"
  | .stringIndex _ _ => "StringNotFound"
  | .genericKey _ _ => "GenericNotFound"
  | .malformed _ _ => "Fatal"

/-- The wording of a missing name. -/
def Unresolved.message : Unresolved → String
  | .type name module => "Type '" ++ name ++ "' not found (searched from module '" ++ module ++ "')"
  | .typeIndex index module =>
    "Type name index " ++ Text.integer index.toInt ++ " not found in module '" ++ module ++ "'"
  | .fieldIndex index module =>
    "Field name index " ++ Text.integer index.toInt ++ " not found in module '" ++ module ++ "'"
  | .stringIndex index module =>
    "String index " ++ Text.integer index.toInt ++ " not found in module '" ++ module ++ "'"
  | .genericKey key module =>
    "Generic parameter " ++ Text.integer key.toInt ++ " not found in module '" ++ module ++ "'"
  | .malformed className error =>
    "Malformed method block in '" ++ className ++ "': " ++ error.message

end VaultKernel
