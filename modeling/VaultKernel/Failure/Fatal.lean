import VaultKernel.Native.LinkError
import VaultKernel.Heap.Basic
import VaultKernel.Value
import VaultKernel.Version.Parse

/-!
# Fatal conditions

A fatal condition is one from which the running program cannot recover. Each has its cause, a reason
code that follows from the cause, and a message.
-/

namespace VaultKernel

/-- The cause of a fatal condition. Names of classes, modules and fields stand for themselves. -/
inductive Fatal where
  -- The image of a module
  | imageRejected (error : Wire.Error)
  | imageNotFound (name : String) (searched : Nat)
  -- Methods and fields
  | entryOfUnknownModule (id : ModuleId)
  | entryPointMissing (module : String)
  | methodMissing (method : MethodRef)
  | fieldMissing (field className : String)
  | messageFieldMissing (className : String)
  -- Memory
  | outOfMemory (requested alive limit : UInt64)
  -- Native code
  | unavailable (error : LinkError)
  -- The state of the vault
  | vaultDisposed (name : String)
  | moduleIdsExhausted
  | classIdsExhausted
  | moduleNotLoaded (id : ModuleId)
  | moduleVanished (id : ModuleId)
  | classGone (ref : ClassRef)
  | classFreedDuringLoad (className : String)
  | classWithoutToken (className : String)
  | layoutMissing (className : String)
  | incompleteClass (className : String)
  | freedAncestor (ref : ClassRef)
  | incompleteAncestor (className : String)
  | inheritanceCycle (className : String)
  | slotOutside (offset : Nat) (object : ObjectRef)
  | bridgeNeeded (signature symbol : String)
  | frameGone (ref : FrameRef)
  | systemFrameKept
  | arraySlot (field : String) (content : Value)
  | arrayClassGone (token : Token)
  | arrayClassSlot (content : Value)
  | arrayStorage (content : Value)
  | arrayStorageShort
  /-- A corruption that a caller reports in its own words. -/
  | corrupt (message : String)
  -- The types of a module
  | bindingMissing (signature : String)
  | bodyMissing (className : String)
  | malformedCode (signature : String) (error : Wire.Error)
  | versionMismatch (name : String) (found requested : Version)
  | invalidVersion (text : String) (problem : Version.Problem)
  | nativeAspectMissing (method : String)
  | nativeAspectCount (method : String)
  | nativeAspectKind (method : String)

namespace Fatal

/-- The reason code of a cause. -/
def code : Fatal → FatalCode
  | .imageRejected _ | .imageNotFound _ _ => .assemblyCouldNotLoad
  | .entryOfUnknownModule _ | .entryPointMissing _ | .methodMissing _ => .missingMethod
  | .fieldMissing _ _ | .messageFieldMissing _ => .missingField
  | .outOfMemory _ _ _ => .outOfMemory
  | .unavailable error => error.code
  | .bindingMissing _ | .bodyMissing _ | .malformedCode _ _ | .versionMismatch _ _ _
  | .invalidVersion _ _ | .nativeAspectMissing _ | .nativeAspectCount _ | .nativeAspectKind _ =>
    .typeLoad
  | _ => .stateCorrupt

/-- The wording of a cause. -/
def message : Fatal → String
  | .imageRejected error => error.message
  | .imageNotFound name searched =>
    "Module '" ++ name ++ "' not found in " ++ Text.natural searched ++ " search path(s)"
  | .entryOfUnknownModule id => "Module " ++ Text.natural id.toNat ++ " is not loaded"
  | .entryPointMissing module => "Entry point 'master' not found in module '" ++ module ++ "'"
  | .methodMissing method => "Method " ++ method.text ++ " not found"
  | .fieldMissing field className => "Field '" ++ field ++ "' not found in '" ++ className ++ "'"
  | .messageFieldMissing className =>
    "Exception class '" ++ className ++ "' has no message field"
  | .outOfMemory requested alive limit => (HeapError.outOfMemory requested alive limit).message
  | .unavailable error => error.message
  | .vaultDisposed name => "Vault '" ++ name ++ "' is disposed"
  | .moduleIdsExhausted => "Module id space exhausted"
  | .classIdsExhausted => "Class id space exhausted"
  | .moduleNotLoaded id => "Module " ++ Text.natural id.toNat ++ " is not loaded"
  | .moduleVanished id => "Module " ++ Text.natural id.toNat ++ " vanished after load"
  | .classGone ref => "Class " ++ ref.entryText ++ " is gone"
  | .classFreedDuringLoad className => "Class '" ++ className ++ "' freed during load"
  | .classWithoutToken className => "Class '" ++ className ++ "' has no runtime token"
  | .layoutMissing className => "Class '" ++ className ++ "' has no initialized vtable"
  | .incompleteClass className => "Cannot allocate incomplete class '" ++ className ++ "'"
  | .freedAncestor ref => "Freed class " ++ ref.entryText ++ " in hierarchy"
  | .incompleteAncestor className =>
    "Class '" ++ className ++ "' is not completed, cannot initialize its vtable"
  | .inheritanceCycle className => "Inheritance cycle through '" ++ className ++ "'"
  | .slotOutside offset object =>
    "Slot " ++ Text.natural offset ++ " outside vtable of " ++ object.objectText
  | .bridgeNeeded signature symbol =>
    "'" ++ signature ++ "' is bound to external symbol '" ++ symbol
      ++ "' and needs the interpreter's call bridge"
  | .frameGone ref => "Frame " ++ ref.entryText ++ " is gone"
  | .systemFrameKept => "System frames cannot be popped"
  | .arraySlot field content => "Array slot '" ++ field ++ "' holds " ++ content.annotated
  | .arrayClassGone token => "Array element class " ++ token.text ++ " is gone"
  | .arrayClassSlot content => "Array class slot holds " ++ content.annotated
  | .arrayStorage content => "Array storage holds " ++ content.annotated
  | .arrayStorageShort => "Array storage shorter than its size"
  | .corrupt message => message
  | .bindingMissing signature => "'" ++ signature ++ "' has no native binding"
  | .bodyMissing className => "Class '" ++ className ++ "' is declared but has no body"
  | .malformedCode signature error => "Malformed IL in '" ++ signature ++ "': " ++ error.message
  | .versionMismatch name found requested =>
    "Module '" ++ name ++ "' has version " ++ found.text ++ ", " ++ requested.text
      ++ " was requested"
  | .invalidVersion text problem => "Invalid version '" ++ text ++ "': " ++ problem.message
  | .nativeAspectMissing method => "(0x1) Extern function without native aspect. [" ++ method ++ "]"
  | .nativeAspectCount method => "(0x1) Native aspect incorrect arguments. [" ++ method ++ "]"
  | .nativeAspectKind method => "(0x2) Native aspect incorrect arguments. [" ++ method ++ "]"

end Fatal

end VaultKernel
