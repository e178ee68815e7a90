import VaultKernel.Class.Resolution
import VaultKernel.Failure.Basic

/-!
# Completing methods

A resolved method becomes a method of its class when its body is decoded and the classes that its
handlers catch are resolved. A negative index catches everything.
-/

namespace VaultKernel

/-- What a handler with a type index catches. -/
def Symbols.catchType (s : Symbols) (index : Int32) : Except Failure (Option ClassRef) :=
  if index.toInt < 0 then .ok none
  else
    match s.type (.type index) with
    | .ok (type, _) => .ok type.class?
    | .error e => .error (.unresolved e)

/-- A protected zone with its catch types resolved. -/
def Symbols.zone (s : Symbols) (z : Image.Zone) : Except Failure ProtectedZone := do
  let catchTypes ← z.catchTypes.mapM s.catchType
  return {
    start := z.start
    tryEnd := z.tryEnd
    stop := z.stop
    filters := z.filters
    catchAddresses := z.catchAddresses
    catchTypes
    kinds := z.kinds }

namespace ResolvedMethod

/-- Whether a method has no body to decode. -/
def hasNoBody (m : ResolvedMethod) : Bool := m.flags.has .native || m.flags.has .abstract

/-- The decoded body. -/
def header (m : ResolvedMethod) (s : Symbols) : Except Failure MethodHeader := do
  match Image.Code.decode m.body with
  | .error e => .error (.fatal (.malformedCode m.signature e))
  | .ok code =>
    return {
      code := code.instructions
      maxStack := m.maxStack
      locals := m.locals
      labels := code.labels
      labelMap := code.labelMap
      zones := ← code.zones.mapM s.zone }

/-- The finished method. -/
def complete (m : ResolvedMethod) (s : Symbols) : Except Failure Method := do
  let header ← if m.hasNoBody then pure none else some <$> m.header s
  return {
    name := m.name
    signature := m.signature
    flags := m.flags
    returnType := m.returnType
    arguments := m.arguments
    header }

end ResolvedMethod

end VaultKernel
