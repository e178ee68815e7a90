import VaultKernel.Text.Split
import VaultKernel.Text.Numeral

/-!
# Versions

A version is three numbers, a list of pre-release identifiers and a list of build identifiers.
Versions are ordered by their numbers, then by pre-release, where a release comes after all its
pre-releases, and then by build.
-/

namespace VaultKernel

/-- A semantic version. -/
structure Version where
  major : Nat
  minor : Nat
  patch : Nat
  /-- Identifiers of the pre-release; none for a release. -/
  preRelease : List String := []
  /-- Identifiers of the build. -/
  build : List String := []
  deriving DecidableEq, Repr

namespace Version

/-- The version before any other. -/
def zero : Version := { major := 0, minor := 0, patch := 0 }

/-- The identifiers after `mark`, with dots between them; nothing for no identifiers. -/
def tail (mark : String) (identifiers : List String) : String :=
  if identifiers.isEmpty then "" else mark ++ Text.join "." identifiers

/-- The written form. -/
def text (v : Version) : String :=
  Text.natural v.major ++ "." ++ Text.natural v.minor ++ "." ++ Text.natural v.patch
    ++ tail "-" v.preRelease ++ tail "+" v.build

/-- The pre-release identifiers with dots between them. -/
def tag? (v : Version) : Option String :=
  if v.preRelease.isEmpty then none else some (Text.join "." v.preRelease)

/-! ## Order -/

/-- Whether an identifier has only digits. -/
def isNumeric (identifier : String) : Bool := identifier.toList.all Text.isDigit

/-- The digits of a numeric identifier without its leading zeros. -/
def significant (identifier : String) : String :=
  String.ofList (identifier.toList.dropWhile (· = '0'))

/-- Numeric identifiers come before the others. Two numeric ones compare by length and then by
digits, both without leading zeros, and at last by their length with them. -/
def compareIdentifier (a b : String) : Ordering :=
  match isNumeric a, isNumeric b with
  | false, true => .gt
  | true, false => .lt
  | false, false => compare a b
  | true, true =>
    (compare (significant a).length (significant b).length).then
      ((compare (significant a) (significant b)).then (compare a.length b.length))

/-- Compares identifier by identifier; a proper beginning comes first. -/
def compareIdentifiers : List String → List String → Ordering
  | [], [] => .eq
  | [], _ :: _ => .lt
  | _ :: _, [] => .gt
  | a :: as, b :: bs => (compareIdentifier a b).then (compareIdentifiers as bs)

/-- Compares pre-releases; having none comes last. -/
def comparePreRelease : List String → List String → Ordering
  | [], [] => .eq
  | [], _ :: _ => .gt
  | _ :: _, [] => .lt
  | as, bs => compareIdentifiers as bs

/-- The order of versions. -/
def compareVersions (v w : Version) : Ordering :=
  (compare v.major w.major).then <| (compare v.minor w.minor).then <|
  (compare v.patch w.patch).then <| (comparePreRelease v.preRelease w.preRelease).then <|
  compareIdentifiers v.build w.build

/-- Whether `v` does not come after `w`. -/
def le (v w : Version) : Bool := compareVersions v w != .gt

/-- The versions in increasing order; equal ones keep their places. -/
def sort (versions : List Version) : List Version := versions.mergeSort le

end Version

end VaultKernel
