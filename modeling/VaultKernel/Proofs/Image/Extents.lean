import VaultKernel.Image.Module
import VaultKernel.Proofs.Wire.Extents

/-!
# Truncated and extended images

Each part of an image takes at least the size that its list is counted with. So an image that was
read is a beginning of the bytes: everything that goes on after it is read as the same image, and
everything that ends before it is refused for want of bytes (`decode_extent`).
-/

namespace VaultKernel

open Wire Image

/-! ## Parts -/

/-- A value that is there already takes no bytes. -/
theorem Definite.liftExcept {α : Type} (x : Except Wire.Error α) :
    Definite 0 (ConstantEntry.liftExcept x) := by
  cases x with
  | ok a => exact .pure a
  | error e => exact .throw 0 e

/-- An entry of the string table takes at least eight bytes. -/
theorem Definite.stringEntry : Definite 8 StringEntry.read :=
  Definite.i32.bind fun _ => Definite.text.map _

/-- An entry of the type table takes at least sixteen bytes. -/
theorem Definite.typeNameEntry : Definite 16 TypeNameEntry.read :=
  Definite.i32.bind fun _ => Definite.text.bind fun _ => Definite.text.bind fun _ =>
    Definite.text.map _

/-- An entry of the field table takes at least twelve bytes. -/
theorem Definite.fieldNameEntry : Definite 12 FieldNameEntry.read :=
  Definite.i32.bind fun _ => Definite.text.bind fun _ => Definite.text.map _

/-- A dependency takes at least eight bytes. -/
theorem Definite.dependencyEntry : Definite 8 DependencyEntry.read :=
  Definite.text.bind fun _ => Definite.text.map _

/-- A class block takes its bytes as a whole, so its content cannot run out of them. -/
theorem Definite.classBlock : Definite 4 ClassBody.readBlock :=
  Definite.block.bind fun content => Definite.liftExcept (ClassBody.decode content)

/-- A list of arguments takes at least the four bytes of its count. -/
theorem Definite.arguments : Definite 4 Argument.readList :=
  .list (by decide) (Definite.i32.bind fun _ => Definite.typeIndex.map _)

/-- The target of an alias takes at least five bytes. -/
theorem Definite.aliasTarget : Definite 5 AliasTarget.read := by
  refine Definite.bool.bind fun isType => show Definite 4 _ from ?_
  split
  · exact Definite.i32.map _
  · exact (Definite.typeIndex.bind fun _ => Definite.arguments.map _).mono (by decide)

/-- An alias takes at least thirteen bytes. -/
theorem Definite.aliasEntry : Definite 13 AliasEntry.read :=
  Definite.i32.bind fun _ => Definite.i32.bind fun _ => Definite.aliasTarget.map _

/-- A constraint takes at least four bytes. -/
theorem Definite.constraint : Definite 4 Constraint.read := by
  refine Definite.i32.bind fun number => show Definite 0 _ from ?_
  cases ConstraintKind.ofNumber? number with
  | none => exact .throw 0 _
  | some kind =>
      dsimp only
      split
      · exact (Definite.i32.map _).mono (by omega)
      · exact .pure _

/-- A generic parameter takes at least twelve bytes. -/
theorem Definite.genericEntry : Definite 12 GenericEntry.read :=
  Definite.i32.bind fun _ => Definite.text.bind fun _ =>
    (Definite.list (by omega) Definite.constraint).map _

/-- The check of the version takes no bytes. -/
theorem Definite.checkVersion (found : Int32) : Definite 0 (ModuleImage.checkVersion found) := by
  unfold ModuleImage.checkVersion
  split
  · exact .pure ()
  · exact .throw 0 _

/-! ## Images -/

/-- An image takes at least forty-four bytes. -/
theorem Definite.moduleImage : Definite 44 ModuleImage.read :=
  Definite.i32.bind fun _ => Definite.i32.bind fun _ => Definite.i32.bind fun found =>
    (Definite.checkVersion found).bind fun _ =>
    (Definite.list (by omega) Definite.stringEntry).bind fun _ =>
    (Definite.list (by omega) Definite.typeNameEntry).bind fun _ =>
    (Definite.list (by omega) Definite.fieldNameEntry).bind fun _ =>
    (Definite.list (by omega) Definite.dependencyEntry).bind fun _ =>
    (Definite.list (by omega) Definite.classBlock).bind fun _ =>
    (Definite.list (by omega) Definite.aliasEntry).bind fun _ =>
    (Definite.list (by omega) Definite.genericEntry).bind fun _ =>
    Definite.block.bind fun content => (Definite.liftExcept (ConstantEntry.decodeAll content)).map _

/-- An image that was read takes a beginning of the bytes: shorter ones are refused for want of
bytes, and those that go on after it are read as the same image. -/
theorem decode_extent {bytes : Bytes} {img : ModuleImage}
    (hdecode : ModuleImage.decode bytes = .ok img) :
    ∃ n ≤ bytes.length,
      (∀ k < n, ∃ e, ModuleImage.decode (bytes.take k) = .error e ∧ e.isShortage) ∧
      ∀ bytes', bytes.take n <+: bytes' → ModuleImage.decode bytes' = .ok img :=
  Definite.moduleImage.decode hdecode

/-- The bytes of an image with one string, and a byte after it. -/
def briefBytes : Bytes :=
  [0, 0, 0, 0, 1, 0, 0, 0, 13, 0, 0, 0, 1, 0, 0, 0, 7, 0, 0, 0, 1, 0, 0, 0, 109]
    ++ List.replicate 24 0 ++ [4, 0, 0, 0, 0, 0, 0, 0, 255]

/-- Cut inside its string the image lacks bytes, cut behind its count it lacks entries. -/
theorem decode_extent_brief : ∃ img : ModuleImage, ModuleImage.decode briefBytes = .ok img ∧
    ModuleImage.decode (briefBytes.take 24) = .error (.unexpectedEnd 24 1) ∧
    ModuleImage.decode (briefBytes.take 20) = .error (.countOverflow 1 12 4) ∧
    ∃ n ≤ briefBytes.length, 24 < n ∧
      (∀ k < n, ∃ e, ModuleImage.decode (briefBytes.take k) = .error e ∧ e.isShortage) ∧
      ∀ bytes', briefBytes.take n <+: bytes' → ModuleImage.decode bytes' = .ok img := by
  have hdecode : ModuleImage.decode briefBytes = .ok
      { nameIndex := 0
        versionIndex := 1
        strings := [⟨7, "m"⟩]
        typeNames := []
        fieldNames := []
        dependencies := []
        classes := []
        aliases := []
        generics := []
        constants := [] } := rfl
  have hshort : ModuleImage.decode (briefBytes.take 24) = .error (.unexpectedEnd 24 1) := rfl
  refine ⟨_, hdecode, hshort, rfl, ?_⟩
  obtain ⟨n, hn, hcut, hlonger⟩ := decode_extent hdecode
  refine ⟨n, hn, Nat.lt_of_not_le fun hle => ?_, hcut, hlonger⟩
  -- were 24 bytes enough, they would be read as the image
  have hread := hlonger (briefBytes.take 24) (List.take_prefix_take_left hle)
  rw [hshort] at hread
  cases hread

end VaultKernel
