import VaultKernel.Command.Invocation
import VaultKernel.Command.Session
import VaultKernel.Settings
import VaultKernel.Vault.Dispose
import VaultKernel.Vault.Search

/-!
# Opening a module

A command first reads the settings: from the file that is named, or else from the nearest settings
file above the working directory, or else it takes the defaults. Then it makes a vault and loads the
module. Dependencies are looked for beside the module, then in the directories of the command line,
then in those of the settings.
-/

namespace VaultKernel

/-- Settings with the directory that their paths are relative to. -/
structure LocatedSettings where
  settings : Settings := {}
  base : String

/-- A vault with the module that a command is about. -/
structure OpenModule where
  vault : Vault
  module : ModuleId

namespace Invocation

/-- The text of a file. -/
def readText (files : FileTree) (path : String) : Except FileError String := do
  match Wire.Reader.textOf? (← files.read path) with
  | some text => return text
  | none => .error .invalidText

/-- The settings in a file. -/
def settingsAt (files : FileTree) (path : String) : Except CommandError LocatedSettings := do
  let text ← (readText files path).mapError .settingsUnreadable
  match Settings.parse? text with
  | some settings =>
    return { settings, base := (Path.directory? path).getD files.workingPath }
  | none => .error (.settingsInvalid path)

/-- The paths at which a settings file is looked for, nearest first. -/
def settingsPaths (files : FileTree) : List String :=
  (Path.ancestors files.workingPath).map fun directory => Path.join directory Settings.fileName

/-- The settings of a request. -/
def locateSettings (i : Invocation) (files : FileTree) : Except CommandError LocatedSettings :=
  match i.settings with
  | some path =>
    if files.pathExists path then settingsAt files path else .error (.settingsMissing path)
  | none =>
    match (settingsPaths files).find? files.pathExists with
    | some path => settingsAt files path
    | none => .ok { base := files.workingPath }

/-- The settings of the vault of a request. -/
def vaultConfig (i : Invocation) (located : LocatedSettings) : VaultConfig :=
  located.settings.vaultConfig located.base ((Path.directory? i.module).toList ++ i.searchPaths)

/-- Loads the module of a request into a new vault. -/
def load (i : Invocation) (files : FileTree) (loader : LibraryLoader) :
    Except CommandError OpenModule := do
  let config := i.vaultConfig (← i.locateSettings files)
  let registry := NativeRegistry.withStandard { loader }
  let vault ← (Vault.create config registry).mapError (.failed none)
  match ({ paths := config.searchPaths, files } : Searcher).loadFile i.module vault with
  | .ok module vault => return { vault, module }
  | .error failure _ => .error (.failed (some ("Failed to load " ++ i.module)) failure)

/-- The files that a request may read, as far as the known files tell. -/
def wanted (i : Invocation) (files : FileTree) : List String :=
  let settings := (i.settings.map ([·])).getD (settingsPaths files)
  let directories := match i.locateSettings files with
    | .ok located => (i.vaultConfig located).searchPaths
    | .error _ => []
  let names := files.files.flatMap fun (_, bytes) =>
    match ModuleImage.decode bytes with
    | .ok image => image.dependencies.map (·.name)
    | .error _ => []
  settings ++ i.module :: directories.flatMap fun directory =>
    names.map (Searcher.modulePath directory)

end Invocation

/-- Disposes the vault of a module. -/
def OpenModule.dispose (m : OpenModule) : Except CommandError DisposeReport :=
  match Run.dispose m.vault with
  | .ok report _ => .ok report
  | .error failure _ => .error (.failed none failure)

end VaultKernel
