import ExtensionLock.RepoSpec
import ExtensionLock.Usage

/-! Flags of a resolution that a lockfile records. -/

namespace ExtensionLock

inductive CheckMode where
  | off
  | warning
  | error
  deriving DecidableEq, Repr

namespace CheckMode

def text : CheckMode → String
  | .off => "off"
  | .warning => "warning"
  | .error => "error"

def decoder : Decoder CheckMode :=
  .choice [("off", .off), ("warning", .warning), ("error", .error)]

def toJson (m : CheckMode) : Json := .string m.text

end CheckMode

structure Flags where
  registries : List String
  moduleOverrides : SortedMap String String
  allowedYankedVersions : List String
  environmentYankedVersions : String
  ignoreDevDependency : Bool
  directDependencies : CheckMode
  compatibility : CheckMode
  deriving DecidableEq

namespace Flags

def default : Flags :=
  { registries := []
    moduleOverrides := .empty
    allowedYankedVersions := []
    environmentYankedVersions := ""
    ignoreDevDependency := false
    directDependencies := .warning
    compatibility := .error }

def record : Record [List String, SortedMap String String, List String, String, Bool, CheckMode,
    CheckMode] :=
  .optional "cmdRegistries" (.list .string) default.registries <|
  .optional "cmdModuleOverrides" (.map .string .string) default.moduleOverrides <|
  .optional "allowedYankedVersions" (.list .string) default.allowedYankedVersions <|
  .optional "envVarAllowedYankedVersions" .string default.environmentYankedVersions <|
  .optional "ignoreDevDependency" .bool default.ignoreDevDependency <|
  .optional "directDependenciesMode" CheckMode.decoder default.directDependencies <|
  .optional "compatibilityMode" CheckMode.decoder default.compatibility .nil

def decoder : Decoder Flags := fun o v => do
  let (registries, moduleOverrides, allowedYankedVersions, environmentYankedVersions,
    ignoreDevDependency, directDependencies, compatibility, ()) ← record.decode o v
  .ok ⟨registries, moduleOverrides, allowedYankedVersions, environmentYankedVersions,
    ignoreDevDependency, directDependencies, compatibility⟩

def toJson (f : Flags) : Json :=
  .object [("cmdRegistries", .array (f.registries.map .string)),
    ("cmdModuleOverrides", stringsToJson f.moduleOverrides),
    ("allowedYankedVersions", .array (f.allowedYankedVersions.map .string)),
    ("envVarAllowedYankedVersions", .string f.environmentYankedVersions),
    ("ignoreDevDependency", .bool f.ignoreDevDependency),
    ("directDependenciesMode", f.directDependencies.toJson),
    ("compatibilityMode", f.compatibility.toJson)]

inductive Name where
  | registry
  | overrideModule
  | allowYankedVersions
  | environmentYankedVersions
  | ignoreDevDependency
  | checkDirectDependencies
  | checkCompatibility
  deriving DecidableEq, Repr

def Name.text : Name → String
  | .registry => "--registry flag"
  | .overrideModule => "--override_module flag"
  | .allowYankedVersions => "--allow_yanked_versions flag"
  | .environmentYankedVersions => "the allowed-yanked-versions environment variable"
  | .ignoreDevDependency => "--ignore_dev_dependency flag"
  | .checkDirectDependencies => "--check_direct_dependencies flag"
  | .checkCompatibility => "--check_compatibility flag"

def changes (locked current : Flags) : List Name :=
  (if locked.registries = current.registries then [] else [.registry]) ++
  (if locked.moduleOverrides = current.moduleOverrides then [] else [.overrideModule]) ++
  (if locked.allowedYankedVersions = current.allowedYankedVersions then []
    else [.allowYankedVersions]) ++
  (if locked.environmentYankedVersions = current.environmentYankedVersions then []
    else [.environmentYankedVersions]) ++
  (if locked.ignoreDevDependency = current.ignoreDevDependency then []
    else [.ignoreDevDependency]) ++
  (if locked.directDependencies = current.directDependencies then []
    else [.checkDirectDependencies]) ++
  (if locked.compatibility = current.compatibility then [] else [.checkCompatibility])

end Flags

end ExtensionLock
