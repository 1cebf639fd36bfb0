import ExtensionLock.FileTree
import ExtensionLock.Json.Printer
import ExtensionLock.Lockfile.Basic
import ExtensionLock.LockfileMode
import ExtensionLock.Text.Blank
import ExtensionLock.Decimal.Shortest
import ExtensionLock.Yaml.Document

/-! The configuration of a resolver: where it keeps its files, how it treats the lockfile, and the
flags that a lockfile records. -/

namespace ExtensionLock

structure ResolverOptions where
  lockfileMode : LockfileMode
  lockfileName : String
  /-- where working directories are made, from the workspace on -/
  outputBase : Option String
  timeoutScaling : Extended
  maxRestarts : Nat
  pretty : Bool
  deriving BEq

namespace ResolverOptions

def default : ResolverOptions :=
  { lockfileMode := .update
    lockfileName := Lockfile.fileName
    outputBase := none
    timeoutScaling := .finite Binary64.one
    maxRestarts := 16
    pretty := true }

def record : Record [LockfileMode, String, Option String, Extended, Nat, Bool] :=
  .optional "lockfileMode" LockfileMode.decoder default.lockfileMode <|
  .optional "lockfileName" .string default.lockfileName <|
  .optional "outputBase" (.option .string) default.outputBase <|
  .optional "timeoutScaling" .float default.timeoutScaling <|
  .optional "maxRestarts" (.natBelow UInt64.size) default.maxRestarts <|
  .optional "pretty" .bool default.pretty .nil

def decoder : Decoder ResolverOptions := fun o v => do
  let (lockfileMode, lockfileName, outputBase, timeoutScaling, maxRestarts, pretty, ()) ←
    record.decode o v
  .ok ⟨lockfileMode, lockfileName, outputBase, timeoutScaling, maxRestarts, pretty⟩

def scalingToJson : Extended → Json
  | .finite x => .number (.float x)
  | _ => .null

def toJson (o : ResolverOptions) : Json :=
  .object [("lockfileMode", o.lockfileMode.toJson), ("lockfileName", .string o.lockfileName),
    ("outputBase", match o.outputBase with
      | some dir => .string dir
      | none => .null),
    ("timeoutScaling", scalingToJson o.timeoutScaling), ("maxRestarts", .nat o.maxRestarts),
    ("pretty", .bool o.pretty)]

def defaultOutputBase : String := ".modlock"

def lockfilePath (o : ResolverOptions) (root : Path) : Path := root.join ⟨o.lockfileName⟩

def outputBasePath (o : ResolverOptions) (root : Path) : Path :=
  root.join ⟨o.outputBase.getD defaultOutputBase⟩

end ResolverOptions

structure ResolverConfig where
  options : ResolverOptions
  flags : Flags
  deriving BEq

inductive ConfigError where
  | io (source : IoError)
  | json (source : DecodeError)
  /-- a file in words that cannot be read -/
  | yaml
  | unknownMode (name : String)
  | badScaling (value : Extended)
  | emptyLockfileName

def ConfigError.message : ConfigError → String
  | .io source => "IO error: " ++ source.message
  | .json source => "Invalid JSON configuration: " ++ source.message
  | .yaml => "Invalid YAML configuration: "
  | .unknownMode name =>
    "Invalid value for lockfileMode: '" ++ name ++ "' is not one of update, error, off"
  | .badScaling value =>
    "Invalid value for timeoutScaling: must be a positive number, got " ++ value.plainText
  | .emptyLockfileName => "Invalid value for lockfileName: must not be empty"

def ConfigError.kind : ConfigError → String
  | .io _ => "Io"
  | .json _ => "Json"
  | .yaml => "Yaml"
  | _ => "InvalidValue"

def ConfigError.report (e : ConfigError) : Json :=
  .failure e.kind (match e with
    | .io _ => []
    | .yaml => []
    | .json .malformed => []
    | .json source => [("message", .string source.message)]
    | _ => [("message", .string e.message)])

def ConfigError.cause : ConfigError → Option String
  | .io source => some source.message
  | .json source => some source.message
  | _ => none

def LockfileMode.ofInput (input : String) : Except ConfigError LockfileMode :=
  (LockfileMode.parse input).mapError .unknownMode

structure ConfigOverrides where
  lockfileMode : Option LockfileMode
  lockfileName : Option String
  outputBase : Option String
  timeoutScaling : Option Extended
  maxRestarts : Option Nat

namespace ConfigOverrides

def scaling : Decoder Extended
  | _, .string (some "inf") => .ok (.infinite false)
  | _, .string (some "-inf") => .ok (.infinite true)
  | _, .string (some "nan") => .ok .nan
  | o, v => Decoder.float o v

def record : Record [Option LockfileMode, Option String, Option String, Option Extended,
    Option Nat] :=
  .optional "lockfileMode" (.option LockfileMode.decoder) none <|
  .optional "lockfileName" (.option .string) none <|
  .optional "outputBase" (.option .string) none <|
  .optional "timeoutScaling" (.option scaling) none <|
  .optional "maxRestarts" (.option (.natBelow UInt64.size)) none .nil

def decoder : Decoder ConfigOverrides := fun o v => do
  let (lockfileMode, lockfileName, outputBase, timeoutScaling, maxRestarts, ()) ← record.decode o v
  .ok ⟨lockfileMode, lockfileName, outputBase, timeoutScaling, maxRestarts⟩

end ConfigOverrides

namespace ResolverConfig

def default : ResolverConfig := ⟨.default, .default⟩

def record : Record [ResolverOptions, Flags] :=
  .optional "resolverOptions" ResolverOptions.decoder .default <|
  .optional "flags" Flags.decoder .default .nil

def decoder : Decoder ResolverConfig := fun o v => do
  let (options, flags, ()) ← record.decode o v
  .ok ⟨options, flags⟩

def toJson (c : ResolverConfig) : Json :=
  .object [("resolverOptions", c.options.toJson), ("flags", c.flags.toJson)]

def fileName : String := "modlock.json"

def validate (c : ResolverConfig) : Except ConfigError Unit :=
  if !(c.options.timeoutScaling.isFinite && c.options.timeoutScaling.isPositive) then
    .error (.badScaling c.options.timeoutScaling)
  else if Text.allBlank c.options.lockfileName then .error .emptyLockfileName
  else .ok ()

def overridden (c : ResolverConfig) (o : ConfigOverrides) : ResolverConfig :=
  { c with options :=
    { c.options with
      lockfileMode := o.lockfileMode.getD c.options.lockfileMode
      lockfileName := o.lockfileName.getD c.options.lockfileName
      outputBase := o.outputBase.orElse (fun _ => c.options.outputBase)
      timeoutScaling := o.timeoutScaling.getD c.options.timeoutScaling
      maxRestarts := o.maxRestarts.getD c.options.maxRestarts } }

/-- Puts other values in place and validates the result, which stands even if it is not valid. -/
def merge (c : ResolverConfig) (o : ConfigOverrides) : ResolverConfig × Except ConfigError Unit :=
  (c.overridden o, (c.overridden o).validate)

def parse (path : Path) (text : String) : Except ConfigError ResolverConfig := do
  let c ← if path.extension? = some "yaml" ∨ path.extension? = some "yml" then
      match (Yaml.parse? text).map decoder.fromWords with
      | some (.ok c) => pure c
      | _ => throw .yaml
    else (decoder.fromText text).mapError .json
  c.validate
  pure c

def load (t : FileTree) (path : Path) : Except ConfigError ResolverConfig := do
  parse path (← (t.readText path).mapError .io)

def init (t : FileTree) (path : Path) : Except ConfigError FileTree :=
  (t.write path (Text.bytes (default.toJson.pretty ++ "\n"))).mapError .io

end ResolverConfig

end ExtensionLock
