import ExtensionLock.Location

/-! Messages for the user, and what a list of them amounts to. -/

namespace ExtensionLock

inductive Severity where
  | error
  | warning
  | info
  deriving DecidableEq, Repr

def Severity.text : Severity → String
  | .error => "error"
  | .warning => "warning"
  | .info => "info"

def Severity.decoder : Decoder Severity :=
  .choice [("error", .error), ("warning", .warning), ("info", .info)]

structure Diagnostic where
  severity : Severity
  location : Option Location
  message : String
  deriving DecidableEq, Repr

namespace Diagnostic

def error (location : Option Location) (message : String) : Diagnostic :=
  ⟨.error, location, message⟩

def warning (location : Option Location) (message : String) : Diagnostic :=
  ⟨.warning, location, message⟩

def info (location : Option Location) (message : String) : Diagnostic := ⟨.info, location, message⟩

def record : Record [Severity, Option Location, String] :=
  .required "level" Severity.decoder <| .optional "location" (.option Location.decoder) none <|
  .required "message" .string .nil

def decoder : Decoder Diagnostic := fun o v => do
  let (severity, location, message, ()) ← record.decode o v
  .ok ⟨severity, location, message⟩

def toJson (d : Diagnostic) : Json :=
  .object [("level", .string d.severity.text),
    ("location", match d.location with
      | some l => l.toJson
      | none => .null),
    ("message", .string d.message)]

def bold (s : String) : String := "\x1b[1m" ++ s ++ "\x1b[0m"

def line (pretty : Bool) (d : Diagnostic) : String :=
  (if pretty then bold d.severity.text else d.severity.text) ++
    (match d.location with
      | some l => " at " ++ l.text
      | none => "") ++ ": " ++ d.message

end Diagnostic

namespace Diagnostics

def count (severity : Severity) (l : List Diagnostic) : Nat :=
  l.countP (fun d => d.severity = severity)

def errorCount (l : List Diagnostic) : Nat := count .error l

def warningCount (l : List Diagnostic) : Nat := count .warning l

def hasErrors (l : List Diagnostic) : Bool := 0 < errorCount l

def countsToJson (l : List Diagnostic) : Json :=
  .array [.bool (hasErrors l), .nat (errorCount l), .nat (warningCount l)]

end Diagnostics

end ExtensionLock
