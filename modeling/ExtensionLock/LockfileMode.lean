import ExtensionLock.Json.Decode
import ExtensionLock.Text.Lowercase

/-! How the lockfile takes part in a resolution. -/

namespace ExtensionLock

inductive LockfileMode where
  /-- uses entries that match, evaluates the rest, and writes the result -/
  | update
  /-- uses entries that match, fails on the rest, and never writes -/
  | error
  /-- ignores the lockfile -/
  | off
  deriving DecidableEq, Repr

namespace LockfileMode

def text : LockfileMode → String
  | .update => "update"
  | .error => "error"
  | .off => "off"

def names : List (String × LockfileMode) :=
  [("update", .update), ("refresh", .update), ("error", .error), ("verify", .error), ("off", .off),
    ("disabled", .off)]

/-- Reads a mode, upper or lower case; the error is the input in lower case. -/
def parse (input : String) : Except String LockfileMode :=
  let name := Text.lowercaseAscii input
  match names.find? (fun n => n.1 == name) with
  | some n => .ok n.2
  | none => .error name

def decoder : Decoder LockfileMode := .choice names

def toJson (m : LockfileMode) : Json := .string m.text

end LockfileMode

end ExtensionLock
