import ExtensionLock.Location

/-! Errors that scripts raise. -/

namespace ExtensionLock

structure StackFrame where
  function : String
  location : Location
  deriving DecidableEq, Repr

/-- An error of a script, with the calls on the way to it, the outermost first. -/
structure ScriptError where
  message : String
  stack : List StackFrame
  deriving DecidableEq, Repr

def StackFrame.record : Record [String, Location] :=
  .required "function" .string <| .required "location" Location.decoder .nil

def StackFrame.decoder : Decoder StackFrame := fun o v => do
  let (function, location, ()) ← record.decode o v
  .ok ⟨function, location⟩

namespace ScriptError

def record : Record [String, List StackFrame] :=
  .required "message" .string <| .optional "frames" (.list StackFrame.decoder) [] .nil

def decoder : Decoder ScriptError := fun o v => do
  let (message, stack, ()) ← record.decode o v
  .ok ⟨message, stack⟩

def ofMessage (message : String) : ScriptError := ⟨message, []⟩

def frameLine (f : StackFrame) : String :=
  "\tFile " ++ f.location.text ++ ", in " ++ f.function ++ "\n"

def traceback (e : ScriptError) : String :=
  (if e.stack.isEmpty then ""
    else "Traceback (most recent call last):\n" ++ String.join (e.stack.map frameLine)) ++
  "Error: " ++ e.message

end ScriptError

inductive Interrupt where
  /-- an input is not there yet, so the script is to be run again later -/
  | restart
  | error (e : ScriptError)
  /-- the program panics -/
  | panic
  deriving DecidableEq, Repr

end ExtensionLock
