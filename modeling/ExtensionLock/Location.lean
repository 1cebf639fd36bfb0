import ExtensionLock.Json.Decode

/-! Positions of declarations in files. -/

namespace ExtensionLock

/-- A position in a file. Line zero means the file as a whole. -/
structure Location where
  file : String
  line : Nat
  column : Nat
  deriving DecidableEq, Repr

namespace Location

def builtin : Location := ⟨"<builtin>", 0, 0⟩

def text (l : Location) : String :=
  if l.line = 0 then l.file else l.file ++ ":" ++ toString l.line ++ ":" ++ toString l.column

instance : ToString Location := ⟨text⟩

def limit : Nat := UInt32.size

def record : Record [String, Nat, Nat] :=
  .required "file" .string <| .required "line" (.natBelow limit) <|
  .required "column" (.natBelow limit) .nil

def decoder : Decoder Location := fun o v => do
  let (file, line, column, ()) ← record.decode o v
  .ok ⟨file, line, column⟩

def toJson (l : Location) : Json :=
  .object [("file", .string l.file), ("line", .nat l.line), ("column", .nat l.column)]

end Location

end ExtensionLock
