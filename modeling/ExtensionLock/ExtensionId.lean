import ExtensionLock.Label

/-! Identities of module extensions, `label%name` or `label%name%isolation`. -/

namespace ExtensionLock

/-- A module extension: the file that defines it, the name it is exported under, and the key that
tells isolated usages apart. -/
structure ExtensionId where
  label : Label
  name : String
  isolation : Option String
  deriving DecidableEq, Repr

namespace ExtensionId

inductive ParseError where
  | malformed (input : String)
  | invalidName (input name : String)
  | label (source : Label.ParseError)
  deriving DecidableEq, Repr

def ParseError.message : ParseError → String
  | .malformed input => "invalid module extension id '" ++ input ++ "': expected '<label>%<name>'"
  | .invalidName input name =>
    "invalid module extension id '" ++ input ++ "': '" ++ name ++ "' is not a valid identifier"
  | .label source => source.message

def ParseError.kind : ParseError → String
  | .malformed _ => "Malformed"
  | .invalidName .. => "InvalidName"
  | .label _ => "LabelError"

def isIdentifier : List Char → Bool
  | [] => false
  | c :: rest => (c.isAlpha || c == '_') && rest.all (fun c => c.isAlphanum || c == '_')

def text (id : ExtensionId) : String :=
  id.label.text ++ "%" ++ id.name ++ (match id.isolation with
    | some key => "%" ++ key
    | none => "")

instance : ToString ExtensionId := ⟨text⟩

/-- Cuts at the first two percent signs; the isolation key may hold more of them. -/
def cut (cs : List Char) : Option (List Char × List Char × Option (List Char)) :=
  (Text.cutAt '%' cs).map (fun (label, rest) =>
    match Text.cutAt '%' rest with
    | some (name, key) => (label, name, some key)
    | none => (label, rest, none))

/-- Reads an id. The name is checked before the label, and the isolation key last. -/
def parse (input : String) : Except ParseError ExtensionId :=
  match cut input.toList with
  | none => .error (.malformed input)
  | some (label, name, key) =>
    if isIdentifier name then
      match Label.parse (String.ofList label) with
      | .error e => .error (.label e)
      | .ok l =>
        if key = some [] then .error (.malformed input)
        else .ok ⟨l, String.ofList name, key.map String.ofList⟩
    else .error (.invalidName input (String.ofList name))

def order : ExtensionId → ExtensionId → Ordering :=
  compareLex (compareOn label) (compareLex (compareOn name) (compareOn isolation))

instance : Ord ExtensionId := ⟨order⟩

instance : Std.TransOrd ExtensionId := inferInstanceAs (Std.TransCmp
  (compareLex (compareOn label) (compareLex (compareOn name) (compareOn isolation))))

instance : Std.LawfulEqOrd ExtensionId where
  eq_of_compare {a b} h := by
    have h : order a b = .eq := h
    simp only [order, compareLex_eq_eq, compareOn] at h
    obtain ⟨h1, h2, h3⟩ := h
    have h1 := Std.LawfulEqOrd.eq_of_compare h1
    have h2 := Std.LawfulEqOrd.eq_of_compare h2
    have h3 := Std.LawfulEqOrd.eq_of_compare h3
    cases a; cases b; simp_all

def decoder : Decoder ExtensionId :=
  Decoder.parsed (fun s => (parse s).mapError ParseError.message)

def toJson (id : ExtensionId) : Json := .string id.text

end ExtensionId

end ExtensionLock
