import ExtensionLock.Json.Plain
import ExtensionLock.Json.Tree

/-! Typed data out of documents. A decoder reads a draft, either one that comes straight from a text
or one made from a value. Both give the same data; they differ in which error they see first, and
in the few places where a text is held to more than a value. Words without quotes are read as the
kind of data that is wanted, and an empty one as nothing inside. -/

namespace ExtensionLock

inductive DecodeError where
  /-- the text is not JSON, as far as it was needed -/
  | malformed
  | invalidType
  | invalidValue
  | invalidLength
  | unknownVariant (name : String)
  | missingField (name : String)
  | duplicateField (name : String)
  | invalidBase64
  /-- a text is not in the form of the data that it should name -/
  | rejected (reason : String)
  deriving DecidableEq, Repr

def DecodeError.message : DecodeError → String
  | .malformed => "syntax error"
  | .invalidType => "invalid type"
  | .invalidValue => "invalid value"
  | .invalidLength => "invalid length"
  | .unknownVariant name => "unknown variant `" ++ name ++ "`"
  | .missingField name => "missing field `" ++ name ++ "`"
  | .duplicateField name => "duplicate field `" ++ name ++ "`"
  | .invalidBase64 => "invalid base64"
  | .rejected reason => reason

def Origin.enter (o : Origin) : Except DecodeError Origin :=
  match o.enter? with
  | some inner => .ok inner
  | none => .error .malformed

def Decoder (α : Type) := Origin → Draft → Except DecodeError α

namespace Decoder

variable {α β : Type}

/-- The error for a draft of the wrong kind. A number or text is read to its end first. -/
def mismatch : Draft → DecodeError
  | .broken => .malformed
  | .number none => .malformed
  | .string none => .malformed
  | _ => .invalidType

def string : Decoder String
  | _, .string (some s) => .ok s
  | _, .plain word => .ok word
  | _, v => .error (mismatch v)

def bool : Decoder Bool
  | _, .bool b => .ok b
  | _, .plain word =>
    if word = "true" ∨ word = "True" ∨ word = "TRUE" then .ok true
    else if word = "false" ∨ word = "False" ∨ word = "FALSE" then .ok false
    else .error .invalidType
  | _, v => .error (mismatch v)

def natBelow (limit : Nat) : Decoder Nat
  | _, .number (some (.integer i)) =>
    if 0 ≤ i ∧ i < limit then .ok i.toNat else .error .invalidValue
  | _, .plain word =>
    match Plain.natural? word with
    | some n => if n < limit then .ok n else .error .invalidValue
    | none => .error .invalidType
  | _, v => .error (mismatch v)

def float : Decoder Extended
  | _, .number (some (.integer i)) => .ok (Binary64.ofInt i)
  | _, .number (some (.float x)) => .ok (.finite x)
  | _, .plain word =>
    match Plain.float? word with
    | some x => .ok x
    | none => .error .invalidType
  | _, v => .error (mismatch v)

def json : Decoder Json := fun o v =>
  match v.value? o with
  | some x => .ok x
  | none => .error .malformed

def option (d : Decoder α) : Decoder (Option α)
  | _, .null => .ok none
  | o, .plain word => if Plain.isNull word then .ok none else (d o (.plain word)).map some
  | o, v => (d o v).map some

def parsed (parse : String → Except String α) : Decoder α := fun o v => do
  match parse (← string o v) with
  | .ok x => .ok x
  | .error reason => .error (.rejected reason)

def listItems (d : Decoder α) (o : Origin) : List Draft → Except DecodeError (List α)
  | [] => .ok []
  | v :: rest => do
    let x ← d o v
    let l ← listItems d o rest
    .ok (x :: l)

def requireClosed : Ending → Except DecodeError Unit
  | .closed => .ok ()
  | _ => .error .malformed

def list (d : Decoder α) : Decoder (List α)
  | o, .array items ending => do
    let inner ← o.enter
    let l ← listItems d inner items
    requireClosed ending
    .ok l
  | _, .plain "" => .ok []
  | _, v => .error (mismatch v)

/-- A set, written as a list in any order and with repetitions. -/
def set [Ord α] [Std.TransOrd α] (d : Decoder α) : Decoder (SortedSet α) := fun o v =>
  (list d o v).map SortedSet.ofList

def fieldName : Option String → Except DecodeError String
  | some s => .ok s
  | none => .error .malformed

def mapEntries (key : Decoder α) (d : Decoder β) (o : Origin) :
    List (Option String × Draft) → Except DecodeError (List (α × β))
  | [] => .ok []
  | (k, v) :: rest => do
    let name ← key o (.string k)
    let x ← d o v
    let l ← mapEntries key d o rest
    .ok ((name, x) :: l)

/-- A map, written as an object; of fields whose names mean the same key the later stands. -/
def map [Ord α] [Std.TransOrd α] (key : Decoder α) (d : Decoder β) : Decoder (SortedMap α β)
  | o, .object fields ending => do
    let inner ← o.enter
    let l ← mapEntries key d inner fields
    requireClosed ending
    .ok (SortedMap.ofList l)
  | _, .plain "" => .ok .empty
  | _, v => .error (mismatch v)

def variant (names : List (String × α)) (s : String) : Except DecodeError α :=
  match names.find? (fun n => n.1 == s) with
  | some n => .ok n.2
  | none => .error (.unknownVariant s)

def requireNull : Draft → Except DecodeError Unit
  | .null => .ok ()
  | v => .error (mismatch v)

/-- A choice, written as its name or as an object with that name and `null`. -/
def choice (names : List (String × α)) : Decoder α
  | _, .string (some s) => variant names s
  | _, .plain word => variant names word
  | .value, .object [(some s, v)] .closed => do
    let x ← variant names s
    requireNull v
    .ok x
  | .value, .object _ _ => .error .invalidValue
  | .text depth, .object fields ending =>
    match depth with
    | 0 => .error .malformed
    | _ => match fields, ending with
      | (k, v) :: rest, ending => do
        let x ← variant names (← fieldName k)
        requireNull v
        if rest.isEmpty then requireClosed ending else .error .malformed
        .ok x
      | [], _ => .error .malformed
  | .text _, _ => .error .malformed
  | _, v => .error (mismatch v)

end Decoder

/-- A field of a record: its name, how its value is read, and what stands for it when it is left
out, if it may be. -/
structure Field (α : Type) where
  name : String
  decode : Decoder α
  absent : Option α

inductive Record : List Type → Type 1 where
  | nil : Record []
  | cons {α : Type} {αs : List Type} (field : Field α) (rest : Record αs) : Record (α :: αs)

def Slots : List Type → Type
  | [] => Unit
  | α :: αs => Option α × Slots αs

def Row : List Type → Type
  | [] => Unit
  | α :: αs => α × Row αs

namespace Record

def required {α : Type} {αs : List Type} (name : String) (d : Decoder α) (rest : Record αs) :
    Record (α :: αs) := .cons ⟨name, d, none⟩ rest

def optional {α : Type} {αs : List Type} (name : String) (d : Decoder α) (absent : α)
    (rest : Record αs) : Record (α :: αs) := .cons ⟨name, d, some absent⟩ rest

def blank : {αs : List Type} → Record αs → Slots αs
  | _, .nil => ()
  | _, .cons _ rest => (none, blank rest)

def offer (o : Origin) (name : String) (v : Draft) :
    {αs : List Type} → Record αs → Slots αs → Except DecodeError (Slots αs)
  | _, .nil, _ => .ok ()
  | _, .cons field rest, (slot, slots) =>
    if field.name = name then
      match slot with
      | some _ => .error (.duplicateField name)
      | none => (field.decode o v).map (fun x => (some x, slots))
    else (offer o name v rest slots).map (fun s => (slot, s))

def offerAll (o : Origin) {αs : List Type} (r : Record αs) :
    List (Option String × Draft) → Slots αs → Except DecodeError (Slots αs)
  | [], slots => .ok slots
  | (k, v) :: rest, slots => do
    let name ← Decoder.fieldName k
    let slots ← offer o name v r slots
    offerAll o r rest slots

def finish : {αs : List Type} → Record αs → Slots αs → Except DecodeError (Row αs)
  | _, .nil, _ => .ok ()
  | _, .cons field rest, (slot, slots) =>
    match slot, field.absent with
    | some x, _ => (finish rest slots).map (fun row => (x, row))
    | none, some x => (finish rest slots).map (fun row => (x, row))
    | none, none => .error (.missingField field.name)

/-- Reads the fields from an array in the order of declaration. The array may end early where the
remaining fields have defaults; the items that are too many are left over. -/
def positional (o : Origin) :
    {αs : List Type} → Record αs → List Draft → Ending → Except DecodeError (Row αs × List Draft)
  | _, .nil, items, _ => .ok ((), items)
  | _, .cons field rest, v :: items, ending => do
    let x ← field.decode o v
    let (row, left) ← positional o rest items ending
    .ok ((x, row), left)
  | _, .cons field rest, [], ending =>
    if ending = .closed then
      match field.absent with
      | some x => do
        let (row, left) ← positional o rest [] ending
        .ok ((x, row), left)
      | none => .error .invalidLength
    else .error .malformed

/-- A record, written as an object or, except in words, as an array of its fields. -/
def decode {αs : List Type} (r : Record αs) : Decoder (Row αs)
  | o, .object fields ending => do
    let inner ← o.enter
    let slots ← offerAll inner r fields r.blank
    Decoder.requireClosed ending
    finish r slots
  | .words, .array _ _ => .error .invalidType
  | o, .array items ending => do
    let inner ← o.enter
    let (row, left) ← positional inner r items ending
    if left.isEmpty then
      Decoder.requireClosed ending
      .ok row
    else .error (if o.isText then .malformed else .invalidLength)
  | _, .plain "" => finish r r.blank
  | _, v => .error (Decoder.mismatch v)

end Record

namespace Decoder

variable {α : Type}

def fromText (d : Decoder α) (text : String) : Except DecodeError α := do
  let (v, clean) := Draft.ofText text
  let x ← d (.text Json.depthLimit) v
  if clean then .ok x else .error .malformed

def fromJson (d : Decoder α) (v : Json) : Except DecodeError α := d .value (Draft.ofJson v)

def fromWords (d : Decoder α) (v : Draft) : Except DecodeError α := d .words v

end Decoder

end ExtensionLock
