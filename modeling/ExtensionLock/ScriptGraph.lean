import ExtensionLock.Digest
import ExtensionLock.Label

/-! Scripts, the load statements between them, and the fingerprint of a script with all that it
loads. The fingerprint of a script covers its content and, for every load, the label and the
fingerprint of what is loaded; lengths before the variable parts keep them apart. -/

namespace ExtensionLock

structure Script where
  content : Bytes
  loads : List Label
  deriving DecidableEq, Repr

structure ScriptGraph where
  scripts : SortedMap Label Script

inductive ScriptGraphError where
  | missing (label : Label) (loadedFrom : Option Label)
  | cycle (chain : List Label)
  deriving DecidableEq, Repr

def ScriptGraphError.message : ScriptGraphError → String
  | .missing label loadedFrom =>
    "script " ++ label.text ++ " not found" ++ (match loadedFrom with
      | some l => " (loaded from " ++ l.text ++ ")"
      | none => "")
  | .cycle chain =>
    "cycle in load statements: " ++ " -> ".intercalate (chain.map Label.text)

def ScriptGraphError.report (e : ScriptGraphError) : Json :=
  .failure (match e with
    | .missing .. => "MissingScript"
    | .cycle _ => "Cycle") [("message", .string e.message)]

namespace ScriptGraph

def empty : ScriptGraph := ⟨.empty⟩

/-- Adds a script, in place of an earlier one; a repeated load counts where it stands first. -/
def insert (g : ScriptGraph) (label : Label) (content : Bytes) (loads : List Label) : ScriptGraph :=
  ⟨g.scripts.insert label ⟨content, loads.eraseDups⟩⟩

def contains (g : ScriptGraph) (label : Label) : Bool := g.scripts.contains label

def size (g : ScriptGraph) : Nat := g.scripts.size

def isEmpty (g : ScriptGraph) : Bool := g.scripts.isEmpty

def domainTag : Bytes := Text.bytes "modlock.script.v1"

def lengthBytes (n : Nat) : Bytes :=
  (List.range 8).map (fun i => UInt8.ofNat (n / Nat.pow 256 i))

def loadBytes (label : Label) (digest : Bytes) : Bytes :=
  let name := Text.bytes label.text
  lengthBytes name.length ++ name ++ digest

def scriptBytes (content : Bytes) (loads : List (Label × Bytes)) : Bytes :=
  domainTag ++ lengthBytes content.length ++ content ++
    loads.flatMap (fun l => loadBytes l.1 l.2)

abbrev Memo := SortedMap Label Bytes

mutual

/-- The fingerprint of one script, given the fingerprints known so far and the scripts whose loads
are being followed, the last first. The fuel bounds the depth of loads; one more than the number
of scripts is enough, because the followed scripts are all different. -/
def walk (hash : Bytes → Bytes) (g : ScriptGraph) :
    Nat → List Label → Memo → Label → Except ScriptGraphError (Bytes × Memo)
  | fuel, stack, memo, label =>
    match memo.get? label with
    | some digest => .ok (digest, memo)
    | none =>
      if label ∈ stack then
        .error (.cycle (label :: (stack.takeWhile (fun l => l ≠ label)).reverse ++ [label]))
      else match g.scripts.get? label with
        | none => .error (.missing label stack.head?)
        | some script =>
          match fuel with
          | 0 => .error (.cycle [])
          | fuel + 1 => do
            let (loads, memo) ← walkAll hash g fuel (label :: stack) memo script.loads
            let digest := hash (scriptBytes script.content loads)
            .ok (digest, memo.insert label digest)

def walkAll (hash : Bytes → Bytes) (g : ScriptGraph) :
    Nat → List Label → Memo → List Label →
      Except ScriptGraphError (List (Label × Bytes) × Memo)
  | _, _, memo, [] => .ok ([], memo)
  | fuel, stack, memo, label :: rest => do
    let (digest, memo) ← walk hash g fuel stack memo label
    let (digests, memo) ← walkAll hash g fuel stack memo rest
    .ok ((label, digest) :: digests, memo)

end

def digestWith (hash : Bytes → Bytes) (g : ScriptGraph) (root : Label) :
    Except ScriptGraphError Digest :=
  (walk hash g (g.size + 1) [] .empty root).map (fun r => ⟨r.1⟩)

def digest (g : ScriptGraph) (root : Label) : Except ScriptGraphError Digest :=
  digestWith Blake3.hash g root

end ScriptGraph

end ExtensionLock
