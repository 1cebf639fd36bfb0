import ExtensionLock.Lockfile.Basic

/-! The next lockfile, from the previous one and the results of a resolution. -/

namespace ExtensionLock

structure Resolution where
  id : ExtensionId
  entry : LockedExtension
  deriving BEq

/-- The fresh results of a resolution; a later result of an extension replaces an earlier one. -/
structure FreshResults where
  results : LockedExtensions

namespace FreshResults

def empty : FreshResults := ⟨.empty⟩

def record (f : FreshResults) (r : Resolution) : FreshResults := ⟨f.results.insert r.id r.entry⟩

def size (f : FreshResults) : Nat := f.results.size

def isEmpty (f : FreshResults) : Bool := f.results.isEmpty

/-- An entry survives while every module uses its extension exactly as before. -/
def survives (current previous : UsagesById) (id : ExtensionId) : Bool :=
  match current.get? id, previous.get? id with
  | some now, some was => now == was
  | _, _ => false

/-- The next lockfile: surviving entries of the previous one, and over them the fresh results of
extensions that are used. -/
def build (f : FreshResults) (previous : Lockfile) (inputs : ResolutionInputs) :
    Except LockfileError Lockfile := do
  let next := Lockfile.ofInputs inputs
  let current ← next.usagesById
  let before ← previous.usagesById
  let kept := previous.extensions.filter (fun id _ => survives current before id)
  let fresh := f.results.filter (fun id _ => current.contains id)
  pure { next with extensions := kept.insertAll fresh.entries }

end FreshResults

end ExtensionLock
