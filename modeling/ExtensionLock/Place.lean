/-! Places of a file system. The names of a place lead from the current directory, or from a
directory above it after one or more `..`, or from the root after `/`. -/

namespace ExtensionLock

/-- A place: the names on the way, outermost first, and how many they are. -/
structure Place where
  names : List String
  depth : Nat
  depth_eq : depth = names.length
  deriving DecidableEq

namespace Place

def ofNames (names : List String) : Place := ⟨names, names.length, rfl⟩

def here : Place := ofNames []

def root : Place := ofNames ["/"]

/-- Places with fewer names come first, so a place is told at once from those above it. -/
def order : Place → Place → Ordering := compareLex (compareOn depth) (compareOn names)

instance : Ord Place := ⟨order⟩

instance : Std.TransOrd Place :=
  inferInstanceAs (Std.TransCmp (compareLex (compareOn depth) (compareOn names)))

instance : Std.LawfulEqOrd Place where
  eq_of_compare {a b} h := by
    have h : order a b = .eq := h
    simp only [order, compareLex_eq_eq, compareOn] at h
    obtain ⟨h1, h2⟩ := h
    have h1 := Std.LawfulEqOrd.eq_of_compare h1
    have h2 := Std.LawfulEqOrd.eq_of_compare h2
    cases a; cases b; simp_all

def isUpward (p : Place) : Bool := p.names.all (fun name => name == "..")

/-- A directory that exists in every file system. -/
def isFixed (p : Place) : Bool := p.isUpward || p == root

def enter (p : Place) (name : String) : Place :=
  ⟨p.names ++ [name], p.depth + 1, by simp [p.depth_eq]⟩

/-- The place one step up; the root is above itself. -/
def above (p : Place) : Place :=
  if p.isUpward then p.enter ".."
  else if p = root then p
  else ofNames p.names.dropLast

def leadsTo (p q : Place) : Bool := p.names.isPrefixOf q.names

def namesTo (p q : Place) : List String := q.names.drop p.depth

end Place

end ExtensionLock
