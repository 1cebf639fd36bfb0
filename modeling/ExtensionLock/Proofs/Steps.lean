import Mathlib.Data.List.Forall2

/-! Steps one after another, each of which may fail. All of them together succeed only if each does
on what came before. -/

namespace ExtensionLock

theorem exists_of_bind_eq_ok {x : Except ε α} {f : α → Except ε β} {y : β}
    (done : (x >>= f) = .ok y) : ∃ a, x = .ok a ∧ f a = .ok y := by
  cases x with
  | error e => cases done
  | ok a => exact ⟨a, rfl, done⟩

theorem exists_of_map_eq_ok {x : Except ε α} {f : α → β} {y : β} (done : x.map f = .ok y) :
    ∃ a, x = .ok a ∧ f a = y := by
  cases x with
  | error e => cases done
  | ok a => exact ⟨a, rfl, Except.ok.inj done⟩

theorem exists_of_isOk {x : Except ε α} (fine : x.isOk = true) : ∃ a, x = .ok a := by
  cases x with
  | error e => cases fine
  | ok a => exact ⟨a, rfl⟩

theorem exists_error_of_isOk {x : Except ε α} (failed : x.isOk = false) : ∃ e, x = .error e := by
  cases x with
  | error e => exact ⟨e, rfl⟩
  | ok a => cases failed

theorem mapM_congr {f f' : α → Except ε β} {l : List α} (alike : ∀ a ∈ l, f a = f' a) :
    l.mapM f = l.mapM f' := by
  induction l with
  | nil => rfl
  | cons a l ih =>
    obtain ⟨first, others⟩ := List.forall_mem_cons.mp alike
    rw [List.mapM_cons, List.mapM_cons, first, ih others]

theorem exists_of_mapM_eq_error {f : α → Except ε β} {l : List α} {e : ε}
    (failed : l.mapM f = .error e) : ∃ a ∈ l, f a = .error e := by
  induction l with
  | nil => cases failed
  | cons a l ih =>
    rw [List.mapM_cons] at failed
    cases first : f a with
    | error e' =>
      rw [first] at failed
      cases failed
      exact ⟨a, List.mem_cons_self, first⟩
    | ok b =>
      rw [first] at failed
      cases others : l.mapM f with
      | ok bs => rw [others] at failed; cases failed
      | error e' =>
        rw [others] at failed
        cases failed
        obtain ⟨a', member, here⟩ := ih others
        exact ⟨a', List.mem_cons_of_mem a member, here⟩

theorem run_bind (a : ExceptT ε (StateM σ) α) (f : α → ExceptT ε (StateM σ) β) (w : σ) :
    (a >>= f).run w = match a.run w with
      | (.ok x, w) => (f x).run w
      | (.error e, w) => (.error e, w) := by
  change ExceptT.bindCont f (a.run w).1 (a.run w).2 = _
  cases h : a.run w with
  | mk result w' => cases result <;> rfl

theorem bind_eq_ok {a : ExceptT ε (StateM σ) α} {f : α → ExceptT ε (StateM σ) β} {w w' : σ}
    {y : β} :
    (a >>= f).run w = (.ok y, w') ↔
      ∃ x w₁, a.run w = (.ok x, w₁) ∧ (f x).run w₁ = (.ok y, w') := by
  rw [run_bind]
  cases h : a.run w with
  | mk result w₁ => cases result with
    | ok x =>
      constructor
      · intro h'
        exact ⟨x, w₁, rfl, h'⟩
      · rintro ⟨_, _, same, h'⟩
        cases same
        exact h'
    | error e => exact ⟨fun h' => (by cases h'), fun ⟨_, _, h', _⟩ => (by cases h')⟩

theorem bind_eq_error {a : ExceptT ε (StateM σ) α} {f : α → ExceptT ε (StateM σ) β} {w w' : σ}
    {e : ε} :
    (a >>= f).run w = (.error e, w') ↔ a.run w = (.error e, w') ∨
      ∃ x w₁, a.run w = (.ok x, w₁) ∧ (f x).run w₁ = (.error e, w') := by
  rw [run_bind]
  cases h : a.run w with
  | mk result w₁ => cases result with
    | ok x =>
      constructor
      · intro h'
        exact .inr ⟨x, w₁, rfl, h'⟩
      · rintro (h' | ⟨_, _, same, h'⟩)
        · cases h'
        · cases same
          exact h'
    | error e' =>
      constructor
      · intro h'
        cases h'
        exact .inl rfl
      · rintro (h' | ⟨_, _, h', _⟩)
        · cases h'
          rfl
        · cases h'

end ExtensionLock
