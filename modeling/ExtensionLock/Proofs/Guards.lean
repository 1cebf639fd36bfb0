import ExtensionLock.Proofs.Confinement
import ExtensionLock.Proofs.Restart
import ExtensionLock.Proofs.Ways

/-! Guards of tracked directories. A registration tracks a place and hands out a guard for it; the
end of a guard releases the place. Places are not counted: one that several guards stand for is
released with the first of them, and the others keep nothing. So a place is tracked from its last
registration to the first end of a guard for it after that. -/

namespace ExtensionLock

namespace FileTree

variable {t t' : FileTree} {path : Path}

theorem grows_filter (t : FileTree) (keep : Place → Bool) :
    Grows ⟨t.entries.filter (fun k _ => keep k)⟩ t := by
  intro q e found
  rw [entry?_filter] at found
  split at found
  · rw [isFixed_directory t ‹_›]
    exact found
  · split at found
    · exact found
    · cases found

theorem grows_removeDirectory (t : FileTree) (path : Path) :
    Grows (t.removeDirectory path).1 t := by
  rw [removeDirectory]
  split
  · rename_i place _ _
    have emptied : Grows (t.emptied place) t := grows_filter t _
    dsimp only
    split
    · rename_i removed
      obtain ⟨-, -, rfl⟩ := removeEmptied_eq_ok removed
      exact (grows_filter _ _).trans emptied
    · exact emptied
    · exact emptied
  · exact .refl t
  · exact .refl t
  · exact .refl t

theorem stat_eq_ok {entry : Entry} (found : t.stat path = .ok entry) :
    ∃ q, t.resolve path = .ok q ∧ t.entry? q = some entry ∧
      (entry = .directory ∨ path.endsInDirectory = false) := by
  obtain ⟨q, resolved, found⟩ := exists_of_bind_eq_ok found
  refine ⟨q, resolved, ?_⟩
  cases here : t.entry? q with
  | none =>
    rw [here] at found
    cases found
  | some e =>
    rw [here] at found
    cases e with
    | directory =>
      cases found
      exact ⟨rfl, .inl rfl⟩
    | file content =>
      dsimp only at found
      split at found
      · cases found
      · rename_i ends
        cases found
        exact ⟨rfl, .inr (Bool.eq_false_iff.mpr ends)⟩

theorem Grows.exists? (grows : Grows t t') (found : t.exists? path = true) :
    t'.exists? path = true := by
  have keep : ∀ d, t.Open d → t'.entry? d = some .directory := fun d opened =>
    grows d .directory (opened d (Place.leadsTo_refl d))
  rw [FileTree.exists?] at found ⊢
  cases seen : t.stat path with
  | error e =>
    rw [seen] at found
    cases found
  | ok entry =>
    obtain ⟨q, resolved, here, ends⟩ := stat_eq_ok seen
    have there := grows q entry here
    rw [stat, resolve_transfer keep resolved]
    simp only [bind, Except.bind, there]
    cases entry with
    | directory => rfl
    | file content =>
      rcases ends with other | ends
      · cases other
      · rw [ends]
        rfl

end FileTree

namespace TrackedDirectories

variable {d : TrackedDirectories} {p q : Path} {t : FileTree}

def Tracks (d : TrackedDirectories) (p : Path) : Prop := ∃ q ∈ d.paths, samePlace p q = true

theorem samePlace_iff : samePlace p q = true ↔ p.components = q.components := beq_iff_eq

theorem samePlace_congr {r : Path} (same : samePlace p q = true) :
    samePlace p r = samePlace q r := by
  rw [samePlace, samePlace, samePlace_iff.mp same]

theorem samePlace_comm (p q : Path) : samePlace p q = samePlace q p := BEq.comm

theorem tracks_track : (d.track q).Tracks p ↔ samePlace p q = true ∨ d.Tracks p := by
  rw [track]
  split
  · rename_i already
    obtain ⟨r, member, same⟩ := List.any_eq_true.mp already
    refine (or_iff_right_of_imp (fun here => ⟨r, member, ?_⟩)).symm
    rw [samePlace_congr here]
    exact same
  · simp only [Tracks, List.mem_append, List.mem_singleton]
    constructor
    · rintro ⟨r, member | rfl, same⟩
      · exact .inr ⟨r, member, same⟩
      · exact .inl same
    · rintro (same | ⟨r, member, same⟩)
      · exact ⟨q, .inr rfl, same⟩
      · exact ⟨r, .inl member, same⟩

theorem tracks_release : (d.release q).Tracks p ↔ samePlace p q = false ∧ d.Tracks p := by
  constructor
  · rintro ⟨r, member, same⟩
    have apart := release_apart member
    refine ⟨?_, r, (List.mem_filter.mp member).1, same⟩
    rw [samePlace_congr same, samePlace_comm]
    exact apart
  · rintro ⟨apart, r, member, same⟩
    refine ⟨r, List.mem_filter.mpr ⟨member, ?_⟩, same⟩
    rw [samePlace_congr same, samePlace_comm] at apart
    rw [apart]
    rfl

def Distinct (d : TrackedDirectories) : Prop :=
  d.paths.Pairwise (fun p q => samePlace p q = false)

theorem Distinct.track (distinct : d.Distinct) (p : Path) : (d.track p).Distinct := by
  rw [TrackedDirectories.track]
  split
  · exact distinct
  · rename_i fresh
    refine List.pairwise_append.mpr ⟨distinct, List.pairwise_singleton _ _, ?_⟩
    intro q member r last
    cases List.mem_singleton.mp last
    rw [samePlace_comm]
    exact Bool.eq_false_iff.mpr (fun same => fresh (List.any_eq_true.mpr ⟨q, member, same⟩))

theorem Distinct.release (distinct : d.Distinct) (p : Path) : (d.release p).Distinct :=
  distinct.filter _

theorem removeEach_cons (t : FileTree) (p : Path) (rest : List Path) :
    (removeEach t (p :: rest)).1 = (removeEach (t.removeDirectory p).1 rest).1 := by
  rw [removeEach]
  split <;> rename_i removed <;> rw [removed]

theorem removeEach_append (t : FileTree) (first rest : List Path) :
    (removeEach t (first ++ rest)).1 = (removeEach (removeEach t first).1 rest).1 := by
  induction first generalizing t with
  | nil => rfl
  | cons p first ih => rw [List.cons_append, removeEach_cons, removeEach_cons, ih]

theorem grows_removeEach (t : FileTree) (paths : List Path) :
    FileTree.Grows (removeEach t paths).1 t := by
  induction paths generalizing t with
  | nil => exact .refl t
  | cons p rest ih =>
    rw [removeEach_cons]
    exact (ih _).trans (t.grows_removeDirectory p)

theorem entry?_removeEach {paths : List Path} {place : Place}
    (away : ∀ p ∈ paths, p.place.leadsTo place = false) :
    FileTree.entry? (removeEach t paths).1 place = t.entry? place := by
  induction paths generalizing t with
  | nil => rfl
  | cons p rest ih =>
    rw [removeEach_cons, ih (fun q member => away q (List.mem_cons_of_mem p member))]
    exact FileTree.entry?_removeDirectory t (away p List.mem_cons_self)

/-- The removal of a directory fails when its turn comes, and not for want of the directory. -/
def Resists (t : FileTree) (order : List Path) (p : Path) : Prop :=
  ∃ before after e, order = before ++ p :: after ∧
    ((removeEach t before).1.removeDirectory p).2 = .error e ∧ e ≠ .notFound

theorem removed_or_resists {order : List Path} (member : p ∈ order) :
    (removeEach t order).1.exists? p = false ∨ Resists t order p := by
  obtain ⟨before, after, whole⟩ := List.append_of_mem member
  rw [whole, removeEach_append, removeEach_cons]
  cases removed : (removeEach t before).1.removeDirectory p with
  | mk u r =>
    by_cases fine : r = .ok () ∨ r = .error .notFound
    · have gone := FileTree.exists?_of_removeDirectory removed fine
      refine .inl (Bool.eq_false_iff.mpr (fun there => ?_))
      rw [(grows_removeEach u after).exists? there] at gone
      cases gone
    · cases r with
      | ok _ => exact absurd (.inl rfl) fine
      | error e =>
        refine .inr ⟨before, after, e, rfl, by rw [removed], fun missing => fine (.inr ?_)⟩
        rw [missing]

end TrackedDirectories

/-- What happens to tracked directories. A guard ends at most once, so those that live are told by
their age. -/
inductive GuardStep where
  | register (p : Path)
  | drop (guard : Nat)
  | removeAll

/-- Tracked directories with the guards that live, the oldest first. -/
structure GuardedDirectories where
  tracked : TrackedDirectories
  guards : List Path
  files : FileTree

namespace GuardedDirectories

open TrackedDirectories (samePlace samePlace_congr tracks_track tracks_release removeEach)

def start (files : FileTree) : GuardedDirectories := ⟨.empty, [], files⟩

def step (g : GuardedDirectories) : GuardStep → GuardedDirectories
  | .register p => { g with tracked := g.tracked.track p, guards := g.guards ++ [p] }
  | .drop n =>
    match g.guards[n]? with
    | some p => { g with tracked := g.tracked.release p, guards := g.guards.eraseIdx n }
    | none => g
  | .removeAll => { g with files := (g.tracked.removeAll g.files).1 }

def run (g : GuardedDirectories) : List GuardStep → GuardedDirectories
  | [] => g
  | s :: rest => (g.step s).run rest

def Guards (g : GuardedDirectories) (p : Path) : Prop := ∃ q ∈ g.guards, samePlace p q = true

def Registers (p : Path) : GuardStep → Prop
  | .register q => samePlace p q = true
  | _ => False

def Ends (g : GuardedDirectories) (p : Path) : GuardStep → Prop
  | .drop n => ∃ q, g.guards[n]? = some q ∧ samePlace p q = true
  | _ => False

/-- Steps that end no guard for the place of a path. -/
def Spare (p : Path) : GuardedDirectories → List GuardStep → Prop
  | _, [] => True
  | g, s :: rest => ¬ g.Ends p s ∧ Spare p (g.step s) rest

/-- Steps that register the place of a path only while no guard for it lives. -/
def Alone (p : Path) : GuardedDirectories → List GuardStep → Prop
  | _, [] => True
  | g, s :: rest => (Registers p s → ¬ g.Guards p) ∧ Alone p (g.step s) rest

/-- The place of a path was registered, and no guard for it has ended since. -/
def Held (p : Path) (g : GuardedDirectories) (steps : List GuardStep) : Prop :=
  ∃ before s after, steps = before ++ s :: after ∧ Registers p s ∧
    Spare p ((g.run before).step s) after

variable {g : GuardedDirectories} {p : Path} {s : GuardStep} {steps rest : List GuardStep}

theorem guards_split {n : Nat} {q : Path} (guard : g.guards[n]? = some q) :
    ∃ older younger, g.guards = older ++ q :: younger ∧ g.guards.eraseIdx n = older ++ younger := by
  obtain ⟨inside, rfl⟩ := List.getElem?_eq_some_iff.mp guard
  refine ⟨g.guards.take n, g.guards.drop (n + 1), ?_, List.eraseIdx_eq_take_drop_succ ..⟩
  rw [← List.drop_eq_getElem_cons inside, List.take_append_drop]

theorem tracks_step : (g.step s).tracked.Tracks p ↔
    Registers p s ∨ (g.tracked.Tracks p ∧ ¬ g.Ends p s) := by
  cases s with
  | register q =>
    rw [step, tracks_track]
    exact or_congr_right (and_iff_left not_false).symm
  | removeAll =>
    exact ⟨fun held => .inr ⟨held, not_false⟩, fun held => held.elim False.elim And.left⟩
  | drop n =>
    cases guard : g.guards[n]? with
    | none =>
      have same : g.step (.drop n) = g := by simp only [step, guard]
      have quiet : ¬ g.Ends p (.drop n) := by
        rintro ⟨q, found, -⟩
        rw [guard] at found
        cases found
      rw [same]
      exact ⟨fun held => .inr ⟨held, quiet⟩, fun held => held.elim False.elim And.left⟩
    | some q =>
      have ends : g.Ends p (.drop n) ↔ samePlace p q = true := by
        simp only [Ends, guard, Option.some.injEq, exists_eq_left']
      have released : (g.step (.drop n)).tracked = g.tracked.release q := by
        simp only [step, guard]
      rw [released, tracks_release, ends, Bool.not_eq_true]
      exact ⟨fun held => .inr held.symm, fun held => held.elim False.elim And.symm⟩

/-- What is tracked after some steps was tracked before and spared, or was registered and spared
since. -/
theorem tracks_run : (g.run steps).tracked.Tracks p ↔
    (g.tracked.Tracks p ∧ Spare p g steps) ∨ Held p g steps := by
  induction steps generalizing g with
  | nil =>
    have none : ¬ Held p g [] := fun ⟨before, s, after, whole, _⟩ => by
      cases before <;> cases whole
    rw [run, Spare, and_true, or_iff_left none]
  | cons s rest ih =>
    have first : Held p g (s :: rest) ↔
        (Registers p s ∧ Spare p (g.step s) rest) ∨ Held p (g.step s) rest := by
      constructor
      · rintro ⟨before, s', after, whole, held⟩
        cases before with
        | nil =>
          obtain ⟨rfl, rfl⟩ := List.cons.inj whole
          exact .inl held
        | cons s'' before =>
          obtain ⟨rfl, rfl⟩ := List.cons.inj whole
          exact .inr ⟨before, s', after, rfl, held⟩
      · rintro (held | ⟨before, s', after, rfl, held⟩)
        · exact ⟨[], s, rest, rfl, held⟩
        · exact ⟨s :: before, s', after, rfl, held⟩
    rw [run, ih, tracks_step, first, Spare]
    tauto

structure Sound (g : GuardedDirectories) : Prop where
  guarded : ∀ p, g.tracked.Tracks p → g.Guards p
  distinct : g.tracked.Distinct

theorem start_sound (files : FileTree) : (start files).Sound where
  guarded := fun _ ⟨_, member, _⟩ => absurd member List.not_mem_nil
  distinct := List.Pairwise.nil

theorem Sound.step (sound : g.Sound) (s : GuardStep) : (g.step s).Sound := by
  cases s with
  | register q =>
    refine ⟨fun p held => ?_, sound.distinct.track q⟩
    rcases tracks_track.mp held with same | held
    · exact ⟨q, List.mem_append_right _ (List.mem_singleton_self q), same⟩
    · obtain ⟨r, member, same⟩ := sound.guarded p held
      exact ⟨r, List.mem_append_left _ member, same⟩
  | removeAll => exact ⟨sound.guarded, sound.distinct⟩
  | drop n =>
    rw [GuardedDirectories.step]
    split
    · rename_i q guard
      refine ⟨fun p held => ?_, sound.distinct.release q⟩
      obtain ⟨apart, held⟩ := tracks_release.mp held
      obtain ⟨r, member, same⟩ := sound.guarded p held
      obtain ⟨older, younger, whole, left⟩ := guards_split guard
      refine ⟨r, ?_, same⟩
      have other : r ≠ q := by
        rintro rfl
        rw [same] at apart
        cases apart
      rw [whole] at member
      show r ∈ g.guards.eraseIdx n
      rw [left]
      simpa [other] using member
    · exact sound

theorem Sound.run (sound : g.Sound) (steps : List GuardStep) : (g.run steps).Sound := by
  induction steps generalizing g with
  | nil => exact sound
  | cons s rest ih => exact ih (sound.step s)

/-- One guard at most lives for a place, and while it does the place is tracked. -/
structure Single (g : GuardedDirectories) (p : Path) : Prop where
  one : g.guards.countP (samePlace p) ≤ 1
  tracked : g.Guards p → g.tracked.Tracks p

theorem Single.step (single : g.Single p) (alone : Registers p s → ¬ g.Guards p) :
    (g.step s).Single p := by
  cases s with
  | register q =>
    refine ⟨?_, ?_⟩
    · show (g.guards ++ [q]).countP (samePlace p) ≤ 1
      rw [List.countP_append, List.countP_singleton]
      split
      · rename_i same
        have none : g.guards.countP (samePlace p) = 0 :=
          List.countP_eq_zero.mpr (fun r member here => alone same ⟨r, member, here⟩)
        omega
      · exact single.one
    · rintro ⟨r, member, same⟩
      refine tracks_track.mpr ?_
      rcases List.mem_append.mp member with member | last
      · exact .inr (single.tracked ⟨r, member, same⟩)
      · cases List.mem_singleton.mp last
        exact .inl same
  | removeAll => exact ⟨single.one, single.tracked⟩
  | drop n =>
    rw [GuardedDirectories.step]
    split
    · rename_i q guard
      obtain ⟨older, younger, whole, left⟩ := guards_split guard
      have one := single.one
      rw [whole, List.countP_append, List.countP_cons] at one
      refine ⟨?_, ?_⟩
      · show (g.guards.eraseIdx n).countP (samePlace p) ≤ 1
        rw [left, List.countP_append]
        omega
      · rintro ⟨r, member, same⟩
        have member : r ∈ older ++ younger := left ▸ member
        refine tracks_release.mpr ⟨?_, single.tracked ⟨r, ?_, same⟩⟩
        · refine Bool.eq_false_iff.mpr (fun here => ?_)
          have another : 0 < (older ++ younger).countP (samePlace p) :=
            List.countP_pos_iff.mpr ⟨r, member, same⟩
          rw [List.countP_append] at another
          rw [if_pos here] at one
          omega
        · rw [whole]
          simp only [List.mem_append, List.mem_cons] at member ⊢
          exact member.imp_right .inr
    · exact single

theorem Single.run (single : g.Single p) (alone : Alone p g steps) : (g.run steps).Single p := by
  induction steps generalizing g with
  | nil => exact single
  | cons s rest ih => exact ih (single.step alone.1) alone.2

theorem start_single (files : FileTree) (p : Path) : (start files).Single p where
  one := Nat.zero_le 1
  tracked := fun ⟨_, member, _⟩ => absurd member List.not_mem_nil

/-- After any steps a place is tracked just if it was registered and no guard for it has ended
since; this takes a guard that lives. A place that is never registered while a guard for it lives is
tracked exactly as long as it has a guard. What is tracked is all that a cancellation considers, in
whatever order: it is gone then, if its removal did not fail, and nothing outside of it has
changed. -/
theorem tracked_since_registered (files : FileTree) (steps : List GuardStep) :
    ∃ g, (start files).run steps = g ∧
      (∀ p, g.tracked.Tracks p ↔ Held p (start files) steps) ∧
      (∀ p, g.tracked.Tracks p → g.Guards p) ∧
      (∀ p, Alone p (start files) steps → (g.tracked.Tracks p ↔ g.Guards p)) ∧
      g.tracked.Distinct ∧
      (g.step .removeAll).tracked = g.tracked ∧ (g.step .removeAll).guards = g.guards ∧
      (g.step .removeAll).files = (removeEach g.files g.tracked.paths).1 ∧
      ∀ order, order.Perm g.tracked.paths →
        (∀ p ∈ g.tracked.paths, FileTree.exists? (removeEach g.files order).1 p = false ∨
          TrackedDirectories.Resists g.files order p) ∧
        ∀ place, (∀ p ∈ g.tracked.paths, p.place.leadsTo place = false) →
          FileTree.entry? (removeEach g.files order).1 place = g.files.entry? place := by
  have sound := (start_sound files).run steps
  refine ⟨_, rfl, fun p => ?_, sound.guarded, fun p alone => ?_, sound.distinct, rfl, rfl, rfl,
    fun order same => ⟨fun p member => ?_, fun place away => ?_⟩⟩
  · have nothing : ¬ (start files).tracked.Tracks p := fun ⟨_, member, _⟩ => by cases member
    rw [tracks_run, or_iff_right (fun held => nothing held.1)]
  · exact ⟨sound.guarded p, ((start_single files p).run alone).tracked⟩
  · exact TrackedDirectories.removed_or_resists (same.mem_iff.mpr member)
  · exact TrackedDirectories.entry?_removeEach (fun p member => away p (same.mem_iff.mp member))

section SecondGuard

def scratch : Path := ⟨"out/modextwd/a"⟩

def scratchAgain : Path := ⟨"out/modextwd/a/"⟩

/-- The first of two guards takes the place from the second; a lone guard keeps it. -/
theorem second_guard_untracked :
    (((start .empty).run [.register scratch, .register scratchAgain, .drop 0]).Guards scratchAgain ∧
      ¬ ((start .empty).run [.register scratch, .register scratchAgain, .drop 0]).tracked.Tracks
        scratchAgain) ∧
    ((start .empty).run [.register scratch, .drop 0, .register scratchAgain]).tracked.Tracks
      scratch := by
  refine ⟨⟨⟨scratchAgain, List.mem_singleton_self _, rfl⟩, ?_⟩, ?_⟩
  · exact fun ⟨_, member, _⟩ => by cases member
  obtain ⟨g, rfl, -, -, single, -⟩ := tracked_since_registered .empty
    [.register scratch, .drop 0, .register scratchAgain]
  have alone : Alone scratch (start .empty) [.register scratch, .drop 0, .register scratchAgain] :=
    ⟨fun _ ⟨_, member, _⟩ => (by cases member), False.elim,
      fun _ ⟨_, member, _⟩ => (by cases member), trivial⟩
  exact (single scratch alone).mpr ⟨scratchAgain, List.mem_singleton_self _, rfl⟩

end SecondGuard

end GuardedDirectories

end ExtensionLock
