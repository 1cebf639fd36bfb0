import ExtensionLock.Proofs.Parallel

/-! What a mode lets a session do. Requests before the end leave the lockfile alone in every mode,
and in error mode all files. A session in off mode cannot tell what is in the lockfile: it does the
same whatever there is. -/

namespace ExtensionLock

variable {place : Place} {b b' : Option Bytes}

inductive Request where
  | checkInputs (current : ResolutionInputs)
  | call (c : Call)
  | cancel

inductive Reply where
  | inputs (result : Except SessionError (List InputChange))
  | value (result : Except SessionError (Step ExtensionValue))
  | values (result : Except SessionError Session.Values)
  | removed (n : Nat)

/-- Whatever is evaluated for a request keeps away from a place. -/
def Request.Avoids : Request → Evaluator → Place → Prop
  | .call c, v, place => c.engine.Avoids v place
  | _, _, _ => True

namespace Session

variable {s : Session} {w w' : World}

def answer (s : Session) : Request → World → Reply × Session × World
  | .checkInputs current, w => (.inputs (s.checkInputs current), s, w)
  | .call (.evaluate e id), w => (.value (s.evaluate e id w).1, (s.evaluate e id w).2)
  | .call (.evaluateAll e ids), w => (.values (s.evaluateAll e ids w).1, (s.evaluateAll e ids w).2)
  | .cancel, w => (.removed w.cancel.2, s, w.cancel.1)

def answers (s : Session) : List Request → World → List Reply × Session × World
  | [], w => ([], s, w)
  | r :: rest, w =>
    let (reply, s, w) := s.answer r w
    let (replies, s, w) := answers s rest w
    (reply :: replies, s, w)

def resolve (store : LockfileStore) (v : Evaluator) (restarts : Nat) (requests : List Request)
    (inputs : ResolutionInputs) (w : World) :
    Except LockfileError (List Reply × Except LockfileError (Option Lockfile)) × World :=
  match start store v restarts w.files with
  | .error e => (.error e, w)
  | .ok s =>
    let (replies, s, w) := s.answers requests w
    let (written, w) := s.finish inputs w
    (.ok (replies, written), w)

theorem answer_call (s : Session) (c : Call) (w : World) :
    (s.answer (.call c) w).2 = s.call c w := by
  cases c <;> rfl

theorem continues_answer (s : Session) (r : Request) (w : World) :
    s.Continues (s.answer r w).2.1 := by
  cases r with
  | checkInputs current => exact .refl s
  | call c =>
    rw [answer_call]
    exact continues_call s c w
  | cancel => exact .refl s

theorem continues_answers (s : Session) (requests : List Request) (w : World) :
    s.Continues (s.answers requests w).2.1 := by
  induction requests generalizing s w with
  | nil => exact .refl s
  | cons r rest ih => exact (continues_answer s r w).trans (ih _ _)

section Side

variable {e : Engine}

theorem evaluate_twins (avoids : e.Avoids s.evaluator place) (id : ExtensionId)
    (twins : World.Twins place b b' w w') : ∃ result s' u u',
      s.evaluate e id w = (result, s', u) ∧ s.evaluate e id w' = (result, s', u') ∧
        World.Twins place b b' u u' := by
  have inside : (s.engine e).Avoids s.evaluator place := avoids.withLockfile s.lockfile
  obtain ⟨outcome, u, u', first, second, left⟩ := Evaluator.evaluate_twins inside id twins
  simp only [evaluate, twins.cancelled, first, second]
  split
  · exact ⟨_, _, w, w', rfl, rfl, twins⟩
  · cases outcome with
    | error source => exact ⟨_, _, u, u', rfl, rfl, left⟩
    | ok step => cases step <;> exact ⟨_, _, u, u', rfl, rfl, left⟩

theorem round_twins (avoids : e.Avoids s.evaluator place) (ids : List ExtensionId)
    (twins : World.Twins place b b' w w') : ∃ outcomes u u', s.round e ids w = (outcomes, u) ∧
      s.round e ids w' = (outcomes, u') ∧ World.Twins place b b' u u' := by
  induction ids generalizing w w' with
  | nil => exact ⟨[], w, w', rfl, rfl, twins⟩
  | cons id rest ih =>
    have inside : (s.engine e).Avoids s.evaluator place := avoids.withLockfile s.lockfile
    obtain ⟨outcome, u, u', first, second, left⟩ := Evaluator.evaluate_twins inside id twins
    obtain ⟨outcomes, v, v', others, others', left'⟩ := ih left
    simp only [round, first, second, others, others']
    exact ⟨_, v, v', rfl, rfl, left'⟩

theorem rounds_twins (avoids : e.Avoids s.evaluator place) (left done : Nat)
    (pending : List ExtensionId) (values : Values) (twins : World.Twins place b b' w w') :
    ∃ result s' u u', rounds e left done s pending values w = (result, s', u) ∧
      rounds e left done s pending values w' = (result, s', u') ∧ World.Twins place b b' u u' := by
  induction left generalizing done s pending values w w' with
  | zero =>
    cases pending with
    | nil => exact ⟨_, _, w, w', rfl, rfl, twins⟩
    | cons id rest =>
      simp only [rounds, twins.cancelled]
      split <;> exact ⟨_, _, w, w', rfl, rfl, twins⟩
  | succ left ih =>
    cases pending with
    | nil => exact ⟨_, _, w, w', rfl, rfl, twins⟩
    | cons id rest =>
      obtain ⟨outcomes, u, u', first, second, after⟩ := round_twins avoids (id :: rest) twins
      simp only [rounds, twins.cancelled, first, second]
      split
      · exact ⟨_, _, w, w', rfl, rfl, twins⟩
      · cases sift outcomes with
        | error failure => exact ⟨_, _, u, u', rfl, rfl, after⟩
        | ok divided =>
          have avoids' : e.Avoids (s.acceptAll divided.1).evaluator place := by
            rw [(continues_acceptAll s divided.1).evaluator]
            exact avoids
          exact ih avoids' (done + 1) divided.2 _ after

theorem answer_twins {r : Request} (avoids : r.Avoids s.evaluator place)
    (twins : World.Twins place b b' w w') : ∃ reply s' u u', s.answer r w = (reply, s', u) ∧
      s.answer r w' = (reply, s', u') ∧ World.Twins place b b' u u' := by
  cases r with
  | checkInputs current => exact ⟨_, _, w, w', rfl, rfl, twins⟩
  | cancel =>
    obtain ⟨count, left⟩ := World.cancel_twins twins
    refine ⟨_, s, _, _, rfl, ?_, left⟩
    rw [answer, count]
  | call c => cases c with
    | evaluate e id =>
      obtain ⟨result, s', u, u', first, second, left⟩ := evaluate_twins (e := e) avoids id twins
      simp only [answer, first, second]
      exact ⟨_, _, u, u', rfl, rfl, left⟩
    | evaluateAll e ids =>
      obtain ⟨result, s', u, u', first, second, left⟩ := rounds_twins (e := e) avoids s.maxRounds 0
        (SortedSet.ofList ids).toList .empty twins
      simp only [answer, evaluateAll, first, second]
      exact ⟨_, _, u, u', rfl, rfl, left⟩

theorem answers_twins {requests : List Request}
    (avoids : ∀ r ∈ requests, r.Avoids s.evaluator place)
    (twins : World.Twins place b b' w w') : ∃ replies s' u u',
      s.answers requests w = (replies, s', u) ∧ s.answers requests w' = (replies, s', u') ∧
        World.Twins place b b' u u' := by
  induction requests generalizing s w w' with
  | nil => exact ⟨[], s, w, w', rfl, rfl, twins⟩
  | cons r rest ih =>
    obtain ⟨here, later⟩ := List.forall_mem_cons.mp avoids
    obtain ⟨reply, s₁, u, u', first, second, left⟩ := answer_twins here twins
    have continues := continues_answer s r w
    rw [first] at continues
    obtain ⟨replies, s₂, v, v', others, others', left'⟩ :=
      ih (s := s₁) (fun r' member => continues.evaluator ▸ later r' member) left
    simp only [answers, first, second, others, others']
    exact ⟨_, _, v, v', rfl, rfl, left'⟩

end Side

theorem rounds_cancelled {e : Engine} {left done : Nat} {pending : List ExtensionId}
    {values : Values} (cancelled : w.cancelled = true) :
    (rounds e left done s pending values w).2.2 = w := by
  cases pending with
  | nil => cases left <;> rfl
  | cons id rest => cases left <;> simp only [rounds, cancelled, if_true]

theorem answer_cancelled (r : Request) (cancelled : w.cancelled = true) :
    (s.answer r w).2.2.cancelled = true := by
  cases r with
  | checkInputs current => exact cancelled
  | cancel => rfl
  | call c => cases c with
    | evaluate e id =>
      simp only [answer, evaluate, cancelled, if_true]
    | evaluateAll e ids =>
      simp only [answer, evaluateAll, rounds_cancelled cancelled]
      exact cancelled

theorem answers_cancelled {requests : List Request}
    (called : w.cancelled = true ∨ .cancel ∈ requests) :
    (s.answers requests w).2.2.cancelled = true := by
  induction requests generalizing s w with
  | nil =>
    rcases called with cancelled | called
    · exact cancelled
    · cases called
  | cons r rest ih =>
    apply ih
    rcases called with cancelled | called
    · exact .inl (answer_cancelled r cancelled)
    · rcases List.mem_cons.mp called with rfl | later
      · exact .inl rfl
      · exact .inr later

/-- Where an entry is missing or does not fit, error mode fails instead of running anything. -/
theorem evaluator_quiet (strict : s.mode = .error) (e : Engine) (id : ExtensionId) (w : World) :
    ∃ asked, (s.evaluator.evaluate (s.engine e) id w).2 = { w with asked } := by
  refine Evaluator.evaluate_quiet_of_reuse w (fun a w₁ approached => ?_)
  obtain ⟨decides, -⟩ := Evaluator.approach_eq_ok.mp approached
  cases decided : a.decision with
  | reuse entry => exact ⟨entry, rfl⟩
  | evaluate record =>
    have decision := decides.decision
    rw [decided] at decision
    have on : s.evaluator.mode ≠ .off := fun off => (by cases strict.symm.trans off)
    obtain ⟨update, -⟩ := LockfileMode.decide_eq_evaluate on decision
    cases strict.symm.trans update

theorem answer_quiet (strict : s.mode = .error) (r : Request) (idle : w.tracked = .empty) :
    ∃ asked cancelled, (s.answer r w).2.2 = { w with asked, cancelled } := by
  cases r with
  | checkInputs current => exact ⟨w.asked, w.cancelled, rfl⟩
  | cancel =>
    refine ⟨w.asked, true, ?_⟩
    simp only [answer, World.cancel, idle]
    rfl
  | call c => cases c with
    | evaluate e id =>
      obtain ⟨asked, quiet⟩ := evaluator_quiet strict e id w
      refine ⟨(s.evaluate e id w).2.2.asked, w.cancelled, ?_⟩
      simp only [answer, evaluate]
      split
      · rfl
      · split <;> rename_i ran <;> rw [ran] at quiet <;> dsimp only at quiet <;> subst quiet <;> rfl
    | evaluateAll e ids =>
      have quiet : ∃ asked, (s.evaluateAll e ids w).2.2 = { w with asked } :=
        rounds_quiet (fun id _ => evaluator_quiet strict e id) .empty w
      obtain ⟨asked, quiet⟩ := quiet
      exact ⟨asked, w.cancelled, quiet⟩

theorem answers_quiet (strict : s.mode = .error) (requests : List Request)
    (idle : w.tracked = .empty) :
    ∃ asked cancelled, (s.answers requests w).2.2 = { w with asked, cancelled } := by
  induction requests generalizing s w with
  | nil => exact ⟨w.asked, w.cancelled, rfl⟩
  | cons r rest ih =>
    obtain ⟨asked, cancelled, first⟩ := answer_quiet strict r idle
    have strict' : (s.answer r w).2.1.mode = .error := (continues_answer s r w).mode.trans strict
    obtain ⟨asked', cancelled', others⟩ := ih (s := (s.answer r w).2.1)
      (w := (s.answer r w).2.2) strict' (by rw [first]; exact idle)
    refine ⟨asked', cancelled', ?_⟩
    change ((s.answer r w).2.1.answers rest (s.answer r w).2.2).2.2 = _
    rw [others, first]

theorem finish_changes {inputs : ResolutionInputs} (changes : (s.finish inputs w).2 ≠ w) :
    s.mode = .update ∧ w.cancelled = false ∧
      ∃ next, s.fresh.build s.lockfile inputs = .ok next ∧
        ((s.lockfile == next) = false ∨ s.store.exists? w.files = false) := by
  rw [finish] at changes
  split at changes
  · exact absurd rfl changes
  · rename_i active
    obtain ⟨going, update⟩ := not_or.mp active
    split at changes
    · exact absurd rfl changes
    · rename_i next built
      split at changes
      · exact absurd rfl changes
      · rename_i new
        refine ⟨Classical.not_not.mp update, Bool.eq_false_iff.mpr going, next, built, ?_⟩
        rw [← Bool.and_eq_false_iff]
        exact Bool.eq_false_iff.mpr new

theorem finish_of_ne_update (other : s.mode ≠ .update) (inputs : ResolutionInputs) (w : World) :
    s.finish inputs w = (.ok none, w) := by
  rw [finish, if_pos (.inr other)]

theorem resolve_twins {v : Evaluator} {requests : List Request} (off : v.mode = .off)
    (avoids : ∀ r ∈ requests, r.Avoids v place) (store : LockfileStore) (restarts : Nat)
    (inputs : ResolutionInputs) (twins : World.Twins place b b' w w') :
    ∃ outcome u u', resolve store v restarts requests inputs w = (.ok outcome, u) ∧
      resolve store v restarts requests inputs w' = (.ok outcome, u') ∧
        World.Twins place b b' u u' := by
  have opened (t : FileTree) : start store v restarts t =
      .ok (withLockfile store .empty v restarts) := by
    rw [start, if_pos off]
    rfl
  have avoids' : ∀ r ∈ requests, r.Avoids (withLockfile store .empty v restarts).evaluator place :=
    avoids
  obtain ⟨replies, s', u, u', first, second, left⟩ := answers_twins avoids' twins
  have other : s'.mode ≠ .update := by
    have continues := continues_answers (withLockfile store .empty v restarts) requests w
    rw [first] at continues
    rw [continues.mode]
    change v.mode ≠ .update
    rw [off]
    exact fun h => (by cases h)
  simp only [resolve, opened, first, second, finish_of_ne_update other]
  exact ⟨_, u, u', rfl, rfl, left⟩

/-- Requests never touch the lockfile, and a finish only changes it in update mode, if the session
was not cancelled, for a lockfile that is new or missing. In error mode requests do nothing but ask
the engine, apart from the mark of a cancelled session. In off mode the whole session is the same,
whatever the lockfile contains. -/
theorem modes_confine_lockfile {s' : Session} {requests : List Request} {replies : List Reply}
    (avoids : ∀ r ∈ requests, r.Avoids s.evaluator s.store.path.place)
    (idle : w.tracked = .empty) (answered : s.answers requests w = (replies, s', w')) :
    w'.files.fileAt s.store.path.place = w.files.fileAt s.store.path.place ∧
    (∀ inputs, (s'.finish inputs w').2.files.fileAt s.store.path.place ≠
        w'.files.fileAt s.store.path.place →
      s.mode = .update ∧ .cancel ∉ requests ∧ w'.cancelled = false ∧
        ∃ next, s'.fresh.build s.lockfile inputs = .ok next ∧
          ((s.lockfile == next) = false ∨ s.store.exists? w'.files = false)) ∧
    (s.mode = .error → (∃ asked cancelled, w' = { w with asked, cancelled }) ∧
      ∀ inputs, s'.finish inputs w' = (.ok none, w')) ∧
    (s.mode = .off → ∀ restarts inputs b b' files,
      FileTree.Twins s.store.path.place (some b) (some b') w.files files →
      ∃ outcome u files',
        resolve s.store s.evaluator restarts requests inputs w = (.ok outcome, u) ∧
        resolve s.store s.evaluator restarts requests inputs { w with files } =
          (.ok outcome, { u with files := files' }) ∧
        FileTree.Twins s.store.path.place (some b) (some b') u.files files') := by
  have clear : w.tracked.Avoid s.store.path.place := by
    rw [idle]
    exact fun p member => (by cases member)
  have continues := continues_answers s requests w
  rw [answered] at continues
  refine ⟨?_, fun inputs changes => ?_, fun strict => ⟨?_, fun inputs => ?_⟩, ?_⟩
  · obtain ⟨_, _, _, _, first, _, files, -, twins, -⟩ :=
      answers_twins avoids ⟨w.files, rfl, .refl s.store.path.place w.files, clear⟩
    rw [answered] at first
    cases first
    exact twins.left
  · have moved : (s'.finish inputs w').2 ≠ w' := fun same => changes (by rw [same])
    obtain ⟨update, going, next, built, new⟩ := finish_changes moved
    rw [continues.mode] at update
    rw [continues.lockfile] at built new
    rw [continues.store] at new
    refine ⟨update, fun called => ?_, going, next, built, new⟩
    have cancelled := answers_cancelled (s := s) (w := w) (.inr called)
    rw [answered, going] at cancelled
    cases cancelled
  · have quiet := answers_quiet strict requests idle
    rwa [answered] at quiet
  · apply finish_of_ne_update
    rw [continues.mode, strict]
    exact fun h => (by cases h)
  · intro off restarts inputs b b' files twins
    obtain ⟨outcome, u, _, first, second, files', rfl, left, -⟩ :=
      resolve_twins off avoids s.store restarts inputs ⟨files, rfl, twins, clear⟩
    exact ⟨outcome, u, files', first, second, left⟩

end Session

section Blind

theorem soleEngine_avoids {v : Evaluator} (base : v.outputBase = ⟨"out"⟩)
    {implementation : Implementation} (confined : implementation.Confined) :
    (soleEngine bareLockfile.depGraph implementation).Avoids v freshSession.store.path.place where
  confined := soleEngine_confined confined
  outside asked id u used := by
    obtain ⟨byId, usages, name, grouped, -, named, rfl⟩ :=
      DepGraph.usagesOf_eq_some.mp (soleEngine_indexed _ _ asked id u used)
    have known : name = "_main~deps" := by
      cases grouped
      cases List.mem_singleton.mp (SortedMap.get?_eq_some_iff.mp named)
      rfl
    change (WorkingDirectory.named v.outputBase name).path.place.leadsTo _ = false
    rw [base, known]
    decide

def blindSession : Session :=
  .withLockfile freshSession.store .empty { freshSession.evaluator with mode := .off } 1

def lockedFiles (content : Bytes) : FileTree :=
  ⟨.ofList [(freshSession.store.path.place, .file content)]⟩

theorem lockedFiles_twins (b b' : Bytes) : FileTree.Twins freshSession.store.path.place (some b)
    (some b') (lockedFiles b) (lockedFiles b') where
  left := rfl
  right := rfl
  here := .inr ⟨rfl, rfl⟩
  others q other := by
    have alone (b : Bytes) : FileTree.entry? (lockedFiles b) q = FileTree.entry? .empty q :=
      FileTree.entry?_insert_ne other _
    rw [alone, alone]

/-- Neither of two texts that are no lockfiles is looked at or changed. -/
theorem unread_lockfile : ∃ outcome u files',
    Session.resolve blindSession.store blindSession.evaluator 1
      [.call (.evaluate (soleEngine bareLockfile.depGraph announcing) depsId), .cancel]
      bareLockfile.inputs (.ofFiles (lockedFiles [1])) = (.ok outcome, u) ∧
    Session.resolve blindSession.store blindSession.evaluator 1
      [.call (.evaluate (soleEngine bareLockfile.depGraph announcing) depsId), .cancel]
      bareLockfile.inputs (.ofFiles (lockedFiles [2])) = (.ok outcome, { u with files := files' }) ∧
    u.events.length = 1 ∧ u.files.fileAt freshSession.store.path.place = some [1] ∧
    files'.fileAt freshSession.store.path.place = some [2] := by
  have avoids : ∀ r ∈ [Request.call
      (.evaluate (soleEngine bareLockfile.depGraph announcing) depsId), .cancel],
      r.Avoids blindSession.evaluator blindSession.store.path.place := by
    have confined : announcing.Confined :=
      ⟨trivial, fun _ => ⟨trivial, fun _ => ⟨trivial, fun _ => trivial⟩⟩⟩
    intro r member
    rcases List.mem_cons.mp member with rfl | rest
    · exact soleEngine_avoids rfl confined
    · cases List.mem_singleton.mp rest
      trivial
  obtain ⟨-, -, -, off⟩ := Session.modes_confine_lockfile (s := blindSession)
    (w := .ofFiles (lockedFiles [1])) avoids rfl rfl
  obtain ⟨outcome, u, files', first, second, left⟩ :=
    off rfl 1 bareLockfile.inputs [1] [2] (lockedFiles [2]) (lockedFiles_twins [1] [2])
  refine ⟨outcome, u, files', first, second, ?_, left.left, left.right⟩
  have after := congrArg (fun r => r.2.events.length) first
  exact after.symm.trans rfl

end Blind

end ExtensionLock
