import ExtensionLock.Proofs.Finish
import ExtensionLock.Proofs.Reuse
import Mathlib.Data.List.Induction

/-! Calls of one session, one after another. No call looks at what the ones before it have come to:
the session asks the lockfile of its beginning each time, and runs the implementation again if that
has no answer. Of the results of an extension the last one that was run for is written. -/

namespace ExtensionLock

namespace Session

variable {s s' : Session} {e : Engine} {id : ExtensionId} {w : World}

theorem Continues.symm (continues : s.Continues s') : s'.Continues s :=
  ⟨continues.store.symm, continues.lockfile.symm, continues.evaluator.symm,
    continues.maxRounds.symm⟩

theorem Continues.round (continues : s.Continues s') (e : Engine) (ids : List ExtensionId)
    (w : World) : s'.round e ids w = s.round e ids w := by
  induction ids generalizing w with
  | nil => rfl
  | cons id rest ih =>
    simp only [Session.round, engine, continues.evaluator, continues.lockfile, ih]

def shown (outcome : Except SessionError α × Session × World) : Except SessionError α × World :=
  (outcome.1, outcome.2.2)

theorem Continues.evaluate (continues : s.Continues s') (e : Engine) (id : ExtensionId)
    (w : World) : shown (s'.evaluate e id w) = shown (s.evaluate e id w) := by
  simp only [Session.evaluate, engine, continues.evaluator, continues.lockfile]
  split
  · rfl
  · split <;> rfl

theorem Continues.rounds (continues : s.Continues s') (e : Engine) (left done : Nat)
    (pending : List ExtensionId) (values : Values) (w : World) :
    shown (Session.rounds e left done s' pending values w) =
      shown (Session.rounds e left done s pending values w) := by
  induction left generalizing done s s' pending values w with
  | zero =>
    cases pending with
    | nil => rfl
    | cons id rest =>
      simp only [Session.rounds]
      split <;> rfl
  | succ left ih =>
    cases pending with
    | nil => rfl
    | cons id rest =>
      simp only [Session.rounds, continues.round]
      split
      · rfl
      · cases sift (s.round e (id :: rest) w).1 with
        | error failure => rfl
        | ok divided =>
          obtain ⟨ready, waiting⟩ := divided
          have accepted : (s.acceptAll ready).Continues (s'.acceptAll ready) :=
            (continues_acceptAll s ready).symm.trans
              (continues.trans (continues_acceptAll s' ready))
          exact ih accepted _ _ _ _

theorem Continues.evaluateAll (continues : s.Continues s') (e : Engine) (ids : List ExtensionId)
    (w : World) : shown (s'.evaluateAll e ids w) = shown (s.evaluateAll e ids w) := by
  rw [Session.evaluateAll, Session.evaluateAll, continues.maxRounds]
  exact continues.rounds e _ _ _ _ w

/-- The evaluations that some calls keep, in the order in which the session accepts them. -/
def log (s : Session) : List Call → World → List (ExtensionId × Evaluation)
  | [], _ => []
  | c :: rest, w => s.kept c w ++ (s.call c w).1.log rest (s.call c w).2

theorem log_append (s : Session) (first rest : List Call) (w : World) :
    s.log (first ++ rest) w =
      s.log first w ++ (s.calls first w).1.log rest (s.calls first w).2 := by
  induction first generalizing s w with
  | nil => rfl
  | cons c first ih =>
    rw [List.cons_append, log, ih, log, List.append_assoc]
    rfl

theorem calls_log (s : Session) (cs : List Call) (w : World) :
    (s.calls cs w).1 = s.acceptAll (s.log cs w) := by
  induction cs generalizing s w with
  | nil => rfl
  | cons c rest ih =>
    have session := (call_settled s c w).2
    rw [calls, ih, log, acceptAll, acceptAll, List.foldl_append, session]
    rfl

theorem log_settled (s : Session) (cs : List Call) (w : World) :
    ∀ r ∈ s.log cs w, ∃ c ∈ cs, ∃ u, s.evaluator.Settles c.engine s.lockfile r.1 u r.2 := by
  induction cs generalizing s w with
  | nil => exact fun r member => absurd member List.not_mem_nil
  | cons c rest ih =>
    intro r member
    rcases List.mem_append.mp member with here | later
    · obtain ⟨u, -, settles⟩ := (call_settled s c w).1 r here
      exact ⟨c, List.mem_cons_self, u, settles⟩
    · obtain ⟨c', there, u, settles⟩ := ih _ _ r later
      have continues := continues_call s c w
      rw [continues.evaluator, continues.lockfile] at settles
      exact ⟨c', List.mem_cons_of_mem _ there, u, settles⟩

def runsOf (id : ExtensionId) (settled : List (ExtensionId × Evaluation)) : List Evaluation :=
  (settled.filter (fun r => r.1 = id ∧ r.2.fromLockfile = false)).map Prod.snd

theorem runsOf_concat (id : ExtensionId) (settled : List (ExtensionId × Evaluation))
    (r : ExtensionId × Evaluation) : runsOf id (settled ++ [r]) =
      runsOf id settled ++ if r.1 = id ∧ r.2.fromLockfile = false then [r.2] else [] := by
  rw [runsOf, List.filter_append, List.map_append]
  refine congrArg (runsOf id settled ++ ·) ?_
  by_cases run : r.1 = id ∧ r.2.fromLockfile = false
  · simp [run]
  · simp [run]

theorem acceptAll_runs (update : s.mode = .update) {settled : List (ExtensionId × Evaluation)}
    (known : ∀ r ∈ settled, ∃ e u, s.evaluator.Settles e s.lockfile r.1 u r.2)
    (id : ExtensionId) :
    match (runsOf id settled).getLast? with
    | some evaluation => ∃ digest, (s.acceptAll settled).fresh.results.get? id =
        some ⟨digest, evaluation.value.specs⟩
    | none => (s.acceptAll settled).fresh.results.get? id = s.fresh.results.get? id := by
  induction settled using List.reverseRecOn with
  | nil => rfl
  | append_singleton settled r ih =>
    have before := ih (fun r' member => known r' (List.mem_append_left _ member))
    obtain ⟨e, u, settles⟩ := known r (List.mem_append_right _ List.mem_cons_self)
    have last : s.acceptAll (settled ++ [r]) = (s.acceptAll settled).accept r.2 := by
      rw [acceptAll, List.foldl_append]
      rfl
    rw [runsOf_concat, last, accept_results]
    rcases settles.recorded update with ⟨locked, nothing⟩ | ⟨ran, digest, recorded⟩
    · have other : ¬ (r.1 = id ∧ r.2.fromLockfile = false) := by
        rw [locked]
        exact fun h => Bool.false_ne_true h.2.symm
      rw [if_neg other, List.append_nil, nothing]
      exact before
    · rw [recorded]
      by_cases same : id = r.1
      · rw [if_pos ⟨same.symm, ran⟩, List.getLast?_concat]
        exact ⟨digest, if_pos same⟩
      · rw [if_neg (fun h => same h.1.symm), List.append_nil]
        dsimp only
        rw [if_neg same]
        exact before

theorem written_runs {inputs : ResolutionInputs} {settled : List (ExtensionId × Evaluation)}
    {next : Lockfile} {w' : World} (unused : s.fresh = .empty)
    (known : ∀ r ∈ settled, ∃ e u, s.evaluator.Settles e s.lockfile r.1 u r.2)
    (written : (s.acceptAll settled).finish inputs w = (.ok (some next), w')) :
    ∃ usages, inputs.depGraph.usagesById = .ok usages ∧ ∀ id, usages.contains id = true →
      match (runsOf id settled).getLast? with
      | some evaluation =>
        ∃ digest, next.extensions.get? id = some ⟨digest, evaluation.value.specs⟩
      | none => next.extensions.get? id = none ∨
          next.extensions.get? id = s.lockfile.extensions.get? id := by
  have continues := continues_acceptAll s settled
  obtain ⟨update, built, -⟩ := finish_eq_written written
  obtain ⟨current, before, now, -, rfl⟩ := FreshResults.build_eq_ok.mp built
  refine ⟨current, now, fun id used => ?_⟩
  have kept := acceptAll_runs (continues.mode ▸ update) known id
  rw [FreshResults.merged_get?, continues.lockfile, used]
  cases last : (runsOf id settled).getLast? with
  | some evaluation =>
    rw [last] at kept
    obtain ⟨digest, recorded⟩ := kept
    exact ⟨digest, by rw [recorded]; rfl⟩
  | none =>
    rw [last, unused] at kept
    have nothing : (s.acceptAll settled).fresh.results.get? id = none := kept
    rw [nothing]
    dsimp only
    cases s.lockfile.extensions.get? id with
    | none => exact .inl rfl
    | some entry =>
      cases FreshResults.survives current before id with
      | false => exact .inl rfl
      | true => exact .inr rfl

theorem evaluate_quiet {a : Approach} {entry : LockedExtension}
    (decides : s.evaluator.Decides e s.lockfile id w.asked a) (reuse : a.decision = .reuse entry) :
    ∃ asked, (s.evaluate e id w).2.2 = { w with asked } := by
  have known := Evaluator.approach_eq_ok.mpr ⟨decides, rfl⟩
  have reuses (a' : Approach) (w' : World)
      (approached : (s.evaluator.approach (s.engine e) id).run w = (.ok a', w')) :
      ∃ entry, a'.decision = .reuse entry := by
    cases known.symm.trans approached
    exact ⟨entry, reuse⟩
  obtain ⟨asked, quiet⟩ := Evaluator.evaluate_quiet_of_reuse w reuses
  rw [evaluate]
  split
  · exact ⟨w.asked, rfl⟩
  · refine ⟨asked, ?_⟩
    rw [← quiet]
    split <;> rename_i evaluated <;> rw [evaluated]

/-- What a session does after some calls, the first of them in some world. -/
structure Forgets (s : Session) (cs : List Call) (w : World) : Prop where
  /-- a call comes to what it would have come to as the first one -/
  evaluate : ∀ e id u, shown ((s.calls cs w).1.evaluate e id u) = shown (s.evaluate e id u)
  evaluateAll : ∀ e ids u,
    shown ((s.calls cs w).1.evaluateAll e ids u) = shown (s.evaluateAll e ids u)
  /-- nothing is run where the lockfile of the beginning has an answer -/
  quiet : ∀ e id u a entry, s.evaluator.Decides e s.lockfile id u.asked a →
    a.decision = .reuse entry → ∃ asked, ((s.calls cs w).1.evaluate e id u).2.2 = { u with asked }
  /-- what a call returns is added to the log -/
  returned : ∀ e id value,
    ((s.calls cs w).1.evaluate e id (s.calls cs w).2).1 = .ok (.ready value) →
    valuesOf (s.log (cs ++ [.evaluate e id]) w) = valuesOf (s.log cs w) ++ [(id, value)]
  returnedAll : ∀ e ids V, ((s.calls cs w).1.evaluateAll e ids (s.calls cs w).2).1 = .ok V →
    ∃ added, s.log (cs ++ [.evaluateAll e ids]) w = s.log cs w ++ added ∧
      V = .ofList (valuesOf added) ∧ (added.map Prod.fst).Perm (SortedSet.ofList ids).toList
  /-- a value has the repositories of the entry in that lockfile, or of a run in its own call -/
  values : ∀ r ∈ s.log cs w,
    (r.2.fromLockfile = true ∧ ∃ entry, s.lockfile.extensions.get? r.1 = some entry ∧
      r.2.value.specs = entry.specs) ∨
    (r.2.fromLockfile = false ∧ ∃ c ∈ cs, ∃ u run,
      s.evaluator.Completes (s.engine c.engine) r.1 u run ∧ r.2.value.specs = run.specs)
  /-- what is written are the repositories of the last run; without one the entry stays or goes -/
  written : ∀ inputs u next u', (s.calls cs w).1.finish inputs u = (.ok (some next), u') →
    ∃ usages, inputs.depGraph.usagesById = .ok usages ∧ ∀ id, usages.contains id = true →
      match (runsOf id (s.log cs w)).getLast? with
      | some evaluation =>
        ∃ digest, next.extensions.get? id = some ⟨digest, evaluation.value.specs⟩
      | none => next.extensions.get? id = none ∨
          next.extensions.get? id = s.lockfile.extensions.get? id

/-- A session keeps results for the lockfile and nothing else: no call depends on the calls before
it, whether the implementation is run is settled by the lockfile of the beginning alone, and the
last run of an extension is the one that is written. -/
theorem calls_forget {store : LockfileStore} {v : Evaluator} {restarts : Nat} {t : FileTree}
    (started : start store v restarts t = .ok s) (cs : List Call) (w : World) :
    s.Forgets cs w := by
  have unused : s.fresh = .empty := by
    by_cases off : v.mode = .off
    · rw [start, if_pos off] at started
      cases started
      rfl
    · obtain ⟨l, -, rfl⟩ := (start_eq_ok off).mp started
      rfl
  have continues := continues_calls s cs w
  have settled := log_settled s cs w
  refine {
    evaluate := fun e id u => continues.evaluate e id u
    evaluateAll := fun e ids u => continues.evaluateAll e ids u
    quiet := fun e id u a entry decides reuse => ?quiet
    returned := fun e id value ready => ?returned
    returnedAll := fun e ids V ready => ?returnedAll
    values := fun r member => ?values
    written := fun inputs u next u' written => ?written }
  case quiet =>
    have same := congrArg Prod.snd (continues.evaluate e id u)
    obtain ⟨asked, quiet⟩ := evaluate_quiet decides reuse
    exact ⟨asked, same.trans quiet⟩
  case returned =>
    obtain ⟨-, -, shows⟩ := evaluate_outcome (s.calls cs w).1 e id (s.calls cs w).2
    rw [log_append, valuesOf_append, ← shows value ready, log, log, List.append_nil]
    rfl
  case returnedAll =>
    have outcome := evaluateAll_outcome (s.calls cs w).1 e ids (s.calls cs w).2
    obtain ⟨values, once⟩ := outcome.returned V ready
    refine ⟨_, ?_, values, once⟩
    rw [log_append, log, log, List.append_nil]
    rfl
  case values =>
    obtain ⟨c, called, u, settles⟩ := settled r member
    rcases settles.specs with locked | ⟨ran, run, completes, same⟩
    · exact .inl locked
    · exact .inr ⟨ran, c, called, u, run, completes, same⟩
  case written =>
    rw [calls_log] at written
    refine written_runs unused (fun r member => ?_) written
    obtain ⟨c, -, u, settles⟩ := settled r member
    exact ⟨c.engine, u, settles⟩

end Session

section SecondRun

def idleEngine : Engine := soleEngine bareLockfile.depGraph (.done (.ok .none))

/-- A session that has a result runs the implementation again, hands out what that comes to, and
writes it in place of the first result. -/
theorem evaluated_again :
    (¬ ∀ s w value, freshSession.evaluate idleEngine depsId (.ofFiles .empty) =
        (.ok (.ready value), s, w) →
      .called depsId ∉ (s.evaluate idleEngine depsId w).2.2.events.drop w.events.length) ∧
    (¬ ∀ s w value s' w' value', freshSession.evaluate idleEngine depsId (.ofFiles .empty) =
        (.ok (.ready value), s, w) →
      s.evaluate creatingEngine depsId w = (.ok (.ready value'), s', w') → value' = value) ∧
    ¬ ∀ s w value s' w' value' next u, freshSession.evaluate idleEngine depsId (.ofFiles .empty) =
        (.ok (.ready value), s, w) →
      s.evaluate creatingEngine depsId w = (.ok (.ready value'), s', w') →
      s'.finish bareLockfile.inputs w' = (.ok (some next), u) →
      ∀ entry, next.extensions.get? depsId = some entry → entry.specs = value.specs := by
  refine ⟨fun once => ?_, fun equal => ?_, fun written => ?_⟩
  · exact once _ _ _ rfl List.mem_cons_self
  · have keys := congrArg (fun v => v.specs.keys) (equal _ _ _ _ _ _ rfl rfl)
    cases keys
  · have keys := congrArg SortedMap.keys (written _ _ _ _ _ _ _ _ rfl rfl rfl _ rfl)
    cases keys

/-- Of two runs the second is written. -/
theorem second_run_written : ∃ digest next u,
    Session.start freshSession.store freshSession.evaluator 1 .empty = .ok freshSession ∧
    (freshSession.calls [.evaluate idleEngine depsId, .evaluate creatingEngine depsId]
      (.ofFiles .empty)).1.finish bareLockfile.inputs (.ofFiles .empty) =
        (.ok (some next), u) ∧
    next.extensions.get? depsId = some ⟨digest, plainSpecs⟩ := by
  have started : Session.start freshSession.store freshSession.evaluator 1 .empty =
      .ok freshSession := rfl
  have forgets := Session.calls_forget started
    [.evaluate idleEngine depsId, .evaluate creatingEngine depsId] (.ofFiles .empty)
  obtain ⟨usages, grouped, entries⟩ := forgets.written bareLockfile.inputs (.ofFiles .empty) _ _ rfl
  cases grouped
  obtain ⟨digest, found⟩ := entries depsId rfl
  exact ⟨digest, _, _, started, rfl, found⟩

end SecondRun

end ExtensionLock
