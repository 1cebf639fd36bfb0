import ExtensionLock.Proofs.Calls
import ExtensionLock.Proofs.UsageIndex
import ExtensionLock.Session

/-! The evaluations of a session. All that they do to a session is to record the evaluations that
have settled, and when no extension is left waiting each has settled exactly once. -/

namespace ExtensionLock.Session

variable {s : Session} {e : Engine} {ids : List ExtensionId} {id : ExtensionId} {w : World}

def acceptAll (s : Session) (settled : List (ExtensionId × Evaluation)) : Session :=
  settled.foldl (fun s r => s.accept r.2) s

structure Continues (s s' : Session) : Prop where
  store : s'.store = s.store
  lockfile : s'.lockfile = s.lockfile
  evaluator : s'.evaluator = s.evaluator
  maxRounds : s'.maxRounds = s.maxRounds

theorem Continues.refl (s : Session) : s.Continues s := ⟨rfl, rfl, rfl, rfl⟩

theorem Continues.trans {s' s'' : Session} (first : s.Continues s') (rest : s'.Continues s'') :
    s.Continues s'' :=
  ⟨rest.store.trans first.store, rest.lockfile.trans first.lockfile,
    rest.evaluator.trans first.evaluator, rest.maxRounds.trans first.maxRounds⟩

theorem Continues.mode {s' : Session} (continues : s.Continues s') : s'.mode = s.mode :=
  congrArg Evaluator.mode continues.evaluator

theorem continues_accept (s : Session) (evaluation : Evaluation) :
    s.Continues (s.accept evaluation) := by
  rw [accept]
  split <;> exact ⟨rfl, rfl, rfl, rfl⟩

theorem continues_acceptAll (s : Session) (settled : List (ExtensionId × Evaluation)) :
    s.Continues (s.acceptAll settled) := by
  induction settled generalizing s with
  | nil => exact .refl s
  | cons r rest ih => exact (continues_accept s r.2).trans (ih _)

theorem accept_results (s : Session) (evaluation : Evaluation) (id : ExtensionId) :
    (s.accept evaluation).fresh.results.get? id =
      match evaluation.resolution with
      | some r => if id = r.id then some r.entry else s.fresh.results.get? id
      | none => s.fresh.results.get? id := by
  rw [accept]
  cases evaluation.resolution with
  | none => rfl
  | some r => exact SortedMap.get?_insert_eq _ _ _ _

/-- A round of evaluations comes to an extension in some world. -/
inductive Visits (v : Evaluator) (engine : Engine) :
    List ExtensionId → World → ExtensionId → World → Prop
  | here (id : ExtensionId) (rest : List ExtensionId) (w : World) :
      Visits v engine (id :: rest) w id w
  | later {id id' : ExtensionId} {rest : List ExtensionId} {w w' : World}
      (there : Visits v engine rest (v.evaluate engine id w).2 id' w') :
      Visits v engine (id :: rest) w id' w'

theorem mem_round {outcome : Except ExtensionError (Step Evaluation)}
    (member : (id, outcome) ∈ (s.round e ids w).1) :
    ∃ w', Visits s.evaluator (s.engine e) ids w id w' ∧
      (s.evaluator.evaluate (s.engine e) id w').1 = outcome := by
  induction ids generalizing w with
  | nil => cases member
  | cons first rest ih =>
    rcases List.mem_cons.mp member with here | there
    · cases here
      exact ⟨w, .here id rest w, rfl⟩
    · obtain ⟨w', visited, eq⟩ := ih there
      exact ⟨w', .later visited, eq⟩

theorem round_ids (s : Session) (e : Engine) (ids : List ExtensionId) (w : World) :
    (s.round e ids w).1.map Prod.fst = ids := by
  induction ids generalizing w with
  | nil => rfl
  | cons id rest ih =>
    change id :: (s.round e rest _).1.map Prod.fst = id :: rest
    rw [ih]

namespace Outcomes

abbrev Attempted := Except ExtensionError (Step Evaluation)

def ready? : Attempted → Option Evaluation
  | .ok (.ready evaluation) => some evaluation
  | _ => none

def waits? : Attempted → Option Unit
  | .ok .notReady => some ()
  | _ => none

def fails? : Attempted → Option ExtensionError
  | .error source => some source
  | _ => none

def picked (o : Outcomes) (pick : Attempted → Option β) : List (ExtensionId × β) :=
  o.filterMap (fun r => (pick r.2).map (fun b => (r.1, b)))

def settled (o : Outcomes) : List (ExtensionId × Evaluation) := o.picked ready?

def waiting (o : Outcomes) : List ExtensionId := (o.picked waits?).map Prod.fst

def failures (o : Outcomes) : List (ExtensionId × ExtensionError) := o.picked fails?

variable {o : Outcomes}

theorem ready?_eq_some {r : Attempted} {evaluation : Evaluation} :
    ready? r = some evaluation ↔ r = .ok (.ready evaluation) := by
  rcases r with source | evaluation' | _ <;> simp [ready?]

theorem waits?_eq_some {r : Attempted} {u : Unit} : waits? r = some u ↔ r = .ok .notReady := by
  rcases r with source | evaluation' | _ <;> simp [waits?]

theorem fails?_eq_some {r : Attempted} {source : ExtensionError} :
    fails? r = some source ↔ r = .error source := by
  rcases r with source' | evaluation' | _ <;> simp [fails?]

theorem mem_picked {pick : Attempted → Option β} {b : β} :
    (id, b) ∈ o.picked pick ↔ ∃ r, (id, r) ∈ o ∧ pick r = some b := by
  rw [picked, List.mem_filterMap]
  constructor
  · rintro ⟨⟨id', r⟩, member, found⟩
    obtain ⟨b', shown, same⟩ := Option.map_eq_some_iff.mp found
    cases same
    exact ⟨r, member, shown⟩
  · rintro ⟨r, member, shown⟩
    exact ⟨(id, r), member, Option.map_eq_some_iff.mpr ⟨b, shown, rfl⟩⟩

theorem mem_settled {evaluation : Evaluation} :
    (id, evaluation) ∈ o.settled ↔ (id, .ok (.ready evaluation)) ∈ o := by
  simp only [settled, mem_picked, ready?_eq_some, exists_eq_right]

theorem mem_failures {source : ExtensionError} :
    (id, source) ∈ o.failures ↔ (id, .error source) ∈ o := by
  simp only [failures, mem_picked, fails?_eq_some, exists_eq_right]

theorem mem_waiting : id ∈ o.waiting ↔ (id, .ok .notReady) ∈ o := by
  simp only [waiting, List.mem_map, Prod.exists, mem_picked, waits?_eq_some, exists_eq_right,
    exists_const]

theorem sift_eq (o : Outcomes) : sift o =
    match o.failures with
    | [] => .ok (o.settled, o.waiting)
    | (id, source) :: _ => .error (.extension id source) := by
  induction o with
  | nil => rfl
  | cons first rest ih =>
    obtain ⟨id, outcome⟩ := first
    cases outcome with
    | error source => rfl
    | ok step =>
      have others : failures ((id, .ok step) :: rest) = failures rest := by cases step <;> rfl
      rw [others]
      cases step with
      | ready evaluation =>
        rw [sift, ih]
        cases failures rest <;> rfl
      | notReady =>
        rw [sift, ih]
        cases failures rest <;> rfl

theorem divided (clean : o.failures = []) :
    (o.settled.map Prod.fst ++ o.waiting).Perm (o.map Prod.fst) := by
  induction o with
  | nil => exact .refl []
  | cons first rest ih =>
    obtain ⟨id, outcome⟩ := first
    cases outcome with
    | error source => cases clean
    | ok step =>
      cases step with
      | ready evaluation => exact (ih clean).cons id
      | notReady => exact List.perm_middle.trans ((ih clean).cons id)

end Outcomes

theorem sift_eq_ok {outcomes : Outcomes} {ready : List (ExtensionId × Evaluation)}
    {waiting : List ExtensionId} (sifted : sift outcomes = .ok (ready, waiting)) :
    (∀ r ∈ ready, (r.1, .ok (.ready r.2)) ∈ outcomes) ∧
      (∀ id ∈ waiting, (id, .ok .notReady) ∈ outcomes) ∧
      (ready.map Prod.fst ++ waiting).Perm (outcomes.map Prod.fst) := by
  rw [Outcomes.sift_eq] at sifted
  cases failures : outcomes.failures with
  | cons first others =>
    rw [failures] at sifted
    cases sifted
  | nil =>
    rw [failures] at sifted
    cases sifted
    exact ⟨fun r => Outcomes.mem_settled.mp, fun id => Outcomes.mem_waiting.mp,
      Outcomes.divided failures⟩

theorem waiting_subset {pending waiting : List ExtensionId}
    {ready : List (ExtensionId × Evaluation)}
    (sifted : sift (s.round e pending w).1 = .ok (ready, waiting)) : waiting ⊆ pending := by
  have divided := (sift_eq_ok sifted).2.2
  rw [round_ids] at divided
  exact fun _ member => divided.mem_iff.mp (List.mem_append_right _ member)

inductive Evaluates (e : Engine) : Nat → Session → List ExtensionId → World →
    ExtensionId → World → Prop
  | now {left : Nat} {s : Session} {pending : List ExtensionId} {w w' : World} {id : ExtensionId}
      (going : w.cancelled = false) (visited : Visits s.evaluator (s.engine e) pending w id w') :
      Evaluates e (left + 1) s pending w id w'
  | later {left : Nat} {s : Session} {pending waiting : List ExtensionId} {w w' : World}
      {id : ExtensionId} {ready : List (ExtensionId × Evaluation)} (going : w.cancelled = false)
      (sifted : sift (s.round e pending w).1 = .ok (ready, waiting))
      (rest : Evaluates e left (s.acceptAll ready) waiting (s.round e pending w).2 id w') :
      Evaluates e (left + 1) s pending w id w'

/-- Evaluations of a session, each from a world that the session comes to. -/
def Settled (s : Session) (e : Engine) (visits : ExtensionId → World → Prop)
    (settled : List (ExtensionId × Evaluation)) : Prop :=
  ∀ r ∈ settled, ∃ w, visits r.1 w ∧ s.evaluator.Settles e s.lockfile r.1 w r.2

theorem settled_of_sift {pending waiting : List ExtensionId}
    {ready : List (ExtensionId × Evaluation)}
    (sifted : sift (s.round e pending w).1 = .ok (ready, waiting)) :
    s.Settled e (Visits s.evaluator (s.engine e) pending w) ready := by
  intro r member
  obtain ⟨w', visited, eq⟩ := mem_round ((sift_eq_ok sifted).1 r member)
  exact ⟨w', visited, Evaluator.settles (Prod.ext eq rfl)⟩

theorem settled_congr {s' : Session} (continues : s.Continues s')
    {visits : ExtensionId → World → Prop} {settled : List (ExtensionId × Evaluation)} :
    s'.Settled e visits settled ↔ s.Settled e visits settled := by
  rw [Settled, Settled, continues.evaluator, continues.lockfile]

theorem Settled.append {visits : ExtensionId → World → Prop}
    {first rest : List (ExtensionId × Evaluation)} (known : s.Settled e visits first)
    (known' : s.Settled e visits rest) : s.Settled e visits (first ++ rest) := by
  intro r member
  rcases List.mem_append.mp member with here | there
  · exact known r here
  · exact known' r there

theorem Settled.subset {visits : ExtensionId → World → Prop}
    {settled some : List (ExtensionId × Evaluation)} (known : s.Settled e visits settled)
    (fewer : some ⊆ settled) : s.Settled e visits some := fun r member => known r (fewer member)

theorem Settled.mono {visits visits' : ExtensionId → World → Prop}
    {settled : List (ExtensionId × Evaluation)} (known : s.Settled e visits settled)
    (wider : ∀ id w, visits id w → visits' id w) : s.Settled e visits' settled := by
  intro r member
  obtain ⟨w', visited, settles⟩ := known r member
  exact ⟨w', wider r.1 w' visited, settles⟩

def valuesOf (settled : List (ExtensionId × Evaluation)) : List (ExtensionId × ExtensionValue) :=
  settled.map (fun r => (r.1, r.2.value))

theorem valuesOf_append (first rest : List (ExtensionId × Evaluation)) :
    valuesOf (first ++ rest) = valuesOf first ++ valuesOf rest := List.map_append

theorem rounds_step {left done : Nat} {rest waiting : List ExtensionId}
    {ready : List (ExtensionId × Evaluation)} {values : Values} (going : w.cancelled = false)
    (sifted : sift (s.round e (id :: rest) w).1 = .ok (ready, waiting)) :
    rounds e (left + 1) done s (id :: rest) values w =
      rounds e left (done + 1) (s.acceptAll ready) waiting (values.insertAll (valuesOf ready))
        (s.round e (id :: rest) w).2 := by
  simp only [rounds, if_neg (Bool.eq_false_iff.mp going), sifted]
  rfl

/-- The evaluations that rounds keep, in the order in which the session accepts them. -/
def keptIn (e : Engine) :
    Nat → Session → List ExtensionId → World → List (ExtensionId × Evaluation)
  | 0, _, _, _ => []
  | left + 1, s, pending, w =>
    if w.cancelled then []
    else match sift (s.round e pending w).1 with
      | .error _ => []
      | .ok (ready, waiting) =>
        ready ++ keptIn e left (s.acceptAll ready) waiting (s.round e pending w).2

theorem keptIn_nil (e : Engine) (left : Nat) (s : Session) (w : World) :
    keptIn e left s [] w = [] := by
  induction left with
  | zero => rfl
  | succ left ih =>
    rw [keptIn]
    split
    · rfl
    · exact ih

/-- What rounds of evaluations come to. With an error some extensions may be left. -/
structure Outcome (s : Session) (e : Engine) (visits : ExtensionId → World → Prop)
    (pending : List ExtensionId) (values : Values) (result : Except SessionError Values)
    (s' : Session) (settled : List (ExtensionId × Evaluation)) : Prop where
  known : s.Settled e visits settled
  session : s' = s.acceptAll settled
  returned : ∀ V, result = .ok V →
    V = values.insertAll (valuesOf settled) ∧ (settled.map Prod.fst).Perm pending

theorem outcome_done (s : Session) (visits : ExtensionId → World → Prop) (values : Values) :
    s.Outcome e visits [] values (.ok values) s [] :=
  ⟨fun r member => (by cases member), rfl, fun V h => (by cases h; exact ⟨rfl, .refl []⟩)⟩

theorem outcome_failed (s : Session) (visits : ExtensionId → World → Prop)
    (pending : List ExtensionId) (values : Values) (failure : SessionError) :
    s.Outcome e visits pending values (.error failure) s [] :=
  ⟨fun r member => (by cases member), rfl, fun V h => (by cases h)⟩

theorem rounds_outcome (e : Engine) (left done : Nat) (s : Session) (pending : List ExtensionId)
    (values : Values) (w : World) :
    s.Outcome e (Evaluates e left s pending w) pending values
      (rounds e left done s pending values w).1 (rounds e left done s pending values w).2.1
      (keptIn e left s pending w) := by
  induction left generalizing done s pending values w with
  | zero =>
    cases pending with
    | nil => exact outcome_done s _ values
    | cons id rest =>
      simp only [rounds]
      split <;> exact outcome_failed s _ _ values _
  | succ left ih =>
    cases pending with
    | nil =>
      rw [keptIn_nil]
      exact outcome_done s _ values
    | cons id rest =>
      cases going : w.cancelled with
      | true =>
        simp only [rounds, keptIn, going, if_true]
        exact outcome_failed s _ _ values _
      | false =>
        simp only [rounds, keptIn, going, Bool.false_eq_true, if_false]
        cases sifted : sift (s.round e (id :: rest) w).1 with
        | error failure => exact outcome_failed s _ _ values failure
        | ok divided =>
          obtain ⟨ready, waiting⟩ := divided
          obtain ⟨known, session, returned⟩ := ih (done + 1) (s.acceptAll ready) waiting
            (values.insertAll (valuesOf ready)) (s.round e (id :: rest) w).2
          refine ⟨?_, ?_, fun V h => ?_⟩
          · have later := ((settled_congr (continues_acceptAll s ready)).mp known).mono
              (fun _ _ => Evaluates.later going sifted)
            exact ((settled_of_sift sifted).mono (fun _ _ => .now going)).append later
          · exact session.trans (List.foldl_append ..).symm
          · obtain ⟨rfl, permuted⟩ := returned V h
            have divided := (sift_eq_ok sifted).2.2
            rw [round_ids] at divided
            refine ⟨?_, ?_⟩
            · rw [valuesOf_append, SortedMap.insertAll_append]
            · rw [List.map_append]
              exact (permuted.append_left _).trans divided

theorem evaluateAll_outcome (s : Session) (e : Engine) (ids : List ExtensionId) (w : World) :
    s.Outcome e (Evaluates e s.maxRounds s (SortedSet.ofList ids).toList w)
      (SortedSet.ofList ids).toList .empty (s.evaluateAll e ids w).1 (s.evaluateAll e ids w).2.1
      (keptIn e s.maxRounds s (SortedSet.ofList ids).toList w) := rounds_outcome ..

def keptOf (e : Engine) (s : Session) (id : ExtensionId) (w : World) :
    List (ExtensionId × Evaluation) :=
  if w.cancelled then []
  else match (s.evaluator.evaluate (s.engine e) id w).1 with
    | .ok (.ready evaluation) => [(id, evaluation)]
    | _ => []

theorem evaluate_outcome (s : Session) (e : Engine) (id : ExtensionId) (w : World) :
    s.Settled e (fun id' w' => w.cancelled = false ∧ id' = id ∧ w' = w) (keptOf e s id w) ∧
      (s.evaluate e id w).2.1 = s.acceptAll (keptOf e s id w) ∧
      ∀ value, (s.evaluate e id w).1 = .ok (.ready value) →
        valuesOf (keptOf e s id w) = [(id, value)] := by
  have nothing {visits : ExtensionId → World → Prop} : s.Settled e visits [] :=
    fun r member => (by cases member)
  cases going : w.cancelled with
  | true =>
    simp only [evaluate, keptOf, going, if_true]
    exact ⟨nothing, rfl, fun value h => (by cases h)⟩
  | false =>
    simp only [evaluate, keptOf, going, Bool.false_eq_true, if_false]
    cases evaluated : s.evaluator.evaluate (s.engine e) id w with
    | mk result w' =>
      cases result with
      | error source => exact ⟨nothing, rfl, fun value h => (by cases h)⟩
      | ok step => cases step with
        | notReady => exact ⟨nothing, rfl, fun value h => (by cases h)⟩
        | ready evaluation =>
          refine ⟨fun r member => ?_, rfl, fun value h => (by cases h; rfl)⟩
          rw [List.mem_singleton.mp member]
          exact ⟨w, ⟨trivial, rfl, rfl⟩, Evaluator.settles evaluated⟩

section Recorded

variable {visits : ExtensionId → World → Prop} {settled : List (ExtensionId × Evaluation)}
  {entry : LockedExtension}

theorem recorded_of_acceptAll
    (found : (s.acceptAll settled).fresh.results.get? id = some entry) :
    s.fresh.results.get? id = some entry ∨ ∃ r ∈ settled, r.2.resolution = some ⟨id, entry⟩ := by
  induction settled generalizing s with
  | nil => exact Or.inl found
  | cons r rest ih =>
    rcases ih found with before | ⟨r', member, recorded⟩
    · rw [accept_results] at before
      cases resolution : r.2.resolution with
      | none => rw [resolution] at before; exact Or.inl before
      | some res =>
        rw [resolution] at before
        dsimp only at before
        split at before
        · rename_i same
          cases before
          refine Or.inr ⟨r, List.mem_cons_self, ?_⟩
          rw [resolution, same]
        · exact Or.inl before
    · exact Or.inr ⟨r', List.mem_cons_of_mem _ member, recorded⟩

theorem Settled.resolution_id (known : s.Settled e visits settled)
    {r : ExtensionId × Evaluation} (member : r ∈ settled) {res : Resolution}
    (recorded : r.2.resolution = some res) : res.id = r.1 := by
  obtain ⟨w, -, settles⟩ := known r member
  exact (settles.resolution recorded).2.1

theorem acceptAll_results_other (known : s.Settled e visits settled)
    (other : id ∉ settled.map Prod.fst) :
    (s.acceptAll settled).fresh.results.get? id = s.fresh.results.get? id := by
  induction settled generalizing s with
  | nil => rfl
  | cons r rest ih =>
    obtain ⟨apart, others⟩ := not_or.mp (fun h => other (List.mem_cons.mpr h))
    have known' : (s.accept r.2).Settled e visits rest :=
      (settled_congr (continues_accept s r.2)).mpr (known.subset (List.subset_cons_self _ _))
    refine (ih known' others).trans ?_
    rw [accept_results]
    cases resolution : r.2.resolution with
    | none => rfl
    | some res =>
      have same := known.resolution_id List.mem_cons_self resolution
      exact if_neg (same ▸ apart)

theorem acceptAll_results (known : s.Settled e visits settled)
    (once : (settled.map Prod.fst).Nodup) {r : ExtensionId × Evaluation} (member : r ∈ settled) :
    (s.acceptAll settled).fresh.results.get? r.1 =
      match r.2.resolution with
      | some res => some res.entry
      | none => s.fresh.results.get? r.1 := by
  obtain ⟨before, after, rfl⟩ := List.append_of_mem member
  rw [List.map_append, List.map_cons, List.nodup_append] at once
  obtain ⟨-, later, apart⟩ := once
  have earlier : r.1 ∉ before.map Prod.fst :=
    fun h => apart r.1 h r.1 List.mem_cons_self rfl
  have known_before : s.Settled e visits before := known.subset (List.subset_append_left _ _)
  have known_after : ((s.acceptAll before).accept r.2).Settled e visits after :=
    (settled_congr ((continues_acceptAll s before).trans (continues_accept _ r.2))).mpr
      (known.subset (fun _ h => List.mem_append_right _ (List.mem_cons_of_mem _ h)))
  have split : s.acceptAll (before ++ r :: after) =
      ((s.acceptAll before).accept r.2).acceptAll after := List.foldl_append ..
  rw [split, acceptAll_results_other known_after (List.nodup_cons.mp later).1, accept_results,
    acceptAll_results_other known_before earlier]
  cases resolution : r.2.resolution with
  | none => rfl
  | some res => exact if_pos (known.resolution_id member resolution).symm

end Recorded

end ExtensionLock.Session

namespace ExtensionLock

/-- The usages that an engine answers with are those of a graph. -/
def Engine.Indexed (e : Engine) (g : DepGraph) : Prop :=
  ∀ asked id u, e.usages asked id = .ready u → g.usagesOf id = some u

inductive Call where
  | evaluate (engine : Engine) (id : ExtensionId)
  | evaluateAll (engine : Engine) (ids : List ExtensionId)

def Call.engine : Call → Engine
  | .evaluate engine _ => engine
  | .evaluateAll engine _ => engine

namespace Session

def call (s : Session) (c : Call) (w : World) : Session × World :=
  match c with
  | .evaluate engine id => (s.evaluate engine id w).2
  | .evaluateAll engine ids => (s.evaluateAll engine ids w).2

/-- The extensions that a call comes to, and the worlds in which it does. -/
def Comes (s : Session) (c : Call) (w : World) (id : ExtensionId) (w' : World) : Prop :=
  match c with
  | .evaluate _ called => w.cancelled = false ∧ id = called ∧ w' = w
  | .evaluateAll engine ids =>
    Evaluates engine s.maxRounds s (SortedSet.ofList ids).toList w id w'

def calls (s : Session) : List Call → World → Session × World
  | [], w => (s, w)
  | c :: rest, w => (s.call c w).1.calls rest (s.call c w).2

def kept (s : Session) (c : Call) (w : World) : List (ExtensionId × Evaluation) :=
  match c with
  | .evaluate engine id => keptOf engine s id w
  | .evaluateAll engine ids => keptIn engine s.maxRounds s (SortedSet.ofList ids).toList w

theorem call_settled (s : Session) (c : Call) (w : World) :
    s.Settled c.engine (s.Comes c w) (s.kept c w) ∧ (s.call c w).1 = s.acceptAll (s.kept c w) := by
  cases c with
  | evaluate engine id =>
    obtain ⟨known, session, -⟩ := evaluate_outcome s engine id w
    exact ⟨known, session⟩
  | evaluateAll engine ids =>
    obtain ⟨known, session, -⟩ := evaluateAll_outcome s engine ids w
    exact ⟨known, session⟩

theorem continues_call (s : Session) (c : Call) (w : World) : s.Continues (s.call c w).1 := by
  rw [(call_settled s c w).2]
  exact continues_acceptAll s _

/-- What calls keep is what some run of an implementation has come to. -/
theorem recorded_of_call {s : Session} {c : Call} {w : World} {id : ExtensionId}
    {entry : LockedExtension} (found : (s.call c w).1.fresh.results.get? id = some entry) :
    s.fresh.results.get? id = some entry ∨ ∃ w' a r, s.Comes c w id w' ∧
      s.evaluator.Decides c.engine s.lockfile id w'.asked a ∧
      entry.specs.Generates a.usages.usages ∧
      s.evaluator.Completes (s.engine c.engine) id w' r ∧ r.Made id entry a.usages.usages := by
  obtain ⟨known, session⟩ := call_settled s c w
  rw [session] at found
  rcases recorded_of_acceptAll found with before | ⟨r, member, recorded⟩
  · exact Or.inl before
  · obtain ⟨w', comes, settles⟩ := known r member
    obtain ⟨-, same, a, decides, -, -, generates, -, run, completes, made⟩ :=
      settles.resolution recorded
    cases same
    exact Or.inr ⟨w', a, run, comes, decides, generates, completes, made⟩

end Session

end ExtensionLock
