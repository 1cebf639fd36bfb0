import ExtensionLock.Proofs.Rounds

/-! How the rounds of a session end. Every round tries the extensions that the last one has left
waiting, in the order of their ids, and what it settles is kept only if none of them fails. -/

namespace ExtensionLock.Session

namespace Outcomes

variable {o : Outcomes} {id : ExtensionId}

theorem picked_sublist (o : Outcomes) (pick : Attempted → Option β) :
    ((o.picked pick).map Prod.fst).Sublist (o.map Prod.fst) := by
  induction o with
  | nil => exact .refl _
  | cons r rest ih =>
    cases shown : pick r.2 with
    | none =>
      have skipped : picked (r :: rest) pick = picked rest pick :=
        List.filterMap_cons_none (by rw [shown]; rfl)
      rw [skipped]
      exact ih.cons _
    | some b =>
      have taken : picked (r :: rest) pick = (r.1, b) :: picked rest pick :=
        List.filterMap_cons_some (by rw [shown]; rfl)
      rw [taken]
      exact ih.cons_cons _

theorem settled_not_waiting (once : (o.map Prod.fst).Nodup) {r : ExtensionId × Evaluation}
    (settled : r ∈ o.settled) : r.1 ∉ o.waiting := by
  intro waiting
  cases List.inj_on_of_nodup_map once (mem_settled.mp settled) (mem_waiting.mp waiting) rfl

theorem least_of_first (ordered : (o.map Prod.fst).Pairwise (fun a b => compare a b = .lt))
    {source : ExtensionError} (first : o.failures.head? = some (id, source)) :
    (id, .error source) ∈ o ∧
      ∀ id' source', (id', .error source') ∈ o → compare id id' ≠ .gt := by
  refine ⟨mem_failures.mp (List.mem_of_head? first), ?_⟩
  intro id' source' member
  obtain ⟨others, split⟩ := List.head?_eq_some_iff.mp first
  have inOrder := ordered.sublist (o.picked_sublist fails?)
  have failed := mem_failures.mpr member
  rw [← failures, split, List.map_cons, List.pairwise_cons] at inOrder
  rw [split] at failed
  rcases List.mem_cons.mp failed with same | later
  · cases same
    have equal : compare id id = .eq := Std.ReflCmp.compare_self
    rw [equal]
    decide
  · rw [inOrder.1 id' (List.mem_map_of_mem later)]
    decide

end Outcomes

/-- The attempts of a round, each in the world that the one before it has left. -/
inductive Attempts (v : Evaluator) (engine : Engine) : World → Outcomes → World → Prop
  | none (w : World) : Attempts v engine w [] w
  | next {id : ExtensionId} {rest : Outcomes} {w w' : World}
      (later : Attempts v engine (v.evaluate engine id w).2 rest w') :
      Attempts v engine w ((id, (v.evaluate engine id w).1) :: rest) w'

theorem attempts_round (s : Session) (e : Engine) (ids : List ExtensionId) (w : World) :
    Attempts s.evaluator (s.engine e) w (s.round e ids w).1 (s.round e ids w).2 := by
  induction ids generalizing w with
  | nil => exact .none w
  | cons id rest ih => exact .next (ih _)

/-- Rounds of attempts, one after the other. There is a round only while extensions are waiting and
nobody has cancelled; it makes one attempt at each of them. -/
inductive Held (v : Evaluator) (engine : Engine) :
    List ExtensionId → World → List Outcomes → World → Prop
  | stop (pending : List ExtensionId) (w : World) : Held v engine pending w [] w
  | round {pending : List ExtensionId} {o : Outcomes} {rest : List Outcomes} {w w' w'' : World}
      (waiting : pending ≠ []) (going : w.cancelled = false)
      (made : Attempts v engine w o w') (all : o.map Prod.fst = pending)
      (later : Held v engine o.waiting w' rest w'') : Held v engine pending w (o :: rest) w''

def remaining (pending : List ExtensionId) (rs : List Outcomes) : List ExtensionId :=
  (rs.getLast?.map Outcomes.waiting).getD pending

def settledIn (rs : List Outcomes) : List (ExtensionId × Evaluation) :=
  rs.flatMap Outcomes.settled

def Clean (rs : List Outcomes) : Prop := ∀ o ∈ rs, o.failures = []

theorem remaining_cons (pending : List ExtensionId) (o : Outcomes) (rs : List Outcomes) :
    remaining pending (o :: rs) = remaining o.waiting rs := by
  cases rs with
  | nil => rfl
  | cons o' rs => rfl

namespace Held

variable {v : Evaluator} {engine : Engine} {pending : List ExtensionId} {w w' : World}
  {rs : List Outcomes}

theorem sublist (held : Held v engine pending w rs w') :
    ∀ o ∈ rs, (o.map Prod.fst).Sublist pending := by
  induction held with
  | stop pending w => exact fun o member => (by cases member)
  | @round pending o rest w w' w'' waiting going made all later ih =>
    intro o' member
    rcases List.mem_cons.mp member with rfl | member
    · exact all ▸ .refl _
    · exact (ih o' member).trans (all ▸ o.picked_sublist _)

theorem once (held : Held v engine pending w rs w') (distinct : pending.Nodup) :
    rs.Pairwise (fun o later => ∀ r ∈ o.settled, r.1 ∉ later.map Prod.fst) := by
  induction held with
  | stop pending w => exact .nil
  | @round pending o rest w w' w'' waiting going made all later ih =>
    have distinct : (o.map Prod.fst).Nodup := all ▸ distinct
    refine List.pairwise_cons.mpr ⟨?_, ih (distinct.sublist (o.picked_sublist _))⟩
    intro o' member r settled again
    exact Outcomes.settled_not_waiting distinct settled ((later.sublist o' member).subset again)

theorem divided (held : Held v engine pending w rs w') (clean : Clean rs) :
    ((settledIn rs).map Prod.fst ++ remaining pending rs).Perm pending := by
  induction held with
  | stop pending w => exact .refl pending
  | @round pending o rest w w' w'' waiting going made all later ih =>
    obtain ⟨here, there⟩ := List.forall_mem_cons.mp clean
    have both : settledIn (o :: rest) = o.settled ++ settledIn rest := List.flatMap_cons
    rw [both, remaining_cons, List.map_append, List.append_assoc]
    exact ((ih there).append_left _).trans (all ▸ Outcomes.divided here)

end Held

/-- How a session ends that may hold some more rounds: with the values that it returns, and with
what it has recorded of the rounds before. -/
inductive Ending (s : Session) (pending : List ExtensionId) (values : Values) (left done : Nat) :
    List Outcomes → World → Except SessionError Values → Session → Prop
  | settled {rs : List Outcomes} {w : World} (clean : Clean rs)
      (nobody : remaining pending rs = []) :
      Ending s pending values left done rs w
        (.ok (values.insertAll (valuesOf (settledIn rs)))) (s.acceptAll (settledIn rs))
  | failed {rs : List Outcomes} {o : Outcomes} {w : World} {id : ExtensionId}
      {source : ExtensionError} (clean : Clean rs) (first : o.failures.head? = some (id, source)) :
      Ending s pending values left done (rs ++ [o]) w
        (.error (.extension id source)) (s.acceptAll (settledIn rs))
  | cancelled {rs : List Outcomes} {w : World} (clean : Clean rs)
      (somebody : remaining pending rs ≠ []) (stopped : w.cancelled = true) :
      Ending s pending values left done rs w (.error .cancelled) (s.acceptAll (settledIn rs))
  | stuck {rs : List Outcomes} {w : World} (clean : Clean rs) (somebody : remaining pending rs ≠ [])
      (going : w.cancelled = false) (all : rs.length = left) :
      Ending s pending values left done rs w
        (.error (.noProgress (done + left) (remaining pending rs))) (s.acceptAll (settledIn rs))

theorem Ending.after {s s' : Session} {pending : List ExtensionId} {values : Values}
    {left done : Nat} {o : Outcomes} {rs : List Outcomes} {w : World}
    {result : Except SessionError Values} (clean : o.failures = [])
    (rest : Ending (s.acceptAll o.settled) o.waiting (values.insertAll (valuesOf o.settled)) left
      (done + 1) rs w result s') :
    Ending s pending values (left + 1) done (o :: rs) w result s' := by
  have recorded (rs : List Outcomes) :
      (s.acceptAll o.settled).acceptAll (settledIn rs) = s.acceptAll (settledIn (o :: rs)) :=
    List.foldl_append.symm
  have cleanAll {rs : List Outcomes} (later : Clean rs) : Clean (o :: rs) :=
    List.forall_mem_cons.mpr ⟨clean, later⟩
  cases rest with
  | settled later nobody =>
    have valued : (values.insertAll (valuesOf o.settled)).insertAll (valuesOf (settledIn rs)) =
        values.insertAll (valuesOf (settledIn (o :: rs))) := by
      rw [← SortedMap.insertAll_append, ← valuesOf_append]
      rfl
    rw [recorded, valued]
    exact .settled (cleanAll later) ((remaining_cons pending o rs).trans nobody)
  | @failed rs last w id source later first =>
    rw [recorded]
    exact @Ending.failed s pending values (left + 1) done (o :: rs) last w id source
      (cleanAll later) first
  | cancelled later somebody stopped =>
    rw [recorded]
    exact .cancelled (cleanAll later) (remaining_cons pending o rs ▸ somebody) stopped
  | stuck later somebody going all =>
    rw [recorded, ← remaining_cons pending o rs, Nat.add_right_comm, Nat.add_assoc]
    exact .stuck (cleanAll later) (remaining_cons pending o rs ▸ somebody) going
      (congrArg (· + 1) all)

theorem rounds_ending (e : Engine) (left done : Nat) (s : Session) (pending : List ExtensionId)
    (values : Values) (w : World) :
    ∃ rs, Held s.evaluator (s.engine e) pending w rs
        (rounds e left done s pending values w).2.2 ∧
      rs.length ≤ left ∧
      Ending s pending values left done rs (rounds e left done s pending values w).2.2
        (rounds e left done s pending values w).1 (rounds e left done s pending values w).2.1 := by
  have idle : Clean [] := fun o member => (by cases member)
  induction left generalizing done s pending values w with
  | zero =>
    cases pending with
    | nil => exact ⟨[], .stop _ _, Nat.le_refl 0, .settled idle rfl⟩
    | cons id rest =>
      simp only [rounds]
      split
      · rename_i stopped
        exact ⟨[], .stop _ _, Nat.le_refl 0, .cancelled idle (List.cons_ne_nil _ _) stopped⟩
      · rename_i going
        exact ⟨[], .stop _ _, Nat.le_refl 0, .stuck idle (List.cons_ne_nil _ _)
          (Bool.eq_false_iff.mpr going) rfl⟩
  | succ left ih =>
    cases pending with
    | nil => exact ⟨[], .stop _ _, Nat.zero_le _, .settled idle rfl⟩
    | cons id rest =>
      simp only [rounds]
      split
      · rename_i stopped
        exact ⟨[], .stop _ _, Nat.zero_le _, .cancelled idle (List.cons_ne_nil _ _) stopped⟩
      · rename_i going
        have going : w.cancelled = false := Bool.eq_false_iff.mpr going
        have made := attempts_round s e (id :: rest) w
        have all := round_ids s e (id :: rest) w
        have sifted := Outcomes.sift_eq (s.round e (id :: rest) w).1
        generalize (s.round e (id :: rest) w).1 = o at made all sifted ⊢
        cases failures : o.failures with
        | cons first others =>
          obtain ⟨failed, source⟩ := first
          rw [failures] at sifted
          rw [sifted]
          exact ⟨[o], .round (List.cons_ne_nil _ _) going made all (.stop _ _),
            Nat.succ_le_succ (Nat.zero_le left),
            @Ending.failed s _ values (left + 1) done [] o _ failed source idle
              (by rw [failures, List.head?_cons])⟩
        | nil =>
          rw [failures] at sifted
          rw [sifted]
          have continues := continues_acceptAll s o.settled
          have engine : (s.acceptAll o.settled).engine e = s.engine e :=
            congrArg e.withLockfile continues.lockfile
          obtain ⟨rs, held, bounded, ending⟩ := ih (done + 1) (s.acceptAll o.settled) o.waiting
            (values.insertAll (valuesOf o.settled)) (s.round e (id :: rest) w).2
          rw [continues.evaluator, engine] at held
          exact ⟨o :: rs, .round (List.cons_ne_nil _ _) going made all held,
            Nat.succ_le_succ bounded, ending.after failures⟩

theorem not_clean {rs : List Outcomes} {o : Outcomes} {first : ExtensionId × ExtensionError}
    (failed : o.failures.head? = some first) : ¬ Clean (rs ++ [o]) := by
  intro clean
  rw [clean o (List.mem_append_right _ List.mem_cons_self)] at failed
  cases failed

namespace Ending

variable {s s' : Session} {pending : List ExtensionId} {values : Values} {left done : Nat}
  {rs : List Outcomes} {w : World} {result : Except SessionError Values}

theorem ok_iff (ending : Ending s pending values left done rs w result s') :
    (∃ V, result = .ok V) ↔ Clean rs ∧ remaining pending rs = [] := by
  cases ending with
  | settled clean nobody => exact iff_of_true ⟨_, rfl⟩ ⟨clean, nobody⟩
  | failed clean first =>
    exact iff_of_false (fun ⟨_, h⟩ => (by cases h)) (fun h => not_clean first h.1)
  | cancelled clean somebody stopped =>
    exact iff_of_false (fun ⟨_, h⟩ => (by cases h)) (fun h => somebody h.2)
  | stuck clean somebody going all =>
    exact iff_of_false (fun ⟨_, h⟩ => (by cases h)) (fun h => somebody h.2)

theorem shows {v : Evaluator} {engine : Engine} {w₀ : World}
    (ending : Ending s pending .empty left done rs w result s')
    (held : Held v engine pending w₀ rs w) (distinct : pending.Nodup) {V : Values}
    (ok : result = .ok V) :
    (∀ id, id ∈ V.keys ↔ id ∈ pending) ∧
      ∀ id value, V.get? id = some value ↔
        ∃ o ∈ rs, ∃ evaluation : Evaluation,
          (id, .ok (.ready evaluation)) ∈ o ∧ evaluation.value = value := by
  cases ending with
  | failed | cancelled | stuck => cases ok
  | settled clean nobody =>
    cases ok
    have permuted := held.divided clean
    rw [nobody, List.append_nil] at permuted
    have ids : (valuesOf (settledIn rs)).map Prod.fst = (settledIn rs).map Prod.fst :=
      List.map_map
    have single : ((valuesOf (settledIn rs)).map Prod.fst).Nodup :=
      ids ▸ permuted.nodup_iff.mpr distinct
    constructor
    · intro id
      rw [← permuted.mem_iff, ← ids]
      exact SortedMap.mem_keys_ofList
    · intro id value
      have shown : (SortedMap.ofList (valuesOf (settledIn rs))).get? id = some value ↔
          (id, value) ∈ valuesOf (settledIn rs) := by
        rw [SortedMap.get?_eq_some_iff, SortedMap.mem_ofList single]
      refine shown.trans ?_
      simp only [valuesOf, settledIn, List.mem_map, List.mem_flatMap, Prod.exists, Prod.mk.injEq]
      constructor
      · rintro ⟨id', evaluation, ⟨o, member, settled⟩, rfl, rfl⟩
        exact ⟨o, member, evaluation, Outcomes.mem_settled.mp settled, rfl⟩
      · rintro ⟨o, member, evaluation, settled, rfl⟩
        exact ⟨id, evaluation, ⟨o, member, Outcomes.mem_settled.mpr settled⟩, rfl, rfl⟩

/-- A failing round is the last one. It is blamed on the least of its failing extensions, and
nothing of it is recorded. -/
theorem fails (ending : Ending s pending values left done rs w result s')
    (ordered : ∀ o ∈ rs, (o.map Prod.fst).Pairwise (fun a b => compare a b = .lt))
    {before after : List Outcomes} {o : Outcomes} (here : rs = before ++ o :: after)
    (failing : o.failures ≠ []) :
    after = [] ∧ s' = s.acceptAll (settledIn before) ∧
      ∃ id source, (id, .error source) ∈ o ∧
        (∀ id' source', (id', .error source') ∈ o → compare id id' ≠ .gt) ∧
        result = .error (.extension id source) := by
  cases ending with
  | settled clean | cancelled clean | stuck clean =>
    exact absurd (clean o (here ▸ List.mem_append_right _ List.mem_cons_self)) failing
  | @failed rs last w id source clean first =>
    rcases List.eq_nil_or_concat after with rfl | ⟨others, final, rfl⟩
    · obtain ⟨rfl, same⟩ := List.append_inj' here rfl
      cases same
      have inOrder := ordered o (List.mem_append_right _ List.mem_cons_self)
      obtain ⟨member, least⟩ := Outcomes.least_of_first inOrder first
      exact ⟨rfl, rfl, id, source, member, least, rfl⟩
    · have earlier : rs = before ++ o :: others := by
        rw [List.concat_eq_append, ← List.cons_append, ← List.append_assoc] at here
        exact (List.append_inj' here rfl).1
      have member : o ∈ rs := earlier ▸ List.mem_append_right _ List.mem_cons_self
      exact absurd (clean o member) failing

theorem blamed (ending : Ending s pending values left done rs w result s') {id : ExtensionId}
    {source : ExtensionError} (failed : result = .error (.extension id source)) :
    ∃ o ∈ rs, (id, .error source) ∈ o := by
  cases ending with
  | settled | cancelled | stuck => cases failed
  | @failed _ last _ _ _ _ first =>
    cases failed
    exact ⟨last, List.mem_append_right _ List.mem_cons_self,
      Outcomes.mem_failures.mp (List.mem_of_head? first)⟩

theorem kept (ending : Ending s pending values left done rs w result s') (clean : Clean rs) :
    s' = s.acceptAll (settledIn rs) := by
  cases ending with
  | failed _ first => exact absurd clean (not_clean first)
  | settled | cancelled | stuck => rfl

theorem noProgress_iff (ending : Ending s pending values left done rs w result s') {n : Nat}
    {p : List ExtensionId} :
    result = .error (.noProgress n p) ↔ n = done + left ∧ rs.length = left ∧ Clean rs ∧
      remaining pending rs = p ∧ p ≠ [] ∧ w.cancelled = false := by
  cases ending with
  | settled clean nobody =>
    exact iff_of_false (fun h => (by cases h)) (fun ⟨_, _, _, same, somebody, _⟩ =>
      somebody (same.symm.trans nobody))
  | failed clean first =>
    exact iff_of_false (fun h => (by cases h)) (fun h => not_clean first h.2.2.1)
  | cancelled clean somebody stopped =>
    exact iff_of_false (fun h => (by cases h)) (fun ⟨_, _, _, _, _, going⟩ =>
      Bool.false_ne_true (going.symm.trans stopped))
  | stuck clean somebody going all =>
    constructor
    · intro h
      cases h
      exact ⟨rfl, all, clean, rfl, somebody, going⟩
    · rintro ⟨rfl, -, -, rfl, -, -⟩
      rfl

theorem cancelled_iff (ending : Ending s pending values left done rs w result s') :
    result = .error .cancelled ↔
      Clean rs ∧ remaining pending rs ≠ [] ∧ w.cancelled = true := by
  cases ending with
  | settled clean nobody =>
    exact iff_of_false (fun h => (by cases h)) (fun h => h.2.1 nobody)
  | failed clean first =>
    exact iff_of_false (fun h => (by cases h)) (fun h => not_clean first h.1)
  | cancelled clean somebody stopped => exact iff_of_true rfl ⟨clean, somebody, stopped⟩
  | stuck clean somebody going all =>
    exact iff_of_false (fun h => (by cases h)) (fun h =>
      Bool.false_ne_true (going.symm.trans h.2.2))

theorem exhausted (ending : Ending s pending values left done rs w result s') (clean : Clean rs)
    (somebody : remaining pending rs ≠ []) (going : w.cancelled = false) : rs.length = left := by
  cases ending with
  | settled _ nobody => exact absurd nobody somebody
  | failed _ first => exact absurd clean (not_clean first)
  | cancelled _ _ stopped => exact absurd (going.symm.trans stopped) Bool.false_ne_true
  | stuck _ _ _ all => exact all

end Ending

/-- What evaluating all of some extensions comes to, which are given once each and in order. -/
structure Settlement (s : Session) (e : Engine) (pending : List ExtensionId) (w : World)
    (rs : List Outcomes) (result : Except SessionError Values) (s' : Session) (w' : World) :
    Prop where
  /-- every round tries each extension that is still waiting, once and in order -/
  held : Held s.evaluator (s.engine e) pending w rs w'
  bounded : rs.length ≤ s.maxRounds
  ordered : ∀ o ∈ rs, (o.map Prod.fst).Pairwise (fun a b => compare a b = .lt)
  once : rs.Pairwise (fun o later => ∀ r ∈ o.settled, r.1 ∉ later.map Prod.fst)
  succeeds : (∃ V, result = .ok V) ↔ Clean rs ∧ remaining pending rs = []
  /-- the values are those of the attempts that have settled -/
  values : ∀ V, result = .ok V → (∀ id, id ∈ V.keys ↔ id ∈ pending) ∧
    ∀ id value, V.get? id = some value ↔
      ∃ o ∈ rs, ∃ evaluation : Evaluation,
        (id, .ok (.ready evaluation)) ∈ o ∧ evaluation.value = value
  kept : Clean rs → s' = s.acceptAll (settledIn rs)
  /-- a failing round is the last, records nothing, and its least failing extension is blamed -/
  fails : ∀ before o after, rs = before ++ o :: after → o.failures ≠ [] →
    after = [] ∧ s' = s.acceptAll (settledIn before) ∧
      ∃ id source, (id, .error source) ∈ o ∧
        (∀ id' source', (id', .error source') ∈ o → compare id id' ≠ .gt) ∧
        result = .error (.extension id source)
  blamed : ∀ id source, result = .error (.extension id source) →
    ∃ o ∈ rs, (id, .error source) ∈ o
  noProgress : ∀ n p, result = .error (.noProgress n p) ↔ n = s.maxRounds ∧
    rs.length = s.maxRounds ∧ Clean rs ∧ remaining pending rs = p ∧ p ≠ [] ∧ w'.cancelled = false
  cancelled : result = .error .cancelled ↔
    Clean rs ∧ remaining pending rs ≠ [] ∧ w'.cancelled = true
  exhausted : Clean rs → remaining pending rs ≠ [] → w'.cancelled = false →
    rs.length = s.maxRounds

/-- Evaluating all of some extensions settles each of them once, in as many rounds as there may be
at most, or says why it does not; a round that fails records nothing. Only which extensions are
asked for matters, not in which order or how often. -/
theorem evaluateAll_settles (s : Session) (e : Engine) (ids : List ExtensionId) (w : World) :
    (∃ pending rs, (∀ id, id ∈ pending ↔ id ∈ ids) ∧
      pending.Pairwise (fun a b => compare a b = .lt) ∧
      Settlement s e pending w rs (s.evaluateAll e ids w).1 (s.evaluateAll e ids w).2.1
        (s.evaluateAll e ids w).2.2) ∧
      ∀ ids', (∀ id, id ∈ ids' ↔ id ∈ ids) → s.evaluateAll e ids' w = s.evaluateAll e ids w := by
  constructor
  · obtain ⟨rs, held, bounded, ending⟩ :=
      rounds_ending e s.maxRounds 0 s (SortedSet.ofList ids).toList .empty w
    have sorted := SortedSet.toList_sorted (SortedSet.ofList ids)
    have ordered := fun o member => sorted.sublist (held.sublist o member)
    have distinct := SortedSet.toList_nodup (SortedSet.ofList ids)
    refine ⟨(SortedSet.ofList ids).toList, rs, fun id => SortedSet.mem_toList_ofList, sorted, ?_⟩
    exact {
      held := held
      bounded := bounded
      ordered := ordered
      once := held.once distinct
      succeeds := ending.ok_iff
      values := fun V => ending.shows held distinct
      kept := ending.kept
      fails := fun before o after => ending.fails ordered
      blamed := fun id source => ending.blamed
      noProgress := fun n p => ending.noProgress_iff.trans (by rw [Nat.zero_add]; rfl)
      cancelled := ending.cancelled_iff
      exhausted := ending.exhausted }
  · intro ids' same
    rw [evaluateAll, evaluateAll, SortedSet.ofList_congr same]

end ExtensionLock.Session
