import ExtensionLock.Proofs.LoadClosure
import ExtensionLock.Proofs.Steps
import Mathlib.Data.List.Chain

/-! How the walk through loads ends. The scripts whose loads are being followed are all different,
so the walk is never deeper than there are scripts. What it remembers saves it work and changes
nothing: plain recursion, which follows a load as often as it comes up, gives the same fingerprint
or the same error. There is a fingerprint where all scripts that are loaded are there and none comes
to itself again, and an error names what stands in the way. -/

namespace ExtensionLock

namespace ScriptGraph

/-- The fingerprint of a script by plain recursion. Scripts whose loads are being followed are
known, the last first, but no fingerprint is kept. -/
def plain (hash : Bytes → Bytes) (g : ScriptGraph) :
    Nat → List Label → Label → Except ScriptGraphError Bytes
  | fuel, stack, label =>
    if label ∈ stack then
      .error (.cycle (label :: (stack.takeWhile (fun l => l ≠ label)).reverse ++ [label]))
    else match g.scripts.get? label with
      | none => .error (.missing label stack.head?)
      | some script =>
        match fuel with
        | 0 => .error (.cycle [])
        | fuel + 1 => do
          let loads ← script.loads.mapM (fun l =>
            (plain hash g fuel (label :: stack) l).map (fun digest => (l, digest)))
          .ok (hash (scriptBytes script.content loads))

/-- The scripts on a way from a root to a label, the last first. Each loads the next and the last
loads the label, and none is on the way twice. -/
inductive Trail (g : ScriptGraph) (root : Label) : List Label → Label → Prop
  | start : Trail g root [] root
  | load {stack : List Label} {label next : Label} (trail : Trail g root stack label)
      (fresh : label ∉ stack) (loads : g.Loads label next) : Trail g root (label :: stack) next

/-- What an error says is there: a label without a script, as the root or in the loads of a script
that the root comes to, or scripts that the root comes to and that load each other in a circle. -/
inductive Blames (g : ScriptGraph) (root : Label) : ScriptGraphError → Prop
  | rootMissing (absent : g.scripts.get? root = none) : Blames g root (.missing root none)
  | loadMissing {label loader : Label} (reaches : g.Reaches root loader)
      (loads : g.Loads loader label) (absent : g.scripts.get? label = none) :
      Blames g root (.missing label (some loader))
  | cycle {first : Label} (between : List Label) (reaches : g.Reaches root first)
      (chain : (first :: between ++ [first]).IsChain g.Loads) :
      Blames g root (.cycle (first :: between ++ [first]))

/-- All scripts that a label comes to are there, and none of them comes to itself by its loads. -/
structure Loadable (g : ScriptGraph) (root : Label) : Prop where
  present : ∀ label, g.Reaches root label → g.contains label = true
  acyclic : ∀ label, g.Reaches root label → ¬ Relation.TransGen g.Loads label label

section Trails

variable {g : ScriptGraph} {root label : Label} {stack : List Label}

theorem Loads.present {loader : Label} (loads : g.Loads loader label) :
    loader ∈ g.scripts.keys := by
  obtain ⟨script, here, -⟩ := loads
  exact SortedMap.contains_iff.mp (Option.isSome_iff_exists.mpr ⟨script, here⟩)

theorem Trail.nodup (trail : g.Trail root stack label) : stack.Nodup := by
  induction trail with
  | start => exact List.nodup_nil
  | load trail fresh loads ih => exact List.nodup_cons.mpr ⟨fresh, ih⟩

theorem Trail.present (trail : g.Trail root stack label) : ∀ l ∈ stack, l ∈ g.scripts.keys := by
  induction trail with
  | start => exact fun l member => (by cases member)
  | load trail fresh loads ih => exact List.forall_mem_cons.mpr ⟨loads.present, ih⟩

theorem Trail.length_le (trail : g.Trail root stack label) : stack.length ≤ g.size := by
  have fits := trail.nodup.length_le_of_subset trail.present
  rwa [SortedMap.keys, List.length_map] at fits

theorem Trail.length_lt (trail : g.Trail root stack label) (fresh : label ∉ stack)
    {script : Script} (here : g.scripts.get? label = some script) : stack.length < g.size := by
  have there : label ∈ g.scripts.keys :=
    SortedMap.contains_iff.mp (Option.isSome_iff_exists.mpr ⟨script, here⟩)
  have fits := (List.nodup_cons.mpr ⟨fresh, trail.nodup⟩).length_le_of_subset
    (List.forall_mem_cons.mpr ⟨there, trail.present⟩)
  rwa [SortedMap.keys, List.length_map] at fits

theorem room_cons {fuel : Nat} (room : g.size < fuel + 1 + stack.length) :
    g.size < fuel + (label :: stack).length := by
  rw [List.length_cons]
  omega

theorem Trail.above (trail : g.Trail root stack label) :
    ∀ l ∈ stack, Relation.TransGen g.Loads l label := by
  induction trail with
  | start => exact fun l member => (by cases member)
  | load trail fresh loads ih =>
    exact List.forall_mem_cons.mpr ⟨.single loads, fun l member => (ih l member).tail loads⟩

theorem Trail.reaches (trail : g.Trail root stack label) :
    g.Reaches root label ∧ ∀ l ∈ stack, g.Reaches root l := by
  induction trail with
  | start => exact ⟨.refl, fun l member => (by cases member)⟩
  | load trail fresh loads ih =>
    exact ⟨ih.1.tail loads, List.forall_mem_cons.mpr ⟨ih.1, ih.2⟩⟩

theorem Trail.chain (trail : g.Trail root stack label) {l : Label} (member : l ∈ stack) :
    (l :: (stack.takeWhile (fun l' => l' ≠ l)).reverse ++ [label]).IsChain g.Loads := by
  induction trail with
  | start => cases member
  | @load stack last next trail fresh loads ih =>
    by_cases here : last = l
    · subst here
      simpa using loads
    · have inside := ih ((List.mem_cons.mp member).resolve_left (Ne.symm here))
      have whole := inside.append (List.isChain_singleton next)
        (by simpa only [List.getLast?_concat, List.head?_cons, Option.mem_some_iff, forall_eq'])
      simpa [here] using whole

theorem Trail.blames_missing (trail : g.Trail root stack label)
    (absent : g.scripts.get? label = none) : g.Blames root (.missing label stack.head?) := by
  cases trail with
  | start => exact .rootMissing absent
  | load trail fresh loads => exact .loadMissing trail.reaches.1 loads absent

end Trails

section Plain

variable {hash : Bytes → Bytes} {g : ScriptGraph} {root label : Label} {stack : List Label}
  {fuel : Nat} {memo : Memo} {x : Bytes}

/-- What is left of the fuel is enough for as long as it exceeds what is left of the scripts. -/
theorem plain_fuel (trail : g.Trail root stack label) {fuel' : Nat}
    (room : g.size < fuel + stack.length) (room' : g.size < fuel' + stack.length) :
    plain hash g fuel stack label = plain hash g fuel' stack label := by
  induction fuel generalizing stack label fuel' with
  | zero =>
    have fits := trail.length_le
    omega
  | succ fuel ih => cases fuel' with
    | zero =>
      have fits := trail.length_le
      omega
    | succ fuel' =>
      rw [plain, plain]
      split
      · rfl
      · rename_i fresh
        cases here : g.scripts.get? label with
        | none => rfl
        | some script =>
          have alike : ∀ l ∈ script.loads, (plain hash g fuel (label :: stack) l).map
              (fun digest => (l, digest)) = (plain hash g fuel' (label :: stack) l).map
                (fun digest => (l, digest)) := by
            intro l member
            have further := trail.load fresh ⟨script, here, member⟩
            rw [ih further (room_cons room) (room_cons room')]
          simp only [mapM_congr alike]

theorem plain_blames (trail : g.Trail root stack label) (room : g.size < fuel + stack.length)
    {e : ScriptGraphError} (failed : plain hash g fuel stack label = .error e) :
    g.Blames root e := by
  induction fuel generalizing stack label with
  | zero =>
    have fits := trail.length_le
    omega
  | succ fuel ih =>
    rw [plain] at failed
    split at failed
    · rename_i again
      cases failed
      exact .cycle _ (trail.reaches.2 label again) (trail.chain again)
    · rename_i fresh
      split at failed
      · rename_i absent
        cases failed
        exact trail.blames_missing absent
      · rename_i script here
        cases inner : script.loads.mapM (fun l =>
            (plain hash g fuel (label :: stack) l).map (fun digest => (l, digest))) with
        | ok loads => simp only [inner] at failed; cases failed
        | error e' =>
          simp only [inner] at failed
          cases failed
          obtain ⟨l, member, failed⟩ := exists_of_mapM_eq_error inner
          have further := trail.load fresh ⟨script, here, member⟩
          cases outcome : plain hash g fuel (label :: stack) l with
          | ok digest => rw [outcome] at failed; cases failed
          | error e' =>
            rw [outcome] at failed
            cases failed
            exact ih further (room_cons room) outcome

end Plain

section Memory

variable {hash : Bytes → Bytes} {g : ScriptGraph} {root label : Label} {stack : List Label}
  {fuel : Nat} {memo : Memo} {x : Bytes}

theorem Hashes.loadable (hashes : g.Hashes hash label x) : g.Loadable label := by
  induction hashes with
  | @script label script here inner loads ih =>
    have down {l : Label} (reaches : g.Reaches label l) : l = label ∨
        ∃ l' ∈ script.loads, g.Reaches l' l := by
      rcases reaches.cases_head with same | ⟨l', ⟨script', here', member⟩, rest⟩
      · exact .inl same.symm
      · rw [here] at here'
        cases here'
        exact .inr ⟨l', member, rest⟩
    constructor
    · intro l reaches
      rcases down reaches with rfl | ⟨l', member, rest⟩
      · exact Option.isSome_iff_exists.mpr ⟨script, here⟩
      · exact (ih l' member).present l rest
    · intro l reaches circle
      rcases down reaches with rfl | ⟨l', member, rest⟩
      · obtain ⟨l', ⟨script', here', member⟩, back⟩ := Relation.TransGen.head'_iff.mp circle
        rw [here] at here'
        cases here'
        exact (ih l' member).acyclic l back circle
      · exact (ih l' member).acyclic l rest circle

/-- A script that has a fingerprint gets it again wherever the recursion comes to it: none of the
scripts on the way can be among those that it loads. -/
theorem Hashes.plain_eq (hashes : g.Hashes hash label x) (trail : g.Trail root stack label)
    (room : g.size < fuel + stack.length) : plain hash g fuel stack label = .ok (hash x) := by
  induction hashes generalizing stack fuel with
  | @script label script here inner loads ih =>
    have whole := Hashes.script here inner loads
    have fresh : label ∉ stack := fun again =>
      whole.loadable.acyclic label .refl (trail.above label again)
    have fits := trail.length_lt fresh here
    cases fuel with
    | zero => omega
    | succ fuel =>
      have each : ∀ l ∈ script.loads, (plain hash g fuel (label :: stack) l).map
          (fun digest => (l, digest)) = pure (l, hash (inner l)) := by
        intro l member
        rw [ih l member (trail.load fresh ⟨script, here, member⟩) (room_cons room)]
        rfl
      rw [plain, if_neg fresh, here]
      simp only [mapM_congr each, List.mapM_pure]
      rfl

theorem walkAll_map {labels : List Label}
    (each : ∀ label ∈ labels, ∀ memo, Known hash g memo →
      (walk hash g fuel stack memo label).map Prod.fst = plain hash g fuel stack label)
    (known : Known hash g memo) : (walkAll hash g fuel stack memo labels).map Prod.fst =
      labels.mapM (fun l => (plain hash g fuel stack l).map (fun digest => (l, digest))) := by
  induction labels generalizing memo with
  | nil =>
    rw [walkAll, List.mapM_nil]
    rfl
  | cons label labels ih =>
    obtain ⟨here, others⟩ := List.forall_mem_cons.mp each
    have first := here memo known
    rw [walkAll, List.mapM_cons]
    cases walked : walk hash g fuel stack memo label with
    | error e =>
      rw [walked] at first
      rw [← first]
      rfl
    | ok result =>
      obtain ⟨digest, memo'⟩ := result
      rw [walked] at first
      rw [← first]
      have rest := ih others (walk_sound hash g _ _ _ _ _ _ walked known).2
      change ((walkAll hash g fuel stack memo' labels >>= fun r => _).map _) =
        (labels.mapM _ >>= fun r => _)
      rw [← rest]
      cases walkAll hash g fuel stack memo' labels <;> rfl

/-- The memo of the walk saves work and changes nothing, neither fingerprints nor errors. -/
theorem walk_map (trail : g.Trail root stack label) (known : Known hash g memo)
    (room : g.size < fuel + stack.length) :
    (walk hash g fuel stack memo label).map Prod.fst = plain hash g fuel stack label := by
  induction fuel generalizing stack memo label with
  | zero =>
    have fits := trail.length_le
    omega
  | succ fuel ih =>
    cases found : memo.get? label with
    | some digest =>
      obtain ⟨x, hashes, rfl⟩ := known label digest found
      rw [walk, found, hashes.plain_eq trail room]
      rfl
    | none =>
      rw [walk, found, plain]
      by_cases again : label ∈ stack
      · simp only [if_pos again]
        rfl
      · simp only [if_neg again]
        cases here : g.scripts.get? label with
        | none => rfl
        | some script =>
          have each : ∀ l ∈ script.loads, ∀ memo, Known hash g memo →
              (walk hash g fuel (label :: stack) memo l).map Prod.fst =
                plain hash g fuel (label :: stack) l := by
            intro l member memo' known'
            exact ih (trail.load again ⟨script, here, member⟩) known' (room_cons room)
          have inside := walkAll_map each known
          simp only [← inside]
          cases walkAll hash g fuel (label :: stack) memo script.loads <;> rfl

theorem digestWith_eq_plain (hash : Bytes → Bytes) (g : ScriptGraph) (root : Label)
    (enough : g.size < fuel) :
    g.digestWith hash root = (plain hash g fuel [] root).map Digest.mk := by
  have nothing : Known hash g .empty := fun label digest found => (by cases found)
  have walked : (walk hash g (g.size + 1) [] .empty root).map Prod.fst =
      plain hash g (g.size + 1) [] root := walk_map .start nothing (Nat.lt_succ_self g.size)
  rw [plain_fuel .start (Nat.lt_succ_self g.size) enough] at walked
  rw [← walked, digestWith]
  cases walk hash g (g.size + 1) [] .empty root <;> rfl

theorem digestWith_eq_ok_iff {d : Digest} :
    g.digestWith hash root = .ok d ↔ ∃ x, g.Hashes hash root x ∧ d = ⟨hash x⟩ := by
  refine ⟨hashes_of_digestWith, ?_⟩
  rintro ⟨x, hashes, rfl⟩
  have enough := Nat.lt_succ_self g.size
  rw [digestWith_eq_plain hash g root enough, hashes.plain_eq .start enough]
  rfl

theorem blames_of_digestWith {e : ScriptGraphError} (failed : g.digestWith hash root = .error e) :
    g.Blames root e := by
  have enough := Nat.lt_succ_self g.size
  rw [digestWith_eq_plain hash g root enough] at failed
  cases outcome : plain hash g (g.size + 1) [] root with
  | ok digest => rw [outcome] at failed; cases failed
  | error e' =>
    rw [outcome] at failed
    cases failed
    exact plain_blames .start enough outcome

theorem Blames.not_loadable {e : ScriptGraphError} (blames : g.Blames root e) :
    ¬ g.Loadable root := by
  intro loadable
  cases blames with
  | rootMissing absent =>
    have present := loadable.present root .refl
    rw [contains, SortedMap.contains, absent] at present
    cases present
  | loadMissing reaches loads absent =>
    have present := loadable.present _ (reaches.tail loads)
    rw [contains, SortedMap.contains, absent] at present
    cases present
  | @cycle first between reaches chain =>
    have far := (chain.imp (fun _ _ => Relation.TransGen.single)).pairwise
    exact loadable.acyclic first reaches (List.rel_of_pairwise_cons far (by simp))

end Memory

/-- The walk ends, and no deeper than there are scripts: with more fuel than scripts it makes no
difference how much. It comes to the same as plain recursion. There is a fingerprint exactly where
all that is loaded is there and nothing loads itself, and it is the one that the scripts determine.
An error names a label that is missing, with a script that loads it, or a circle of loads. -/
theorem digestWith_settled (hash : Bytes → Bytes) (g : ScriptGraph) (root : Label) :
    (∀ fuel, g.size < fuel →
      (walk hash g fuel [] .empty root).map (fun r => ⟨r.1⟩) = g.digestWith hash root ∧
      (plain hash g fuel [] root).map Digest.mk = g.digestWith hash root) ∧
    ((∃ d, g.digestWith hash root = .ok d) ↔ g.Loadable root) ∧
    (∀ d, g.digestWith hash root = .ok d ↔ ∃ x, g.Hashes hash root x ∧ d = ⟨hash x⟩) ∧
    ∀ e, g.digestWith hash root = .error e → g.Blames root e := by
  have enough := Nat.lt_succ_self g.size
  refine ⟨fun fuel room => ⟨?walked, ?plain⟩, ⟨?loadable, ?loaded⟩, fun d => digestWith_eq_ok_iff,
    fun e failed => blames_of_digestWith failed⟩
  case walked =>
    have nothing : Known hash g .empty := fun label digest found => (by cases found)
    rw [digestWith_eq_plain hash g root room, ← walk_map .start nothing room]
    cases walk hash g fuel [] .empty root <;> rfl
  case plain => exact (digestWith_eq_plain hash g root room).symm
  case loadable =>
    rintro ⟨d, digested⟩
    obtain ⟨x, hashes, -⟩ := digestWith_eq_ok_iff.mp digested
    exact hashes.loadable
  case loaded =>
    intro loadable
    cases outcome : g.digestWith hash root with
    | ok d => exact ⟨d, rfl⟩
    | error e => exact absurd loadable (blames_of_digestWith outcome).not_loadable

def thirdLabel : Label := ⟨"", "", "third.bzl"⟩

def circleGraph : ScriptGraph :=
  ofAdditions [⟨toolLabel, [1], [partLabel]⟩, ⟨partLabel, [2], [thirdLabel]⟩,
    ⟨thirdLabel, [3], [partLabel]⟩]

/-- The circle begins and ends with the script where it is entered. -/
theorem entered_circle_blamed :
    circleGraph.digest toolLabel = .error (.cycle [partLabel, thirdLabel, partLabel]) ∧
      circleGraph.Blames toolLabel (.cycle [partLabel, thirdLabel, partLabel]) ∧
      ¬ circleGraph.Loadable toolLabel := by
  have failed : circleGraph.digest toolLabel =
      .error (.cycle [partLabel, thirdLabel, partLabel]) := by cbv
  obtain ⟨-, digests, -, blames⟩ := digestWith_settled Blake3.hash circleGraph toolLabel
  refine ⟨failed, blames _ failed, ?_⟩
  rw [← digests]
  rintro ⟨d, digested⟩
  cases failed.symm.trans digested

end ScriptGraph

end ExtensionLock
