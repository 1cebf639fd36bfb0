import ExtensionLock.Extension.Evaluator
import ExtensionLock.Proofs.Steps
import ExtensionLock.Proofs.Update

/-! One evaluation, cut where its decision falls. Up to there the world only notes what the engine
is asked. From there on a reused result is checked and handed out, and any other is what a run of
the implementation comes to. -/

namespace ExtensionLock

namespace Attempt

theorem ofExcept_eq_ok {wrap : ε → ExtensionError} {r : Except ε α} {x : α} {w w' : World} :
    (ofExcept wrap r).run w = (.ok x, w') ↔ r = .ok x ∧ w' = w := by
  cases r with
  | error e => exact ⟨fun h => (by cases h), fun h => (by cases h.1)⟩
  | ok y =>
    exact ⟨fun h => (by cases h; exact ⟨rfl, rfl⟩), fun ⟨h, h'⟩ => (by cases h; rw [h']; rfl)⟩

theorem ofStep_eq_ok {r : Step α} {x : α} {w w' : World} :
    (ofStep r).run w = (.ok x, w') ↔ r = .ready x ∧ w' = w := by
  cases r with
  | notReady => exact ⟨fun h => (by cases h), fun h => (by cases h.1)⟩
  | ready y =>
    exact ⟨fun h => (by cases h; exact ⟨rfl, rfl⟩), fun ⟨h, h'⟩ => (by cases h; rw [h']; rfl)⟩

theorem ask_run (q : Query) (answer : List Query → α) (w : World) :
    (ask q answer).run w = (.ok (answer w.asked), w.ask q) := rfl

/-- Attempts that are made of nothing but questions to the engine. -/
inductive Asks : {α : Type} → Attempt α → Prop
  | pure {α : Type} (x : α) : Asks (pure x)
  | halt {α : Type} (h : Halt) : Asks (throw h : Attempt α)
  | ask {α : Type} (q : Query) (answer : List Query → α) : Asks (ask q answer)
  | bind {α β : Type} {a : Attempt α} {f : α → Attempt β} (first : Asks a)
      (rest : ∀ x, Asks (f x)) : Asks (a >>= f)

theorem asks_ofExcept {α : Type} (wrap : ε → ExtensionError) (r : Except ε α) :
    (ofExcept wrap r).Asks := by
  cases r with
  | ok x => exact .pure x
  | error e => exact .halt (.failed (wrap e))

theorem asks_ofStep {α : Type} (r : Step α) : (ofStep r).Asks := by
  cases r with
  | ready x => exact .pure x
  | notReady => exact .halt .notReady

end Attempt

/-- What an attempt knows once it has decided what to do. -/
structure Approach where
  usages : ExtensionUsages
  location : Location
  script : LoadedScript
  extension : Extension
  decision : CacheDecision

def Approach.value (a : Approach) (specs : RepoSpecs) : ExtensionValue :=
  .ofSpecs a.usages.uniqueName specs

namespace Evaluator

def approach (v : Evaluator) (engine : Engine) (id : ExtensionId) : Attempt Approach := do
  let usages ← askUsages engine id
  let location ← match usages.sampleLocation with
    | some location => pure location
    | none => Attempt.fail (.noUsages id)
  Attempt.ofExcept .invalidLabel id.label.checkLoadable
  let script ← askScript engine id.label location
  let extension ← Attempt.ofExcept (fun e => e) (findExtension script id location)
  let decision ← v.decide engine id script.digest usages.usages
  pure ⟨usages, location, script, extension, decision⟩

def conclude (v : Evaluator) (engine : Engine) (id : ExtensionId) (a : Approach) :
    Attempt Evaluation :=
  match a.decision with
  | .reuse entry => do
    checkUsages id a.usages entry.specs
    pure ⟨.ofSpecs a.usages.uniqueName entry.specs, none, true⟩
  | .evaluate record => do
    let generated ← v.run engine id a.extension a.usages a.location
    checkUsages id a.usages generated
    let resolution := if record then some ⟨id, ⟨a.script.digest, generated⟩⟩ else none
    pure ⟨.ofSpecs a.usages.uniqueName generated, resolution, false⟩

theorem asks_decide (v : Evaluator) (engine : Engine) (id : ExtensionId) (digest : Digest)
    (usages : ModuleUsages) : (v.decide engine id digest usages).Asks := by
  rw [decide]
  split
  · exact .pure _
  · exact .bind (.bind (.ask _ _) (fun _ => Attempt.asks_ofStep _))
      (fun _ => Attempt.asks_ofExcept _ _)

def firstLocation (id : ExtensionId) (usages : ExtensionUsages) : Attempt Location :=
  match usages.sampleLocation with
  | some location => pure location
  | none => Attempt.fail (.noUsages id)

theorem approach_eq (v : Evaluator) (engine : Engine) (id : ExtensionId) :
    v.approach engine id = (do
      let usages ← askUsages engine id
      let location ← firstLocation id usages
      Attempt.ofExcept .invalidLabel id.label.checkLoadable
      let script ← askScript engine id.label location
      let extension ← Attempt.ofExcept (fun e => e) (findExtension script id location)
      let decision ← v.decide engine id script.digest usages.usages
      pure ⟨usages, location, script, extension, decision⟩) := by
  rw [approach]
  congr 1
  funext usages
  rw [firstLocation]
  cases usages.sampleLocation <;> rfl

theorem asks_approach (v : Evaluator) (engine : Engine) (id : ExtensionId) :
    (v.approach engine id).Asks := by
  rw [approach_eq]
  refine .bind (.bind (.ask _ _) (fun _ => Attempt.asks_ofStep _)) (fun usages => .bind ?_
    (fun location => .bind (Attempt.asks_ofExcept _ _) (fun _ => .bind ?_ (fun script =>
      .bind (Attempt.asks_ofExcept _ _) (fun extension => .bind (asks_decide _ _ _ _ _)
        (fun _ => .pure _))))))
  · rw [firstLocation]
    cases usages.sampleLocation with
    | none => exact .halt (.failed (.noUsages id))
    | some location => exact .pure location
  · exact .bind (.ask _ _) (fun _ => .bind (Attempt.asks_ofExcept _ _)
      (fun _ => Attempt.asks_ofStep _))

theorem asks_conclude (v : Evaluator) (engine : Engine) (id : ExtensionId) {a : Approach}
    {entry : LockedExtension} (reuse : a.decision = .reuse entry) :
    (v.conclude engine id a).Asks := by
  simp only [conclude, reuse]
  exact .bind (Attempt.asks_ofExcept _ _) (fun _ => .pure _)

theorem attempt_eq (v : Evaluator) (engine : Engine) (id : ExtensionId) :
    v.attempt engine id = v.approach engine id >>= v.conclude engine id := by
  simp only [attempt, approach, bind_assoc]
  congr 1
  funext usages
  cases usages.sampleLocation <;> simp only [bind_assoc, pure_bind] <;> rfl

variable {v : Evaluator} {e engine : Engine} {l : Lockfile} {id : ExtensionId} {a : Approach}
  {w w' : World} {evaluation : Evaluation}

def questions (v : Evaluator) (id : ExtensionId) : List Query :=
  if v.mode = .off then [.usages id, .script id.label]
  else [.usages id, .script id.label, .lockfile]

/-- The decision of an attempt and what it rests on, with a lockfile that is always at hand. -/
structure Decides (v : Evaluator) (e : Engine) (l : Lockfile) (id : ExtensionId)
    (asked : List Query) (a : Approach) : Prop where
  usages : e.usages asked id = .ready a.usages
  location : a.usages.sampleLocation = some a.location
  loadable : id.label.checkLoadable = .ok ()
  script : e.script (asked ++ [.usages id]) id.label = .ok (.ready a.script)
  extension : a.script.extension? id.name = some a.extension
  decision : v.mode.decide id a.script.digest a.usages.usages (some l) = .ok a.decision

theorem askUsages_eq_ok {usages : ExtensionUsages} :
    (askUsages engine id).run w = (.ok usages, w') ↔
      engine.usages w.asked id = .ready usages ∧ w' = w.ask (.usages id) := by
  rw [askUsages, bind_eq_ok]
  constructor
  · rintro ⟨answer, w₁, asked, ready⟩
    rw [Attempt.ask_run] at asked
    cases asked
    exact Attempt.ofStep_eq_ok.mp ready
  · rintro ⟨ready, rfl⟩
    exact ⟨_, _, Attempt.ask_run _ _ _, Attempt.ofStep_eq_ok.mpr ⟨ready, rfl⟩⟩

theorem askScript_eq_ok {label : Label} {location : Location} {script : LoadedScript} :
    (askScript engine label location).run w = (.ok script, w') ↔
      engine.script w.asked label = .ok (.ready script) ∧ w' = w.ask (.script label) := by
  rw [askScript, bind_eq_ok]
  constructor
  · rintro ⟨answer, w₁, asked, rest⟩
    rw [Attempt.ask_run] at asked
    cases asked
    obtain ⟨step, w₂, loaded, ready⟩ := bind_eq_ok.mp rest
    obtain ⟨there, rfl⟩ := Attempt.ofExcept_eq_ok.mp loaded
    obtain ⟨rfl, rfl⟩ := Attempt.ofStep_eq_ok.mp ready
    exact ⟨there, rfl⟩
  · rintro ⟨there, rfl⟩
    exact ⟨_, _, Attempt.ask_run _ _ _, bind_eq_ok.mpr ⟨_, _,
      Attempt.ofExcept_eq_ok.mpr ⟨there, rfl⟩, Attempt.ofStep_eq_ok.mpr ⟨rfl, rfl⟩⟩⟩

theorem findExtension_eq_ok {script : LoadedScript} {location : Location} {extension : Extension} :
    findExtension script id location = .ok extension ↔
      script.extension? id.name = some extension := by
  rw [findExtension]
  cases script.extension? id.name with
  | none => exact ⟨fun h => (by cases h), fun h => (by cases h)⟩
  | some other => exact ⟨fun h => (by cases h; rfl), fun h => (by cases h; rfl)⟩

theorem decide_run_eq_ok {digest : Digest} {usages : ModuleUsages} {decision : CacheDecision} :
    (v.decide (e.withLockfile l) id digest usages).run w = (.ok decision, w') ↔
      v.mode.decide id digest usages (some l) = .ok decision ∧
        w' = if v.mode = .off then w else w.ask .lockfile := by
  rw [decide]
  by_cases off : v.mode = .off
  · rw [if_pos off, if_pos off, off, LockfileMode.decide_off]
    exact ⟨fun h => (by cases h; exact ⟨rfl, rfl⟩), fun ⟨h, h'⟩ => (by cases h; rw [h']; rfl)⟩
  · rw [if_neg off, if_neg off, bind_eq_ok]
    constructor
    · rintro ⟨lockfile, w₁, asked, decided⟩
      cases asked
      obtain ⟨known, rfl⟩ := Attempt.ofExcept_eq_ok.mp decided
      exact ⟨known, rfl⟩
    · rintro ⟨known, rfl⟩
      exact ⟨l, w.ask .lockfile, rfl, Attempt.ofExcept_eq_ok.mpr ⟨known, rfl⟩⟩

structure Finds (engine : Engine) (id : ExtensionId) (asked : List Query) (a : Approach) :
    Prop where
  usages : engine.usages asked id = .ready a.usages
  location : a.usages.sampleLocation = some a.location
  loadable : id.label.checkLoadable = .ok ()
  script : engine.script (asked ++ [.usages id]) id.label = .ok (.ready a.script)
  extension : a.script.extension? id.name = some a.extension

theorem approach_eq_decide : (v.approach engine id).run w = (.ok a, w') ↔
    Finds engine id w.asked a ∧ (v.decide engine id a.script.digest a.usages.usages).run
      ((w.ask (.usages id)).ask (.script id.label)) = (.ok a.decision, w') := by
  rw [approach, bind_eq_ok]
  constructor
  · rintro ⟨usages, w₁, hu, rest⟩
    obtain ⟨used, rfl⟩ := askUsages_eq_ok.mp hu
    cases located : usages.sampleLocation with
    | none =>
      rw [located] at rest
      cases rest
    | some location =>
      simp only [located, pure_bind] at rest
      obtain ⟨_, w₂, hl, rest⟩ := bind_eq_ok.mp rest
      obtain ⟨loadable, rfl⟩ := Attempt.ofExcept_eq_ok.mp hl
      obtain ⟨script, w₃, hs, rest⟩ := bind_eq_ok.mp rest
      obtain ⟨loaded, rfl⟩ := askScript_eq_ok.mp hs
      obtain ⟨extension, w₄, hx, rest⟩ := bind_eq_ok.mp rest
      obtain ⟨exported, rfl⟩ := Attempt.ofExcept_eq_ok.mp hx
      obtain ⟨decision, w₅, decided, rest⟩ := bind_eq_ok.mp rest
      cases rest
      exact ⟨⟨used, located, loadable, loaded, findExtension_eq_ok.mp exported⟩, decided⟩
  · rintro ⟨finds, decided⟩
    refine ⟨a.usages, _, askUsages_eq_ok.mpr ⟨finds.usages, rfl⟩, ?_⟩
    simp only [finds.location, pure_bind]
    refine bind_eq_ok.mpr ⟨_, _, Attempt.ofExcept_eq_ok.mpr ⟨finds.loadable, rfl⟩, ?_⟩
    refine bind_eq_ok.mpr ⟨a.script, _, askScript_eq_ok.mpr ⟨finds.script, rfl⟩, ?_⟩
    refine bind_eq_ok.mpr ⟨a.extension, _, Attempt.ofExcept_eq_ok.mpr
      ⟨findExtension_eq_ok.mpr finds.extension, rfl⟩, ?_⟩
    exact bind_eq_ok.mpr ⟨a.decision, _, decided, rfl⟩

theorem approach_eq_ok : (v.approach (e.withLockfile l) id).run w = (.ok a, w') ↔
    v.Decides e l id w.asked a ∧ w' = { w with asked := w.asked ++ v.questions id } := by
  have questioned : (if v.mode = .off then (w.ask (.usages id)).ask (.script id.label)
        else ((w.ask (.usages id)).ask (.script id.label)).ask .lockfile) =
      { w with asked := w.asked ++ v.questions id } := by
    rw [questions]
    split <;> simp only [World.ask, List.append_assoc, List.cons_append, List.nil_append]
  rw [approach_eq_decide, decide_run_eq_ok, questioned]
  constructor
  · rintro ⟨finds, decided, same⟩
    exact ⟨⟨finds.usages, finds.location, finds.loadable, finds.script, finds.extension, decided⟩,
      same⟩
  · rintro ⟨decides, same⟩
    exact ⟨⟨decides.usages, decides.location, decides.loadable, decides.script,
      decides.extension⟩, decides.decision, same⟩

theorem checkUsages_eq_ok {usages : ExtensionUsages} {specs : RepoSpecs} :
    (checkUsages id usages specs).run w = (.ok (), w') ↔
      specs.Generates usages.usages ∧ w' = w := by
  rw [checkUsages, Attempt.ofExcept_eq_ok]
  exact and_congr_left' RepoSpecs.checkImports_eq_ok_iff

theorem conclude_reuse {entry : LockedExtension} (decided : a.decision = .reuse entry) :
    (v.conclude engine id a).run w = (.ok evaluation, w') ↔
      entry.specs.Generates a.usages.usages ∧
        evaluation = ⟨a.value entry.specs, none, true⟩ ∧ w' = w := by
  simp only [conclude, decided]
  rw [bind_eq_ok]
  constructor
  · rintro ⟨_, w₁, checked, rest⟩
    obtain ⟨generates, rfl⟩ := checkUsages_eq_ok.mp checked
    cases rest
    exact ⟨generates, rfl, rfl⟩
  · rintro ⟨generates, rfl, rfl⟩
    exact ⟨(), _, checkUsages_eq_ok.mpr ⟨generates, rfl⟩, rfl⟩

theorem conclude_evaluate {record : Bool} (decided : a.decision = .evaluate record) :
    (v.conclude engine id a).run w = (.ok evaluation, w') ↔
      ∃ specs, (v.run engine id a.extension a.usages a.location).run w = (.ok specs, w') ∧
        specs.Generates a.usages.usages ∧ evaluation = ⟨a.value specs,
          if record then some ⟨id, ⟨a.script.digest, specs⟩⟩ else none, false⟩ := by
  simp only [conclude, decided]
  rw [bind_eq_ok]
  constructor
  · rintro ⟨specs, w₁, ran, rest⟩
    obtain ⟨_, w₂, checked, handed⟩ := bind_eq_ok.mp rest
    clear rest
    obtain ⟨generates, rfl⟩ := checkUsages_eq_ok.mp checked
    cases handed
    exact ⟨specs, ran, generates, rfl⟩
  · rintro ⟨specs, ran, generates, rfl⟩
    exact ⟨specs, _, ran, bind_eq_ok.mpr ⟨(), _, checkUsages_eq_ok.mpr ⟨generates, rfl⟩, rfl⟩⟩

def outcome : Except Halt Evaluation → Except ExtensionError (Step Evaluation)
  | .ok evaluation => .ok (.ready evaluation)
  | .error .notReady => .ok .notReady
  | .error (.failed failure) => .error failure

theorem outcome_injective : Function.Injective outcome := by
  intro r r' same
  rcases r with (_ | _) | _ <;> rcases r' with (_ | _) | _ <;> cases same <;> rfl

theorem evaluate_eq (v : Evaluator) (engine : Engine) (id : ExtensionId) (w : World) :
    v.evaluate engine id w =
      (outcome ((v.attempt engine id).run w).1, ((v.attempt engine id).run w).2) := by
  unfold evaluate
  split <;> rename_i ended <;> rw [ended] <;> rfl

theorem evaluate_eq_iff {r : Except Halt Evaluation} :
    v.evaluate engine id w = (outcome r, w') ↔ (v.attempt engine id).run w = (r, w') := by
  rw [evaluate_eq, Prod.ext_iff, Prod.ext_iff]
  exact and_congr_left' outcome_injective.eq_iff

theorem evaluate_eq_ready : v.evaluate engine id w = (.ok (.ready evaluation), w') ↔
    ∃ a w₁, (v.approach engine id).run w = (.ok a, w₁) ∧
      (v.conclude engine id a).run w₁ = (.ok evaluation, w') := by
  rw [← bind_eq_ok, ← attempt_eq]
  exact evaluate_eq_iff (r := .ok evaluation)

theorem evaluate_eq_notReady : v.evaluate engine id w = (.ok .notReady, w') ↔
    (v.attempt engine id).run w = (.error .notReady, w') := evaluate_eq_iff (r := .error .notReady)

theorem evaluate_eq_error {failure : ExtensionError} :
    v.evaluate engine id w = (.error failure, w') ↔
      (v.attempt engine id).run w = (.error (.failed failure), w') :=
  evaluate_eq_iff (r := .error (.failed failure))

end Evaluator

end ExtensionLock
