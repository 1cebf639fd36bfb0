import ExtensionLock.Blake3
import ExtensionLock.Proofs.Names
import ExtensionLock.Proofs.SortedMap
import ExtensionLock.ScriptGraph
import Mathlib.Algebra.Group.Nat.Defs
import Mathlib.Logic.Relation

/-! What the fingerprint of a script stands for. The bytes that are hashed for a script can be taken
apart again, whatever its content is, so two fingerprints agree only where the scripts and all that
they load agree. The hash need not be injective, which no hash of a fixed length is; it need only
tell apart the byte strings that come up in the two computations. -/

namespace ExtensionLock

theorem Blake3.length_hash (input : Bytes) : (Blake3.hash input).length = 32 := by
  have words (l : List UInt32) : (l.flatMap wordBytes).length = 4 * l.length := by
    induction l with
    | nil => rfl
    | cons w l ih => simp only [List.flatMap_cons, List.length_append, ih, List.length_cons,
        wordBytes, List.length_nil]; omega
  rw [hash, words, Vector.length_toList]

namespace ScriptGraph

section Layout

theorem length_lengthBytes (n : Nat) : (lengthBytes n).length = 8 := by
  simp [lengthBytes]

theorem mod_eq_of_digits {base n m : Nat} (count : Nat)
    (digits : ∀ i < count, n / base ^ i % base = m / base ^ i % base) :
    n % base ^ count = m % base ^ count := by
  induction count with
  | zero => rw [Nat.pow_zero, Nat.mod_one, Nat.mod_one]
  | succ count ih =>
    rw [Nat.mod_pow_succ, Nat.mod_pow_succ, digits count (Nat.lt_succ_self count),
      ih (fun i below => digits i (Nat.lt_succ_of_lt below))]

theorem lengthBytes_inj {n m : Nat} (small : n < UInt64.size) (small' : m < UInt64.size)
    (same : lengthBytes n = lengthBytes m) : n = m := by
  have digit (i : Nat) (below : i < 8) : n / 256 ^ i % 256 = m / 256 ^ i % 256 := by
    have here := congrArg (fun l : Bytes => (l[i]?).map UInt8.toNat) same
    simpa [lengthBytes, below] using here
  have whole := mod_eq_of_digits 8 digit
  have size : UInt64.size = 256 ^ 8 := rfl
  rwa [← size, Nat.mod_eq_of_lt small, Nat.mod_eq_of_lt small'] at whole

theorem loadBytes_append_inj {l l' : Label} {d d' rest rest' : Bytes} (read : l.Parsed)
    (read' : l'.Parsed) (small : (Text.bytes l.text).length < UInt64.size)
    (small' : (Text.bytes l'.text).length < UInt64.size) (sizes : d.length = d'.length)
    (same : loadBytes l d ++ rest = loadBytes l' d' ++ rest') : l = l' ∧ d = d' ∧ rest = rest' := by
  simp only [loadBytes, List.append_assoc] at same
  obtain ⟨lengths, same⟩ := List.append_inj same (by rw [length_lengthBytes, length_lengthBytes])
  obtain ⟨names, same⟩ := List.append_inj same (lengthBytes_inj small small' lengths)
  obtain ⟨digests, same⟩ := List.append_inj same sizes
  exact ⟨read.text_inj read' (Text.bytes_injective names), digests, same⟩

/-- Labels and fingerprints of loads can be told from their bytes, though nothing says how many
loads there are. -/
theorem loads_inj {loads loads' : List Label} {f f' : Label → Bytes}
    (read : ∀ l ∈ loads, l.Parsed ∧ (Text.bytes l.text).length < UInt64.size)
    (read' : ∀ l ∈ loads', l.Parsed ∧ (Text.bytes l.text).length < UInt64.size)
    (sizes : ∀ l ∈ loads, ∀ l' ∈ loads', (f l).length = (f' l').length)
    (same : loads.flatMap (fun l => loadBytes l (f l)) =
      loads'.flatMap (fun l => loadBytes l (f' l))) :
    loads = loads' ∧ ∀ l ∈ loads, f l = f' l := by
  have filled (l : Label) (d : Bytes) : loadBytes l d ≠ [] := by
    intro nothing
    have size := congrArg List.length nothing
    simp only [loadBytes, List.length_append, length_lengthBytes, List.length_nil] at size
    omega
  induction loads generalizing loads' with
  | nil => cases loads' with
    | nil => exact ⟨rfl, fun _ member => (by cases member)⟩
    | cons l' rest' =>
      exact absurd (List.append_eq_nil_iff.mp same.symm).1 (filled l' (f' l'))
  | cons l rest ih => cases loads' with
    | nil => exact absurd (List.append_eq_nil_iff.mp same).1 (filled l (f l))
    | cons l' rest' =>
      simp only [List.forall_mem_cons, List.flatMap_cons] at read read' sizes same
      obtain ⟨rfl, digests, others⟩ := loadBytes_append_inj read.1.1 read'.1.1 read.1.2 read'.1.2
        sizes.1.1 same
      obtain ⟨rfl, inner⟩ := ih read.2 read'.2 (fun l member => (sizes.2 l member).2) others
      exact ⟨rfl, List.forall_mem_cons.mpr ⟨digests, inner⟩⟩

theorem scriptBytes_inj {script script' : Script} {f f' : Label → Bytes}
    (small : script.content.length < UInt64.size) (small' : script'.content.length < UInt64.size)
    (read : ∀ l ∈ script.loads, l.Parsed ∧ (Text.bytes l.text).length < UInt64.size)
    (read' : ∀ l ∈ script'.loads, l.Parsed ∧ (Text.bytes l.text).length < UInt64.size)
    (sizes : ∀ l ∈ script.loads, ∀ l' ∈ script'.loads, (f l).length = (f' l').length)
    (same : scriptBytes script.content (script.loads.map (fun l => (l, f l))) =
      scriptBytes script'.content (script'.loads.map (fun l => (l, f' l)))) :
    script = script' ∧ ∀ l ∈ script.loads, f l = f' l := by
  simp only [scriptBytes, List.append_assoc, List.flatMap_map] at same
  have same := List.append_cancel_left same
  obtain ⟨lengths, same⟩ := List.append_inj same (by rw [length_lengthBytes, length_lengthBytes])
  obtain ⟨content, same⟩ := List.append_inj same (lengthBytes_inj small small' lengths)
  obtain ⟨loads, digests⟩ := loads_inj read read' sizes same
  exact ⟨by cases script; cases script'; congr, digests⟩

end Layout

/-- What holds of a graph that is in memory: loads are labels that a reader has produced, and no
content and no label is too long for its length to be written down. -/
structure Proper (g : ScriptGraph) : Prop where
  content : ∀ label script, g.scripts.get? label = some script →
    script.content.length < UInt64.size
  loads : ∀ label script, g.scripts.get? label = some script →
    ∀ l ∈ script.loads, l.Parsed ∧ (Text.bytes l.text).length < UInt64.size

/-- A byte string is hashed for the fingerprint of a script, over fingerprints of what it loads that
are made in the same way. -/
inductive Hashes (hash : Bytes → Bytes) (g : ScriptGraph) : Label → Bytes → Prop
  | script {label : Label} {script : Script} (here : g.scripts.get? label = some script)
      (inner : Label → Bytes) (loads : ∀ l ∈ script.loads, Hashes hash g l (inner l)) :
      Hashes hash g label
        (scriptBytes script.content (script.loads.map (fun l => (l, hash (inner l)))))

def Loads (g : ScriptGraph) (label loaded : Label) : Prop :=
  ∃ script, g.scripts.get? label = some script ∧ loaded ∈ script.loads

/-- A script comes to a label when it loads it, at once or by way of other scripts, or is it. -/
abbrev Reaches (g : ScriptGraph) : Label → Label → Prop := Relation.ReflTransGen g.Loads

def HashesFor (hash : Bytes → Bytes) (g : ScriptGraph) (root : Label) (input : Bytes) : Prop :=
  ∃ label, g.Reaches root label ∧ g.Hashes hash label input

/-- Two scripts have the same content and the same loads in the same order, and so have all scripts
that they load. -/
inductive SameClosure (g h : ScriptGraph) : Label → Label → Prop
  | script {a b : Label} {script : Script} (here : g.scripts.get? a = some script)
      (there : h.scripts.get? b = some script) (loads : ∀ l ∈ script.loads, SameClosure g h l l) :
      SameClosure g h a b

/-- A hash that tells byte strings of one kind from others of another kind by values of the same
length. -/
structure Separates (hash : Bytes → Bytes) (kind kind' : Bytes → Prop) : Prop where
  length : ∀ x y, kind x → kind' y → (hash x).length = (hash y).length
  injective : ∀ x y, kind x → kind' y → hash x = hash y → x = y

section Walk

variable {hash : Bytes → Bytes} {g h : ScriptGraph} {a b root label : Label} {x y : Bytes}

theorem Hashes.unique (hashes : g.Hashes hash label x) (hashes' : g.Hashes hash label y) :
    x = y := by
  induction hashes generalizing y with
  | @script label script here inner loads ih =>
    obtain ⟨here', inner', loads'⟩ := hashes'
    rw [here] at here'
    cases here'
    have same : script.loads.map (fun l => (l, hash (inner l))) =
        script.loads.map (fun l => (l, hash (inner' l))) :=
      List.map_congr_left (fun l member => by rw [ih l member (loads' l member)])
    rw [same]

def Known (hash : Bytes → Bytes) (g : ScriptGraph) (memo : Memo) : Prop :=
  ∀ label digest, memo.get? label = some digest → ∃ x, g.Hashes hash label x ∧ digest = hash x

def Sound (hash : Bytes → Bytes) (g : ScriptGraph) (fuel : Nat) : Prop :=
  ∀ stack memo label digest memo', walk hash g fuel stack memo label = .ok (digest, memo') →
    Known hash g memo → (∃ x, g.Hashes hash label x ∧ digest = hash x) ∧ Known hash g memo'

theorem walkAll_sound {fuel : Nat} (sound : Sound hash g fuel) {stack labels : List Label}
    {memo memo' : Memo} {loads : List (Label × Bytes)}
    (walked : walkAll hash g fuel stack memo labels = .ok (loads, memo'))
    (known : Known hash g memo) : (∃ inner : Label → Bytes,
      (∀ l ∈ labels, g.Hashes hash l (inner l)) ∧
        loads = labels.map (fun l => (l, hash (inner l)))) ∧ Known hash g memo' := by
  induction labels generalizing memo memo' loads with
  | nil =>
    rw [walkAll] at walked
    cases walked
    exact ⟨⟨fun _ => [], fun _ member => (by cases member), rfl⟩, known⟩
  | cons label rest ih =>
    rw [walkAll] at walked
    obtain ⟨⟨digest, memo₁⟩, first, walked⟩ := exists_of_bind_eq_ok walked
    obtain ⟨⟨x, hashes, rfl⟩, known₁⟩ := sound _ _ _ _ _ first known
    obtain ⟨⟨digests, memo₂⟩, others, walked⟩ := exists_of_bind_eq_ok walked
    obtain ⟨⟨inner, inside, rfl⟩, known₂⟩ := ih others known₁
    cases walked
    have agree (l : Label) (member : l ∈ rest) :
        Function.update inner label x l = inner l := by
      by_cases same : l = label
      · subst same
        rw [Function.update_self]
        exact hashes.unique (inside _ member)
      · exact Function.update_of_ne same x inner
    refine ⟨⟨Function.update inner label x, List.forall_mem_cons.mpr ⟨?_, ?_⟩, ?_⟩, known₂⟩
    · rwa [Function.update_self]
    · intro l member
      rw [agree l member]
      exact inside l member
    · rw [List.map_cons, Function.update_self]
      exact congrArg (_ :: ·) (List.map_congr_left (fun l member => by rw [agree l member]))

theorem walk_sound (hash : Bytes → Bytes) (g : ScriptGraph) (fuel : Nat) : Sound hash g fuel := by
  induction fuel with
  | zero =>
    intro stack memo label digest memo' walked known
    rw [walk] at walked
    split at walked
    · rename_i found
      cases walked
      exact ⟨known _ _ found, known⟩
    · split at walked
      · cases walked
      · split at walked <;> cases walked
  | succ fuel ih =>
    intro stack memo label digest memo' walked known
    rw [walk] at walked
    split at walked
    · rename_i found
      cases walked
      exact ⟨known _ _ found, known⟩
    · split at walked
      · cases walked
      · split at walked
        · cases walked
        · rename_i script here
          obtain ⟨⟨loads, memo₁⟩, others, walked⟩ := exists_of_bind_eq_ok walked
          obtain ⟨⟨inner, inside, rfl⟩, known₁⟩ := walkAll_sound ih others known
          cases walked
          have hashes := Hashes.script here inner inside
          refine ⟨⟨_, hashes, rfl⟩, fun other digest found => ?_⟩
          rw [SortedMap.get?_insert_eq] at found
          split at found
          · rename_i same
            cases found
            exact ⟨_, same ▸ hashes, rfl⟩
          · exact known₁ other digest found

theorem hashes_of_digestWith {d : Digest} (digested : g.digestWith hash root = .ok d) :
    ∃ x, g.Hashes hash root x ∧ d = ⟨hash x⟩ := by
  rw [digestWith] at digested
  cases walked : walk hash g (g.size + 1) [] .empty root with
  | error e => rw [walked] at digested; cases digested
  | ok result =>
    rw [walked] at digested
    cases digested
    obtain ⟨⟨x, hashes, same⟩, -⟩ := walk_sound hash g _ _ _ _ _ _ walked
      (fun _ _ found => (by cases found))
    exact ⟨x, hashes, congrArg Digest.mk same⟩

end Walk

section Closure

variable {hash : Bytes → Bytes} {g h : ScriptGraph} {a b l : Label} {x y : Bytes}

theorem Separates.mono {kind kind' part part' : Bytes → Prop}
    (separates : Separates hash kind kind') (inside : ∀ x, part x → kind x)
    (inside' : ∀ x, part' x → kind' x) :
    Separates hash part part' where
  length x y hx hy := separates.length x y (inside x hx) (inside' y hy)
  injective x y hx hy := separates.injective x y (inside x hx) (inside' y hy)

theorem HashesFor.of_loads (loads : g.Loads a l) (hashed : g.HashesFor hash l x) :
    g.HashesFor hash a x := by
  obtain ⟨label, reaches, hashes⟩ := hashed
  exact ⟨label, .head loads reaches, hashes⟩

theorem Hashes.hashesFor (hashes : g.Hashes hash a x) : g.HashesFor hash a x := ⟨a, .refl, hashes⟩

/-- Induction on how the first byte string was made; the second is taken apart beside it. -/
theorem Hashes.sameClosure (proper : g.Proper) (proper' : h.Proper) (hashes : g.Hashes hash a x)
    (hashes' : h.Hashes hash b y)
    (separates : Separates hash (g.HashesFor hash a) (h.HashesFor hash b))
    (same : hash x = hash y) : SameClosure g h a b := by
  induction hashes generalizing b y with
  | @script a script here inner loads ih =>
    have bytes := separates.injective _ _ (Hashes.script here inner loads).hashesFor
      hashes'.hashesFor same
    obtain ⟨here', inner', loads'⟩ := hashes'
    have sizes : ∀ l ∈ script.loads, ∀ l' ∈ _,
        (hash (inner l)).length = (hash (inner' l')).length :=
      fun l member l' member' => separates.length _ _
        ((loads l member).hashesFor.of_loads ⟨_, here, member⟩)
        ((loads' l' member').hashesFor.of_loads ⟨_, here', member'⟩)
    obtain ⟨rfl, digests⟩ := scriptBytes_inj (proper.content _ _ here) (proper'.content _ _ here')
      (proper.loads _ _ here) (proper'.loads _ _ here') sizes bytes
    refine .script here here' (fun l member => ih l member (loads' l member) ?_ (digests l member))
    exact separates.mono (fun _ inside => inside.of_loads ⟨_, here, member⟩)
      (fun _ inside => inside.of_loads ⟨_, here', member⟩)

theorem SameClosure.hashes_eq (same : SameClosure g h a b) (hashes : g.Hashes hash a x)
    (hashes' : h.Hashes hash b y) : x = y := by
  induction same generalizing x y with
  | @script a b script here there loads ih =>
    obtain ⟨here₁, inner, inside⟩ := hashes
    obtain ⟨there₁, inner', inside'⟩ := hashes'
    rw [here] at here₁
    rw [there] at there₁
    cases here₁
    cases there₁
    have digests : script.loads.map (fun l => (l, hash (inner l))) =
        script.loads.map (fun l => (l, hash (inner' l))) :=
      List.map_congr_left (fun l member => by rw [ih l member (inside l member) (inside' l member)])
    rw [digests]

theorem SameClosure.get?_eq (same : SameClosure g h a a) (reaches : g.Reaches a l) :
    g.scripts.get? l = h.scripts.get? l := by
  induction reaches using Relation.ReflTransGen.head_induction_on with
  | refl =>
    obtain ⟨here, there, -⟩ := same
    rw [here, there]
  | head loads _ ih =>
    obtain ⟨here, -, inside⟩ := same
    obtain ⟨script, here', member⟩ := loads
    rw [here] at here'
    cases here'
    exact ih (inside _ member)

theorem Hashes.sameClosure_self_iff (hashes : g.Hashes hash a x) :
    SameClosure g h a a ↔ ∀ l, g.Reaches a l → g.scripts.get? l = h.scripts.get? l := by
  refine ⟨fun same l reaches => same.get?_eq reaches, fun agree => ?_⟩
  induction hashes with
  | @script a script here inner loads ih =>
    refine .script here (agree a .refl ▸ here) (fun l member => ih l member (fun l' reaches => ?_))
    exact agree l' (.head ⟨script, here, member⟩ reaches)

end Closure

section Insertion

structure Addition where
  label : Label
  content : Bytes
  loads : List Label

def Addition.entry (a : Addition) : Label × Script := (a.label, ⟨a.content, a.loads.eraseDups⟩)

def ofAdditions (adds : List Addition) : ScriptGraph :=
  adds.foldl (fun g a => g.insert a.label a.content a.loads) .empty

theorem scripts_ofAdditions (adds : List Addition) :
    (ofAdditions adds).scripts = .ofList (adds.map Addition.entry) := by
  have step (g : ScriptGraph) :
      (adds.foldl (fun g a => g.insert a.label a.content a.loads) g).scripts =
        g.scripts.insertAll (adds.map Addition.entry) := by
    induction adds generalizing g with
    | nil => rfl
    | cons a rest ih => exact ih _
  exact step .empty

theorem ofAdditions_eq_of_perm {adds adds' : List Addition}
    (distinct : (adds.map Addition.label).Nodup)
    (perm : (adds.map Addition.entry).Perm (adds'.map Addition.entry)) :
    ofAdditions adds = ofAdditions adds' := by
  have keys (adds : List Addition) :
      (adds.map Addition.entry).map Prod.fst = adds.map Addition.label := by
    rw [List.map_map]
    rfl
  have nodup : ((adds.map Addition.entry).map Prod.fst).Nodup := (keys adds).symm ▸ distinct
  have nodup' := (perm.map Prod.fst).nodup_iff.mp nodup
  have same : SortedMap.ofList (adds.map Addition.entry) = .ofList (adds'.map Addition.entry) :=
    SortedMap.ofList_of_mem_iff nodup
      (fun e => perm.mem_iff.trans (SortedMap.mem_ofList nodup').symm)
  rw [← scripts_ofAdditions, ← scripts_ofAdditions] at same
  exact congrArg ScriptGraph.mk same

end Insertion

/-- Fingerprints are equal when the closures of the scripts are the same, and only then. So they
change with every change to a script of the closure, and with nothing else. -/
theorem digest_eq_iff_sameClosure {hash : Bytes → Bytes} {g h : ScriptGraph} {r s : Label}
    {d e : Digest} (proper : g.Proper) (proper' : h.Proper)
    (digested : g.digestWith hash r = .ok d) (digested' : h.digestWith hash s = .ok e)
    (separates : Separates hash (g.HashesFor hash r) (h.HashesFor hash s)) :
    (d = e ↔ SameClosure g h r s) ∧
      (r = s → (d = e ↔ ∀ l, g.Reaches r l → g.scripts.get? l = h.scripts.get? l)) ∧
      ∀ adds adds' : List Addition, (adds.map Addition.label).Nodup →
        (adds.map Addition.entry).Perm (adds'.map Addition.entry) → ∀ root,
          (ofAdditions adds).digestWith hash root = (ofAdditions adds').digestWith hash root := by
  obtain ⟨x, hashes, rfl⟩ := hashes_of_digestWith digested
  obtain ⟨y, hashes', rfl⟩ := hashes_of_digestWith digested'
  have identified : (⟨hash x⟩ : Digest) = ⟨hash y⟩ ↔ SameClosure g h r s := by
    constructor
    · intro same
      exact hashes.sameClosure proper proper' hashes' separates (Digest.mk.inj same)
    · intro same
      rw [same.hashes_eq hashes hashes']
  refine ⟨identified, ?_, fun adds adds' distinct perm root => ?_⟩
  · rintro rfl
    exact identified.trans hashes.sameClosure_self_iff
  · rw [ofAdditions_eq_of_perm distinct perm]

theorem separates_blake3 {kind kind' : Bytes → Prop}
    (injective : ∀ x y, kind x → kind' y → Blake3.hash x = Blake3.hash y → x = y) :
    Separates Blake3.hash kind kind' where
  length x y _ _ := by rw [Blake3.length_hash, Blake3.length_hash]
  injective := injective

section EditedLoad

def toolLabel : Label := ⟨"", "", "tool.bzl"⟩
def partLabel : Label := ⟨"", "", "part.bzl"⟩

def toolGraph (content : Bytes) : ScriptGraph :=
  ofAdditions [⟨toolLabel, [1], [partLabel, partLabel]⟩, ⟨partLabel, content, []⟩]

def partBytes (content : Bytes) : Bytes := scriptBytes content []

def toolBytes (hash : Bytes → Bytes) (content : Bytes) : Bytes :=
  scriptBytes [1] [(partLabel, hash (partBytes content))]

theorem toolGraph_get? (content : Bytes) (label : Label) :
    (toolGraph content).scripts.get? label = if label = partLabel then some ⟨content, []⟩
      else if label = toolLabel then some ⟨[1], [partLabel]⟩ else none := by
  have once : [partLabel, partLabel].eraseDups = [partLabel] := by decide
  have none : [].eraseDups = ([] : List Label) := rfl
  simp only [toolGraph, ofAdditions, List.foldl_cons, List.foldl_nil, insert, empty, once, none,
    SortedMap.get?_insert_eq, SortedMap.get?_empty]

theorem toolGraph_part (content : Bytes) :
    (toolGraph content).scripts.get? partLabel = some ⟨content, []⟩ := by
  rw [toolGraph_get?, if_pos rfl]

theorem toolGraph_tool (content : Bytes) :
    (toolGraph content).scripts.get? toolLabel = some ⟨[1], [partLabel]⟩ := by
  rw [toolGraph_get?, if_neg (by decide), if_pos rfl]

theorem toolGraph_script {content : Bytes} {label : Label} {script : Script}
    (here : (toolGraph content).scripts.get? label = some script) :
    (label = partLabel ∧ script = ⟨content, []⟩) ∨
      (label = toolLabel ∧ script = ⟨[1], [partLabel]⟩) := by
  rw [toolGraph_get?] at here
  split at here
  · exact .inl ⟨‹_›, (Option.some.inj here).symm⟩
  · split at here
    · exact .inr ⟨‹_›, (Option.some.inj here).symm⟩
    · cases here

theorem toolGraph_proper {content : Bytes} (small : content.length < UInt64.size) :
    (toolGraph content).Proper := by
  refine ⟨fun label script here => ?_, fun label script here l member => ?_⟩
  · obtain ⟨-, rfl⟩ | ⟨-, rfl⟩ := toolGraph_script here
    · exact small
    · decide
  · obtain ⟨-, rfl⟩ | ⟨-, rfl⟩ := toolGraph_script here
    · cases member
    · cases List.mem_singleton.mp member
      exact ⟨⟨"//:part.bzl", rfl⟩, by decide⟩

theorem toolGraph_hashes {hash : Bytes → Bytes} {content x : Bytes} {label : Label}
    (hashes : (toolGraph content).Hashes hash label x) :
    x = partBytes content ∨ x = toolBytes hash content := by
  have part : (toolGraph content).Hashes hash partLabel (partBytes content) :=
    .script (toolGraph_part content) (fun _ => []) (fun l member => (by cases member))
  have tool := Hashes.script (toolGraph_tool content) (fun _ => partBytes content)
    (fun l member => List.mem_singleton.mp member ▸ part)
  obtain ⟨script, here⟩ : ∃ script, (toolGraph content).scripts.get? label = some script := by
    cases hashes with
    | script here => exact ⟨_, here⟩
  obtain ⟨rfl, -⟩ | ⟨rfl, -⟩ := toolGraph_script here
  · exact .inl (hashes.unique part)
  · exact .inr (hashes.unique tool)

theorem toolGraph_digest (content : Bytes) (size : (toolGraph content).size = 2) :
    (toolGraph content).digest toolLabel = .ok ⟨Blake3.hash (toolBytes Blake3.hash content)⟩ := by
  have outside : partLabel ∉ [toolLabel] := by decide
  simp only [digest, digestWith, size, walk, walkAll, SortedMap.get?_empty, toolGraph_tool,
    toolGraph_part, List.not_mem_nil, outside, if_false, bind, Except.bind, Except.map]
  rfl

/-- An edit of a script that is loaded shows in the fingerprint. -/
theorem edited_load_changes_digest : ∃ d e, (toolGraph [2]).digest toolLabel = .ok d ∧
    (toolGraph [3]).digest toolLabel = .ok e ∧ d ≠ e := by
  have separates : Separates Blake3.hash ((toolGraph [2]).HashesFor Blake3.hash toolLabel)
      ((toolGraph [3]).HashesFor Blake3.hash toolLabel) := by
    have apart : [Blake3.hash (partBytes [2]), Blake3.hash (toolBytes Blake3.hash [2]),
        Blake3.hash (partBytes [3]), Blake3.hash (toolBytes Blake3.hash [3])].Nodup := by
      decide +kernel
    refine separates_blake3 ?_
    rintro x y ⟨_, -, hashes⟩ ⟨_, -, hashes'⟩ same
    obtain rfl | rfl := toolGraph_hashes hashes <;> obtain rfl | rfl := toolGraph_hashes hashes' <;>
      simp [same] at apart
  have digested := toolGraph_digest [2] (by decide +kernel)
  have digested' := toolGraph_digest [3] (by decide +kernel)
  obtain ⟨-, changes, -⟩ := digest_eq_iff_sameClosure (toolGraph_proper (by decide))
    (toolGraph_proper (by decide)) digested digested' separates
  refine ⟨_, _, digested, digested', fun same => ?_⟩
  have reaches : (toolGraph [2]).Reaches toolLabel partLabel :=
    .single ⟨_, toolGraph_tool [2], List.mem_cons_self⟩
  have unedited := (changes rfl).mp same partLabel reaches
  rw [toolGraph_part, toolGraph_part] at unedited
  cases unedited

end EditedLoad

end ScriptGraph

end ExtensionLock
