import ExtensionLock.Lockfile.Format
import ExtensionLock.Proofs.Decoding
import ExtensionLock.Proofs.Identities

/-! Lockfiles that are read as they were written: names come from their readers, positions fit in
their range, and attributes hold values that come back from their texts. The limit of depth is that
of the values of tag attributes, which are nested deepest. -/

namespace ExtensionLock

namespace Base64

theorem value?_digit {n : Nat} (small : n < 64) : value? (digit n) = some n := by
  have all : ∀ m : Fin 64, value? (digit m.val) = some m.val := by decide
  exact all ⟨n, small⟩

theorem digit_ne_padding {n : Nat} (small : n < 64) : digit n ≠ '=' := by
  have all : ∀ m : Fin 64, digit m.val ≠ '=' := by decide
  exact all ⟨n, small⟩

theorem decodeChars_group {a b c d : Char} (other : d ≠ '=') (rest : List Char) :
    decodeChars (a :: b :: c :: d :: rest) = (do
      let x ← value? a
      let y ← value? b
      let z ← value? c
      let w ← value? d
      let tail ← decodeChars rest
      some (UInt8.ofNat (x * 4 + y / 16) :: UInt8.ofNat (y % 16 * 16 + z / 4) ::
        UInt8.ofNat (z % 4 * 64 + w) :: tail)) := by
  rw [decodeChars]
  · rintro rfl rfl -
    exact other rfl
  · rintro rfl -
    exact other rfl

theorem decodeChars_encodeChars (b : Bytes) : decodeChars (encodeChars b) = some b := by
  induction b using encodeChars.induct with
  | case1 => rfl
  | case2 a =>
    have bound := a.toNat_lt
    have whole : UInt8.ofNat (a.toNat / 4 * 4 + a.toNat % 4 * 16 / 16) = a := by
      rw [show a.toNat / 4 * 4 + a.toNat % 4 * 16 / 16 = a.toNat by omega, UInt8.ofNat_toNat]
    rw [encodeChars, decodeChars, value?_digit (by omega), value?_digit (by omega)]
    simp only [Option.bind_eq_bind, Option.bind_some]
    rw [if_pos (by omega), whole]
  | case3 a b =>
    have boundA := a.toNat_lt
    have boundB := b.toNat_lt
    have first : UInt8.ofNat (a.toNat / 4 * 4 + (a.toNat % 4 * 16 + b.toNat / 16) / 16) = a := by
      rw [show a.toNat / 4 * 4 + (a.toNat % 4 * 16 + b.toNat / 16) / 16 = a.toNat by omega,
        UInt8.ofNat_toNat]
    have second : UInt8.ofNat ((a.toNat % 4 * 16 + b.toNat / 16) % 16 * 16 +
        b.toNat % 16 * 4 / 4) = b := by
      rw [show (a.toNat % 4 * 16 + b.toNat / 16) % 16 * 16 + b.toNat % 16 * 4 / 4 = b.toNat by
        omega, UInt8.ofNat_toNat]
    rw [encodeChars, decodeChars, value?_digit (by omega), value?_digit (by omega),
      value?_digit (by omega)]
    · simp only [Option.bind_eq_bind, Option.bind_some]
      rw [if_pos (by omega), first, second]
    · exact digit_ne_padding (by omega)
  | case4 a b c rest ih =>
    have boundA := a.toNat_lt
    have boundB := b.toNat_lt
    have boundC := c.toNat_lt
    rw [encodeChars, decodeChars_group (digit_ne_padding (by omega)), value?_digit (by omega),
      value?_digit (by omega), value?_digit (by omega), value?_digit (by omega), ih]
    simp only [Option.bind_eq_bind, Option.bind_some]
    rw [show a.toNat / 4 * 4 + (a.toNat % 4 * 16 + b.toNat / 16) / 16 = a.toNat by omega,
      show (a.toNat % 4 * 16 + b.toNat / 16) % 16 * 16 + (b.toNat % 16 * 4 + c.toNat / 64) / 4 =
        b.toNat by omega,
      show (b.toNat % 16 * 4 + c.toNat / 64) % 4 * 64 + c.toNat % 64 = c.toNat by omega,
      UInt8.ofNat_toNat, UInt8.ofNat_toNat, UInt8.ofNat_toNat]
end Base64

theorem Digest.keeps (d : Digest) {limit : Option Nat} : Digest.decoder.Keeps limit d d.toJson := by
  apply (Decoder.string_keeps d.base64).through
  intro reads
  have back : ofBase64? d.base64 = some d := by
    rw [ofBase64?, base64, Base64.decode?, Base64.encode, String.toList_ofList,
      Base64.decodeChars_encodeChars]
    rfl
  simp only [decoder, reads, bind, Except.bind, back]

theorem Version.Parsed.keeps {v : Version} (parsed : v.Parsed) {limit : Option Nat} :
    Version.decoder.Keeps limit v v.toJson :=
  Decoder.parsed_keeps (by rw [parsed.parse_text]; rfl)

theorem ModuleKey.Parsed.keeps {k : ModuleKey} (parsed : k.Parsed) {limit : Option Nat} :
    ModuleKey.decoder.Keeps limit k k.toJson :=
  Decoder.parsed_keeps (by rw [parsed.parse_text]; rfl)

theorem ExtensionId.Parsed.keeps {id : ExtensionId} (parsed : id.Parsed) {limit : Option Nat} :
    ExtensionId.decoder.Keeps limit id id.toJson :=
  Decoder.parsed_keeps (by rw [parsed.parse_text]; rfl)

structure Location.Storable (l : Location) : Prop where
  line : l.line < limit
  column : l.column < limit

def Attributes.Storable (limit : Option Nat) (a : Attributes) : Prop :=
  ∀ e ∈ a.entries, e.2.Storable limit

structure Tag.Storable (limit : Option Nat) (t : Tag) : Prop where
  attributes : t.attributes.Storable limit
  location : t.location.Storable

structure Usage.Storable (limit : Option Nat) (u : Usage) : Prop where
  extensionId : u.extensionId.Parsed
  location : u.location.Storable
  tags : ∀ t ∈ u.tags, t.Storable limit

structure Module.Storable (limit : Option Nat) (m : Module) : Prop where
  version : m.version.Parsed
  key : m.key.Parsed
  deps : ∀ e ∈ m.deps.entries, e.2.Parsed
  usages : ∀ u ∈ m.usages, u.Storable limit

def DepGraph.Storable (limit : Option Nat) (g : DepGraph) : Prop :=
  ∀ e ∈ g.entries, e.1.Parsed ∧ e.2.Storable limit

def RepoSpecs.Storable (limit : Option Nat) (specs : RepoSpecs) : Prop :=
  ∀ e ∈ specs.entries, e.2.attributes.Storable limit

/-- The attributes of repositories are two levels less deep in a lockfile than those of tags. -/
structure Lockfile.Storable (limit : Option Nat) (l : Lockfile) : Prop where
  version : l.version = currentVersion
  depGraph : l.depGraph.Storable limit
  extensions : ∀ e ∈ l.extensions.entries,
    e.1.Parsed ∧ e.2.specs.Storable (outwardBy 2 limit)

variable {limit : Option Nat}

theorem Location.Storable.keeps {l : Location} (storable : l.Storable) :
    Location.decoder.Keeps (outward limit) l l.toJson := by
  have row : Location.record.decode.Keeps (outward limit) (l.file, l.line, l.column, ()) l.toJson :=
    Record.decode_keeps ⟨Decoder.string_keeps _, Decoder.natBelow_keeps storable.line (by decide),
      Decoder.natBelow_keeps storable.column (by decide), trivial⟩ (by decide) (.refl _)
  exact row.through (fun reads => by rw [Location.decoder, reads]; rfl)

theorem Attributes.Storable.keeps {a : Attributes} (storable : a.Storable limit) :
    Attributes.decoder.Keeps (outward limit) a a.toJson := by
  have fields : a.entries.map (fun e => (e.1, e.2)) = a.entries := List.map_id _
  have kept : (Decoder.map .string .json).Keeps (outward limit) a
      (.object (a.entries.map (fun e => (e.1, e.2)))) :=
    Decoder.map_keeps (fun k => k) (fun v => v) (fun _ _ => rfl)
      (fun e member => Decoder.json_keeps (storable e member))
  rw [fields] at kept
  exact kept

theorem Tag.Storable.keeps {t : Tag} (storable : t.Storable limit) :
    Tag.decoder.Keeps (outwardBy 2 limit) t t.toJson := by
  have row : Tag.record.decode.Keeps (outwardBy 2 limit)
      (t.tagName, t.attributes, t.devDependency, t.location, ()) t.toJson :=
    Record.decode_keeps ⟨Decoder.string_keeps _, storable.attributes.keeps, Decoder.bool_keeps _,
      storable.location.keeps, trivial⟩ (by decide) (.refl _)
  exact row.through (fun reads => by rw [Tag.decoder, reads]; rfl)

theorem stringsToJson_keeps (m : SortedMap String String) :
    (Decoder.map .string .string).Keeps (outward limit) m (stringsToJson m) :=
  Decoder.map_keeps (fun k => k) .string (fun _ _ => rfl) (fun _ _ => Decoder.string_keeps _)

theorem Usage.Storable.keeps {u : Usage} (storable : u.Storable limit) :
    Usage.decoder.Keeps (outwardBy 4 limit) u u.toJson := by
  have row : Usage.record.decode.Keeps (outwardBy 4 limit)
      (u.extensionId, u.location, u.imports, u.devImports, u.tags, ()) u.toJson :=
    Record.decode_keeps ⟨storable.extensionId.keeps, storable.location.keeps,
      stringsToJson_keeps _, Decoder.set_keeps _,
      Decoder.list_keeps (fun t member => (storable.tags t member).keeps), trivial⟩
      (by decide) (.refl _)
  exact row.through (fun reads => by rw [Usage.decoder, reads]; rfl)

theorem Module.Storable.keeps {m : Module} (storable : m.Storable limit) :
    Module.decoder.Keeps (outwardBy 6 limit) m m.toJson := by
  have row : Module.record.decode.Keeps (outwardBy 6 limit)
      (m.name, m.version, m.key, m.repoName, m.deps, m.usages, ()) m.toJson :=
    Record.decode_keeps ⟨Decoder.string_keeps _, storable.version.keeps, storable.key.keeps,
      Decoder.string_keeps _,
      Decoder.map_keeps (fun k => k) ModuleKey.toJson (fun _ _ => rfl)
        (fun e member => (storable.deps e member).keeps),
      Decoder.list_keeps (fun u member => (storable.usages u member).keeps), trivial⟩
      (by decide) (.refl _)
  exact row.through (fun reads => by rw [Module.decoder, reads]; rfl)

theorem DepGraph.Storable.keeps {g : DepGraph} (storable : g.Storable limit) :
    DepGraph.decoder.Keeps (outwardBy 7 limit) g g.toJson := by
  apply Decoder.map_keeps ModuleKey.text Module.toJson
  · intro e member
    have kept : ModuleKey.decoder.Keeps none e.1 e.1.toJson := (storable e member).1.keeps
    exact kept.reads
  · exact fun e member => (storable e member).2.keeps

theorem RepoSpec.keeps {s : RepoSpec} (storable : s.attributes.Storable limit) :
    RepoSpec.decoder.Keeps (outwardBy 2 limit) s s.toJson := by
  have row : RepoSpec.record.decode.Keeps (outwardBy 2 limit)
      (s.bzlFile, s.ruleClassName, s.attributes, ()) s.toJson := by
    rw [RepoSpec.toJson]
    cases s.bzlFile with
    | none =>
      have fits : RepoSpec.record.Fits (outward limit) (fun name => List.lookup name
          [("ruleClassName", .string s.ruleClassName), ("attributes", s.attributes.toJson)])
          (none, s.ruleClassName, s.attributes, ()) :=
        ⟨rfl, Decoder.string_keeps _, storable.keeps, trivial⟩
      exact Record.decode_keeps fits (by decide) (List.sublist_cons_self _ _)
    | some file =>
      have fits : RepoSpec.record.Fits (outward limit) (fun name => List.lookup name
          [("bzlFile", .string file), ("ruleClassName", .string s.ruleClassName),
            ("attributes", s.attributes.toJson)])
          (some file, s.ruleClassName, s.attributes, ()) :=
        ⟨Decoder.option_keeps (Decoder.string_keeps file), Decoder.string_keeps _, storable.keeps,
          trivial⟩
      exact Record.decode_keeps fits (by decide) (.refl _)
  exact row.through (fun reads => by rw [RepoSpec.decoder, reads]; rfl)

theorem RepoSpecs.Storable.keeps {specs : RepoSpecs} (storable : specs.Storable limit) :
    RepoSpecs.decoder.Keeps (outwardBy 3 limit) specs specs.toJson :=
  Decoder.map_keeps (fun k => k) RepoSpec.toJson (fun _ _ => rfl)
    (fun e member => RepoSpec.keeps (storable e member))

theorem LockedExtension.keeps {entry : LockedExtension} (storable : entry.specs.Storable limit) :
    LockedExtension.decoder.Keeps (outwardBy 4 limit) entry entry.toJson := by
  have row : LockedExtension.record.decode.Keeps (outwardBy 4 limit)
      (entry.digest, entry.specs, ()) entry.toJson :=
    Record.decode_keeps ⟨entry.digest.keeps, storable.keeps, trivial⟩ (by decide) (.refl _)
  exact row.through (fun reads => by rw [LockedExtension.decoder, reads]; rfl)

theorem CheckMode.keeps (m : CheckMode) : CheckMode.decoder.Keeps limit m m.toJson := by
  refine ⟨?_, trivial, fun _ _ => Nat.zero_le _⟩
  cases m <;> rfl

theorem Flags.keeps (f : Flags) :
    Flags.decoder.Keeps (outwardBy 2 limit) f f.toJson := by
  have row : Flags.record.decode.Keeps (outwardBy 2 limit)
      (f.registries, f.moduleOverrides, f.allowedYankedVersions, f.environmentYankedVersions,
        f.ignoreDevDependency, f.directDependencies, f.compatibility, ()) f.toJson :=
    Record.decode_keeps ⟨Decoder.list_keeps (fun s _ => Decoder.string_keeps s),
      stringsToJson_keeps _, Decoder.list_keeps (fun s _ => Decoder.string_keeps s),
      Decoder.string_keeps _, Decoder.bool_keeps _, CheckMode.keeps _, CheckMode.keeps _, trivial⟩
      (by decide) (.refl _)
  exact row.through (fun reads => by rw [Flags.decoder, reads]; rfl)

namespace Lockfile

variable {l : Lockfile}

theorem Storable.keeps (storable : l.Storable limit) :
    decoder.Keeps (outwardBy 8 limit) l l.toJson := by
  have extensions : (Decoder.map ExtensionId.decoder LockedExtension.decoder).Keeps
      (outwardBy 7 limit) l.extensions l.extensions.toJson := by
    apply Decoder.map_keeps ExtensionId.text LockedExtension.toJson
    · intro e member
      have kept : ExtensionId.decoder.Keeps none e.1 e.1.toJson :=
        (storable.extensions e member).1.keeps
      exact kept.reads
    · exact fun e member => LockedExtension.keeps (storable.extensions e member).2
  have version : l.version < UInt32.size := by
    rw [storable.version]
    decide
  have row : record.decode.Keeps (outwardBy 8 limit)
      (l.version, l.moduleFileHash, l.flags, l.overrideHashes, l.depGraph, l.extensions, ())
      l.toJson :=
    Record.decode_keeps ⟨Decoder.natBelow_keeps version (by decide), Decoder.string_keeps _,
      Flags.keeps _, stringsToJson_keeps _, storable.depGraph.keeps, extensions, trivial⟩
      (by decide) (.refl _)
  exact row.through (fun reads => by rw [decoder, reads]; rfl)

theorem versionOf_toJson (current : l.version = currentVersion) :
    versionOf l.toJson.canonical = some currentVersion := by
  have found : l.toJson.canonical.field? "lockFileVersion" =
      some (Json.nat l.version).canonical := by
    refine Json.field?_canonical ?_ List.mem_cons_self
    change record.names.Nodup
    decide
  rw [versionOf, found, current]
  rfl

/-- A lockfile is read as it was written, unless it is nested too deeply for the reader. -/
theorem parse_print (storable : l.Storable limit) (path : Path) :
    parse path l.print =
      if l.toJson.depth ≤ Json.depthLimit then .ok l else .error (.corrupted path .malformed) := by
  have kept := storable.keeps
  rw [parse, print, Json.parse?_pretty kept.readsBack]
  by_cases shallow : l.toJson.depth ≤ Json.depthLimit
  · have read : decoder.fromJson l.toJson.canonical = .ok l := kept.reads
    rw [if_pos shallow, if_pos shallow]
    dsimp only
    rw [versionOf_toJson storable.version]
    dsimp only
    rw [if_pos rfl, read]
    rfl
  · rw [if_neg shallow, if_neg shallow]

/-- How deep attributes of tags may be nested in a lockfile that can be read. -/
def tagLimit : Nat := Json.depthLimit - 8

theorem parse_print_of_limit (storable : l.Storable (some tagLimit)) (path : Path) :
    parse path l.print = .ok l := by
  rw [parse_print storable, if_pos]
  exact storable.keeps.within Json.depthLimit rfl

end Lockfile

theorem Text.ofBytes?_bytes (s : String) : Text.ofBytes? (Text.bytes s) = some s := by
  have same : (⟨(Text.bytes s).toArray⟩ : ByteArray) = s.toByteArray := rfl
  rw [Text.ofBytes?, same, String.fromUTF8?, dif_pos s.isValidUTF8]
  rfl

end ExtensionLock
