import ExtensionLock.Proofs.Cuts
import ExtensionLock.Proofs.Files

/-! Where joined paths and parents of paths lead. What is put after a path adds its components to
those of the path, so one that stays inside leads on from there. The parent of a path has one
component less, however the path is written. -/

namespace ExtensionLock

namespace Path

theorem innerComponents_append (l m : List String) :
    innerComponents (l ++ m) = innerComponents l ++ innerComponents m := List.filterMap_append ..

def Component.isName : Component → Bool
  | .normal _ => true
  | _ => false

theorem inner_cases {l : List String} {c : Component} (member : c ∈ innerComponents l) :
    c = .parent ∨ c.isName = true := by
  obtain ⟨s, -, here⟩ := List.mem_filterMap.mp member
  split at here
  · cases here
  · split at here <;> cases here
    · exact .inl rfl
    · exact .inr rfl

theorem components_slash {cs : List Char} (filled : cs ≠ []) (ds : List Char) :
    components ⟨String.ofList (cs ++ '/' :: ds)⟩ = components ⟨String.ofList cs⟩ ++
      innerComponents ((Text.splitAt '/' ds).map String.ofList) := by
  cases cs with
  | nil => exact absurd rfl filled
  | cons c rest =>
    by_cases slash : c = '/'
    · subst slash
      simp only [components, segments, isAbsolute, String.toList_ofList, List.cons_append,
        List.head?_cons, beq_self_eq_true, if_true, List.drop_one, List.tail_cons,
        Text.splitAt_append, List.map_append, innerComponents_append]
    · have relative : (some c == some '/') = false := by simpa using slash
      simp only [components, segments, isAbsolute, String.toList_ofList, List.cons_append,
        List.head?_cons, relative, Bool.false_eq_true, if_false]
      rw [← List.cons_append, Text.splitAt_append, List.map_append]
      cases pieces : Text.splitAt '/' (c :: rest) with
      | nil => exact absurd pieces (Text.splitAt_ne_nil _ _)
      | cons piece others =>
        simp only [List.map_cons, List.cons_append]
        by_cases dot : String.ofList piece = "."
        · rw [dot]
          exact congrArg (Component.current :: ·) (innerComponents_append _ _)
        · split
          · rename_i first
            exact absurd (List.cons.inj first).1 dot
          · split
            · rename_i first
              exact absurd (List.cons.inj first).1 dot
            · exact innerComponents_append (String.ofList piece :: others.map String.ofList) _

theorem join_components {a b : Path} (named : a.text ≠ "") (relative : b.isAbsolute = false) :
    (a.join b).components = a.components ++ innerComponents b.segments := by
  have behind : b.segments = (Text.splitAt '/' b.text.toList).map String.ofList := by
    simp only [segments, relative, Bool.false_eq_true, if_false]
  rw [join, if_neg (by simp [relative, named]), behind]
  split
  · rename_i ends
    obtain ⟨cs, chars⟩ := List.getLast?_eq_some_iff.mp ends
    have before : a = ⟨String.ofList (cs ++ '/' :: [])⟩ :=
      congrArg Path.mk (String.toList_inj.mp (by rw [chars, String.toList_ofList]))
    have joined : a.text ++ b.text = String.ofList (cs ++ '/' :: b.text.toList) :=
      String.toList_inj.mp (by simp [chars])
    rw [joined, before]
    by_cases filled : cs = []
    · subst filled
      simp only [components, segments, isAbsolute, String.toList_ofList, List.nil_append,
        List.head?_cons, beq_self_eq_true, if_true, List.drop_one, List.tail_cons]
      rfl
    · rw [components_slash filled, components_slash filled]
      exact congrArg (· ++ _) (List.append_nil _).symm
  · have filled : a.text.toList ≠ [] := fun nothing => named (String.toList_eq_nil_iff.mp nothing)
    have joined : a.text ++ "/" ++ b.text =
        String.ofList (a.text.toList ++ '/' :: b.text.toList) :=
      String.toList_inj.mp (by simp)
    rw [joined, components_slash filled, String.ofList_toList]

theorem join_named {a : Path} (named : a.text ≠ "") (b : Path) : (a.join b).text ≠ "" := by
  intro nothing
  unfold join at nothing
  split at nothing
  · rename_i other
    rcases other with absolute | empty
    · rw [isAbsolute, nothing] at absolute
      cases absolute
    · exact named empty
  · split at nothing
    · exact named (String.append_eq_empty_iff.mp nothing).1
    · exact named (String.append_eq_empty_iff.mp (String.append_eq_empty_iff.mp nothing).1).1

theorem leadsTo_follow {steps : List Component} (down : ∀ c ∈ steps,
    (∃ name, c = .normal name) ∨ c = .current) (p : Place) :
    p.leadsTo (steps.foldl Place.follow p) = true := by
  induction steps generalizing p with
  | nil => exact Place.leadsTo_iff.mpr (List.prefix_refl _)
  | cons c steps ih =>
    obtain ⟨here, later⟩ := List.forall_mem_cons.mp down
    have rest := Place.leadsTo_iff.mp (ih later (p.follow c))
    rcases here with ⟨name, rfl⟩ | rfl
    · exact Place.leadsTo_iff.mpr ((List.prefix_append p.names [name]).trans rest)
    · exact Place.leadsTo_iff.mpr rest

theorem inner_subset (p : Path) (relative : p.isAbsolute = false) :
    innerComponents p.segments ⊆ p.components := by
  unfold components
  rw [if_neg (Bool.eq_false_iff.mp relative)]
  split
  · rename_i rest first
    rw [first]
    exact List.subset_cons_self _ _
  · exact List.Subset.refl _

section Parent

variable {p dir : Path} {name : String}

def componentsOf (absolute : Bool) (l : List String) : List Component :=
  if absolute then .root :: innerComponents l
  else match l with
    | "." :: rest => .current :: innerComponents rest
    | l => innerComponents l

theorem components_eq (p : Path) : p.components = componentsOf p.isAbsolute p.segments := rfl

theorem componentsOf_concat {absolute : Bool} {l : List String} (s : String)
    (later : absolute ∨ l ≠ []) :
    componentsOf absolute (l ++ [s]) = componentsOf absolute l ++ innerComponents [s] := by
  cases absolute with
  | true => exact congrArg (Component.root :: ·) (innerComponents_append l [s])
  | false =>
    obtain ⟨first, rest, rfl⟩ := List.exists_cons_of_ne_nil (later.resolve_left (by decide))
    simp only [componentsOf, Bool.false_eq_true, if_false, List.cons_append]
    by_cases dot : first = "."
    · subst dot
      exact congrArg (Component.current :: ·) (innerComponents_append rest [s])
    · split
      · rename_i same
        exact absurd (List.cons.inj same).1 dot
      · split
        · rename_i same
          exact absurd (List.cons.inj same).1 dot
        · exact innerComponents_append (first :: rest) [s]

theorem componentsOf_dropSilent (absolute : Bool) (l : List String) :
    componentsOf absolute (dropSilent absolute l).reverse = componentsOf absolute l.reverse := by
  induction l with
  | nil => rfl
  | cons s rest ih =>
    rw [dropSilent]
    split
    · rename_i silent
      rw [ih, List.reverse_cons]
      by_cases later : absolute ∨ rest.reverse ≠ []
      · have nothing : innerComponents [s] = [] := by
          rcases silent with rfl | ⟨rfl, -⟩ <;> rfl
        rw [componentsOf_concat s later, nothing, List.append_nil]
      · obtain ⟨relative, alone⟩ := not_or.mp later
        rcases silent with rfl | ⟨-, behind⟩
        · rw [not_not.mp alone, Bool.eq_false_iff.mpr relative]
          rfl
        · exact absurd (behind.imp_right (fun h => List.reverse_ne_nil_iff.mpr h)) later
    · rfl

theorem innerComponents_loud {s : String} (loud : ¬ (s = "" ∨ s = ".")) :
    innerComponents [s] = [if s = ".." then .parent else .normal s] := by
  refine List.filterMap_cons_some ?_
  rw [if_neg loud]
  split <;> rfl

theorem componentsOf_last {absolute : Bool} {l rest : List String} {s : String}
    (cut : dropSilent absolute l = s :: rest) : ∃ last,
      componentsOf absolute (s :: rest).reverse =
        componentsOf absolute (dropSilent absolute rest).reverse ++ [last] := by
  induction l with
  | nil => cases cut
  | cons first others ih =>
    rw [dropSilent] at cut
    split at cut
    · exact ih cut
    · rename_i kept
      cases cut
      obtain ⟨filled, dotted⟩ := not_or.mp kept
      rw [List.reverse_cons, componentsOf_dropSilent]
      by_cases later : absolute ∨ rest.reverse ≠ []
      · have loud : ¬ (s = "" ∨ s = ".") := not_or.mpr ⟨filled, fun dot => dotted ⟨dot,
          later.imp_right (fun h => List.reverse_ne_nil_iff.mp h)⟩⟩
        rw [componentsOf_concat s later, innerComponents_loud loud]
        exact ⟨_, rfl⟩
      · obtain ⟨relative, alone⟩ := not_or.mp later
        rw [not_not.mp alone, Bool.eq_false_iff.mpr relative]
        by_cases dot : s = "."
        · rw [dot]
          exact ⟨.current, rfl⟩
        · refine ⟨_, Eq.trans ?_ (innerComponents_loud (not_or.mpr ⟨filled, dot⟩))⟩
          simp only [componentsOf, Bool.false_eq_true, if_false, List.nil_append]
          split
          · rename_i same
            exact absurd (List.cons.inj same).1 dot
          · rfl

theorem segments_eq (p : Path) : p.segments =
    (Text.splitAt '/' (p.text.toList.drop (if p.isAbsolute then 1 else 0))).map String.ofList := by
  rw [segments]
  split <;> rfl

theorem segments_clean {s : String} (member : s ∈ p.segments) : '/' ∉ s.toList := by
  rw [segments_eq] at member
  obtain ⟨piece, inside, rfl⟩ := List.mem_map.mp member
  rw [String.toList_ofList]
  exact fun slash => (Text.mem_splitAt_iff.mp ⟨piece, inside, slash⟩).2 rfl

theorem head_of_splitAt {c : Char} {cs : List Char} {others : List (List Char)}
    (pieces : Text.splitAt '/' (c :: cs) = [] :: others) : c = '/' := by
  by_contra other
  rw [Text.splitAt, if_neg other] at pieces
  split at pieces <;> cases pieces

theorem segments_of_empty {rest : List String} (relative : p.isAbsolute = false)
    (segments : p.segments = "" :: rest) : rest = [] := by
  rw [segments_eq, relative] at segments
  cases chars : p.text.toList with
  | nil =>
    rw [chars] at segments
    exact (List.cons.inj segments).2.symm
  | cons c cs =>
    rw [chars] at segments
    obtain ⟨piece, others, pieces, empty, -⟩ := List.map_eq_cons_iff.mp segments
    cases String.ofList_eq_empty_iff.mp empty
    rw [isAbsolute, chars, head_of_splitAt pieces] at relative
    cases relative

theorem components_intercalate {absolute : Bool} {l : List String}
    (clean : ∀ s ∈ l, '/' ∉ s.toList) (first : absolute = false → l.head? ≠ some "") :
    components ⟨(if absolute then "/" else "") ++ "/".intercalate l⟩ = componentsOf absolute l := by
  cases l with
  | nil => cases absolute <;> rfl
  | cons s rest =>
    have pieces : Text.splitAt '/' ("/".intercalate (s :: rest)).toList =
        (s :: rest).map String.toList := by
      rw [String.toList_intercalate]
      refine Text.splitAt_intercalate (by simp) (fun piece member => ?_)
      obtain ⟨t, inside, rfl⟩ := List.mem_map.mp member
      exact clean t inside
    have back : ((s :: rest).map String.toList).map String.ofList = s :: rest := by
      rw [List.map_map]
      exact (List.map_congr_left (fun t _ => String.ofList_toList)).trans (List.map_id _)
    cases absolute with
    | true =>
      have chars : ("/" ++ "/".intercalate (s :: rest)).toList =
          '/' :: ("/".intercalate (s :: rest)).toList := String.toList_append
      have slashed : isAbsolute ⟨"/" ++ "/".intercalate (s :: rest)⟩ = true := by
        rw [isAbsolute, chars]
        rfl
      rw [if_pos rfl, components_eq, segments_eq, slashed, chars]
      exact congrArg (componentsOf true) ((congrArg (List.map String.ofList) pieces).trans back)
    | false =>
      have relative : isAbsolute ⟨"/".intercalate (s :: rest)⟩ = false := by
        rw [isAbsolute]
        cases chars : ("/".intercalate (s :: rest)).toList with
        | nil => rfl
        | cons c cs =>
          refine Bool.eq_false_iff.mpr (fun slash => first rfl ?_)
          have same : c = '/' := by simpa using slash
          rw [chars, same, Text.splitAt, if_pos rfl] at pieces
          have empty : s.toList = [] := (List.cons.inj pieces).1.symm
          rw [String.toList_eq_nil_iff.mp empty]
          rfl
      rw [if_neg (by decide), String.empty_append, components_eq, segments_eq, relative]
      exact congrArg (componentsOf false) ((congrArg (List.map String.ofList) pieces).trans back)

theorem dropSilent_suffix (absolute : Bool) (l : List String) : dropSilent absolute l <:+ l := by
  induction l with
  | nil => exact List.suffix_refl _
  | cons s rest ih =>
    rw [dropSilent]
    split
    · exact ih.trans (List.suffix_cons s rest)
    · exact List.suffix_refl _

theorem components_parent (above : p.parent? = some dir) :
    ∃ last, p.components = dir.components ++ [last] := by
  rw [parent?] at above
  split at above
  · cases above
  · rename_i s rest cut
    cases above
    obtain ⟨last, ends⟩ := componentsOf_last cut
    have kept : (dropSilent p.isAbsolute rest).reverse <+: p.segments := by
      rw [← List.reverse_reverse p.segments, List.reverse_prefix]
      exact (dropSilent_suffix p.isAbsolute rest).trans
        ((List.suffix_cons s rest).trans (cut ▸ dropSilent_suffix p.isAbsolute p.segments.reverse))
    refine ⟨last, ?_⟩
    rw [components_intercalate (fun t member => segments_clean (kept.subset member)), ← ends, ← cut,
      componentsOf_dropSilent, List.reverse_reverse, components_eq]
    intro relative empty
    obtain ⟨others, first⟩ := List.head?_eq_some_iff.mp empty
    obtain ⟨behind, whole⟩ := kept
    rw [first] at whole
    have alone : others ++ behind = [] := segments_of_empty relative whole.symm
    rw [← whole, List.cons_append, alone, relative] at cut
    cases cut

theorem components_of_no_parent (none : p.parent? = none) :
    p.components = componentsOf p.isAbsolute [] := by
  rw [parent?] at none
  split at none
  · rename_i cut
    rw [components_eq, ← List.reverse_reverse p.segments, ← componentsOf_dropSilent, cut]
    rfl
  · cases none

theorem components_fileName (named : p.fileName? = some name) :
    ∃ dir, p.parent? = some dir ∧ p.components = dir.components ++ [.normal name] := by
  have last : p.components.getLast? = some (.normal name) := by
    rw [fileName?] at named
    split at named
    · rename_i found
      cases named
      exact found
    · cases named
  cases above : p.parent? with
  | none =>
    rw [components_of_no_parent above] at last
    cases absolute : p.isAbsolute <;> rw [absolute] at last <;> cases last
  | some dir =>
    obtain ⟨c, ends⟩ := components_parent above
    rw [ends, List.getLast?_concat] at last
    cases last
    exact ⟨dir, rfl, ends⟩

theorem components_tail {c : Component} (member : c ∈ p.components.tail) :
    c = .parent ∨ c.isName = true := by
  unfold components at member
  split at member
  · exact inner_cases member
  · split at member
    · exact inner_cases member
    · exact inner_cases (List.mem_of_mem_tail member)

theorem inner_of_mem (member : .normal name ∈ p.components) :
    .normal name ∈ innerComponents p.segments := by
  unfold components at member
  split at member
  · exact (List.mem_cons.mp member).resolve_left (fun same => (by cases same))
  · split at member
    · rename_i rest first
      rw [first]
      exact (List.mem_cons.mp member).resolve_left (fun same => (by cases same))
    · exact member

theorem normal_of_mem (member : .normal name ∈ p.components) :
    '/' ∉ name.toList ∧ name ≠ "" ∧ name ≠ "." ∧ name ≠ ".." := by
  obtain ⟨s, segment, here⟩ := List.mem_filterMap.mp (inner_of_mem member)
  split at here
  · cases here
  · rename_i loud
    obtain ⟨filled, single⟩ := not_or.mp loud
    split at here
    · cases here
    · rename_i double
      cases here
      exact ⟨segments_clean segment, filled, single, double⟩

theorem components_join_name (slash : '/' ∉ name.toList) (filled : name ≠ "") (single : name ≠ ".")
    (double : name ≠ "..") (p : Path) :
    (p.join ⟨name⟩).components = p.components ++ [.normal name] := by
  have relative : isAbsolute ⟨name⟩ = false := by
    rw [isAbsolute]
    cases chars : name.toList with
    | nil => rfl
    | cons c cs =>
      rw [chars, List.mem_cons, not_or] at slash
      simpa using Ne.symm slash.1
  have segments : segments ⟨name⟩ = [name] := by
    rw [segments_eq, relative]
    have nothing : Text.splitAt '/' [] = [] :: [] := rfl
    have whole := Text.splitAt_clean slash nothing
    rw [List.append_nil] at whole
    exact (congrArg (List.map String.ofList) whole).trans
      (congrArg (fun s => [s]) String.ofList_toList)
  have component : innerComponents [name] = [.normal name] := by
    rw [innerComponents_loud (not_or.mpr ⟨filled, single⟩), if_neg double]
  by_cases named : p.text = ""
  · have alone : p.join ⟨name⟩ = ⟨name⟩ := if_pos (.inr named)
    have nothing : p.components = [] := by
      obtain ⟨text⟩ := p
      cases named
      rfl
    rw [alone, nothing, components_eq, relative, segments]
    refine Eq.trans ?_ component
    simp only [componentsOf, Bool.false_eq_true, if_false]
    split
    · rename_i same
      exact absurd (List.cons.inj same).1 single
    · rfl
  · rw [join_components named relative, segments, component]

end Parent

end Path

theorem WorkingDirectory.folder_text (base : Path) : (base.join ⟨folder⟩).text ≠ "" := by
  intro nothing
  unfold Path.join at nothing
  have filled : folder ≠ "" := by decide
  split at nothing
  · exact filled nothing
  · split at nothing
    · exact filled (String.append_eq_empty_iff.mp nothing).2
    · exact filled (String.append_eq_empty_iff.mp nothing).2

theorem WorkingDirectory.named_text (base : Path) (name : String) :
    (named base name).path.text ≠ "" := Path.join_named (folder_text base) _

end ExtensionLock
