import ExtensionLock.Spelling
import Mathlib.Order.Bounds.Basic

/-! The distance of two texts. The loop fills a table row by row, and the last entry is the distance
by recursion on both texts. That is the least number of insertions, deletions and substitutions of
single characters that turn one text into the other, wherever and in whatever order they are made.
Between edits and recursion stand alignments, which go through both texts once, front to back. -/

namespace ExtensionLock.Spelling

/-- One character is inserted, deleted or substituted, at the front or behind characters that stay
as they are. -/
inductive Edit : List Char → List Char → Prop
  | insert (c : Char) (a : List Char) : Edit a (c :: a)
  | delete (c : Char) (a : List Char) : Edit (c :: a) a
  | substitute (c d : Char) (a : List Char) : Edit (c :: a) (d :: a)
  | later (c : Char) {a b : List Char} (edit : Edit a b) : Edit (c :: a) (c :: b)

inductive Edits : Nat → List Char → List Char → Prop
  | done (a : List Char) : Edits 0 a a
  | step {n : Nat} {a b c : List Char} (first : Edit a b) (rest : Edits n b c) : Edits (n + 1) a c

def levenshtein : List Char → List Char → Nat
  | [], b => b.length
  | a, [] => a.length
  | c :: a, d :: b =>
    if c = d then levenshtein a b
    else 1 + min (levenshtein a (d :: b)) (min (levenshtein (c :: a) b) (levenshtein a b))
termination_by a b => a.length + b.length

/-- Two texts side by side, each character kept, inserted, deleted or substituted, with the number
of those that are not kept. -/
inductive Aligned : Nat → List Char → List Char → Prop
  | nil : Aligned 0 [] []
  | keep (c : Char) {n : Nat} {a b : List Char} (rest : Aligned n a b) :
      Aligned n (c :: a) (c :: b)
  | insert (c : Char) {n : Nat} {a b : List Char} (rest : Aligned n a b) :
      Aligned (n + 1) a (c :: b)
  | delete (c : Char) {n : Nat} {a b : List Char} (rest : Aligned n a b) :
      Aligned (n + 1) (c :: a) b
  | substitute (c d : Char) {n : Nat} {a b : List Char} (rest : Aligned n a b) :
      Aligned (n + 1) (c :: a) (d :: b)

section

variable {m n : Nat} {a b c x y : List Char}

namespace Aligned

theorem refl (a : List Char) : Aligned 0 a a := by
  induction a with
  | nil => exact .nil
  | cons c a ih => exact .keep c ih

theorem inserted (b : List Char) : Aligned b.length [] b := by
  induction b with
  | nil => exact .nil
  | cons c b ih => exact .insert c ih

theorem symm (aligned : Aligned n a b) : Aligned n b a := by
  induction aligned with
  | nil => exact .nil
  | keep c _ ih => exact .keep c ih
  | insert c _ ih => exact .delete c ih
  | delete c _ ih => exact .insert c ih
  | substitute c d _ ih => exact .substitute d c ih

theorem append (front : Aligned m a b) (back : Aligned n x y) :
    Aligned (m + n) (a ++ x) (b ++ y) := by
  induction front with
  | nil => rwa [Nat.zero_add]
  | keep c _ ih => exact .keep c ih
  | insert c _ ih => rw [Nat.succ_add]; exact .insert c ih
  | delete c _ ih => rw [Nat.succ_add]; exact .delete c ih
  | substitute c d _ ih => rw [Nat.succ_add]; exact .substitute c d ih

theorem reverse (aligned : Aligned n a b) : Aligned n a.reverse b.reverse := by
  induction aligned with
  | nil => exact .nil
  | keep c _ ih => simpa using ih.append (.keep c .nil)
  | insert c _ ih => simpa using ih.append (.insert c .nil)
  | delete c _ ih => simpa using ih.append (.delete c .nil)
  | substitute c d _ ih => simpa using ih.append (.substitute c d .nil)

theorem length_le (aligned : Aligned n a b) : b.length ≤ a.length + n := by
  induction aligned with
  | nil => exact Nat.le_refl _
  | keep | insert | delete | substitute =>
    simp only [List.length_cons]
    omega

theorem after_edit (edit : Edit a b) (aligned : Aligned n b c) : ∃ m ≤ n + 1, Aligned m a c := by
  induction aligned generalizing a with
  | nil =>
    cases edit with
    | delete d => exact ⟨1, Nat.le_refl _, .delete d .nil⟩
  | @keep e n b c rest ih =>
    cases edit with
    | insert => exact ⟨n + 1, Nat.le_refl _, .insert e rest⟩
    | delete d => exact ⟨n + 1, Nat.le_refl _, .delete d (.keep e rest)⟩
    | substitute d => exact ⟨n + 1, Nat.le_refl _, .substitute d e rest⟩
    | later _ edit =>
      obtain ⟨m, few, taken⟩ := ih edit
      exact ⟨m, few, .keep e taken⟩
  | insert e _ ih =>
    obtain ⟨m, few, taken⟩ := ih edit
    exact ⟨m + 1, Nat.succ_le_succ few, .insert e taken⟩
  | @delete e n b c rest ih =>
    cases edit with
    | insert => exact ⟨n, by omega, rest⟩
    | delete d => exact ⟨n + 2, Nat.le_refl _, .delete d (.delete e rest)⟩
    | substitute d => exact ⟨n + 1, by omega, .delete d rest⟩
    | later _ edit =>
      obtain ⟨m, few, taken⟩ := ih edit
      exact ⟨m + 1, Nat.succ_le_succ few, .delete e taken⟩
  | @substitute e f n b c rest ih =>
    cases edit with
    | insert => exact ⟨n + 1, by omega, .insert f rest⟩
    | delete d => exact ⟨n + 2, Nat.le_refl _, .delete d (.substitute e f rest)⟩
    | substitute d => exact ⟨n + 1, by omega, .substitute d f rest⟩
    | later _ edit =>
      obtain ⟨m, few, taken⟩ := ih edit
      exact ⟨m + 1, Nat.succ_le_succ few, .substitute e f taken⟩

theorem of_cons_cons {d : Char} (aligned : Aligned n (d :: a) (d :: b)) :
    ∃ m ≤ n, Aligned m a b := by
  cases aligned with
  | keep _ rest => exact ⟨n, Nat.le_refl _, rest⟩
  | insert _ rest => exact after_edit (.insert d a) rest
  | delete _ rest =>
    obtain ⟨m, few, taken⟩ := after_edit (.insert d b) rest.symm
    exact ⟨m, few, taken.symm⟩
  | @substitute _ _ n _ _ rest => exact ⟨n, by omega, rest⟩

end Aligned

theorem Edits.later (d : Char) (edits : Edits n a b) : Edits n (d :: a) (d :: b) := by
  induction edits with
  | done a => exact .done _
  | step first _ ih => exact .step (.later d first) ih

theorem Aligned.edits (aligned : Aligned n a b) : Edits n a b := by
  induction aligned with
  | nil => exact .done []
  | keep c _ ih => exact ih.later c
  | insert c _ ih => exact .step (.insert c _) (ih.later c)
  | delete c _ ih => exact .step (.delete c _) ih
  | substitute c d _ ih => exact .step (.substitute c d _) (ih.later d)

theorem Edits.aligned (edits : Edits n a b) : ∃ m ≤ n, Aligned m a b := by
  induction edits with
  | done a => exact ⟨0, Nat.le_refl _, .refl a⟩
  | step first _ ih =>
    obtain ⟨m, few, rest⟩ := ih
    obtain ⟨k, fewer, whole⟩ := rest.after_edit first
    exact ⟨k, by omega, whole⟩

theorem aligned_levenshtein (a b : List Char) : Aligned (levenshtein a b) a b := by
  fun_induction levenshtein a b with
  | case1 b => exact .inserted b
  | case2 a => exact (Aligned.inserted a).symm
  | case3 a d b kept => exact .keep d kept
  | case4 c a d b other deleted inserted substituted =>
    rw [Nat.add_comm]
    exact min_rec' (fun n => Aligned (n + 1) (c :: a) (d :: b)) (.delete c deleted)
      (min_rec' (fun n => Aligned (n + 1) (c :: a) (d :: b)) (.insert d inserted)
        (.substitute c d substituted))

theorem levenshtein_le (aligned : Aligned n a b) : levenshtein a b ≤ n := by
  fun_induction levenshtein a b generalizing n with
  | case1 b => simpa using aligned.length_le
  | case2 a => simpa using aligned.symm.length_le
  | case3 a d b kept =>
    obtain ⟨m, few, rest⟩ := aligned.of_cons_cons
    exact (kept rest).trans few
  | case4 c a d b other deleted inserted substituted =>
    cases aligned with
    | keep => exact absurd rfl other
    | insert _ rest => have := inserted rest; omega
    | delete _ rest => have := deleted rest; omega
    | substitute _ _ rest => have := substituted rest; omega

theorem levenshtein_least (a b : List Char) : IsLeast {n | Edits n a b} (levenshtein a b) := by
  refine ⟨(aligned_levenshtein a b).edits, fun n edits => ?_⟩
  obtain ⟨m, few, aligned⟩ := Edits.aligned edits
  exact (levenshtein_le aligned).trans few

theorem levenshtein_reverse (a b : List Char) :
    levenshtein a.reverse b.reverse = levenshtein a b := by
  refine le_antisymm (levenshtein_le (aligned_levenshtein a b).reverse) (levenshtein_le ?_)
  simpa using (aligned_levenshtein a.reverse b.reverse).reverse

theorem levenshtein_nil (b : List Char) : levenshtein [] b = b.length := by
  rw [levenshtein]

theorem levenshtein_cons_nil (c : Char) (x : List Char) :
    levenshtein (c :: x) [] = levenshtein x [] + 1 := by
  cases x <;> simp [levenshtein]

theorem levenshtein_cons_cons (c d : Char) (x y : List Char) :
    levenshtein (c :: x) (d :: y) =
      min (min (levenshtein x y + (if c = d then 0 else 1)) (levenshtein x (d :: y) + 1))
        (levenshtein (c :: x) y + 1) := by
  have deleted := levenshtein_le (.delete c (aligned_levenshtein x (d :: y)))
  have inserted := levenshtein_le (.insert d (aligned_levenshtein (c :: x) y))
  by_cases same : c = d
  · subst same
    have kept : levenshtein (c :: x) (c :: y) = levenshtein x y := by
      rw [levenshtein, if_pos rfl]
    rw [if_pos rfl]
    omega
  · rw [levenshtein, if_neg same, if_neg same]
    omega

/-- A row of the table: the distances of `x` to `y` and to `y` longer by more and more of `b`. What
has been read of the texts, `x` and `y`, stands with its last character first. -/
def row (x y : List Char) : List Char → List Nat
  | [] => [levenshtein x y]
  | d :: b => levenshtein x y :: row x (d :: y) b

theorem row_eq_cons (x y b : List Char) : row x y b = levenshtein x y :: (row x y b).tail := by
  cases b <;> rfl

theorem row_nil (y b : List Char) : row [] y b = List.range' y.length (b.length + 1) := by
  induction b generalizing y with
  | nil => rw [row, levenshtein_nil]; rfl
  | cons d b ih => rw [row, levenshtein_nil, ih, List.length_cons]; rfl

theorem getLast?_row (x y b : List Char) :
    (row x y b).getLast? = some (levenshtein x (b.reverse ++ y)) := by
  induction b generalizing y with
  | nil => rfl
  | cons d b ih => rw [row, row_eq_cons, List.getLast?_cons_cons, ← row_eq_cons, ih]; simp

theorem nextRow_row (c : Char) (x y b : List Char) :
    nextRow c (levenshtein x y) (levenshtein (c :: x) y) b (row x y b).tail =
      (row (c :: x) y b).tail := by
  induction b generalizing y with
  | nil => rfl
  | cons d b ih =>
    rw [row, row, List.tail_cons, List.tail_cons, row_eq_cons, nextRow, ← levenshtein_cons_cons, ih,
      ← row_eq_cons]

theorem advance_row (c : Char) (x b : List Char) :
    advance b (row x [] b) c = row (c :: x) [] b := by
  rw [row_eq_cons, advance, ← levenshtein_cons_nil, nextRow_row, ← row_eq_cons]

theorem foldl_advance_row (a x b : List Char) :
    a.foldl (advance b) (row x [] b) = row (a.reverse ++ x) [] b := by
  induction a generalizing x with
  | nil => rfl
  | cons c a ih => rw [List.foldl_cons, advance_row, ih, List.reverse_cons, List.append_assoc]; rfl

theorem distance_eq (a b : List Char) : distance a b = levenshtein a b := by
  have first : List.range (b.length + 1) = row [] [] b := by
    rw [row_nil, List.range_eq_range']; rfl
  rw [distance, first, foldl_advance_row, getLast?_row, Option.getD_some, List.append_nil,
    List.append_nil, levenshtein_reverse]

end

/-- The loop finds the least number of edits, which is also what recursion finds. -/
theorem editDistance_least (a b : String) :
    IsLeast {n | Edits n (Text.lowercase a) (Text.lowercase b)} (editDistance a b) ∧
      editDistance a b = levenshtein (Text.lowercase a) (Text.lowercase b) := by
  rw [editDistance, distance_eq]
  exact ⟨levenshtein_least _ _, rfl⟩

example : editDistance "Kitten" "sitting" = 3 := by decide +kernel

end ExtensionLock.Spelling
