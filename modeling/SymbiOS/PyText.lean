import Mathlib.Data.List.DropRight
import Mathlib.Data.List.Dedup
import Mathlib.Data.List.Infix

/-!
# Texts of a script

The operations on strings and on sets of strings that the generator scripts use,
on lists of characters. `replace` is the one replacement they make: a space before a
comma goes.
-/
namespace SymbiOS.PyText

abbrev Text := List Char

/-- A literal of a script. -/
def lit (s : String) : Text := s.toList

def isSpace (c : Char) : Bool := c.isWhitespace

/-- The characters of an identifier. -/
def isNameChar (c : Char) : Bool := c.isAlphanum || c == '_'

/-- `strip` without an argument. -/
def strip (s : Text) : Text := (s.dropWhile isSpace).rdropWhile isSpace

/-- The slice `[2:-2]`. -/
def slice (s : Text) : Text := (s.take (s.length - 2)).drop 2

/-- `replace(' ,', ',')`. -/
def replace : Text → Text
  | ' ' :: ',' :: s => ',' :: replace s
  | c :: s => c :: replace s
  | [] => []

/-- Strings are compared by their code points. -/
def le : Text → Text → Bool
  | [], _ => true
  | _ :: _, [] => false
  | a :: s, b :: t => if a = b then le s t else decide (a.toNat < b.toNat)

/-- `sorted(list(s))` of the set with the given members. -/
def sortedSet (s : List Text) : List Text := s.dedup.mergeSort le

/-- `" ".join(tokens)`. -/
def join : List Text → Text
  | [] => []
  | [t] => t
  | t :: u :: ts => t ++ ' ' :: join (u :: ts)

lemma join_concat {ts : List Text} (h : ts ≠ []) (t : Text) :
    join (ts ++ [t]) = join ts ++ ' ' :: t := by
  induction ts with
  | nil => exact absurd rfl h
  | cons u ts ih =>
    cases ts with
    | nil => rfl
    | cons v ts =>
      have hrest := ih (List.cons_ne_nil v ts)
      simp only [List.cons_append, join] at hrest ⊢
      rw [hrest, List.append_assoc, List.cons_append]

/-- A text that starts and ends with something else than white space stays. -/
lemma strip_eq_self {s : Text} (hhead : ∀ c ∈ s.head?, isSpace c = false)
    (hlast : ∀ c ∈ s.getLast?, isSpace c = false) : strip s = s := by
  have hdrop : s.dropWhile isSpace = s := by
    cases s with
    | nil => rfl
    | cons c s => exact List.dropWhile_cons_of_neg (by simp [hhead c rfl])
  unfold strip
  rw [hdrop]
  induction s using List.reverseRecOn with
  | nil => rfl
  | append_singleton s c _ =>
    exact List.rdropWhile_concat_neg _ _ _ (by simp [hlast c (by simp)])

/-- The slice takes off what stands around the text between two marks. -/
lemma slice_between (a b c d : Char) (s : Text) :
    slice (a :: b :: (s ++ [c, d])) = s := by
  simp [slice]

/-- The number of replacements that `replace` makes. -/
def hits : Text → ℕ
  | [] => 0
  | c :: s => (if c = ' ' ∧ s.head? = some ',' then 1 else 0) + hits s

lemma replace_cons (c : Char) (s : Text) :
    replace (c :: s) = if c = ' ' ∧ s.head? = some ',' then replace s else c :: replace s := by
  by_cases h : c = ' ' ∧ s.head? = some ','
  · obtain ⟨rfl, hs⟩ := h
    cases s with
    | nil => simp at hs
    | cons d s =>
      rw [List.head?_cons, Option.some.injEq] at hs
      subst hs
      simp [replace]
  · rw [if_neg h, replace]
    rintro s' rfl rfl
    exact h ⟨rfl, rfl⟩

/-- The number of characters that are not spaces. -/
def ink (s : Text) : ℕ := s.countP (· != ' ')

@[simp] theorem ink_nil : ink [] = 0 := rfl

@[simp] theorem ink_append (s t : Text) : ink (s ++ t) = ink s + ink t := List.countP_append

@[simp] theorem ink_space (s : Text) : ink (' ' :: s) = ink s := by simp [ink]

lemma ink_replace (s : Text) : ink (replace s) = ink s := by
  induction s with
  | nil => rfl
  | cons c s ih =>
    rw [replace_cons]
    by_cases h : c = ' ' ∧ s.head? = some ','
    · rw [if_pos h, ih, h.1, ink_space]
    · rw [if_neg h]
      simp only [ink, List.countP_cons] at ih ⊢
      rw [ih]

/-- Every replacement takes one space away. -/
lemma count_replace (s : Text) : (replace s).count ' ' + hits s = s.count ' ' := by
  induction s with
  | nil => rfl
  | cons c s ih =>
    rw [replace_cons, hits]
    by_cases h : c = ' ' ∧ s.head? = some ','
    · rw [if_pos h, if_pos h, h.1, List.count_cons_self]
      omega
    · rw [if_neg h, if_neg h, List.count_cons, List.count_cons]
      omega

lemma replace_of_hits_eq_zero {s : Text} (h : hits s = 0) : replace s = s := by
  induction s with
  | nil => rfl
  | cons c s ih =>
    rw [hits, Nat.add_eq_zero_iff] at h
    rw [replace_cons, if_neg, ih h.2]
    intro hc
    simp [hc] at h

lemma hits_eq_zero_iff (s : Text) : hits s = 0 ↔ ¬ [' ', ','] <:+: s := by
  induction s with
  | nil => simp [hits]
  | cons c s ih =>
    have hpre : [' ', ','] <+: c :: s ↔ c = ' ' ∧ s.head? = some ',' := by
      rw [List.cons_prefix_cons, eq_comm]
      cases s with
      | nil => simp
      | cons d s => simp [List.cons_prefix_cons, eq_comm]
    rw [hits, Nat.add_eq_zero_iff, ih, List.infix_cons_iff, not_or, hpre]
    simp

/-- A text that does not end in a space keeps apart from what follows it. -/
lemma hits_append {t : Text} (ht : t.getLast? ≠ some ' ') (s : Text) :
    hits (t ++ s) = hits t + hits s := by
  induction t with
  | nil => simp [hits]
  | cons c t ih =>
    cases t with
    | nil =>
      have hc : c ≠ ' ' := by simpa using ht
      simp [hits, hc]
    | cons d t =>
      have hrest := ih (by simpa [List.getLast?_cons_cons] using ht)
      rw [List.cons_append, hits, hrest, hits]
      exact (Nat.add_assoc _ _ _).symm

lemma replace_append {t : Text} (ht : t.getLast? ≠ some ' ') (s : Text) :
    replace (t ++ s) = replace t ++ replace s := by
  induction t with
  | nil => simp [replace]
  | cons c t ih =>
    cases t with
    | nil =>
      have hc : c ≠ ' ' := by simpa using ht
      simp [replace_cons, hc, replace]
    | cons d t =>
      have hrest := ih (by simpa [List.getLast?_cons_cons] using ht)
      rw [List.cons_append, replace_cons, hrest, replace_cons c (d :: t)]
      by_cases h : c = ' ' ∧ (d :: t).head? = some ','
      · rw [if_pos (by exact h), if_pos h]
      · rw [if_neg (by exact h), if_neg h, List.cons_append]

lemma sortedSet_perm (s : List Text) : (sortedSet s).Perm s.dedup := List.mergeSort_perm _ _

lemma mem_sortedSet {s : List Text} {t : Text} : t ∈ sortedSet s ↔ t ∈ s := by
  rw [(sortedSet_perm s).mem_iff, List.mem_dedup]

lemma nodup_sortedSet (s : List Text) : (sortedSet s).Nodup :=
  (sortedSet_perm s).nodup_iff.mpr (List.nodup_dedup s)

/-- Lines that start differently. -/
lemma ne_of_head? {s t : Text} {c : Char} (hs : s.head? = some c) (ht : t.head? ≠ some c) :
    s ≠ t :=
  fun he => ht (he ▸ hs)

/-- What follows the first line `a`. -/
lemma drop_dropWhile_ne {a : Text} {pre : List Text} (h : a ∉ pre) (rest : List Text) :
    ((pre ++ a :: rest).dropWhile (· ≠ a)).drop 1 = rest := by
  have hpre : ∀ t ∈ pre, decide (t ≠ a) = true := by
    intro t ht
    rw [decide_eq_true_eq]
    rintro rfl
    exact h ht
  rw [List.dropWhile_append_of_pos hpre, List.dropWhile_cons_of_neg (by simp), List.drop_one,
    List.tail_cons]

lemma takeWhile_stop {α : Type} {p : α → Bool} {mid : List α} (hmid : ∀ t ∈ mid, p t) {b : α}
    (hb : p b = false) (rest : List α) : (mid ++ b :: rest).takeWhile p = mid := by
  rw [List.takeWhile_append_of_pos hmid, List.takeWhile_cons_of_neg (by simp [hb]),
    List.append_nil]

/-- A line occurs once in a list without repetitions exactly when it is the only one
of its kind there. -/
lemma countP_eq_one_iff {p : Text → Bool} {l : List Text} (hl : l.Nodup) {a : Text}
    (ha : a ∈ l) (hp : p a) : l.countP p = 1 ↔ ∀ t ∈ l, p t → t = a := by
  constructor
  · intro hone t ht hpt
    rw [List.countP_eq_length_filter] at hone
    obtain ⟨b, hb⟩ := List.length_eq_one_iff.mp hone
    have hmem : a ∈ l.filter p := List.mem_filter.mpr ⟨ha, hp⟩
    have htb : t ∈ l.filter p := List.mem_filter.mpr ⟨ht, hpt⟩
    rw [hb, List.mem_singleton] at hmem htb
    rw [htb, hmem]
  · intro hall
    have hcount : l.countP p = l.count a := by
      apply List.countP_congr
      intro t ht
      rw [beq_iff_eq]
      exact ⟨hall t ht, fun h => h ▸ hp⟩
    rw [hcount, List.count_eq_one_of_mem hl ha]

end SymbiOS.PyText
