import Mathlib.Data.List.Nodup

/-!
# Tables in the order of insertion

A hash table whose entries are also linked in the order in which they were added: a key
is found by its value, and an iteration meets every key once.
-/
namespace SymbiOS

structure OrderedTable (κ β : Type*) where
  entries : List (κ × β)
  nodup : (entries.map Prod.fst).Nodup

namespace OrderedTable

variable {κ β : Type*} [DecidableEq κ]

def empty : OrderedTable κ β := ⟨[], List.nodup_nil⟩

def find? (t : OrderedTable κ β) (k : κ) : Option β := t.entries.lookup k

/-- Replace the value of a key, or add the key at the end. -/
def setIn (k : κ) (b : β) : List (κ × β) → List (κ × β)
  | [] => [(k, b)]
  | p :: l => if p.1 = k then (k, b) :: l else p :: setIn k b l

theorem map_fst_setIn (k : κ) (b : β) (l : List (κ × β)) :
    (setIn k b l).map Prod.fst =
      if k ∈ l.map Prod.fst then l.map Prod.fst else l.map Prod.fst ++ [k] := by
  induction l with
  | nil => rfl
  | cons p l ih =>
    unfold setIn
    by_cases hp : p.1 = k
    · simp [hp]
    · rw [if_neg hp, List.map_cons, ih, List.map_cons]
      by_cases hk : k ∈ l.map Prod.fst
      · rw [if_pos hk, if_pos (List.mem_cons_of_mem _ hk)]
      · have hnot : k ∉ p.1 :: l.map Prod.fst := by
          intro hmem
          rcases List.mem_cons.mp hmem with heq | hmem
          · exact hp heq.symm
          · exact hk hmem
        rw [if_neg hk, if_neg hnot, List.cons_append]

def set (t : OrderedTable κ β) (k : κ) (b : β) : OrderedTable κ β where
  entries := setIn k b t.entries
  nodup := by
    rw [map_fst_setIn]
    by_cases hk : k ∈ t.entries.map Prod.fst
    · rw [if_pos hk]
      exact t.nodup
    · rw [if_neg hk]
      exact t.nodup.append (List.nodup_singleton k) (by simpa using hk)

theorem lookup_cons_of_ne {k k' : κ} (h : k' ≠ k) (b : β) (l : List (κ × β)) :
    ((k, b) :: l).lookup k' = l.lookup k' := by
  rw [List.lookup_cons, beq_false_of_ne h]

theorem lookup_setIn (k k' : κ) (b : β) (l : List (κ × β)) :
    (setIn k b l).lookup k' = if k' = k then some b else l.lookup k' := by
  induction l with
  | nil =>
    by_cases h : k' = k
    · simp [setIn, h]
    · rw [if_neg h, setIn, lookup_cons_of_ne h]
  | cons p l ih =>
    obtain ⟨k₁, b₁⟩ := p
    unfold setIn
    by_cases hp : k₁ = k
    · subst hp
      by_cases h : k' = k₁
      · simp [h]
      · rw [if_pos rfl, if_neg h, lookup_cons_of_ne h, lookup_cons_of_ne h]
    · rw [if_neg hp]
      by_cases h : k' = k₁
      · subst h
        simp [hp]
      · rw [lookup_cons_of_ne h, lookup_cons_of_ne h, ih]

@[simp] theorem find?_empty (k : κ) : (empty : OrderedTable κ β).find? k = none := rfl

@[simp] theorem find?_set (t : OrderedTable κ β) (k k' : κ) (b : β) :
    (t.set k b).find? k' = if k' = k then some b else t.find? k' :=
  lookup_setIn k k' b t.entries

theorem filter_of_nodup {l : List (κ × β)} (h : (l.map Prod.fst).Nodup) (k : κ) :
    l.filter (fun p => p.1 = k) = (l.lookup k).toList.map fun b => (k, b) := by
  induction l with
  | nil => rfl
  | cons p l ih =>
    obtain ⟨k₁, b₁⟩ := p
    rw [List.map_cons, List.nodup_cons] at h
    rw [List.filter_cons]
    by_cases hk : k₁ = k
    · subst hk
      have hrest : l.filter (fun p => p.1 = k₁) = [] := by
        rw [List.filter_eq_nil_iff]
        intro p hp heq
        apply h.1
        exact List.mem_map.mpr ⟨p, hp, of_decide_eq_true heq⟩
      simp [hrest]
    · have hne : k ≠ k₁ := fun he => hk he.symm
      rw [lookup_cons_of_ne hne, ← ih h.2]
      simp [hk]

/-- An iteration meets a key once, with the value that a search finds. -/
theorem filter_entries (t : OrderedTable κ β) (k : κ) :
    t.entries.filter (fun p => p.1 = k) = (t.find? k).toList.map fun b => (k, b) :=
  filter_of_nodup t.nodup k

theorem mem_entries_iff (t : OrderedTable κ β) (k : κ) (b : β) :
    (k, b) ∈ t.entries ↔ t.find? k = some b := by
  have hmem : (k, b) ∈ t.entries ↔ (k, b) ∈ t.entries.filter (fun p => p.1 = k) := by
    simp
  rw [hmem, filter_entries]
  cases h : t.find? k with
  | none => simp
  | some b' => simp [eq_comm]

end OrderedTable

end SymbiOS
