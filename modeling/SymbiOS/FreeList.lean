import Mathlib.Data.List.Nodup
import Mathlib.Logic.Function.Basic

/-!
# Singly linked lists through a next field

A list is threaded through a `next` map from its head to a null link. What is on
the list is determined by the links, and a list that ends has no cycle.
-/
namespace SymbiOS.FreeList

variable {α : Type*} {next : α → Option α}

/-- From `head` the links run through exactly these elements and end. -/
def Links (next : α → Option α) : Option α → List α → Prop
  | head, [] => head = none
  | head, a :: rest => head = some a ∧ Links next (next a) rest

/-- The links determine the list. -/
theorem Links.unique {head : Option α} {l l' : List α} (h : Links next head l)
    (h' : Links next head l') : l = l' := by
  induction l generalizing head l' with
  | nil =>
    cases l' with
    | nil => rfl
    | cons a rest =>
      have hnone : head = none := h
      simp [hnone, Links] at h'
  | cons a l ih =>
    cases l' with
    | nil =>
      have hnone : head = none := h'
      simp [hnone, Links] at h
    | cons b rest =>
      have hab : a = b := Option.some.inj (h.1.symm.trans h'.1)
      subst hab
      rw [ih h.2 h'.2]

theorem Links.of_append {head : Option α} {front back : List α}
    (h : Links next head (front ++ back)) : ∃ mid, Links next mid back := by
  induction front generalizing head with
  | nil => exact ⟨head, h⟩
  | cons a front ih => exact ih h.2

/-- An element that came twice would start two lists of different lengths. -/
theorem Links.nodup {head : Option α} {l : List α} (h : Links next head l) : l.Nodup := by
  induction l generalizing head with
  | nil => exact List.nodup_nil
  | cons a l ih =>
    apply List.nodup_cons.mpr
    refine ⟨fun hmem => ?_, ih h.2⟩
    obtain ⟨front, back, rfl⟩ := List.append_of_mem hmem
    obtain ⟨mid, hmid⟩ := h.2.of_append
    have heq : front ++ a :: back = back := h.2.unique hmid.2
    have hlen := congrArg List.length heq
    simp only [List.length_append, List.length_cons] at hlen
    omega

/-- A link outside the list does not matter. -/
theorem Links.update [DecidableEq α] {head : Option α} {l : List α} (h : Links next head l)
    {a : α} (ha : a ∉ l) (link : Option α) : Links (Function.update next a link) head l := by
  induction l generalizing head with
  | nil => exact h
  | cons b l ih =>
    obtain ⟨hne, hnot⟩ := not_or.mp (mt List.mem_cons.mpr ha)
    refine ⟨h.1, ?_⟩
    rw [Function.update_of_ne (Ne.symm hne)]
    exact ih h.2 hnot

/-- Taking the head off: its own link may then change. -/
theorem Links.pop [DecidableEq α] {a : α} {l : List α} (h : Links next (some a) l)
    (link : Option α) :
    ∃ rest, l = a :: rest ∧ Links (Function.update next a link) (next a) rest := by
  cases l with
  | nil => simp [Links] at h
  | cons b rest =>
    have hab : a = b := Option.some.inj h.1
    subst hab
    have hnot : a ∉ rest := (List.nodup_cons.mp h.nodup).1
    exact ⟨rest, rfl, h.2.update hnot link⟩

/-- The links of the list end with its last element only. -/
theorem Links.next_ne_none_iff {head : Option α} {l : List α} (h : Links next head l) {a : α}
    (ha : a ∈ l) : next a ≠ none ↔ ∃ front b back, l = front ++ a :: b :: back := by
  constructor
  · intro hnext
    obtain ⟨front, rest, rfl⟩ := List.append_of_mem ha
    obtain ⟨mid, hmid⟩ := h.of_append
    cases rest with
    | nil => exact absurd hmid.2 hnext
    | cons b back => exact ⟨front, b, back, rfl⟩
  · rintro ⟨front, b, back, rfl⟩
    obtain ⟨mid, hmid⟩ := h.of_append
    rw [hmid.2.1]
    simp

/-- Each index below `n` linked to the next one. -/
theorem links_range {next : ℕ → Option ℕ} {n : ℕ}
    (hnext : ∀ i < n, next i = if i + 1 < n then some (i + 1) else none) :
    ∀ k, k ≤ n → Links next (if n - k < n then some (n - k) else none) (List.range' (n - k) k) := by
  intro k
  induction k with
  | zero => simp [Links]
  | succ k ih =>
    intro hk
    have hstep : n - (k + 1) + 1 = n - k := by omega
    have hlink : next (n - (k + 1)) = if n - k < n then some (n - k) else none := by
      rw [hnext _ (by omega), hstep]
    rw [List.range'_succ, if_pos (by omega), hstep]
    refine ⟨rfl, ?_⟩
    rw [hlink]
    exact ih (by omega)

end SymbiOS.FreeList
