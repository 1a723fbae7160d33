import Mathlib.Data.List.Basic
import Mathlib.Algebra.Ring.Nat

/-!
# Arrays that double

An array is reallocated when it is full: to 1024 elements at first, and then to twice
what it had. The capacity is kept in an integer that has to stay below a limit.
-/
namespace SymbiOS

structure GrowArray (α : Type*) where
  items : List α
  cap : ℕ

namespace GrowArray

variable {α : Type*} {g : GrowArray α}

def empty : GrowArray α := ⟨[], 0⟩

/-- The capacity for one more element. -/
def nextCap (g : GrowArray α) : ℕ :=
  if g.items.length = g.cap then (if 0 < g.cap then 2 * g.cap else 1024) else g.cap

/-- Store one more element. The result is `none` where the capacity would reach the
limit, or where the element would be outside the array. -/
def push (limit : ℕ) (g : GrowArray α) (a : α) : Option (GrowArray α) :=
  if g.nextCap < limit ∧ g.items.length < g.nextCap then some ⟨g.items ++ [a], g.nextCap⟩
  else none

def pushAll (limit : ℕ) (g : GrowArray α) (l : List α) : Option (GrowArray α) :=
  l.foldlM (push limit) g

/-- The capacity has been doubled at most `n` times. -/
structure Grown (n : ℕ) (g : GrowArray α) : Prop where
  length_le : g.items.length ≤ g.cap
  cap_eq : g.cap = 0 ∨ ∃ j ≤ n, g.cap = 1024 * 2 ^ j

theorem grown_empty (n : ℕ) : Grown n (empty : GrowArray α) := ⟨Nat.le_refl 0, .inl rfl⟩

/-- The capacity after at most `n` doublings. -/
theorem Grown.cap_le {n : ℕ} (h : Grown n g) : g.cap ≤ 1024 * 2 ^ n := by
  rcases h.cap_eq with hzero | ⟨j, hj, hcap⟩
  · omega
  · have hpow : 2 ^ j ≤ 2 ^ n := Nat.pow_le_pow_right (by omega) hj
    omega

theorem Grown.nextCap_of_full {n : ℕ} (h : Grown n g) (hfull : g.items.length = g.cap) :
    g.cap = 0 ∧ g.nextCap = 1024 ∨
      ∃ j ≤ n, g.cap = 1024 * 2 ^ j ∧ g.nextCap = 1024 * 2 ^ (j + 1) := by
  unfold nextCap
  rw [if_pos hfull]
  rcases h.cap_eq with hzero | ⟨j, hj, hcap⟩
  · exact .inl ⟨hzero, if_neg (by omega)⟩
  · have hpos := Nat.two_pow_pos j
    refine .inr ⟨j, hj, hcap, ?_⟩
    rw [if_pos (by omega), hcap, Nat.pow_succ]
    omega

/-- Below the largest capacity there is room for an element. -/
theorem Grown.push_eq_some {n : ℕ} (h : Grown n g) (hlt : g.items.length < 1024 * 2 ^ n) (a : α) :
    push (1024 * 2 ^ (n + 1)) g a = some ⟨g.items ++ [a], g.nextCap⟩ ∧
      Grown n ⟨g.items ++ [a], g.nextCap⟩ := by
  have hlimit : 1024 * 2 ^ (n + 1) = 2 * (1024 * 2 ^ n) := by
    rw [Nat.pow_succ]
    omega
  have hpos := Nat.two_pow_pos n
  have hlen := h.length_le
  have hcap : g.items.length < g.nextCap ∧ g.nextCap ≤ 1024 * 2 ^ n ∧
      (g.nextCap = 0 ∨ ∃ j ≤ n, g.nextCap = 1024 * 2 ^ j) := by
    by_cases hfull : g.items.length = g.cap
    · rcases h.nextCap_of_full hfull with ⟨hzero, hnext⟩ | ⟨j, hj, hcap, hnext⟩
      · exact ⟨by omega, by omega, .inr ⟨0, Nat.zero_le n, hnext⟩⟩
      · -- the array is full, but not with the largest capacity
        have hj' : j < n := by
          rcases Nat.lt_or_ge j n with hlt' | hge
          · exact hlt'
          · obtain rfl : j = n := Nat.le_antisymm hj hge
            omega
        have hpow : 2 ^ (j + 1) ≤ 2 ^ n := Nat.pow_le_pow_right (by omega) hj'
        have hdouble : 2 ^ (j + 1) = 2 * 2 ^ j := by
          rw [Nat.pow_succ]
          omega
        have hposj := Nat.two_pow_pos j
        exact ⟨by omega, by omega, .inr ⟨j + 1, hj', hnext⟩⟩
    · have hnext : g.nextCap = g.cap := if_neg hfull
      rw [hnext]
      exact ⟨by omega, h.cap_le, h.cap_eq⟩
  refine ⟨if_pos ⟨by omega, hcap.1⟩, ?_, hcap.2.2⟩
  simp only [List.length_append, List.length_singleton]
  omega

/-- A full array of the largest capacity cannot be doubled. -/
theorem Grown.push_eq_none {n : ℕ} (h : Grown n g) (hfull : g.items.length = 1024 * 2 ^ n)
    (a : α) : push (1024 * 2 ^ (n + 1)) g a = none := by
  have hle := h.cap_le
  have hlen := h.length_le
  have hpos := Nat.two_pow_pos n
  have hnext : ¬ (g.nextCap < 1024 * 2 ^ (n + 1) ∧ g.items.length < g.nextCap) := by
    rcases h.nextCap_of_full (by omega) with ⟨hzero, -⟩ | ⟨j, hj, hcap, hnext⟩
    · omega
    · have heq : 2 ^ j = 2 ^ n := by omega
      rw [hnext, Nat.pow_succ, Nat.pow_succ, heq]
      omega
  exact if_neg hnext

/-- Exactly as many elements can be stored as the largest capacity has. -/
theorem Grown.pushAll_eq {n : ℕ} (h : Grown n g) (l : List α) :
    (g.items.length + l.length ≤ 1024 * 2 ^ n →
      ∃ cap, pushAll (1024 * 2 ^ (n + 1)) g l = some ⟨g.items ++ l, cap⟩ ∧
        Grown n ⟨g.items ++ l, cap⟩) ∧
    (1024 * 2 ^ n < g.items.length + l.length → pushAll (1024 * 2 ^ (n + 1)) g l = none) := by
  induction l generalizing g with
  | nil =>
    have hlen := h.length_le
    have hle := h.cap_le
    refine ⟨fun _ => ⟨g.cap, by simp [pushAll], by simpa using h⟩, fun hlt => ?_⟩
    rw [List.length_nil] at hlt
    omega
  | cons a l ih =>
    rw [List.length_cons]
    rcases Nat.lt_or_ge g.items.length (1024 * 2 ^ n) with hlt | hge
    · obtain ⟨hpush, hgrown⟩ := h.push_eq_some hlt a
      have hstep : pushAll (1024 * 2 ^ (n + 1)) g (a :: l) =
          pushAll (1024 * 2 ^ (n + 1)) ⟨g.items ++ [a], g.nextCap⟩ l := by
        rw [pushAll, List.foldlM_cons, hpush]
        rfl
      obtain ⟨hsome, hnone⟩ := ih hgrown
      simp only [List.length_append, List.length_singleton, List.append_assoc,
        List.singleton_append] at hsome hnone
      rw [hstep]
      exact ⟨fun hle => hsome (by omega), fun hlt' => hnone (by omega)⟩
    · have hlen := h.length_le
      have hle := h.cap_le
      refine ⟨fun hle' => by omega, fun _ => ?_⟩
      rw [pushAll, List.foldlM_cons, h.push_eq_none (by omega)]
      rfl

end GrowArray

end SymbiOS
