import Mathlib.Logic.Function.Basic
import Mathlib.Data.List.Basic
import Mathlib.Tactic.Common

/-!
# Undo logs over a keyed store

A store maps keys to values. Before a key is overwritten its old value may be
pushed on a log. Replaying the log newest first leaves each key at its oldest
logged value, so the replay reaches the store of the moment the log was empty.
Keys that are no longer live are skipped by the replay.
-/
namespace SymbiOS.UndoLog

variable {K V : Type*} [DecidableEq K]

/-- Write back every logged value, newest first, at the keys that are live. -/
def replay (live : K → Bool) : List (K × V) → (K → V) → K → V
  | [], store => store
  | e :: log, store =>
      replay live log (if live e.1 then Function.update store e.1 e.2 else store)

/-- The value logged first for a key: its last entry in a newest-first log. -/
def oldest (k : K) : List (K × V) → Option V
  | [] => none
  | e :: log => (oldest k log).or (if e.1 = k then some e.2 else none)

/-- The value a key has once the log has been replayed. -/
def recovered (log : List (K × V)) (store : K → V) (k : K) : V :=
  (oldest k log).getD (store k)

@[simp] theorem recovered_nil (store : K → V) (k : K) : recovered [] store k = store k := rfl

/-- A replay is decided key by key by the oldest entry. -/
theorem replay_apply (live : K → Bool) (log : List (K × V)) (store : K → V) (k : K) :
    replay live log store k = if live k then recovered log store k else store k := by
  induction log generalizing store with
  | nil => simp [replay]
  | cons e log ih =>
    rw [replay, ih]
    by_cases hk : live k = true
    · simp only [hk, if_true, recovered, oldest]
      cases ho : oldest k log with
      | some v => simp
      | none =>
        by_cases he : e.1 = k
        · subst he; simp [hk]
        · by_cases hl : live e.1 = true
          · simp [hl, he, Function.update_of_ne (Ne.symm he)]
          · simp [hl, he]
    · simp only [hk]
      by_cases hl : live e.1 = true
      · have he : k ≠ e.1 := by rintro rfl; exact hk hl
        simp [hl, Function.update_of_ne he]
      · simp [hl]

/-- The oldest value of a key is one that was logged for it. -/
theorem mem_of_oldest {log : List (K × V)} {k : K} {v : V} (h : oldest k log = some v) :
    (k, v) ∈ log := by
  induction log with
  | nil => simp [oldest] at h
  | cons e log ih =>
    rw [oldest, Option.or_eq_some_iff] at h
    rcases h with hold | ⟨-, hnew⟩
    · exact List.mem_cons_of_mem e (ih hold)
    · split at hnew
      · rename_i hk
        rw [Option.some.injEq] at hnew
        rw [← hk, ← hnew]
        exact List.mem_cons_self
      · cases hnew

/-- A key without an oldest value was never logged. -/
theorem not_mem_of_oldest_eq_none {log : List (K × V)} {k : K} (h : oldest k log = none) (v : V) :
    (k, v) ∉ log := by
  induction log with
  | nil => exact List.not_mem_nil
  | cons e log ih =>
    rw [oldest, Option.or_eq_none_iff] at h
    intro hmem
    rcases List.mem_cons.mp hmem with he | hmem
    · rw [← he, if_pos rfl] at h
      cases h.2
    · exact ih h.1 hmem

/-- A property of the present value survives a replay exactly when the oldest
entry, if there is one, has it too. -/
theorem recovered_iff {P : V → Prop} {log : List (K × V)} {store : K → V} {k : K}
    (h : P (store k)) : P (recovered log store k) ↔ ∀ v, oldest k log = some v → P v := by
  cases ho : oldest k log with
  | none => simpa [recovered, ho] using h
  | some v => simp [recovered, ho]

end SymbiOS.UndoLog
