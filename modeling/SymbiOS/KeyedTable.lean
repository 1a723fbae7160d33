import Mathlib.Data.List.Nodup
import Mathlib.Data.List.Infix

/-!
# Tables laid out by a list of keys

A table has one word for each key of its layout, in the layout's order. Who fills it and
who reads it may each have a layout of their own.
-/
namespace SymbiOS.KeyedTable

variable {κ α : Type*} [BEq κ]

/-- A word has nothing in it until it is assigned. -/
abbrev Table (α : Type*) := List (Option α)

def empty (α : Type*) (layout : List κ) : Table α := List.replicate layout.length none

def assign (layout : List κ) (value : κ → α) (table : Table α) (key : κ) : Table α :=
  table.set (layout.idxOf key) (some (value key))

/-- The table after the assignments for `keys`, one after the other. -/
def fill (layout : List κ) (value : κ → α) (keys : List κ) : Table α :=
  keys.foldl (assign layout value) (empty α layout)

/-- The word that a reader with the given layout takes for a key. -/
def fetch (layout : List κ) (table : Table α) (key : κ) : Option α :=
  table[layout.idxOf key]?.join

@[simp] theorem length_assign (layout : List κ) (value : κ → α) (table : Table α) (key : κ) :
    (assign layout value table key).length = table.length :=
  List.length_set

@[simp] theorem length_fill (layout : List κ) (value : κ → α) (keys : List κ) :
    (fill layout value keys).length = layout.length := by
  induction keys using List.reverseRecOn with
  | nil => exact List.length_replicate
  | append_singleton keys key ih =>
    rw [fill, List.foldl_append]
    exact (length_assign layout value _ key).trans ih

variable [LawfulBEq κ]

/-- A word has the value of the key that the layout has there, if that was assigned. -/
lemma getElem?_fill {layout : List κ} (hlayout : layout.Nodup) (value : κ → α) (keys : List κ)
    {i : ℕ} {key : κ} (hi : layout[i]? = some key) :
    (fill layout value keys)[i]? = some (if key ∈ keys then some (value key) else none) := by
  obtain ⟨hlt, hget⟩ := List.getElem?_eq_some_iff.mp hi
  induction keys using List.reverseRecOn with
  | nil => simp [fill, empty, hlt]
  | append_singleton keys last ih =>
    have hstep : fill layout value (keys ++ [last]) =
        assign layout value (fill layout value keys) last := by
      rw [fill, List.foldl_append]
      rfl
    rw [hstep, assign, List.getElem?_set]
    by_cases hsame : layout.idxOf last = i
    · have hlast : last = key := by
        have hfound : layout.idxOf last < layout.length := hsame ▸ hlt
        rw [← hget, ← List.getElem_idxOf hfound]
        simp only [hsame]
      subst hlast
      simp [hsame, hlt]
    · have hne : key ≠ last := by
        intro heq
        apply hsame
        rw [← heq, ← hget]
        exact hlayout.idxOf_getElem i hlt
      rw [if_neg hsame, ih]
      simp [hne]

/-- Read through another layout, a table that was filled gives the value of whichever key
stands in that place of its own. -/
theorem fetch_fill {layout : List κ} (hlayout : layout.Nodup) (value : κ → α) (keys : List κ)
    (reader : List κ) (key : κ) :
    fetch reader (fill layout value keys) key =
      layout[reader.idxOf key]?.bind fun k => if k ∈ keys then some (value k) else none := by
  rw [fetch]
  cases hi : layout[reader.idxOf key]? with
  | none =>
    have hlen : (fill layout value keys).length ≤ reader.idxOf key := by
      rw [length_fill]
      exact List.getElem?_eq_none_iff.mp hi
    rw [List.getElem?_eq_none_iff.mpr hlen]
    rfl
  | some k =>
    rw [getElem?_fill hlayout value keys hi]
    rfl

end SymbiOS.KeyedTable
