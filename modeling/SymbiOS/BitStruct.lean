import Mathlib.Data.BitVec
import Mathlib.Tactic.Common

/-!
# Records of bit fields

A record whose fields lie one after the other in a word, the first at its low end.
A field is written by masking its bits out and putting the new value in their place.
-/
namespace SymbiOS

/-- The fields of a record in the order of their declaration, with their widths. -/
structure BitStruct (F : Type) where
  order : List F
  width : F → ℕ

namespace BitStruct

variable {F : Type} [DecidableEq F] (L : BitStruct F) {n : ℕ}

/-- The position of a field's lowest bit. -/
def start (f : F) : ℕ := ((L.order.takeWhile (· ≠ f)).map L.width).sum

def stop (f : F) : ℕ := L.start f + L.width f

def get (raw : BitVec n) (f : F) : BitVec (L.width f) := raw.extractLsb' (L.start f) (L.width f)

def set (raw : BitVec n) (f : F) (v : BitVec (L.width f)) : BitVec n :=
  raw &&& ~~~((BitVec.allOnes (L.width f)).setWidth n <<< L.start f) |||
    v.setWidth n <<< L.start f

theorem getLsbD_get (raw : BitVec n) (f : F) {i : ℕ} (hi : i < L.width f) :
    (L.get raw f).getLsbD i = raw.getLsbD (L.start f + i) := by
  simp [get, hi]

/-- A write reaches the bits of its field and no others. -/
theorem getLsbD_set (raw : BitVec n) (f : F) (v : BitVec (L.width f)) {i : ℕ} (hi : i < n) :
    (L.set raw f v).getLsbD i =
      if L.start f ≤ i ∧ i < L.stop f then v.getLsbD (i - L.start f) else raw.getLsbD i := by
  have hstop : L.stop f = L.start f + L.width f := rfl
  simp only [set, BitVec.getLsbD_or, BitVec.getLsbD_and, BitVec.getLsbD_not,
    BitVec.getLsbD_shiftLeft, BitVec.getLsbD_setWidth, BitVec.getLsbD_allOnes]
  by_cases hlo : i < L.start f
  · rw [if_neg (by omega)]
    simp [hlo, hi]
  · have hn : i - L.start f < n := by omega
    by_cases hhi : i < L.stop f
    · have hwidth : i - L.start f < L.width f := by omega
      rw [if_pos ⟨by omega, hhi⟩]
      simp [hlo, hi, hn, hwidth]
    · have hwidth : ¬ i - L.start f < L.width f := by omega
      rw [if_neg (by omega)]
      simp [hi, hwidth, BitVec.getLsbD_of_ge v (i - L.start f) (by omega)]

theorem get_set_self (raw : BitVec n) {f : F} (hf : L.stop f ≤ n) (v : BitVec (L.width f)) :
    L.get (L.set raw f v) f = v := by
  apply BitVec.eq_of_getLsbD_eq
  intro i hi
  have hin : L.start f ≤ L.start f + i ∧ L.start f + i < L.stop f := by
    unfold stop
    omega
  rw [getLsbD_get L _ f hi, getLsbD_set L raw f v (by omega), if_pos hin, Nat.add_sub_cancel_left]

/-- A field that lies elsewhere is not touched. -/
theorem get_set_of_disjoint (raw : BitVec n) {f g : F} (hg : L.stop g ≤ n)
    (h : L.stop f ≤ L.start g ∨ L.stop g ≤ L.start f) (v : BitVec (L.width f)) :
    L.get (L.set raw f v) g = L.get raw g := by
  apply BitVec.eq_of_getLsbD_eq
  intro i hi
  have hout : ¬ (L.start f ≤ L.start g + i ∧ L.start g + i < L.stop f) := by
    unfold stop at h ⊢
    omega
  have hlt : L.start g + i < n := by
    unfold stop at hg
    omega
  rw [getLsbD_get L _ g hi, getLsbD_get L _ g hi, getLsbD_set L raw f v hlt, if_neg hout]

end BitStruct

end SymbiOS
