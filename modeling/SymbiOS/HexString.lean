import SymbiOS.Scanf
import Mathlib.Data.Nat.Digits.Defs

/-!
# Hexadecimal numbers without `sscanf`

`hexstr2ull` runs while libraries are still being linked and avoids the conversions
of the C library. It first walks over the digits, then adds them up from the last
one with a power of 16 that it keeps beside the sum.
-/
namespace SymbiOS.MapsScan
open SymbiOS.CLib

/-- How a call of `hexstr2ull` ends: it stores a value and returns a length, or
takes the `return 0` of its second loop. -/
inductive HexEnd where
  | stored (rc : ℕ) (val : BitVec 64)
  | notDigit
  deriving Repr, DecidableEq

/-- The tests of the first loop. -/
def continues (c : UInt8) : Bool :=
  (48 ≤ c && c ≤ 57) || (97 ≤ c && c ≤ 102) || (65 ≤ c && c ≤ 70)

/-- The tests of the second loop, with the `unsigned char` each computes. -/
def digitOf (c : UInt8) : Option UInt8 :=
  if 48 ≤ c && c ≤ 57 then some (c - 48)
  else if 97 ≤ c && c ≤ 102 then some (10 + (c - 97))
  else if 65 ≤ c && c ≤ 70 then some (10 + (c - 65))
  else none

/-- The first loop at index `i` with `left` indices below the bound. -/
def walk (str : ℕ → UInt8) : ℕ → ℕ → ℕ
  | 0, i => i
  | left + 1, i => if continues (str i) then walk str left (i + 1) else i

/-- The second loop, before it looks at the index below `i`. -/
def addUp (str : ℕ → UInt8) : ℕ → BitVec 64 → BitVec 64 → Option (BitVec 64)
  | 0, v, _ => some v
  | i + 1, v, p =>
    match digitOf (str i) with
    | none => none
    | some d => addUp str i (v + BitVec.ofNat 64 d.toNat * p) (p * 16)

/-- `str` is the memory from the pointer on. A bound that is not positive leaves
the first loop at once. -/
def hexstr2ull (str : ℕ → UInt8) (len : ℤ) : HexEnd :=
  let rc := walk str len.toNat 0
  match addUp str rc 0 1 with
  | none => .notDigit
  | some v => .stored rc v

lemma continues_eq_isXdigit (c : UInt8) : continues c = isXdigit c := by
  unfold continues isXdigit
  rw [Bool.or_assoc, Bool.or_assoc, Bool.or_comm (97 ≤ c && c ≤ 102)]

lemma toNat_letter (c first : UInt8) (hlo : first.toNat ≤ c.toNat)
    (hhi : c.toNat < first.toNat + 6) :
    (10 + (c - first)).toNat = 10 + (c.toNat - first.toNat) := by
  have hten : (10 : UInt8).toNat = 10 := rfl
  rw [UInt8.toNat_add, UInt8.toNat_sub_of_le _ _ (UInt8.le_iff_toNat_le.mpr hlo)]
  omega

/-- On a digit the second loop does not stop. -/
lemma digitOf_of_isXdigit {c : UInt8} (h : isXdigit c) :
    ∃ d, digitOf c = some d ∧ d.toNat = xdigit c := by
  simp only [isXdigit, Bool.or_eq_true, Bool.and_eq_true, decide_eq_true_eq,
    UInt8.le_iff_toNat_le, UInt8.reduceToNat] at h
  simp only [digitOf, xdigit, Bool.and_eq_true, decide_eq_true_eq, UInt8.le_iff_toNat_le,
    UInt8.reduceToNat]
  obtain (hdigit | hupper) | hlower := h
  · refine ⟨c - 48, if_pos hdigit, ?_⟩
    rw [if_pos hdigit.2, UInt8.toNat_sub_of_le c 48 (UInt8.le_iff_toNat_le.mpr hdigit.1)]
    rfl
  · refine ⟨10 + (c - 65), ?_, ?_⟩
    · rw [if_neg (by omega), if_neg (by omega), if_pos hupper]
    · rw [if_neg (by omega), if_pos hupper.2,
        toNat_letter c 65 hupper.1 (Nat.lt_succ_of_le hupper.2)]
      simp only [UInt8.reduceToNat]
      omega
  · refine ⟨10 + (c - 97), ?_, ?_⟩
    · rw [if_neg (by omega), if_pos hlower]
    · rw [if_neg (by omega), if_neg (by omega),
        toNat_letter c 97 hlower.1 (Nat.lt_succ_of_le hlower.2)]
      simp only [UInt8.reduceToNat]
      omega

lemma hexValue_concat (digits : List UInt8) (c : UInt8) :
    hexValue (digits ++ [c]) = 16 * hexValue digits + xdigit c := by
  simp [hexValue]

/-- The bytes below an index. -/
def bytesBelow (str : ℕ → UInt8) (n : ℕ) : List UInt8 := (List.range n).map str

lemma bytesBelow_succ (str : ℕ → UInt8) (n : ℕ) :
    bytesBelow str (n + 1) = bytesBelow str n ++ [str n] := by
  simp [bytesBelow, List.range_succ]

/-- From index `i`, the first loop passes the digits that follow. -/
lemma walk_eq (str : ℕ → UInt8) (left i : ℕ) :
    walk str left i = i + (((List.range' i left).map str).takeWhile isXdigit).length := by
  induction left generalizing i with
  | zero => simp [walk]
  | succ left ih =>
    rw [walk, List.range'_succ, List.map_cons, continues_eq_isXdigit]
    by_cases h : isXdigit (str i)
    · rw [if_pos h, ih, List.takeWhile_cons_of_pos h, List.length_cons]
      omega
    · rw [if_neg h, List.takeWhile_cons_of_neg h]
      rfl

/-- The second loop adds the value of the digits below `i`, times the power it has
come to. -/
lemma addUp_eq (str : ℕ → UInt8) {i : ℕ} (h : ∀ c ∈ bytesBelow str i, isXdigit c)
    (v p : BitVec 64) :
    addUp str i v p = some (v + BitVec.ofNat 64 (hexValue (bytesBelow str i)) * p) := by
  induction i generalizing v p with
  | zero => simp [addUp, bytesBelow, hexValue]
  | succ i ih =>
    rw [bytesBelow_succ] at h ⊢
    obtain ⟨d, hd, hval⟩ := digitOf_of_isXdigit (h (str i) (by simp))
    rw [addUp, hd]
    simp only
    rw [ih (fun c hc => h c (List.mem_append_left _ hc)), hexValue_concat, hval]
    congr 1
    rw [BitVec.ofNat_add, BitVec.ofNat_mul]
    grind

lemma walk_zero_eq (str : ℕ → UInt8) (n : ℕ) :
    walk str n 0 = ((bytesBelow str n).takeWhile isXdigit).length := by
  rw [walk_eq, bytesBelow, List.range_eq_range', Nat.zero_add]

lemma bytesBelow_prefix (str : ℕ → UInt8) {m n : ℕ} (h : m ≤ n) :
    bytesBelow str m = (bytesBelow str n).take m := by
  rw [bytesBelow, bytesBelow, ← List.map_take, List.take_range, Nat.min_eq_left h]

/-- The digits that the second loop goes over are those the first has passed. -/
lemma bytesBelow_walk (str : ℕ → UInt8) (n : ℕ) :
    bytesBelow str (walk str n 0) = (bytesBelow str n).takeWhile isXdigit := by
  have hle := (List.takeWhile_prefix (p := isXdigit) (l := bytesBelow str n)).length_le
  have hlen : (bytesBelow str n).length = n := by simp [bytesBelow]
  rw [walk_zero_eq, bytesBelow_prefix str (hlen ▸ hle)]
  exact (List.prefix_iff_eq_take.mp (List.takeWhile_prefix isXdigit)).symm

/-- What `hexstr2ull` does, from the bytes within its bound. -/
lemma hexstr2ull_spec (str : ℕ → UInt8) (len : ℤ) :
    hexstr2ull str len =
      .stored ((bytesBelow str len.toNat).takeWhile isXdigit).length
        (BitVec.ofNat 64 (hexValue ((bytesBelow str len.toNat).takeWhile isXdigit))) := by
  have hdigits : ∀ c ∈ bytesBelow str (walk str len.toNat 0), isXdigit c := by
    rw [bytesBelow_walk]
    exact fun c hc => List.mem_takeWhile_imp hc
  unfold hexstr2ull
  simp only [addUp_eq str hdigits]
  rw [bytesBelow_walk, walk_zero_eq]
  simp

lemma hexValue_eq_ofDigits (digits : List UInt8) :
    hexValue digits = Nat.ofDigits 16 (digits.reverse.map xdigit) := by
  induction digits using List.reverseRecOn with
  | nil => rfl
  | append_singleton digits c ih =>
    rw [hexValue_concat, List.reverse_append, List.reverse_singleton, List.singleton_append,
      List.map_cons, Nat.ofDigits_cons, ← ih]
    omega

/-- No digits in front of a text reach further than those that are taken while they
last. -/
lemma length_le_takeWhile {p : UInt8 → Bool} {front s : List UInt8} (hfront : front <+: s)
    (hall : ∀ c ∈ front, p c) : front.length ≤ (s.takeWhile p).length := by
  obtain ⟨rest, rfl⟩ := hfront
  rw [List.takeWhile_append_of_pos hall, List.length_append]
  omega

/-- For every memory content and every bound, also one that is not positive,
`hexstr2ull` returns the length of the longest hexadecimal number that the bytes
within the bound start with, and stores the value of that number modulo `2 ^ 64`.
It never takes the `return 0` of its second loop. -/
theorem hexstr2ull_eq (str : ℕ → UInt8) (len : ℤ) :
    ∃ digits, digits <+: bytesBelow str len.toNat ∧ (∀ c ∈ digits, isXdigit c) ∧
      (∀ front, front <+: bytesBelow str len.toNat → (∀ c ∈ front, isXdigit c) →
        front.length ≤ digits.length) ∧
      hexstr2ull str len = .stored digits.length
        (BitVec.ofNat 64 (Nat.ofDigits 16 (digits.reverse.map xdigit))) := by
  refine ⟨(bytesBelow str len.toNat).takeWhile isXdigit, List.takeWhile_prefix isXdigit,
    fun c hc => List.mem_takeWhile_imp hc, fun front hfront hall => ?_, ?_⟩
  · exact length_le_takeWhile hfront hall
  · rw [hexstr2ull_spec, hexValue_eq_ofDigits]

/-- A number of 17 digits, of which the first is lost. -/
example : hexstr2ull (fun i => (ascii "1fFffffffffffffff-").getD i 0) 255 =
    .stored 17 (BitVec.allOnes 64) := by
  decide

end SymbiOS.MapsScan
