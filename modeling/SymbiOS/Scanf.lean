import SymbiOS.CLib

/-!
# Scanning

Directives of `sscanf`: white space, a hexadecimal number, a character and a word that is
not stored. Each gives what is left of the input.
-/
namespace SymbiOS.CLib

/-- White space of the C locale. -/
def isSpace (c : UInt8) : Bool := (9 ≤ c && c ≤ 13) || c == 32

def isXdigit (c : UInt8) : Bool :=
  (48 ≤ c && c ≤ 57) || (65 ≤ c && c ≤ 70) || (97 ≤ c && c ≤ 102)

/-- The value of a digit. -/
def xdigit (c : UInt8) : ℕ :=
  if c ≤ 57 then c.toNat - 48 else if c ≤ 70 then c.toNat - 55 else c.toNat - 87

def hexValue (digits : List UInt8) : ℕ := digits.foldl (fun v c => 16 * v + xdigit c) 0

def skipSpace (s : List UInt8) : List UInt8 := s.dropWhile isSpace

/-- `%*s`, where the input is at its first character. -/
def skipWord (s : List UInt8) : List UInt8 := s.dropWhile fun c => !isSpace c

/-- Whether a minus sign comes first, and what follows the sign. -/
def takeSign : List UInt8 → Bool × List UInt8
  | [] => (false, [])
  | c :: s => if c = 45 then (true, s) else if c = 43 then (false, s) else (false, c :: s)

/-- A number of base 16 may start with `0x` or `0X`. -/
def dropBase : List UInt8 → List UInt8
  | c :: x :: s => if c = 48 ∧ (x = 120 ∨ x = 88) then s else c :: x :: s
  | s => s

/-- Where the number is too large it is `ULONG_MAX`, whatever its sign. -/
def strtoul (negative : Bool) (v : ℕ) : BitVec 64 :=
  if 2 ^ 64 ≤ v then BitVec.allOnes 64
  else if negative then -BitVec.ofNat 64 v else BitVec.ofNat 64 v

/-- `%lx`. Without a digit the conversion fails, also behind `0x`, as ISO C has it; glibc
reads a bare `0x` as 0. -/
def scanHex (s : List UInt8) : Option (BitVec 64 × List UInt8) :=
  let signed := takeSign (skipSpace s)
  let s := dropBase signed.2
  if s.takeWhile isXdigit = [] then none
  else some (strtoul signed.1 (hexValue (s.takeWhile isXdigit)), s.dropWhile isXdigit)

/-- A space and `%c`. -/
def scanChar (s : List UInt8) : Option (UInt8 × List UInt8) :=
  match skipSpace s with
  | [] => none
  | c :: s => some (c, s)

theorem skipSpace_suffix (s : List UInt8) : skipSpace s <:+ s := List.dropWhile_suffix _

theorem takeSign_suffix (s : List UInt8) : (takeSign s).2 <:+ s := by
  cases s with
  | nil => exact List.suffix_rfl
  | cons c s =>
    simp only [takeSign]
    by_cases hminus : c = 45
    · rw [if_pos hminus]
      exact List.suffix_cons c s
    · rw [if_neg hminus]
      by_cases hplus : c = 43
      · rw [if_pos hplus]
        exact List.suffix_cons c s
      · simp only [if_neg hplus]
        exact List.suffix_rfl

theorem dropBase_suffix (s : List UInt8) : dropBase s <:+ s := by
  match s with
  | [] => exact List.suffix_rfl
  | [c] => exact List.suffix_rfl
  | c :: x :: s =>
    rw [dropBase]
    by_cases hbase : c = 48 ∧ (x = 120 ∨ x = 88)
    · rw [if_pos hbase]
      exact (List.suffix_cons x s).trans (List.suffix_cons c _)
    · simp only [if_neg hbase]
      exact List.suffix_rfl

theorem scanHex_suffix {s rest : List UInt8} {v : BitVec 64} (h : scanHex s = some (v, rest)) :
    rest <:+ s ∧ rest.length < s.length := by
  unfold scanHex at h
  set start := dropBase (takeSign (skipSpace s)).2 with hstart
  have hsuffix : start <:+ s :=
    (dropBase_suffix _).trans ((takeSign_suffix _).trans (skipSpace_suffix s))
  simp only [← hstart] at h
  by_cases hnone : start.takeWhile isXdigit = []
  · rw [if_pos hnone] at h
    cases h
  · rw [if_neg hnone] at h
    cases h
    have hlen := congrArg List.length (List.takeWhile_append_dropWhile (p := isXdigit) (l := start))
    have hpos := List.length_pos_iff.mpr hnone
    have hle := hsuffix.length_le
    rw [List.length_append] at hlen
    exact ⟨(List.dropWhile_suffix _).trans hsuffix, by omega⟩

theorem scanChar_suffix {s rest : List UInt8} {c : UInt8} (h : scanChar s = some (c, rest)) :
    rest <:+ s ∧ rest.length < s.length := by
  have hsuffix := skipSpace_suffix s
  unfold scanChar at h
  cases hskip : skipSpace s with
  | nil => simp [hskip] at h
  | cons c' s' =>
    rw [hskip] at h hsuffix
    cases h
    exact ⟨(List.suffix_cons _ _).trans hsuffix, hsuffix.length_le⟩

/-- White space in front is skipped. -/
theorem skipSpace_append {gap : List UInt8} (hgap : ∀ c ∈ gap, isSpace c) (s : List UInt8) :
    skipSpace (gap ++ s) = skipSpace s := by
  induction gap with
  | nil => rfl
  | cons c gap ih =>
    have hc := hgap c List.mem_cons_self
    show (c :: (gap ++ s)).dropWhile isSpace = skipSpace s
    rw [List.dropWhile_cons_of_pos hc]
    exact ih fun c' hc' => hgap c' (List.mem_cons_of_mem c hc')

theorem skipSpace_eq_nil {gap : List UInt8} (hgap : ∀ c ∈ gap, isSpace c) : skipSpace gap = [] := by
  have h := skipSpace_append hgap []
  rwa [List.append_nil] at h

theorem skipSpace_cons_of_not {c : UInt8} (hc : isSpace c = false) (s : List UInt8) :
    skipSpace (c :: s) = c :: s :=
  List.dropWhile_cons_of_neg (by simp [hc])

/-- A word ends at white space, or at the end. -/
theorem skipWord_append {word rest : List UInt8} (hword : ∀ c ∈ word, isSpace c = false)
    (hrest : ∀ c ∈ rest.head?, isSpace c) : skipWord (word ++ rest) = rest := by
  induction word with
  | nil =>
    cases rest with
    | nil => rfl
    | cons c rest =>
      have hc := hrest c rfl
      exact List.dropWhile_cons_of_neg (by simp [hc])
  | cons c word ih =>
    have hc := hword c List.mem_cons_self
    show (c :: (word ++ rest)).dropWhile _ = rest
    rw [List.dropWhile_cons_of_pos (by simp [hc])]
    exact ih fun c' hc' => hword c' (List.mem_cons_of_mem c hc')

/-- An input that is not all white space has a first word. -/
theorem exists_word (s : List UInt8) :
    (∀ c ∈ s, isSpace c) ∨ ∃ gap word rest, s = gap ++ (word ++ rest) ∧
      (∀ c ∈ gap, isSpace c) ∧ word ≠ [] ∧ (∀ c ∈ word, isSpace c = false) ∧
      ∀ c ∈ rest.head?, isSpace c := by
  induction s with
  | nil => exact .inl (by simp)
  | cons c s ih =>
    cases hc : isSpace c with
    | true =>
      rcases ih with hall | ⟨gap, word, rest, rfl, hgap, hword⟩
      · exact .inl (List.forall_mem_cons.mpr ⟨hc, hall⟩)
      · exact .inr ⟨c :: gap, word, rest, rfl, List.forall_mem_cons.mpr ⟨hc, hgap⟩, hword⟩
    | false =>
      have hsplit := List.takeWhile_append_dropWhile (p := fun c => !isSpace c) (l := s)
      refine .inr ⟨[], c :: s.takeWhile (fun c => !isSpace c), s.dropWhile (fun c => !isSpace c),
        by simp [hsplit], by simp, by simp, ?_, ?_⟩
      · rw [List.forall_mem_cons]
        refine ⟨hc, ?_⟩
        intro c' hc'
        simpa using List.mem_takeWhile_imp hc'
      · intro c' hc'
        have hnot := List.head?_dropWhile_not (fun c => !isSpace c) s
        rw [Option.mem_def.mp hc'] at hnot
        simpa using hnot

theorem isXdigit_bounds {c : UInt8} (h : isXdigit c) :
    48 ≤ c.toNat ∧ c.toNat ≤ 102 ∧ c.toNat ≠ 88 := by
  simp only [isXdigit, Bool.or_eq_true, Bool.and_eq_true, decide_eq_true_eq,
    UInt8.le_iff_toNat_le] at h
  simp at h
  omega

theorem isSpace_bound {c : UInt8} (h : isSpace c) : c.toNat ≤ 32 := by
  simp only [isSpace, Bool.or_eq_true, Bool.and_eq_true, decide_eq_true_eq,
    UInt8.le_iff_toNat_le, beq_iff_eq, ← UInt8.toNat_inj] at h
  simp at h
  omega

theorem isSpace_of_isXdigit {c : UInt8} (h : isXdigit c) : isSpace c = false := by
  rw [Bool.eq_false_iff]
  intro hs
  have h₁ := isXdigit_bounds h
  have h₂ := isSpace_bound hs
  omega

theorem isXdigit_of_isSpace {c : UInt8} (h : isSpace c) : isXdigit c = false := by
  rw [Bool.eq_false_iff]
  intro hx
  rw [isSpace_of_isXdigit hx] at h
  cases h

theorem takeSign_xdigit {c : UInt8} (h : isXdigit c) (s : List UInt8) :
    takeSign (c :: s) = (false, c :: s) := by
  have hbounds := isXdigit_bounds h
  have hminus : c ≠ 45 := by
    rintro rfl
    exact absurd hbounds.1 (by decide)
  have hplus : c ≠ 43 := by
    rintro rfl
    exact absurd hbounds.1 (by decide)
  simp [takeSign, hminus, hplus]

theorem dropBase_of_not {x : UInt8} (hx : x ≠ 120) (hx' : x ≠ 88) (c : UInt8) (s : List UInt8) :
    dropBase (c :: x :: s) = c :: x :: s := by
  have hnot : ¬ (c = 48 ∧ (x = 120 ∨ x = 88)) := by
    rintro ⟨-, heq | heq⟩
    · exact hx heq
    · exact hx' heq
  exact if_neg hnot

/-- Digits in front of white space do not start with `0x`. -/
theorem dropBase_digits {d : UInt8} {ds : List UInt8} (hx : ∀ c ∈ d :: ds, isXdigit c) {c : UInt8}
    (hc : isSpace c) (rest : List UInt8) :
    dropBase (d :: ds ++ c :: rest) = d :: ds ++ c :: rest := by
  cases ds with
  | nil =>
    have hbound := isSpace_bound hc
    apply dropBase_of_not
    · rintro rfl
      exact absurd hbound (by decide)
    · rintro rfl
      exact absurd hbound (by decide)
  | cons d' ds =>
    have hbound := isXdigit_bounds (hx d' (by simp))
    apply dropBase_of_not
    · rintro rfl
      exact absurd hbound.2.1 (by decide)
    · rintro rfl
      exact hbound.2.2 rfl

/-- Digits are read up to the white space after them. -/
theorem scanHex_digits {digits : List UInt8} (hne : digits ≠ []) (hx : ∀ c ∈ digits, isXdigit c)
    (hlt : hexValue digits < 2 ^ 64) {c : UInt8} (hc : isSpace c) (rest : List UInt8) :
    scanHex (digits ++ c :: rest) = some (BitVec.ofNat 64 (hexValue digits), c :: rest) := by
  have htake : (digits ++ c :: rest).takeWhile isXdigit = digits := by
    rw [List.takeWhile_append_of_pos hx,
      List.takeWhile_cons_of_neg (by simp [isXdigit_of_isSpace hc]), List.append_nil]
  have hdrop : (digits ++ c :: rest).dropWhile isXdigit = c :: rest := by
    rw [List.dropWhile_append_of_pos hx,
      List.dropWhile_cons_of_neg (by simp [isXdigit_of_isSpace hc])]
  obtain ⟨d, ds, rfl⟩ := List.exists_cons_of_ne_nil hne
  have hd := hx d List.mem_cons_self
  have hskip : skipSpace (d :: ds ++ c :: rest) = d :: ds ++ c :: rest :=
    skipSpace_cons_of_not (isSpace_of_isXdigit hd) _
  have hsign : takeSign (d :: ds ++ c :: rest) = (false, d :: ds ++ c :: rest) :=
    takeSign_xdigit hd _
  unfold scanHex
  simp only [hskip, hsign, dropBase_digits hx hc rest, htake, hdrop]
  rw [if_neg hne, strtoul, if_neg (by omega)]
  rfl

/-- A character after white space is read whatever it is, unless it is white space. -/
theorem scanChar_append {gap : List UInt8} (hgap : ∀ c ∈ gap, isSpace c) {c : UInt8}
    (hc : isSpace c = false) (rest : List UInt8) :
    scanChar (gap ++ c :: rest) = some (c, rest) := by
  unfold scanChar
  rw [skipSpace_append hgap, skipSpace_cons_of_not hc]

end SymbiOS.CLib
