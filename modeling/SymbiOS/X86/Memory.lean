import Mathlib.Data.BitVec
import Mathlib.Tactic.Common
import Mathlib.Tactic.IntervalCases
import Mathlib.Tactic.Ring

/-!
# Byte-addressed memory with runs of words

Memory is a function from 64-bit addresses to bytes, and addresses wrap around.
A run of words is written at once, so that a stack which grows by pushes stays
one run. A copy that goes word by word from low to high addresses is a write of
the words that were there before, unless it overtakes the words it has still to
read; what it then does is stated for the first byte that goes wrong.

Every access succeeds: no address is unmapped, read-only or not canonical.
-/
namespace SymbiOS.X86

abbrev Byte := BitVec 8
abbrev Word := BitVec 64
abbrev Mem := Word → Byte

/-- Byte `j` of a word, the lowest first. -/
def byteAt (w : Word) (j : ℕ) : Byte := w.extractLsb' (8 * j) 8

def read64 (m : Mem) (a : Word) : Word :=
  m (a + 7#64) ++ m (a + 6#64) ++ m (a + 5#64) ++ m (a + 4#64) ++
    m (a + 3#64) ++ m (a + 2#64) ++ m (a + 1#64) ++ m a

def read32 (m : Mem) (a : Word) : BitVec 32 := (read64 m a).setWidth 32

/-- Write a run of words from an address upwards. -/
def storeWords (m : Mem) (a : Word) (ws : List Word) : Mem := fun b =>
  match ws[(b - a).toNat / 8]? with
  | some w => byteAt w ((b - a).toNat % 8)
  | none => m b

def write64 (m : Mem) (a w : Word) : Mem := storeWords m a [w]

/-- Write the low half of the word at an address. -/
def write32 (m : Mem) (a : Word) (v : BitVec 32) : Mem :=
  write64 m a (read64 m a &&& 0xffffffff00000000#64 ||| v.setWidth 64)

/-- Move words one by one; the stride is eight, or minus eight with the direction
flag set. -/
def moveWords (stride : Word) : ℕ → Word → Word → Mem → Mem
  | 0, _, _, m => m
  | n + 1, src, dst, m =>
      moveWords stride n (src + stride) (dst + stride) (write64 m dst (read64 m src))

variable {m m' : Mem} {a b : Word} {ws : List Word}

lemma byteAt_getElem (w : Word) (j i : ℕ) (hi : i < 8) :
    (byteAt w j)[i] = w.getLsbD (8 * j + i) := by
  simp [byteAt, BitVec.getElem_extractLsb']

lemma byteAt_lowBit (w : Word) (j : ℕ) : (byteAt w j).getLsbD 0 = w.getLsbD (8 * j) := by
  simp [byteAt]

lemma word_ext {w w' : Word} (h : ∀ j < 8, byteAt w j = byteAt w' j) : w = w' := by
  apply BitVec.eq_of_getLsbD_eq
  intro i hi
  have hj := h (i / 8) (by omega)
  have hmod : i % 8 < 8 := by omega
  have hbit : (byteAt w (i / 8))[i % 8] = (byteAt w' (i / 8))[i % 8] := by rw [hj]
  rw [byteAt_getElem _ _ _ hmod, byteAt_getElem _ _ _ hmod, Nat.div_add_mod] at hbit
  exact hbit

lemma byteAt_read64 (m : Mem) (a : Word) {j : ℕ} (hj : j < 8) :
    byteAt (read64 m a) j = m (a + BitVec.ofNat 64 j) := by
  unfold byteAt read64
  interval_cases j <;>
    simp (disch := decide) only [BitVec.extractLsb'_append_eq_of_add_le,
      BitVec.extractLsb'_append_eq_of_le, Nat.reduceMul, Nat.reduceSub, BitVec.extractLsb'_eq_self,
      BitVec.add_zero]

lemma read64_eq_of_bytes {w : Word}
    (h : ∀ j < 8, m (a + BitVec.ofNat 64 j) = byteAt w j) : read64 m a = w :=
  word_ext fun j hj => by rw [byteAt_read64 m a hj, h j hj]

lemma read64_congr (h : ∀ j < 8, m (a + BitVec.ofNat 64 j) = m' (b + BitVec.ofNat 64 j)) :
    read64 m a = read64 m' b :=
  read64_eq_of_bytes fun j hj => by rw [h j hj, byteAt_read64 m' b hj]

/-- How far an address that is below another one, by less than a full turn, is
above it. -/
lemma toNat_sub_of_lt {i : ℕ} {src dst : Word} (h : i < (dst - src).toNat) :
    (src + BitVec.ofNat 64 i - dst).toNat = 2 ^ 64 + i - (dst - src).toNat := by
  have hlt := (dst - src).isLt
  have heq : src + BitVec.ofNat 64 i - dst = BitVec.ofNat 64 i - (dst - src) := by ring
  rw [heq]
  generalize dst - src = d at *
  bv_omega

lemma sub_toNat_add {j : ℕ} (hj : j < 2 ^ 64) (a : Word) :
    (a + BitVec.ofNat 64 j - a).toNat = j := by
  bv_omega

lemma toNat_sub_add_eight {i : ℕ} (hi : i < 8) (a : Word) :
    (a + BitVec.ofNat 64 i - (a + 8#64)).toNat = 2 ^ 64 + i - 8 := by
  bv_omega

lemma add_ofNat_eq {i : ℕ} (hi : 8 ≤ i) (a : Word) :
    a + BitVec.ofNat 64 i = a + 8#64 + BitVec.ofNat 64 (i - 8) := by
  bv_omega

lemma storeWords_of_lt {i : ℕ} (h : (b - a).toNat = 8 * i + (b - a).toNat % 8)
    (hi : i < ws.length) : storeWords m a ws b = byteAt (ws.get ⟨i, hi⟩) ((b - a).toNat % 8) := by
  have hdiv : (b - a).toNat / 8 = i := by omega
  simp only [storeWords, hdiv, List.getElem?_eq_getElem hi, List.get_eq_getElem]

lemma storeWords_of_ge (h : 8 * ws.length ≤ (b - a).toNat) : storeWords m a ws b = m b := by
  have hlen : ws.length ≤ (b - a).toNat / 8 := by omega
  simp only [storeWords, List.getElem?_eq_none hlen]

/-- The word at an offset that is a multiple of eight. -/
lemma read64_storeWords {i : ℕ} (hi : i < ws.length) (hlen : 8 * ws.length < 2 ^ 64) :
    read64 (storeWords m a ws) (a + BitVec.ofNat 64 (8 * i)) = ws.get ⟨i, hi⟩ := by
  apply read64_eq_of_bytes
  intro j hj
  have hoff : (a + BitVec.ofNat 64 (8 * i) + BitVec.ofNat 64 j - a).toNat = 8 * i + j := by
    bv_omega
  rw [storeWords_of_lt (i := i) (by omega) hi, hoff]
  congr 1
  omega

lemma read64_storeWords_cons (m : Mem) (a w : Word) (ws : List Word) :
    read64 (storeWords m a (w :: ws)) a = w := by
  apply read64_eq_of_bytes
  intro j hj
  have hoff := sub_toNat_add (j := j) (by omega) a
  have hdiv : j / 8 = 0 := by omega
  simp only [storeWords, hoff, hdiv, List.getElem?_cons_zero, Nat.mod_eq_of_lt hj]

/-- A byte of the words that are read from an address upwards. -/
lemma byte_of_read64 {q : ℕ} (hq : q < 8 * ws.length)
    (h : ∀ i, ∀ hi : i < ws.length, read64 m (a + BitVec.ofNat 64 (8 * i)) = ws.get ⟨i, hi⟩) :
    m (a + BitVec.ofNat 64 q) = byteAt (ws.getD (q / 8) 0#64) (q % 8) := by
  have hi : q / 8 < ws.length := by omega
  have hbyte := byteAt_read64 m (a + BitVec.ofNat 64 (8 * (q / 8))) (j := q % 8) (by omega)
  rw [BitVec.add_assoc, ← BitVec.ofNat_add, Nat.div_add_mod, h _ hi] at hbyte
  rw [← hbyte, List.getD_eq_getElem?_getD, List.getElem?_eq_getElem hi]
  rfl

/-- A byte of the run depends on the words up to its own only. -/
lemma storeWords_congr {ws' : List Word} {i r : ℕ} (h : ws.take i = ws'.take i) (hr : r < 8 * i)
    (hi : 8 * i < 2 ^ 64) :
    storeWords m a ws (a + BitVec.ofNat 64 r) = storeWords m a ws' (a + BitVec.ofNat 64 r) := by
  have hoff : (a + BitVec.ofNat 64 r - a).toNat = r := sub_toNat_add (by omega) a
  have hword : ws[r / 8]? = ws'[r / 8]? := by
    have htake := congrArg (·[r / 8]?) h
    simpa only [List.getElem?_take_of_lt (show r / 8 < i by omega)] using htake
  simp only [storeWords, hoff, hword]

/-- A push makes the run one word longer. -/
lemma write64_storeWords_cons (m : Mem) (a w : Word) (ws : List Word) :
    write64 (storeWords m (a + 8#64) ws) a w = storeWords m a (w :: ws) := by
  funext b
  by_cases hb : (b - a).toNat < 8
  · have hdiv : (b - a).toNat / 8 = 0 := by omega
    simp only [write64, storeWords, hdiv, List.getElem?_cons_zero]
  · have hoff : (b - (a + 8#64)).toNat = (b - a).toNat - 8 := by bv_omega
    have hdiv : (b - a).toNat / 8 = ((b - a).toNat - 8) / 8 + 1 := by omega
    have hmod : (b - a).toNat % 8 = ((b - a).toNat - 8) % 8 := by omega
    simp only [write64, storeWords, hoff, hdiv, hmod, List.getElem?_cons_succ, List.getElem?_nil]

/-- The same, from the stack pointer before the push. -/
lemma push_storeWords (mem : Mem) (rsp w : Word) (ws : List Word) :
    write64 (storeWords mem rsp ws) (rsp - 8#64) w = storeWords mem (rsp - 8#64) (w :: ws) := by
  rw [← write64_storeWords_cons, BitVec.sub_add_cancel]

/-- A write of one word of the run. -/
lemma write64_storeWords_set {i : ℕ} (hi : i < ws.length) (hlen : 8 * ws.length < 2 ^ 64)
    (w : Word) :
    write64 (storeWords m a ws) (a + BitVec.ofNat 64 (8 * i)) w = storeWords m a (ws.set i w) := by
  funext b
  by_cases hb : (b - (a + BitVec.ofNat 64 (8 * i))).toNat < 8
  · have hoff : (b - a).toNat = 8 * i + (b - (a + BitVec.ofNat 64 (8 * i))).toNat := by bv_omega
    have hdiv : (b - (a + BitVec.ofNat 64 (8 * i))).toNat / 8 = 0 := by omega
    have hdiv' : (b - a).toNat / 8 = i := by omega
    have hmod : (b - a).toNat % 8 = (b - (a + BitVec.ofNat 64 (8 * i))).toNat % 8 := by omega
    simp only [write64, storeWords, hdiv, hdiv', hmod, List.getElem?_cons_zero,
      List.getElem?_set_self hi]
  · have hne : i ≠ (b - a).toNat / 8 := by
      intro he
      apply hb
      have : 8 * i ≤ (b - a).toNat := by omega
      have : (b - a).toNat < 8 * i + 8 := by omega
      bv_omega
    have hge : 1 ≤ (b - (a + BitVec.ofNat 64 (8 * i))).toNat / 8 := by omega
    have hnone : ([w] : List Word)[(b - (a + BitVec.ofNat 64 (8 * i))).toNat / 8]? = none :=
      List.getElem?_eq_none (by simpa using hge)
    simp only [write64]
    rw [storeWords, hnone]
    simp only [storeWords, List.getElem?_set_ne hne]

lemma write64_of_lt {w : Word} (h : (b - a).toNat < 8) :
    write64 m a w b = byteAt w (b - a).toNat := by
  have hdiv : (b - a).toNat / 8 = 0 := by omega
  simp only [write64, storeWords, hdiv, List.getElem?_cons_zero, Nat.mod_eq_of_lt h]

lemma write64_of_ge {w : Word} (h : 8 ≤ (b - a).toNat) : write64 m a w b = m b :=
  storeWords_of_ge (by simpa using h)

/-- Two words that do not touch may be written in either order. -/
lemma write64_comm {v w : Word} (h : 8 ≤ (b - a).toNat) (h' : (b - a).toNat + 8 ≤ 2 ^ 64) :
    write64 (write64 m a v) b w = write64 (write64 m b w) a v := by
  funext c
  by_cases ha : (c - a).toNat < 8
  · have hb : 8 ≤ (c - b).toNat := by bv_omega
    rw [write64_of_ge hb, write64_of_lt ha, write64_of_lt ha]
  · rw [write64_of_ge (a := a) (by omega)]
    by_cases hb : (c - b).toNat < 8
    · rw [write64_of_lt hb, write64_of_lt hb]
    · rw [write64_of_ge (by omega), write64_of_ge (by omega), write64_of_ge (by omega)]

lemma write64_write64 (m : Mem) (a v w : Word) : write64 (write64 m a v) a w = write64 m a w := by
  funext b
  by_cases hb : (b - a).toNat < 8
  · rw [write64_of_lt hb, write64_of_lt hb]
  · rw [write64_of_ge (by omega), write64_of_ge (by omega), write64_of_ge (by omega)]

/-- The low half of a word replaced. -/
lemma low_half_getElem (w : Word) (v : BitVec 32) {j : ℕ} (hj : j < 64) :
    (w &&& 0xffffffff00000000#64 ||| v.setWidth 64)[j] = if j < 32 then v.getLsbD j else w[j] := by
  have hmask : (0xffffffff00000000#64)[j] = decide (32 ≤ j) := by
    have hones : 0xffffffff00000000#64 = BitVec.allOnes 64 <<< 32 := by decide
    rw [hones, BitVec.getElem_shiftLeft, BitVec.getElem_allOnes, Bool.and_true, ← decide_not]
    simp only [not_lt]
  rw [BitVec.getElem_or, BitVec.getElem_and, BitVec.getElem_setWidth, hmask]
  split
  · rename_i hlow
    rw [decide_eq_false (by omega), Bool.and_false, Bool.false_or]
  · rename_i hhigh
    rw [decide_eq_true (by omega), Bool.and_true, BitVec.getLsbD_of_ge v j (by omega),
      Bool.or_false]

/-- Setting bits of the low half of a word. -/
lemma write32_or (m : Mem) (a : Word) (i : BitVec 32) :
    write32 m a (read32 m a ||| i) = write64 m a (read64 m a ||| i.setWidth 64) := by
  have hw (w : Word) : w &&& 0xffffffff00000000#64 ||| (w.setWidth 32 ||| i).setWidth 64 =
      w ||| i.setWidth 64 := by
    ext j hj
    rw [low_half_getElem w _ hj]
    by_cases hlow : j < 32
    · simp [hlow, BitVec.getLsbD_eq_getElem hj]
    · simp [hlow, BitVec.getLsbD_of_ge i j (by omega)]
  rw [write32, read32, hw]

/-- Clearing bits of the low half of a word. -/
lemma write32_and (m : Mem) (a : Word) (i : BitVec 32) :
    write32 m a (read32 m a &&& i) =
      write64 m a (read64 m a &&& (0xffffffff00000000#64 ||| i.setWidth 64)) := by
  have hw (w : Word) : w &&& 0xffffffff00000000#64 ||| (w.setWidth 32 &&& i).setWidth 64 =
      w &&& (0xffffffff00000000#64 ||| i.setWidth 64) := by
    ext j hj
    have hmask := low_half_getElem (BitVec.allOnes 64) i hj
    rw [BitVec.allOnes_and, BitVec.getElem_allOnes] at hmask
    rw [low_half_getElem w _ hj, BitVec.getElem_and, hmask]
    by_cases hlow : j < 32
    · simp [hlow, BitVec.getLsbD_eq_getElem hj]
    · simp [hlow]
  rw [write32, read32, hw]

/-- Nothing outside the destination is written. -/
lemma moveWords_of_ge {n : ℕ} {src dst : Word} (hn : 8 * n < 2 ^ 64)
    (h : 8 * n ≤ (b - dst).toNat) : moveWords 8#64 n src dst m b = m b := by
  induction n generalizing m src dst with
  | zero => rfl
  | succ n ih =>
    rw [moveWords, ih (by omega) (by bv_omega), write64_of_ge (by omega)]

/-- A byte that is read before the copy can reach it arrives. -/
lemma moveWords_of_lt {n i : ℕ} {src dst : Word} (hn : 8 * n < 2 ^ 64) (hi : i < 8 * n)
    (hsafe : dst = src ∨ i < (dst - src).toNat) :
    moveWords 8#64 n src dst m (dst + BitVec.ofNat 64 i) = m (src + BitVec.ofNat 64 i) := by
  induction n generalizing m src dst i with
  | zero => omega
  | succ n ih =>
    rw [moveWords]
    by_cases h8 : i < 8
    · have hoff : (dst + BitVec.ofNat 64 i - dst).toNat = i := sub_toNat_add (by omega) dst
      have hnext : (dst + BitVec.ofNat 64 i - (dst + 8#64)).toNat = 2 ^ 64 + i - 8 :=
        toNat_sub_add_eight h8 dst
      rw [moveWords_of_ge (by omega) (by omega), write64_of_lt (by omega), hoff,
        byteAt_read64 m src h8]
    · have hsplit (c : Word) : c + BitVec.ofNat 64 i = c + 8#64 + BitVec.ofNat 64 (i - 8) :=
        add_ofNat_eq (by omega) c
      have hdiff : dst + 8#64 - (src + 8#64) = dst - src := by ring
      -- the first word does not land on a byte that is read later
      have hfar : 8 ≤ (src + BitVec.ofNat 64 i - dst).toNat := by
        rcases hsafe with rfl | hlow
        · rw [sub_toNat_add (by omega)]
          omega
        · have := (dst - src).isLt
          rw [toNat_sub_of_lt hlow]
          omega
      have hsafe' : dst + 8#64 = src + 8#64 ∨ i - 8 < (dst + 8#64 - (src + 8#64)).toNat := by
        rw [hdiff]
        exact hsafe.imp (fun h => by rw [h]) fun h => by omega
      rw [hsplit dst, ih (by omega) (by omega) hsafe', ← hsplit src, write64_of_ge hfar]

/-- The words of a run arrive unless the destination begins inside it. -/
lemma moveWords_storeWords {src dst : Word} (hlen : 8 * ws.length < 2 ^ 64)
    (hsafe : dst = src ∨ 8 * ws.length ≤ (dst - src).toNat) :
    moveWords 8#64 ws.length src dst (storeWords m src ws) =
      storeWords (storeWords m src ws) dst ws := by
  funext b
  by_cases hb : (b - dst).toNat < 8 * ws.length
  · have hbdst : b = dst + BitVec.ofNat 64 (b - dst).toNat := by
      rw [BitVec.ofNat_toNat, BitVec.setWidth_eq]
      ring
    have hdiv : (b - dst).toNat / 8 < ws.length := by omega
    have hsrc : (src + BitVec.ofNat 64 (b - dst).toNat - src).toNat = (b - dst).toNat :=
      sub_toNat_add (by omega) src
    rw [storeWords_of_lt (b := b) (i := (b - dst).toNat / 8) (by omega) hdiv]
    nth_rewrite 1 [hbdst]
    rw [moveWords_of_lt hlen hb (hsafe.imp id fun h => by omega),
      storeWords_of_lt (i := (b - dst).toNat / 8) (by omega) hdiv, hsrc]
  · rw [moveWords_of_ge hlen (by omega), storeWords_of_ge (a := dst) (by omega)]

/-- If the destination begins inside the run, the first word lands on a byte that
has not been read. -/
lemma moveWords_clobbers {n : ℕ} (src dst : Word) (hn : 8 * n < 2 ^ 64)
    (hpos : 0 < (dst - src).toNat) (hlt : (dst - src).toNat < 8 * n) (hone : 1 < n) :
    moveWords 8#64 n src dst m (dst + BitVec.ofNat 64 (max (dst - src).toNat 8)) =
      m (src + BitVec.ofNat 64 (max (dst - src).toNat 8 - (dst - src).toNat)) := by
  obtain ⟨n, rfl⟩ : ∃ k, n = k + 1 := ⟨n - 1, by omega⟩
  have hdiff : dst + 8#64 - (src + 8#64) = dst - src := by ring
  have hq8 : 8 ≤ max (dst - src).toNat 8 := le_max_right _ _
  have hqd : (dst - src).toNat ≤ max (dst - src).toNat 8 := le_max_left _ _
  have hq : max (dst - src).toNat 8 < (dst - src).toNat + 8 := by omega
  have hqn : max (dst - src).toNat 8 < 8 * (n + 1) := by omega
  generalize hqe : max (dst - src).toNat 8 = q at *
  have hsplit (c : Word) : c + BitVec.ofNat 64 q = c + 8#64 + BitVec.ofNat 64 (q - 8) :=
    add_ofNat_eq hq8 c
  have hoff : (src + BitVec.ofNat 64 q - dst).toNat = q - (dst - src).toNat := by
    have hsub : src + BitVec.ofNat 64 q - dst = BitVec.ofNat 64 q - (dst - src) := by ring
    rw [hsub]
    generalize dst - src = d at *
    bv_omega
  rw [moveWords, hsplit dst, moveWords_of_lt (by omega) (by omega) (Or.inr (by rw [hdiff]; omega)),
    ← hsplit src, write64_of_lt (by omega), hoff, byteAt_read64 m src (by omega)]

/-- That byte is one of the first word. -/
lemma moveWords_storeWords_clobbers {n : ℕ} {src dst w : Word} (hn : 8 * n < 2 ^ 64)
    (hpos : 0 < (dst - src).toNat) (hlt : (dst - src).toNat < 8 * n) (hone : 1 < n) :
    moveWords 8#64 n src dst (storeWords m src (w :: ws))
        (dst + BitVec.ofNat 64 (max (dst - src).toNat 8)) =
      byteAt w (max (dst - src).toNat 8 - (dst - src).toNat) := by
  have hq : max (dst - src).toNat 8 - (dst - src).toNat < 8 := by omega
  have hoff := sub_toNat_add (j := max (dst - src).toNat 8 - (dst - src).toNat) (by omega) src
  rw [moveWords_clobbers src dst hn hpos hlt hone, storeWords_of_lt (i := 0) (by omega) (by simp),
    hoff, Nat.mod_eq_of_lt hq]
  rfl

/-- A word arrives unless the destination begins at or below its end. -/
lemma read64_moveWords {n i : ℕ} {src dst : Word} (hn : 8 * n < 2 ^ 64) (hi : i < n)
    (hsafe : dst = src ∨ 8 * (i + 1) ≤ (dst - src).toNat) :
    read64 (moveWords 8#64 n src dst m) (dst + BitVec.ofNat 64 (8 * i)) =
      read64 m (src + BitVec.ofNat 64 (8 * i)) := by
  apply read64_congr
  intro j hj
  rw [BitVec.add_assoc, BitVec.add_assoc, ← BitVec.ofNat_add]
  exact moveWords_of_lt hn (by omega) (hsafe.imp id fun h => by omega)

/-- Otherwise a byte of it ends up as one of the words below, and as the same one
whatever memory holds. -/
lemma moveWords_overtaken {n i : ℕ} {src dst : Word} (hn : 8 * n < 2 ^ 64) (hi : i < n)
    (hone : 1 ≤ i) (hpos : 0 < (dst - src).toNat) (hlt : (dst - src).toNat < 8 * (i + 1)) :
    ∃ q r, q / 8 = i ∧ r < 8 * i ∧ ∀ m, moveWords 8#64 n src dst m (dst + BitVec.ofNat 64 q) =
      m (src + BitVec.ofNat 64 r) := by
  induction i, hone using Nat.le_induction generalizing n src dst with
  | base =>
    refine ⟨max (dst - src).toNat 8, max (dst - src).toNat 8 - (dst - src).toNat, by omega,
      by omega, fun m => ?_⟩
    exact moveWords_clobbers src dst hn hpos (by omega) (by omega)
  | succ i hone ih =>
    by_cases hlast : 8 * (i + 1) ≤ (dst - src).toNat
    · -- the first word lands in this one
      refine ⟨(dst - src).toNat, 0, by omega, by omega, fun m => ?_⟩
      have hclobber := moveWords_clobbers (m := m) src dst hn hpos (by omega) (by omega)
      rwa [max_eq_left (by omega), Nat.sub_self] at hclobber
    · obtain ⟨n, rfl⟩ : ∃ k, n = k + 1 := ⟨n - 1, by omega⟩
      have hdiff : dst + 8#64 - (src + 8#64) = dst - src := by ring
      obtain ⟨q, r, hq, hr, hmove⟩ := @ih n (src + 8#64) (dst + 8#64) (by omega) (by omega)
        (by rw [hdiff]; exact hpos) (by rw [hdiff]; omega)
      have hback (a : Word) (j : ℕ) :
          a + BitVec.ofNat 64 (j + 8) = a + 8#64 + BitVec.ofNat 64 j := by
        rw [add_ofNat_eq (by omega), Nat.add_sub_cancel]
      -- the byte read there is one that the first word has or has not written
      by_cases hfirst : (src + 8#64 + BitVec.ofNat 64 r - dst).toNat < 8
      · refine ⟨q + 8, (src + 8#64 + BitVec.ofNat 64 r - dst).toNat, by omega, by omega,
          fun m => ?_⟩
        rw [hback, moveWords, hmove, write64_of_lt hfirst, byteAt_read64 m src hfirst]
      · refine ⟨q + 8, r + 8, by omega, by omega, fun m => ?_⟩
        rw [hback dst, hback src, moveWords, hmove, write64_of_ge (by omega)]

/-- The same, of the word that is read there. -/
lemma byteAt_moveWords_overtaken {n i : ℕ} {src dst : Word} (hn : 8 * n < 2 ^ 64) (hi : i < n)
    (hone : 1 ≤ i) (hpos : 0 < (dst - src).toNat) (hlt : (dst - src).toNat < 8 * (i + 1)) :
    ∃ j r, j < 8 ∧ r < 8 * i ∧ ∀ m,
      byteAt (read64 (moveWords 8#64 n src dst m) (dst + BitVec.ofNat 64 (8 * i))) j =
        m (src + BitVec.ofNat 64 r) := by
  obtain ⟨q, r, hq, hr, hmove⟩ := moveWords_overtaken hn hi hone hpos hlt
  refine ⟨q % 8, r, by omega, hr, fun m => ?_⟩
  have haddr : 8 * i + q % 8 = q := by omega
  rw [byteAt_read64 _ _ (by omega), BitVec.add_assoc, ← BitVec.ofNat_add, haddr, hmove]

def storeByte (m : Mem) (a : Word) (v : Byte) : Mem := fun b => if b = a then v else m b

/-- Copy bytes one by one, from low to high addresses. -/
def moveBytes : ℕ → Word → Word → Mem → Mem
  | 0, _, _, m => m
  | n + 1, src, dst, m => moveBytes n (src + 1#64) (dst + 1#64) (storeByte m dst (m src))

lemma storeByte_of_ne {v : Byte} (h : b ≠ a) : storeByte m a v b = m b := if_neg h

lemma storeByte_self (m : Mem) (a : Word) (v : Byte) : storeByte m a v a = v := if_pos rfl

lemma moveBytes_of_ge {n : ℕ} {src dst : Word} (hn : n < 2 ^ 64) (h : n ≤ (b - dst).toNat) :
    moveBytes n src dst m b = m b := by
  induction n generalizing m src dst with
  | zero => rfl
  | succ n ih =>
    have hne : b ≠ dst := by
      rintro rfl
      rw [BitVec.sub_self] at h
      exact absurd h (by simp)
    rw [moveBytes, ih (by omega) (by bv_omega), storeByte_of_ne hne]

/-- The bytes arrive unless they are overwritten before they are read. -/
lemma moveBytes_of_lt {n i : ℕ} {src dst : Word} (hn : n < 2 ^ 64) (hi : i < n)
    (h : ∀ j < n, n ≤ (src + BitVec.ofNat 64 j - dst).toNat) :
    moveBytes n src dst m (dst + BitVec.ofNat 64 i) = m (src + BitVec.ofNat 64 i) := by
  induction n generalizing m src dst i with
  | zero => omega
  | succ n ih =>
    have hne : ∀ j < n + 1, src + BitVec.ofNat 64 j ≠ dst := by
      intro j hj he
      have hoff := h j hj
      rw [he, BitVec.sub_self] at hoff
      exact absurd hoff (by simp)
    rw [moveBytes]
    by_cases h0 : i = 0
    · subst h0
      have hdst : moveBytes n (src + 1#64) (dst + 1#64) (storeByte m dst (m src)) dst =
          storeByte m dst (m src) dst := moveBytes_of_ge (by omega) (by bv_omega)
      rw [BitVec.add_zero, BitVec.add_zero, hdst, storeByte_self]
    · have hsplit (c : Word) : c + BitVec.ofNat 64 i = c + 1#64 + BitVec.ofNat 64 (i - 1) := by
        bv_omega
      have hnext : ∀ j < n, n ≤ (src + 1#64 + BitVec.ofNat 64 j - (dst + 1#64)).toNat := by
        intro j hj
        have hoff := h (j + 1) (by omega)
        have heq : src + 1#64 + BitVec.ofNat 64 j - (dst + 1#64) =
            src + BitVec.ofNat 64 (j + 1) - dst - 1#64 := by bv_omega
        rw [heq]
        bv_omega
      rw [hsplit dst, ih (by omega) (by omega) hnext, ← hsplit src, storeByte_of_ne (hne i hi)]

end SymbiOS.X86
