import SymbiOS.Elevation
import SymbiOS.GuardedRun
import SymbiOS.Scanf

/-!
# How often the real system call is made

`kcut_init` takes `KCUT_THRESHOLD` from the environment as it is. A call of
`kcut_tcp_read` tests its counter for being set, not for being positive: from a
threshold below zero the counter only moves further away from zero.
-/
namespace SymbiOS.Kcut
open SymbiOS.CLib SymbiOS.GuardedRun

/-- The values of an `int`. -/
def IsInt (x : ℤ) : Prop := -2 ^ 31 ≤ x ∧ x < 2 ^ 31

def isDigit (c : UInt8) : Bool := 48 ≤ c && c ≤ 57

def decValue (digits : List UInt8) : ℕ := digits.foldl (fun v c => 10 * v + (c.toNat - 48)) 0

/-- `strtol` with base 10: a number that is too large is `LONG_MAX` or `LONG_MIN`. -/
def strtol (s : List UInt8) : ℤ :=
  let signed := takeSign (skipSpace s)
  let v : ℤ := decValue (signed.2.takeWhile isDigit)
  if signed.1 then max (-2 ^ 63) (-v) else min (2 ^ 63 - 1) v

def atoi (s : List UInt8) : ℤ := toInt (strtol s)

/-- What `kcut_init` stores in `KCUT_THRESHOLD`. -/
def kcutThreshold (env : Option CString) : ℤ :=
  match env with
  | some env => atoi env.bytes
  | none => 20

lemma isInt_toInt (x : ℤ) : IsInt (toInt x) := by
  have hlo : -((2 ^ 32 : ℕ) : ℤ) / 2 ≤ x.bmod (2 ^ 32) := Int.le_bmod (by decide)
  have hhi : x.bmod (2 ^ 32) < ((2 ^ 32 : ℕ) + 1 : ℤ) / 2 := Int.bmod_lt (by decide)
  unfold toInt
  constructor <;> omega

lemma isInt_kcutThreshold (env : Option CString) : IsInt (kcutThreshold env) := by
  cases env with
  | none => constructor <;> decide
  | some env => exact isInt_toInt (strtol env.bytes)

variable {σ R : Type} {cfg : Config} {threshold : ℤ}

/-- One call: what it is given, and the state of the kernel and of `errno` it
finds. `stack` is the memory under the message header of a write. -/
structure Call (σ R : Type) where
  kernel : Kernel σ R
  stack : Msghdr R
  fd : ℤ
  iov : Iovec
  errno : ℤ

/-- `kcut_cnt` of `kcut_tcp_read` after a call. -/
def readCnt (cfg : Config) (threshold kcutCnt : ℤ) (call : Call σ R) : ℤ :=
  (kcutTcpRead cfg threshold call.kernel call.fd call.iov kcutCnt call.errno).2

/-- `kcut_cnt` of `kcut_tcp_write` after a call. -/
def writeCnt (cfg : Config) (threshold kcutCnt : ℤ) (call : Call σ R) : ℤ :=
  (kcutTcpWrite cfg threshold call.kernel call.stack call.fd call.iov kcutCnt call.errno).2

lemma kcutTcp_snd_of_unbracketed (hcfg : cfg.bracketPriv = false) (fast real : Outcome)
    (kcutCnt errno : ℤ) :
    (kcutTcp cfg threshold fast real kcutCnt errno).2 =
      if kcutCnt ≠ 0 then kcutCnt - 1 else threshold := by
  rw [kcutTcp_snd, nextCnt, hcfg, if_neg Bool.false_ne_true]

/-- A counter that a call takes one off, or reloads when it is 0. -/
def CountsDown (threshold : ℤ) (step : ℤ → Call σ R → ℤ) : Prop :=
  ∀ c call, step c call = if c ≠ 0 then c - 1 else threshold

lemma readCnt_countsDown (hcfg : cfg.bracketPriv = false) :
    CountsDown threshold (readCnt cfg threshold : ℤ → Call σ R → ℤ) :=
  fun c call => kcutTcp_snd_of_unbracketed hcfg _ _ c call.errno

lemma writeCnt_countsDown (hcfg : cfg.bracketPriv = false) :
    CountsDown threshold (writeCnt cfg threshold : ℤ → Call σ R → ℤ) :=
  fun c call => kcutTcp_snd_of_unbracketed hcfg _ _ c call.errno

/-- A sequence of calls from the program's start, where the static counter is 0.
`step` is the counter of the function that is called. -/
structure NeverStarves (cfg : Config) (threshold : ℤ) (step : ℤ → Call σ R → ℤ)
    (calls : List (Call σ R)) : Prop where
  /-- The first call is the real one. -/
  first_real : ∀ call rest, calls = call :: rest → ¬ FastPath cfg (runFrom step 0 [])
  /-- Among so many calls in a row there is a real one. -/
  window_real : ∀ before window after, calls = before ++ window ++ after →
    window.length = (max threshold 0).toNat + 1 →
    ∃ skipped call rest, window = skipped ++ call :: rest ∧
      ¬ FastPath cfg (runFrom step 0 (before ++ skipped))
  /-- The counter does not overflow. -/
  counter_isInt : ∀ before, before <+: calls → IsInt (runFrom step 0 before)

section Counter

variable {step : ℤ → Call σ R → ℤ}

/-- A counter that does not come to 0 in between goes down by one a call. -/
lemma CountsDown.run_eq_sub (h : CountsDown threshold step) (calls : List (Call σ R)) {c : ℤ}
    (hc : c < 0 ∨ (calls.length : ℤ) ≤ c) : runFrom step c calls = c - calls.length := by
  induction calls generalizing c with
  | nil => simp
  | cons call calls ih =>
    simp only [List.length_cons] at hc ⊢
    have hne : c ≠ 0 := by omega
    rw [runFrom_cons, h c call, if_pos hne, ih (by omega)]
    omega

/-- From a threshold below zero the counter never comes back. -/
lemma CountsDown.run_negative (h : CountsDown threshold step) (hT : threshold < 0)
    (call : Call σ R) (calls : List (Call σ R)) :
    runFrom step 0 (call :: calls) = threshold - calls.length := by
  rw [runFrom_cons, h 0 call, if_neg (by simp), h.run_eq_sub calls (Or.inl hT)]

lemma CountsDown.run_mem (h : CountsDown threshold step) (hT : 0 ≤ threshold)
    (calls : List (Call σ R)) {c : ℤ} (hc : 0 ≤ c ∧ c ≤ threshold) :
    0 ≤ runFrom step c calls ∧ runFrom step c calls ≤ threshold := by
  induction calls generalizing c with
  | nil => exact hc
  | cons call calls ih =>
    rw [runFrom_cons, h c call]
    apply ih
    split <;> omega

/-- With a threshold that is not negative the counter is back at 0 within as many
calls as it shows. -/
lemma CountsDown.neverStarves (h : CountsDown threshold step) (hcfg : cfg.bracketPriv = false)
    (hint : IsInt threshold) (hT : 0 ≤ threshold) (calls : List (Call σ R)) :
    NeverStarves cfg threshold step calls := by
  have hrange (before : List (Call σ R)) := h.run_mem hT before ⟨le_rfl, hT⟩
  refine ⟨?_, ?_, ?_⟩
  · intro call rest _
    simp [FastPath, hcfg]
  · intro before window after _ hlen
    obtain ⟨hlo, hhi⟩ := hrange before
    set c := runFrom step 0 before with hc
    -- the calls that count `c` down to 0
    have hlt : c.toNat < window.length := by omega
    have htake : (window.take c.toNat).length = c.toNat := List.length_take_of_le hlt.le
    refine ⟨window.take c.toNat, window.get ⟨c.toNat, hlt⟩, window.drop (c.toNat + 1), ?_, ?_⟩
    · rw [List.get_eq_getElem, ← List.drop_eq_getElem_cons hlt, List.take_append_drop]
    · have hzero : runFrom step 0 (before ++ window.take c.toNat) = 0 := by
        rw [runFrom_append, ← hc, h.run_eq_sub _ (Or.inr (by omega)), htake]
        omega
      simp [FastPath, hcfg, hzero]
  · intro before _
    obtain ⟨hlo, hhi⟩ := hrange before
    unfold IsInt at hint ⊢
    omega

/-- One call says nothing about the threshold. -/
lemma neverStarves_of_length_le_one (h : CountsDown threshold step)
    (hcfg : cfg.bracketPriv = false) (hint : IsInt threshold) {calls : List (Call σ R)}
    (hlen : calls.length ≤ 1) : NeverStarves cfg threshold step calls := by
  have hzero : ¬ FastPath cfg 0 := by simp [FastPath, hcfg]
  refine ⟨fun _ _ _ => hzero, ?_, ?_⟩
  · intro before window after hcalls hwindow
    have hsum := congrArg List.length hcalls
    simp only [List.length_append] at hsum
    have hbefore : before = [] := List.length_eq_zero_iff.mp (by omega)
    cases window with
    | nil => simp at hwindow
    | cons call rest => exact ⟨[], call, rest, rfl, by simpa [hbefore] using hzero⟩
  · intro before hbefore
    have hle := hbefore.length_le
    cases before with
    | nil => exact ⟨by rw [runFrom_nil]; decide, by rw [runFrom_nil]; decide⟩
    | cons call rest =>
      have hrest : rest = [] := by
        rw [List.length_cons] at hle
        exact List.length_eq_zero_iff.mp (by omega)
      have hstep : runFrom step 0 (call :: rest) = threshold := by simp [hrest, h 0 call]
      rwa [hstep]

/-- From a threshold below zero the second call, like all that follow, is not real. -/
lemma CountsDown.not_neverStarves (h : CountsDown threshold step) (hT : threshold < 0)
    (first second : Call σ R) (rest : List (Call σ R)) :
    ¬ NeverStarves cfg threshold step (first :: second :: rest) := by
  intro hnever
  have hlen : [second].length = (max threshold 0).toNat + 1 := by
    rw [List.length_singleton]
    omega
  obtain ⟨skipped, call, tail, hwindow, hreal⟩ :=
    hnever.window_real [first] [second] rest (by simp) hlen
  have hskipped : skipped = [] := by
    cases skipped with
    | nil => rfl
    | cons _ skipped => simp at hwindow
  subst hskipped
  apply hreal
  right
  rw [List.append_nil, h.run_negative hT first []]
  simp only [List.length_nil]
  omega

lemma CountsDown.neverStarves_iff_nonneg (h : CountsDown threshold step)
    (hcfg : cfg.bracketPriv = false) (hint : IsInt threshold) (calls : List (Call σ R)) :
    NeverStarves cfg threshold step calls ↔ 0 ≤ threshold ∨ calls.length ≤ 1 := by
  constructor
  · intro hnever
    by_contra hnot
    simp only [not_or, not_le] at hnot
    cases calls with
    | nil => simp at hnot
    | cons first rest =>
      cases rest with
      | nil => simp at hnot
      | cons second rest => exact h.not_neverStarves hnot.1 first second rest hnever
  · rintro (hT | hlen)
    · exact h.neverStarves hcfg hint hT calls
    · exact neverStarves_of_length_le_one h hcfg hint hlen

end Counter

/-- For every value of `KCUT_THRESHOLD` and every sequence of reads, or of writes:
the first call is real, a real call is among any `max(KCUT_THRESHOLD, 0) + 1` calls
in a row and the counter does not overflow exactly when the threshold is not
negative, or no second call is made. -/
theorem neverStarves_iff (hcfg : cfg.bracketPriv = false) (hint : IsInt threshold)
    (calls : List (Call σ R)) :
    (NeverStarves cfg threshold (readCnt cfg threshold) calls ↔
      0 ≤ threshold ∨ calls.length ≤ 1) ∧
    (NeverStarves cfg threshold (writeCnt cfg threshold) calls ↔
      0 ≤ threshold ∨ calls.length ≤ 1) :=
  ⟨(readCnt_countsDown hcfg).neverStarves_iff_nonneg hcfg hint calls,
    (writeCnt_countsDown hcfg).neverStarves_iff_nonneg hcfg hint calls⟩

/-- A read of 4096 bytes from descriptor 3. -/
def demoRead : Call Demo Unit := ⟨demoKernel, ⟨0, ()⟩, 3, ⟨0, 4096⟩, 0⟩

/-- The default, and a hundred reads. -/
theorem neverStarves_default :
    NeverStarves plainBuild (kcutThreshold none) (readCnt plainBuild (kcutThreshold none))
      (List.replicate 100 demoRead) :=
  (neverStarves_iff rfl (isInt_kcutThreshold none) _).1.mpr (Or.inl (by decide))

/-- `KCUT_THRESHOLD=-1`: the second read takes the shortcut, where every single
call should be real, and after `2 ^ 31 + 1` reads the counter is below `INT_MIN`. -/
theorem kcutCnt_below_int :
    kcutThreshold (some ⟨ascii "-1", by decide⟩) = -1 ∧
    ¬ NeverStarves plainBuild (-1) (readCnt plainBuild (-1)) [demoRead, demoRead] ∧
    runFrom (readCnt plainBuild (-1)) 0 (List.replicate (2 ^ 31 + 1) demoRead) = -2 ^ 31 - 1 := by
  have hcounts : CountsDown (-1) (readCnt plainBuild (-1) : ℤ → Call Demo Unit → ℤ) :=
    readCnt_countsDown rfl
  refine ⟨by decide, hcounts.not_neverStarves (by decide) demoRead demoRead [], ?_⟩
  rw [List.replicate_succ, hcounts.run_negative (by decide), List.length_replicate]
  omega

end SymbiOS.Kcut
