import SymbiOS.KcutTcp

/-!
# Elevation over a whole run

`sym_elevate` sets and `symbi_fast_lower` clears one flag of the thread; there is
no nesting count. The model follows the flag through `kcut_init`, the calls and
ifunc resolutions after it, and `kcut_cleanup`, and records what goes wrong on
the way. A function that ends the program instead of returning gives `none`.
-/
namespace SymbiOS.Kcut

/-- The kernel functions that are called from user code. All but the last five
are ifuncs of the extension and reached through `dpld_resolver`. -/
inductive KernelFn where
  | kcutTcpRecvmsg
  | kcutTcpSendmsg
  | acquireExclusiveCpu
  | releaseExclusiveCpu
  | currentPid
  | kallsymsLookupName
  | vmallocNoprof
  | setAppGot
  | ksysRead
  | ksysWrite
  deriving Repr, DecidableEq

inductive Fault where
  | loweredTwice
  | calledLowered (f : KernelFn)
  | elevationChanged
  deriving Repr, DecidableEq

/-- The thread, the static variables it uses, and which ifuncs are already bound
to their kernel address. -/
structure Thread where
  elevated : Bool
  faults : List Fault
  moduleLoaded : Bool
  bound : KernelFn → Bool
  threshold : ℤ
  readCnt : ℤ
  writeCnt : ℤ

namespace Thread

def symElevate (t : Thread) : Thread := { t with elevated := true }

def symbiFastLower (t : Thread) : Thread :=
  { t with
    elevated := false
    faults := if t.elevated then t.faults else .loweredTwice :: t.faults }

def call (f : KernelFn) (t : Thread) : Thread :=
  if t.elevated then t else { t with faults := .calledLowered f :: t.faults }

/-- The return of a helper that was entered with the flag `entered`. -/
def returns (entered : Bool) (t : Thread) : Thread :=
  if t.elevated = entered then t else { t with faults := .elevationChanged :: t.faults }

end Thread

/-- What the calls inside one `dpld_resolver` give: the dynamic symbols it needs,
`load_ext_module`, the lookup of `set_app_got`, the allocation of the table and
the address found. -/
structure Resolution where
  symbols : Bool
  loadRc : ℤ
  setAppGot : Bool
  vmalloc : Bool
  addr : ℕ
  deriving Repr, DecidableEq

/-- `app_got_init`: it exits if the elevated part fails. -/
def appGotInit (r : Resolution) (t : Thread) : Option Thread :=
  let t := t.symElevate.call .kallsymsLookupName
  let t := if r.setAppGot then t.call .vmallocNoprof else t
  let t := if r.setAppGot && r.vmalloc then t.call .setAppGot else t
  let t := t.symbiFastLower
  if r.setAppGot && r.vmalloc then some t else none

/-- The first resolution loads the module and fills in the application's table. -/
def loadOnce (cfg : Config) (r : Resolution) (t : Thread) : Option Thread :=
  if t.moduleLoaded then some t
  else if r.loadRc ≠ 0 then none
  else do
    let t ← if cfg.noAppGotEntries then some t else appGotInit r t
    some { t with moduleLoaded := true }

def dpldResolver (cfg : Config) (r : Resolution) (t : Thread) : Option Thread :=
  if !r.symbols then none
  else do
    let t' ← loadOnce cfg r t
    let t' := (t'.symElevate.call .kallsymsLookupName).symbiFastLower
    if r.addr = 0 then none else some (t'.returns t.elevated)

/-- A call of an ifunc. The first one goes through its resolver. -/
def kcall (cfg : Config) (r : Resolution) (f : KernelFn) (t : Thread) : Option Thread :=
  if t.bound f then some (t.call f)
  else do
    let t ← dpldResolver cfg r t
    some (Thread.call f { t with bound := Function.update t.bound f true })

/-- What one `kcut_evacuate` meets. -/
structure EvacuateCall where
  getcpu : Bool
  rc : ℤ
  resolution : Resolution
  deriving Repr, DecidableEq

/-- Both asserts end the program. A release has no result to check. -/
def kcutEvacuate (cfg : Config) (acquire : Bool) (e : EvacuateCall) (t : Thread) : Option Thread :=
  if !e.getcpu then none
  else do
    let t' ← kcall cfg e.resolution
      (if acquire then .acquireExclusiveCpu else .releaseExclusiveCpu) t.symElevate
    let t' := t'.symbiFastLower
    if acquire && e.rc != 0 then none else some (t'.returns t.elevated)

/-- The evacuation of `kcut_init` and `kcut_cleanup`, if the build has one. -/
def evacuation (cfg : Config) (acquire : Bool) (e : EvacuateCall) (t : Thread) : Option Thread :=
  if cfg.evacuate then kcutEvacuate cfg acquire e t else some t

structure InitCall where
  evacuation : EvacuateCall
  env : Option ℤ
  resolution : Resolution
  deriving Repr, DecidableEq

def kcutInit (cfg : Config) (i : InitCall) (t : Thread) : Option Thread := do
  let t ← evacuation cfg true i.evacuation t
  let t := { t with threshold := i.env.getD 20 }
  let t ← kcall cfg i.resolution .currentPid t.symElevate
  let t := t.symbiFastLower
  some (if cfg.bracketPriv then t else t.symElevate)

def kcutCleanup (cfg : Config) (e : EvacuateCall) (t : Thread) : Option Thread := do
  let t ← evacuation cfg false e t
  some (if cfg.bracketPriv then t else t.symbiFastLower)

/-- `ELEVATE_ME` and `LOWER_ME` are empty without `BRACKET_PRIV`. -/
def elevateMe (cfg : Config) (t : Thread) : Thread := if cfg.bracketPriv then t.symElevate else t

def lowerMe (cfg : Config) (t : Thread) : Thread := if cfg.bracketPriv then t.symbiFastLower else t

/-- The kernel call of the fast path. -/
def fastCall (cfg : Config) (r : Resolution) (f ksys : KernelFn) (t : Thread) : Option Thread :=
  if cfg.shortcut then kcall cfg r f t else some (t.call ksys)

/-- The elevation of `kcut_tcp_read` and `kcut_tcp_write`. Switching the stack
does not touch the flag. -/
def kcutTcpCall (cfg : Config) (r : Resolution) (f ksys : KernelFn) (kcutCnt : ℤ) (t : Thread) :
    Option Thread :=
  if FastPath cfg kcutCnt then do
    let t ← fastCall cfg r f ksys (elevateMe cfg t)
    some (lowerMe cfg t)
  else some t

/-- The counter after a call. -/
def nextCnt (cfg : Config) (threshold kcutCnt : ℤ) : ℤ :=
  if cfg.bracketPriv then kcutCnt else if kcutCnt ≠ 0 then kcutCnt - 1 else threshold

/-- What a thread does between `kcut_init` and `kcut_cleanup`. -/
inductive Op where
  | read (r : Resolution)
  | write (r : Resolution)
  | resolve (f : KernelFn) (r : Resolution)
  deriving Repr, DecidableEq

def Op.perform (cfg : Config) (t : Thread) : Op → Option Thread
  | .read r => do
      let t' ← kcutTcpCall cfg r .kcutTcpRecvmsg .ksysRead t.readCnt t
      some { t' with readCnt := nextCnt cfg t.threshold t.readCnt }
  | .write r => do
      let t' ← kcutTcpCall cfg r .kcutTcpSendmsg .ksysWrite t.writeCnt t
      some { t' with writeCnt := nextCnt cfg t.threshold t.writeCnt }
  | .resolve f r => do
      let t' ← dpldResolver cfg r t
      some { t' with bound := Function.update t'.bound f true }

/-- A whole run: `kcut_init`, the operations, `kcut_cleanup`. -/
def wholeRun (cfg : Config) (i : InitCall) (ops : List Op) (e : EvacuateCall) (t : Thread) :
    Option Thread := do
  let t ← kcutInit cfg i t
  let t ← ops.foldlM (Op.perform cfg) t
  kcutCleanup cfg e t

lemma kcutTcp_snd (cfg : Config) (threshold : ℤ) (fast real : Outcome) (kcutCnt errno : ℤ) :
    (kcutTcp cfg threshold fast real kcutCnt errno).2 = nextCnt cfg threshold kcutCnt := by
  simp only [kcutTcp, nextCnt]
  split
  · rfl
  · split <;> rfl

section Flag

variable {cfg : Config} {r : Resolution} {f : KernelFn} {t t' : Thread}

@[simp] theorem symElevate_elevated (t : Thread) : t.symElevate.elevated = true := rfl

@[simp] theorem symElevate_faults (t : Thread) : t.symElevate.faults = t.faults := rfl

@[simp] theorem symElevate_bound (t : Thread) : t.symElevate.bound = t.bound := rfl

@[simp] theorem symbiFastLower_elevated (t : Thread) : t.symbiFastLower.elevated = false := rfl

@[simp] theorem symbiFastLower_bound (t : Thread) : t.symbiFastLower.bound = t.bound := rfl

lemma call_of_elevated (h : t.elevated = true) : t.call f = t := by simp [Thread.call, h]

@[simp] theorem call_symElevate (t : Thread) : t.symElevate.call f = t.symElevate :=
  call_of_elevated rfl

lemma call_faults_nil : (t.call f).faults = [] ↔ t.faults = [] ∧ t.elevated = true := by
  cases h : t.elevated <;> simp [Thread.call, h]

lemma symbiFastLower_faults_nil :
    t.symbiFastLower.faults = [] ↔ t.faults = [] ∧ t.elevated = true := by
  cases h : t.elevated <;> simp [Thread.symbiFastLower, h]

lemma returns_faults_nil {entered : Bool} :
    (t.returns entered).faults = [] ↔ t.faults = [] ∧ t.elevated = entered := by
  by_cases h : t.elevated = entered <;> simp [Thread.returns, h]

@[simp] theorem returns_elevated (entered : Bool) (t : Thread) :
    (t.returns entered).elevated = t.elevated := by
  rw [Thread.returns]
  split <;> rfl

@[simp] theorem returns_bound (entered : Bool) (t : Thread) :
    (t.returns entered).bound = t.bound := by
  rw [Thread.returns]
  split <;> rfl

/-- Raising and lowering the flag around a call leaves no fault. -/
lemma symElevate_symbiFastLower (t : Thread) :
    t.symElevate.symbiFastLower = { t with elevated := false } := rfl

lemma appGotInit_eq_some (h : appGotInit r t = some t') : t' = { t with elevated := false } := by
  cases hs : r.setAppGot <;> cases hv : r.vmalloc <;>
    simp [appGotInit, hs, hv, symElevate_symbiFastLower] at h
  exact h.symm

lemma loadOnce_eq_some (h : loadOnce cfg r t = some t') :
    t'.faults = t.faults ∧ t'.bound = t.bound := by
  rw [loadOnce] at h
  split at h
  · cases h
    exact ⟨rfl, rfl⟩
  · split at h
    · cases h
    · cases hg : cfg.noAppGotEntries with
      | true =>
        simp only [hg, if_true, Option.bind_eq_bind, Option.bind_some, Option.some.injEq] at h
        subst h
        exact ⟨rfl, rfl⟩
      | false =>
        simp only [hg, Bool.false_eq_true, if_false, Option.bind_eq_bind,
          Option.bind_eq_some_iff, Option.some.injEq] at h
        obtain ⟨t₁, ht₁, rfl⟩ := h
        rw [appGotInit_eq_some ht₁]
        exact ⟨rfl, rfl⟩

/-- `dpld_resolver` returns with the flag clear, however it was entered. -/
lemma dpldResolver_eq_some (h : dpldResolver cfg r t = some t') :
    t'.elevated = false ∧ t'.bound = t.bound ∧
      (t'.faults = [] ↔ t.faults = [] ∧ t.elevated = false) := by
  rw [dpldResolver] at h
  split at h
  · cases h
  · simp only [Option.bind_eq_bind, Option.bind_eq_some_iff, call_symElevate,
      symElevate_symbiFastLower] at h
    obtain ⟨t₁, ht₁, h⟩ := h
    obtain ⟨hfaults, hbound⟩ := loadOnce_eq_some ht₁
    split at h
    · cases h
    · cases h
      refine ⟨by simp, by simpa using hbound, ?_⟩
      rw [returns_faults_nil]
      simp only [hfaults, eq_comm]

/-- A call of an unbound ifunc is made with the flag its resolver left. -/
lemma kcall_faults_nil (h : kcall cfg r f t = some t') :
    t'.faults = [] ↔ t.faults = [] ∧ t.elevated = true ∧ t.bound f = true := by
  rw [kcall] at h
  split at h
  · cases h
    rename_i hb
    rw [call_faults_nil]
    simp [hb]
  · rename_i hb
    simp only [Option.bind_eq_bind, Option.bind_eq_some_iff, Option.some.injEq] at h
    obtain ⟨t₁, ht₁, rfl⟩ := h
    have hlow := (dpldResolver_eq_some ht₁).1
    rw [call_faults_nil]
    simp [hlow, hb]

lemma kcall_eq_some_of_bound (h : kcall cfg r f t = some t') (hb : t.bound f = true)
    (he : t.elevated = true) : t' = t := by
  rw [kcall, if_pos hb, call_of_elevated he] at h
  exact (Option.some.inj h).symm

/-- The kernel function that `kcut_evacuate` calls. -/
def evacuateFn (acquire : Bool) : KernelFn :=
  if acquire then .acquireExclusiveCpu else .releaseExclusiveCpu

lemma kcutEvacuate_eq_some {acquire : Bool} {e : EvacuateCall}
    (h : kcutEvacuate cfg acquire e t = some t') :
    (t'.faults = [] ↔
      t.faults = [] ∧ t.elevated = false ∧ t.bound (evacuateFn acquire) = true) ∧
    (t'.faults = [] → t' = t) := by
  rw [kcutEvacuate] at h
  split at h
  · cases h
  simp only [Option.bind_eq_bind, Option.bind_eq_some_iff] at h
  obtain ⟨t₁, ht₁, h⟩ := h
  have hcall := kcall_faults_nil ht₁
  have hbound (hb : t.bound (evacuateFn acquire) = true) : t₁ = t.symElevate :=
    kcall_eq_some_of_bound ht₁ hb rfl
  split at h
  · cases h
  cases h
  have hiff : (t₁.symbiFastLower.returns t.elevated).faults = [] ↔
      t.faults = [] ∧ t.elevated = false ∧ t.bound (evacuateFn acquire) = true := by
    rw [returns_faults_nil, symbiFastLower_faults_nil, hcall]
    constructor
    · rintro ⟨⟨⟨hf, -, hb⟩, -⟩, hlow⟩
      exact ⟨hf, hlow.symm, hb⟩
    · rintro ⟨hf, hlow, hb⟩
      exact ⟨⟨⟨hf, rfl, hb⟩, by rw [hbound hb]; rfl⟩, hlow.symm⟩
  refine ⟨hiff, fun hnil => ?_⟩
  obtain ⟨-, hlow, hb⟩ := hiff.mp hnil
  rw [hbound hb, symElevate_symbiFastLower, hlow, Thread.returns, if_pos rfl, ← hlow]

lemma evacuation_eq_some {acquire : Bool} {e : EvacuateCall}
    (h : evacuation cfg acquire e t = some t') :
    (t'.faults = [] ↔ t.faults = [] ∧
      (cfg.evacuate = true → t.elevated = false ∧ t.bound (evacuateFn acquire) = true)) ∧
    (t'.faults = [] → t' = t) := by
  rw [evacuation] at h
  cases he : cfg.evacuate with
  | true =>
    rw [he, if_pos rfl] at h
    simpa using kcutEvacuate_eq_some h
  | false =>
    simp only [he, Bool.false_eq_true, if_false, Option.some.injEq] at h
    subst h
    simp

/-- The thread after a `kcut_init` without faults: elevated for good unless every
call is bracketed. -/
def initialised (cfg : Config) (i : InitCall) (t : Thread) : Thread :=
  { t with elevated := !cfg.bracketPriv, threshold := i.env.getD 20 }

/-- The ifuncs that `kcut_init` calls are bound. -/
def InitBound (cfg : Config) (t : Thread) : Prop :=
  (cfg.evacuate = true → t.bound .acquireExclusiveCpu = true) ∧ t.bound .currentPid = true

lemma kcutInit_eq_some {i : InitCall} (hlow : t.elevated = false)
    (h : kcutInit cfg i t = some t') :
    (t'.faults = [] ↔ t.faults = [] ∧ InitBound cfg t) ∧
    (t'.faults = [] → t' = initialised cfg i t) := by
  simp only [kcutInit, Option.bind_eq_bind, Option.bind_eq_some_iff, Option.some.injEq] at h
  obtain ⟨t₁, ht₁, t₂, ht₂, rfl⟩ := h
  obtain ⟨hevac, hsame⟩ := evacuation_eq_some ht₁
  have hcall := kcall_faults_nil ht₂
  have hlast :
      (if cfg.bracketPriv then t₂.symbiFastLower else t₂.symbiFastLower.symElevate).faults =
        t₂.symbiFastLower.faults := by
    split <;> rfl
  have hiff : t₂.symbiFastLower.faults = [] ↔ t.faults = [] ∧ InitBound cfg t := by
    rw [symbiFastLower_faults_nil, hcall]
    constructor
    · rintro ⟨⟨hf, -, hb⟩, -⟩
      obtain ⟨hf₀, hacq⟩ := hevac.mp hf
      rw [hsame hf] at hb
      exact ⟨hf₀, fun he => (hacq he).2, hb⟩
    · rintro ⟨hf, hacq, hb⟩
      have hf₁ : t₁.faults = [] := hevac.mpr ⟨hf, fun he => ⟨hlow, hacq he⟩⟩
      have hb₁ : t₁.bound .currentPid = true := by rw [hsame hf₁]; exact hb
      have ht₂' := kcall_eq_some_of_bound ht₂ hb₁ rfl
      exact ⟨⟨hf₁, rfl, hb₁⟩, by rw [ht₂']; rfl⟩
  rw [hlast]
  refine ⟨hiff, fun hnil => ?_⟩
  obtain ⟨hf, hacq, hb⟩ := hiff.mp hnil
  have hf₁ : t₁.faults = [] := hevac.mpr ⟨hf, fun he => ⟨hlow, hacq he⟩⟩
  have ht₁' := hsame hf₁
  subst ht₁'
  rw [kcall_eq_some_of_bound ht₂ hb rfl]
  cases hp : cfg.bracketPriv <;>
    simp [initialised, hp, Thread.symElevate, Thread.symbiFastLower]

lemma kcutCleanup_eq_some {e : EvacuateCall} (helev : t.elevated = !cfg.bracketPriv)
    (h : kcutCleanup cfg e t = some t') :
    (t'.faults = [] ∧ t'.elevated = false) ↔ t.faults = [] ∧
      (cfg.evacuate = true → cfg.bracketPriv = true ∧ t.bound .releaseExclusiveCpu = true) := by
  simp only [kcutCleanup, Option.bind_eq_bind, Option.bind_eq_some_iff, Option.some.injEq] at h
  obtain ⟨t₁, ht₁, rfl⟩ := h
  obtain ⟨hevac, hsame⟩ := evacuation_eq_some ht₁
  cases hp : cfg.bracketPriv with
  | true =>
    simp only [if_true]
    constructor
    · rintro ⟨hf, -⟩
      obtain ⟨hf₀, hrel⟩ := hevac.mp hf
      exact ⟨hf₀, fun he => ⟨trivial, (hrel he).2⟩⟩
    · rintro ⟨hf, hrel⟩
      have hlow : t.elevated = false := by rw [helev, hp]; rfl
      have hf₁ := hevac.mpr ⟨hf, fun he => ⟨hlow, (hrel he).2⟩⟩
      exact ⟨hf₁, by rw [hsame hf₁]; exact hlow⟩
  | false =>
    have hhigh : t.elevated = true := by rw [helev, hp]; rfl
    simp only [Bool.false_eq_true, if_false, symbiFastLower_elevated, and_true,
      symbiFastLower_faults_nil, false_and, imp_false]
    constructor
    · rintro ⟨hf, -⟩
      obtain ⟨hf₀, hrel⟩ := hevac.mp hf
      refine ⟨hf₀, fun he => ?_⟩
      have hlow := (hrel he).1
      rw [hhigh] at hlow
      exact Bool.noConfusion hlow
    · rintro ⟨hf, hno⟩
      have hf₁ := hevac.mpr ⟨hf, fun he => absurd he hno⟩
      exact ⟨hf₁, by rw [hsame hf₁]; exact hhigh⟩

lemma fastCall_faults_nil {ksys : KernelFn} (h : fastCall cfg r f ksys t = some t') :
    t'.faults = [] ↔
      t.faults = [] ∧ t.elevated = true ∧ (cfg.shortcut = true → t.bound f = true) := by
  cases hs : cfg.shortcut with
  | true =>
    rw [fastCall, hs, if_pos rfl] at h
    simpa using kcall_faults_nil h
  | false =>
    simp only [fastCall, hs, Bool.false_eq_true, if_false, Option.some.injEq] at h
    subst h
    simp [call_faults_nil]

lemma fastCall_eq_some_of_bound {ksys : KernelFn} (h : fastCall cfg r f ksys t = some t')
    (he : t.elevated = true) (hb : cfg.shortcut = true → t.bound f = true) : t' = t := by
  cases hs : cfg.shortcut with
  | true =>
    rw [fastCall, hs, if_pos rfl] at h
    exact kcall_eq_some_of_bound h (hb hs) he
  | false =>
    simp only [fastCall, hs, Bool.false_eq_true, if_false, Option.some.injEq] at h
    rw [← h, call_of_elevated he]

@[simp] theorem elevateMe_faults (cfg : Config) (t : Thread) :
    (elevateMe cfg t).faults = t.faults := by
  rw [elevateMe]
  split <;> rfl

@[simp] theorem elevateMe_bound (cfg : Config) (t : Thread) :
    (elevateMe cfg t).bound = t.bound := by
  rw [elevateMe]
  split <;> rfl

lemma elevateMe_elevated (helev : t.elevated = !cfg.bracketPriv) :
    (elevateMe cfg t).elevated = true := by
  cases hp : cfg.bracketPriv <;> simp [elevateMe, hp, helev]

lemma faults_nil_of_lowerMe (h : (lowerMe cfg t).faults = []) : t.faults = [] := by
  rw [lowerMe] at h
  split at h
  · exact (symbiFastLower_faults_nil.mp h).1
  · exact h

lemma lowerMe_elevateMe (helev : t.elevated = !cfg.bracketPriv) :
    lowerMe cfg (elevateMe cfg t) = t := by
  cases hp : cfg.bracketPriv with
  | true =>
    have hlow : t.elevated = false := by rw [helev, hp]; rfl
    simp [lowerMe, elevateMe, hp, symElevate_symbiFastLower, ← hlow]
  | false => simp [lowerMe, elevateMe, hp]

/-- A call of the shortcut between `kcut_init` and `kcut_cleanup`. -/
lemma kcutTcpCall_eq_some {ksys : KernelFn} {kcutCnt : ℤ} (helev : t.elevated = !cfg.bracketPriv)
    (h : kcutTcpCall cfg r f ksys kcutCnt t = some t') :
    (t'.faults = [] ↔ t.faults = [] ∧
      (FastPath cfg kcutCnt → cfg.shortcut = true → t.bound f = true)) ∧
    (t'.faults = [] → t' = t) := by
  rw [kcutTcpCall] at h
  split at h
  · rename_i hfast
    simp only [Option.bind_eq_bind, Option.bind_eq_some_iff, Option.some.injEq] at h
    obtain ⟨t₁, ht₁, rfl⟩ := h
    have hcall := fastCall_faults_nil ht₁
    have helev' := elevateMe_elevated helev
    have hsame (hb : cfg.shortcut = true → t.bound f = true) : lowerMe cfg t₁ = t := by
      rw [fastCall_eq_some_of_bound ht₁ helev' (by simpa using hb), lowerMe_elevateMe helev]
    have hiff : (lowerMe cfg t₁).faults = [] ↔
        t.faults = [] ∧ (cfg.shortcut = true → t.bound f = true) := by
      constructor
      · intro hnil
        obtain ⟨hf, -, hb⟩ := hcall.mp (faults_nil_of_lowerMe hnil)
        exact ⟨by simpa using hf, by simpa using hb⟩
      · rintro ⟨hf, hb⟩
        rw [hsame hb]
        exact hf
    refine ⟨by simpa [hfast] using hiff, fun hnil => hsame (hiff.mp hnil).2⟩
  · rename_i hslow
    cases h
    simp [hslow]

/-- A fault that has happened stays on record. -/
lemma faults_nil_of_kcutTcpCall {ksys : KernelFn} {kcutCnt : ℤ}
    (h : kcutTcpCall cfg r f ksys kcutCnt t = some t') (hnil : t'.faults = []) :
    t.faults = [] := by
  rw [kcutTcpCall] at h
  split at h
  · simp only [Option.bind_eq_bind, Option.bind_eq_some_iff, Option.some.injEq] at h
    obtain ⟨t₁, ht₁, rfl⟩ := h
    simpa using ((fastCall_faults_nil ht₁).mp (faults_nil_of_lowerMe hnil)).1
  · cases h
    exact hnil

end Flag

/-- The ifunc that the operation calls is bound. -/
def Op.CallsBound (cfg : Config) (t : Thread) : Op → Prop
  | .read _ =>
      FastPath cfg t.readCnt → cfg.shortcut = true → t.bound .kcutTcpRecvmsg = true
  | .write _ =>
      FastPath cfg t.writeCnt → cfg.shortcut = true → t.bound .kcutTcpSendmsg = true
  | .resolve .. => True

def Op.IsResolve : Op → Prop
  | .resolve .. => True
  | _ => False

section Runs

variable {cfg : Config} {t t' : Thread} {op : Op}

/-- An operation is a call of the shortcut or of the resolver; the counters and the
binding it changes do not show in the flag or the record. -/
lemma Op.perform_cases (h : op.perform cfg t = some t') :
    (∃ r f ksys kcutCnt t₁, kcutTcpCall cfg r f ksys kcutCnt t = some t₁ ∧
      t'.faults = t₁.faults ∧ t'.elevated = t₁.elevated ∧ ¬ op.IsResolve ∧
      (op.CallsBound cfg t ↔
        (FastPath cfg kcutCnt → cfg.shortcut = true → t.bound f = true))) ∨
    (∃ r t₁, dpldResolver cfg r t = some t₁ ∧
      t'.faults = t₁.faults ∧ t'.elevated = t₁.elevated ∧ op.IsResolve ∧ op.CallsBound cfg t) := by
  cases op with
  | read r | write r =>
    simp only [Op.perform, Option.bind_eq_bind, Option.bind_eq_some_iff, Option.some.injEq] at h
    obtain ⟨t₁, ht₁, rfl⟩ := h
    exact Or.inl ⟨r, _, _, _, t₁, ht₁, rfl, rfl, id, Iff.rfl⟩
  | resolve f r =>
    simp only [Op.perform, Option.bind_eq_bind, Option.bind_eq_some_iff, Option.some.injEq] at h
    obtain ⟨t₁, ht₁, rfl⟩ := h
    exact Or.inr ⟨r, t₁, ht₁, rfl, rfl, trivial, trivial⟩

lemma Op.perform_eq_some (helev : t.elevated = !cfg.bracketPriv)
    (h : op.perform cfg t = some t') :
    (t'.faults = [] ↔
      t.faults = [] ∧ op.CallsBound cfg t ∧ (op.IsResolve → cfg.bracketPriv = true)) ∧
    (t'.faults = [] → t'.elevated = !cfg.bracketPriv) := by
  rcases Op.perform_cases h with ⟨r, f, ksys, kcutCnt, t₁, ht₁, hfaults, hel, hop, hbound⟩ |
    ⟨r, t₁, ht₁, hfaults, hel, hop, hbound⟩
  · obtain ⟨hiff, hsame⟩ := kcutTcpCall_eq_some helev ht₁
    rw [hfaults, hel]
    refine ⟨by simpa [hop, hbound] using hiff, fun hnil => ?_⟩
    rw [hsame hnil, helev]
  · obtain ⟨hlow, -, hiff⟩ := dpldResolver_eq_some ht₁
    have hcfg : t.elevated = false ↔ cfg.bracketPriv = true := by
      rw [helev]
      cases cfg.bracketPriv <;> simp
    rw [hfaults, hel]
    refine ⟨by simpa [hop, hbound, hcfg] using hiff, fun hnil => ?_⟩
    have hpriv := hcfg.mp (hiff.mp hnil).2
    rw [hlow, hpriv]
    rfl

lemma Op.faults_nil_of_perform (h : op.perform cfg t = some t') (hnil : t'.faults = []) :
    t.faults = [] := by
  rcases Op.perform_cases h with ⟨r, f, ksys, kcutCnt, t₁, ht₁, hfaults, -⟩ |
    ⟨r, t₁, ht₁, hfaults, -⟩
  · exact faults_nil_of_kcutTcpCall ht₁ (hfaults.symm.trans hnil)
  · exact ((dpldResolver_eq_some ht₁).2.2.mp (hfaults.symm.trans hnil)).1

lemma faults_nil_of_kcutCleanup {e : EvacuateCall} (h : kcutCleanup cfg e t = some t')
    (hnil : t'.faults = []) : t.faults = [] := by
  simp only [kcutCleanup, Option.bind_eq_bind, Option.bind_eq_some_iff, Option.some.injEq] at h
  obtain ⟨t₁, ht₁, rfl⟩ := h
  have hnil₁ : t₁.faults = [] := by
    split at hnil
    · exact hnil
    · exact (symbiFastLower_faults_nil.mp hnil).1
  exact ((evacuation_eq_some ht₁).1.mp hnil₁).1

lemma faults_nil_of_foldlM (ops : List Op) (h : ops.foldlM (Op.perform cfg) t = some t')
    (hnil : t'.faults = []) : t.faults = [] := by
  induction ops generalizing t with
  | nil =>
    cases h
    exact hnil
  | cons op ops ih =>
    simp only [List.foldlM_cons, Option.bind_eq_bind, Option.bind_eq_some_iff] at h
    obtain ⟨t₁, ht₁, h⟩ := h
    exact Op.faults_nil_of_perform ht₁ (ih h)

/-- Every ifunc is bound by the time the run calls it. -/
def RunBound (cfg : Config) : List Op → Thread → Prop
  | [], t => cfg.evacuate = true → t.bound .releaseExclusiveCpu = true
  | op :: ops, t =>
      op.CallsBound cfg t ∧ ∀ t', op.perform cfg t = some t' → RunBound cfg ops t'

/-- Every call is bracketed on its own, or nothing that lowers on exit is entered
while the thread is elevated for good. -/
def LowersOnce (cfg : Config) (ops : List Op) : Prop :=
  cfg.bracketPriv = true ∨ cfg.evacuate = false ∧ ∀ op ∈ ops, ¬ op.IsResolve

/-- From the end of `kcut_init` to the end of the run. -/
lemma run_bracketed_iff (ops : List Op) {e : EvacuateCall} {final : Thread}
    (helev : t.elevated = !cfg.bracketPriv) (h : ops.foldlM (Op.perform cfg) t = some t')
    (hclean : kcutCleanup cfg e t' = some final) :
    (final.faults = [] ∧ final.elevated = false) ↔
      t.faults = [] ∧ RunBound cfg ops t ∧ LowersOnce cfg ops := by
  induction ops generalizing t with
  | nil =>
    cases h
    rw [kcutCleanup_eq_some helev hclean]
    cases he : cfg.evacuate <;> simp [RunBound, LowersOnce, he, and_comm]
  | cons op ops ih =>
    simp only [List.foldlM_cons, Option.bind_eq_bind, Option.bind_eq_some_iff] at h
    obtain ⟨t₁, ht₁, h⟩ := h
    obtain ⟨hiff, hnext⟩ := Op.perform_eq_some helev ht₁
    have hrun : RunBound cfg (op :: ops) t ↔ op.CallsBound cfg t ∧ RunBound cfg ops t₁ := by
      simp [RunBound, ht₁]
    have honce : LowersOnce cfg (op :: ops) ↔
        (op.IsResolve → cfg.bracketPriv = true) ∧ LowersOnce cfg ops := by
      cases hp : cfg.bracketPriv <;> simp [LowersOnce, hp]
      tauto
    rw [hrun, honce]
    constructor
    · rintro ⟨hnil, hlow⟩
      have hnil₁ := faults_nil_of_foldlM ops h (faults_nil_of_kcutCleanup hclean hnil)
      obtain ⟨-, hrest, hlowers⟩ := (ih (hnext hnil₁) h).mp ⟨hnil, hlow⟩
      obtain ⟨hf, hb, hres⟩ := hiff.mp hnil₁
      exact ⟨hf, ⟨hb, hrest⟩, hres, hlowers⟩
    · rintro ⟨hf, ⟨hb, hrest⟩, hres, hlowers⟩
      have hnil₁ := hiff.mpr ⟨hf, hb, hres⟩
      exact (ih (hnext hnil₁) h).mpr ⟨hnil₁, hrest, hlowers⟩

/-- In every build and for every run that comes to its end from a lowered thread:
no lowering while lowered, no kernel function called while lowered, no helper
that returns with another elevation than it was entered with, and a lowered
thread at the end, exactly when every ifunc is bound before it is called and the
build brackets every call, or neither evacuates nor resolves on the way. -/
theorem wholeRun_bracketed_iff (i : InitCall) (ops : List Op) (e : EvacuateCall)
    {final : Thread} (hlow : t.elevated = false) (hclean : t.faults = [])
    (h : wholeRun cfg i ops e t = some final) :
    (final.faults = [] ∧ final.elevated = false) ↔
      InitBound cfg t ∧ RunBound cfg ops (initialised cfg i t) ∧ LowersOnce cfg ops := by
  simp only [wholeRun, Option.bind_eq_bind, Option.bind_eq_some_iff] at h
  obtain ⟨t₁, hinit, t₂, hops, hcleanup⟩ := h
  obtain ⟨hiff, hafter⟩ := kcutInit_eq_some hlow hinit
  constructor
  · rintro ⟨hnil, hend⟩
    have hnil₁ := faults_nil_of_foldlM ops hops (faults_nil_of_kcutCleanup hcleanup hnil)
    have ht₁ := hafter hnil₁
    subst ht₁
    exact ⟨(hiff.mp hnil₁).2, ((run_bracketed_iff ops rfl hops hcleanup).mp ⟨hnil, hend⟩).2⟩
  · rintro ⟨hbound, hrun⟩
    have hnil₁ := hiff.mpr ⟨hclean, hbound⟩
    have ht₁ := hafter hnil₁
    subst ht₁
    exact (run_bracketed_iff ops rfl hops hcleanup).mpr ⟨hnil₁, hrun⟩

end Runs

/-- A thread that starts lowered, with all ifuncs bound or none. -/
def freshThread (bound : Bool) : Thread := ⟨false, [], bound, fun _ => bound, 0, 0, 0⟩

def resolvesFine : Resolution := ⟨true, 0, true, true, 1⟩

def evacuatesFine : EvacuateCall := ⟨true, 0, resolvesFine⟩

def initFine : InitCall := ⟨evacuatesFine, none, resolvesFine⟩

/-- `BRACKET_PRIV` and `EVACUATE`, as in `kcut_bpcs_esrv`. -/
def bracketBuild : Config := ⟨true, false, true, true, false⟩

/-- Only `EVACUATE`, as in `kcut_cpcs_esrv`. -/
def evacuateBuild : Config := ⟨false, false, true, true, false⟩

/-- With every ifunc bound, the bracketing build gets through reads, writes and
resolutions. -/
theorem wholeRun_bracketBuild :
    ∃ final, wholeRun bracketBuild initFine [.read resolvesFine,
        .resolve .kcutTcpSendmsg resolvesFine, .write resolvesFine] evacuatesFine
        (freshThread true) = some final ∧ final.faults = [] ∧ final.elevated = false := by
  let final : Thread :=
    ⟨false, [], true, Function.update (fun _ => true) .kcutTcpSendmsg true, 20, 0, 0⟩
  have h : wholeRun bracketBuild initFine [.read resolvesFine,
      .resolve .kcutTcpSendmsg resolvesFine, .write resolvesFine] evacuatesFine
      (freshThread true) = some final := rfl
  refine ⟨final, h, (wholeRun_bracketed_iff initFine _ evacuatesFine rfl rfl h).mpr ?_⟩
  refine ⟨⟨fun _ => rfl, rfl⟩, ⟨fun _ _ => rfl, fun t ht => ?_⟩, Or.inl rfl⟩
  cases ht
  refine ⟨trivial, fun t ht => ?_⟩
  cases ht
  refine ⟨fun _ _ => rfl, fun t ht => ?_⟩
  cases ht
  exact fun _ => rfl

/-- Without `BRACKET_PRIV` the evacuation in `kcut_cleanup` lowers the elevated
thread, and `kcut_cleanup` lowers it again. With the ifuncs unbound, even the
bracketing build calls `current_pid` lowered. -/
theorem wholeRun_not_bracketed :
    (∃ final, wholeRun evacuateBuild initFine [] evacuatesFine (freshThread true) = some final ∧
      final.faults = [.loweredTwice, .elevationChanged]) ∧
    ∃ final, wholeRun bracketBuild initFine [] evacuatesFine (freshThread false) = some final ∧
      .calledLowered .currentPid ∈ final.faults := by
  refine ⟨⟨_, rfl, rfl⟩, ⟨_, rfl, ?_⟩⟩
  decide

end SymbiOS.Kcut
