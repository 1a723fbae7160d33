import Mathlib.Algebra.Ring.Int.Defs
import Mathlib.Algebra.Ring.Nat
import Mathlib.Data.Int.Order.Basic
import Mathlib.Tactic.Common

/-!
# Reads and writes through the TCP shortcut

`kcut_tcp_read` and `kcut_tcp_write` either call into the kernel's TCP code
directly or make the real system call. `tcp_recvmsg` and `tcp_sendmsg` belong to
the kernel: they are parameters, with what their callers rely on as fields.
Whether the thread is elevated when it calls them is not this module's subject.
-/
namespace SymbiOS.Kcut

def EBADF : ℤ := 9

def MSG_DONTWAIT : BitVec 32 := 0x40

/-- The preprocessor options that select the code of the header. -/
structure Config where
  bracketPriv : Bool
  bracketStack : Bool
  evacuate : Bool
  shortcut : Bool
  noAppGotEntries : Bool
  deriving Repr, DecidableEq

/-- What the kernel's message functions return: a byte count or a negative
errno, in an `int`. -/
structure CountOrErrno where
  val : ℤ
  neg_maxErrno_le : -4095 ≤ val
  lt_two_pow : val < 2 ^ 31

/-- The result of a kernel call, and whether the caller was put to sleep. -/
structure Outcome where
  rc : CountOrErrno
  slept : Bool

/-- C's conversion to `int`. -/
def toInt (x : ℤ) : ℤ := x.bmod (2 ^ 32)

@[simp] theorem toInt_val (rc : CountOrErrno) : toInt rc.val = rc.val := by
  have hlo := rc.neg_maxErrno_le
  have hhi := rc.lt_two_pow
  exact Int.bmod_eq_of_le (by omega) (by omega)

structure Iovec where
  base : BitVec 64
  len : BitVec 64
  deriving Repr, DecidableEq

/-- The part of a message header that steers a call: its flags, and the fields
neither shortcut sets. -/
structure Msghdr (R : Type) where
  flags : BitVec 32
  other : R
  deriving Repr, DecidableEq

namespace Msghdr

variable {R : Type}

def dontwait (msg : Msghdr R) : Bool := msg.flags &&& MSG_DONTWAIT != 0

/-- The header without its request not to wait. -/
def plain (msg : Msghdr R) : Msghdr R := { msg with flags := msg.flags &&& ~~~MSG_DONTWAIT }

end Msghdr

/-- A TCP message function on a socket in state `σ`. A call that finds what it
needs returns at once; one that does not returns what it has under
`MSG_DONTWAIT`, and sleeps without it. -/
structure TcpCall (σ R : Type) where
  waits : σ → Iovec → Msghdr R → Bool
  atOnce : σ → Iovec → Msghdr R → CountOrErrno
  afterSleep : σ → Iovec → Msghdr R → CountOrErrno
  atOnce_le : ∀ s iov msg, (atOnce s iov msg).val ≤ iov.len.toNat
  afterSleep_le : ∀ s iov msg, (afterSleep s iov msg).val ≤ iov.len.toNat

variable {σ R : Type}

namespace TcpCall

def run (call : TcpCall σ R) (s : σ) (iov : Iovec) (msg : Msghdr R) : Outcome :=
  if call.waits s iov msg.plain && !msg.dontwait then ⟨call.afterSleep s iov msg.plain, true⟩
  else ⟨call.atOnce s iov msg.plain, false⟩

theorem run_rc_le (call : TcpCall σ R) (s : σ) (iov : Iovec) (msg : Msghdr R) :
    (call.run s iov msg).rc.val ≤ iov.len.toNat := by
  rw [run]
  split
  · exact call.afterSleep_le s iov msg.plain
  · exact call.atOnce_le s iov msg.plain

theorem run_slept (call : TcpCall σ R) (s : σ) (iov : Iovec) (msg : Msghdr R) :
    (call.run s iov msg).slept = (call.waits s iov msg.plain && !msg.dontwait) := by
  by_cases h : (call.waits s iov msg.plain && !msg.dontwait) = true
  · rw [run, if_pos h, h]
  · rw [run, if_neg h, eq_false_of_ne_true h]

end TcpCall

/-- An open socket: its state and the `O_NONBLOCK` bit of its file. -/
structure File (σ : Type) where
  sock : σ
  nonblock : Bool

/-- The kernel seen by one call. `tcp_recvmsg` takes its flags as an argument
and only writes into the header it is given; `tcp_sendmsg` reads its flags and
the rest from the header. -/
structure Kernel (σ R : Type) where
  file : ℤ → Option (File σ)
  tcpRecvmsg : TcpCall σ Unit
  tcpSendmsg : TcpCall σ R
  /-- The other header fields as the `write` path zeroes them. -/
  zeroed : R

/-- The lookup and call that `kcut_tcp_recvmsg` and `kcut_tcp_sendmsg` share. A
descriptor that is not open leaves `ret` at its initial 0. -/
def kcutMsg (file : ℤ → Option (File σ)) (call : TcpCall σ R) (msg : Msghdr R) (fd : ℤ)
    (iov : Iovec) : Outcome :=
  match file fd with
  | none => ⟨⟨0, by omega, by omega⟩, false⟩
  | some f => call.run f.sock iov msg

/-- `flags` is 0, whatever the file's flags are. -/
def kcutTcpRecvmsg (k : Kernel σ R) (fd : ℤ) (iov : Iovec) : Outcome :=
  kcutMsg k.file k.tcpRecvmsg ⟨0, ()⟩ fd iov

/-- Only the iterator and the `kiocb` of `msg` are set: the flags and the other
fields are those of `stack`, the memory that `msg` happens to occupy. -/
def kcutTcpSendmsg (k : Kernel σ R) (stack : Msghdr R) (fd : ℤ) (iov : Iovec) : Outcome :=
  kcutMsg k.file k.tcpSendmsg stack fd iov

/-- The header that `read` and `write` build for a file. -/
def syscallMsg (other : R) (f : File σ) : Msghdr R :=
  ⟨if f.nonblock then MSG_DONTWAIT else 0, other⟩

/-- `ksys_read` and `ksys_write` on a socket. -/
def ksysMsg (file : ℤ → Option (File σ)) (call : TcpCall σ R) (other : R) (fd : ℤ)
    (iov : Iovec) : Outcome :=
  match file fd with
  | none => ⟨⟨-EBADF, by decide, by decide⟩, false⟩
  | some f => call.run f.sock iov (syscallMsg other f)

def ksysRead (k : Kernel σ R) (fd : ℤ) (iov : Iovec) : Outcome :=
  ksysMsg k.file k.tcpRecvmsg () fd iov

def ksysWrite (k : Kernel σ R) (fd : ℤ) (iov : Iovec) : Outcome :=
  ksysMsg k.file k.tcpSendmsg k.zeroed fd iov

/-- What the caller of `read` or `write` observes. -/
structure Result where
  ret : ℤ
  errno : ℤ
  slept : Bool
  deriving Repr, DecidableEq

/-- The system call convention: an error becomes -1 and sets `errno`. -/
def syscall (o : Outcome) (errno : ℤ) : Result :=
  if o.rc.val < 0 then ⟨-1, -o.rc.val, o.slept⟩ else ⟨o.rc.val, errno, o.slept⟩

def read (k : Kernel σ R) (fd : ℤ) (iov : Iovec) (errno : ℤ) : Result :=
  syscall (ksysRead k fd iov) errno

def write (k : Kernel σ R) (fd : ℤ) (iov : Iovec) (errno : ℤ) : Result :=
  syscall (ksysWrite k fd iov) errno

/-- The body that `kcut_tcp_read` and `kcut_tcp_write` share, with the kernel
call of the fast path and the one behind the system call. The counter exists
only without `BRACKET_PRIV`; what the fast path returns is passed through. -/
def kcutTcp (cfg : Config) (threshold : ℤ) (fast real : Outcome) (kcutCnt errno : ℤ) :
    Result × ℤ :=
  -- with `BRACKET_STACK` the `int` passes through the thunk's `void *`
  let ret := if cfg.bracketStack then toInt (toInt fast.rc.val) else toInt fast.rc.val
  if cfg.bracketPriv then (⟨ret, errno, fast.slept⟩, kcutCnt)
  else if kcutCnt ≠ 0 then (⟨ret, errno, fast.slept⟩, kcutCnt - 1)
  else
    let r := syscall real errno
    (⟨toInt r.ret, r.errno, r.slept⟩, threshold)

def kcutTcpRead (cfg : Config) (threshold : ℤ) (k : Kernel σ R) (fd : ℤ) (iov : Iovec)
    (kcutCnt errno : ℤ) : Result × ℤ :=
  kcutTcp cfg threshold (if cfg.shortcut then kcutTcpRecvmsg k fd iov else ksysRead k fd iov)
    (ksysRead k fd iov) kcutCnt errno

def kcutTcpWrite (cfg : Config) (threshold : ℤ) (k : Kernel σ R) (stack : Msghdr R) (fd : ℤ)
    (iov : Iovec) (kcutCnt errno : ℤ) : Result × ℤ :=
  kcutTcp cfg threshold
    (if cfg.shortcut then kcutTcpSendmsg k stack fd iov else ksysWrite k fd iov)
    (ksysWrite k fd iov) kcutCnt errno

/-- The branch taken is the fast one. -/
def FastPath (cfg : Config) (kcutCnt : ℤ) : Prop := cfg.bracketPriv = true ∨ kcutCnt ≠ 0

instance (cfg : Config) (kcutCnt : ℤ) : Decidable (FastPath cfg kcutCnt) :=
  inferInstanceAs (Decidable (_ ∨ _))

lemma toInt_syscall_ret (o : Outcome) (errno : ℤ) :
    toInt (syscall o errno).ret = (syscall o errno).ret := by
  by_cases h : o.rc.val < 0
  · rw [syscall, if_pos h]
    rfl
  · rw [syscall, if_neg h]
    exact toInt_val o.rc

lemma kcutTcp_fst (cfg : Config) (threshold : ℤ) (fast real : Outcome) (kcutCnt errno : ℤ) :
    (kcutTcp cfg threshold fast real kcutCnt errno).1 =
      if FastPath cfg kcutCnt then ⟨fast.rc.val, errno, fast.slept⟩ else syscall real errno := by
  have hret : (if cfg.bracketStack = true then toInt (toInt fast.rc.val)
      else toInt fast.rc.val) = fast.rc.val := by simp
  simp only [kcutTcp, hret, FastPath, toInt_syscall_ret]
  by_cases hp : cfg.bracketPriv = true
  · simp [hp]
  · by_cases hc : kcutCnt = 0
    · simp [hp, hc]
    · simp [hp, hc]

lemma kcutMsg_rc_le (file : ℤ → Option (File σ)) (call : TcpCall σ R) (msg : Msghdr R) (fd : ℤ)
    (iov : Iovec) : (kcutMsg file call msg fd iov).rc.val ≤ iov.len.toNat := by
  cases h : file fd with
  | none => simp [kcutMsg, h]
  | some f => simpa [kcutMsg, h] using call.run_rc_le f.sock iov msg

lemma ksysMsg_rc_le (file : ℤ → Option (File σ)) (call : TcpCall σ R) (other : R) (fd : ℤ)
    (iov : Iovec) : (ksysMsg file call other fd iov).rc.val ≤ iov.len.toNat := by
  cases h : file fd with
  | none => simp [ksysMsg, h, EBADF]
  | some f => simpa [ksysMsg, h] using call.run_rc_le f.sock iov (syscallMsg other f)

/-- Either function that the fast path may call. -/
lemma fastMsg_rc_le (shortcut : Bool) (file : ℤ → Option (File σ)) (call : TcpCall σ R)
    (msg : Msghdr R) (other : R) (fd : ℤ) (iov : Iovec) :
    (if shortcut then kcutMsg file call msg fd iov
      else ksysMsg file call other fd iov).rc.val ≤ iov.len.toNat := by
  split
  · exact kcutMsg_rc_le file call msg fd iov
  · exact ksysMsg_rc_le file call other fd iov

lemma kcutTcp_ret_mem (cfg : Config) (threshold : ℤ) {fast real : Outcome} (kcutCnt errno : ℤ)
    {n : ℕ} (hfast : fast.rc.val ≤ n) (hreal : real.rc.val ≤ n) :
    -4095 ≤ (kcutTcp cfg threshold fast real kcutCnt errno).1.ret ∧
      (kcutTcp cfg threshold fast real kcutCnt errno).1.ret ≤ n := by
  have hf := fast.rc.neg_maxErrno_le
  have hr := real.rc.neg_maxErrno_le
  rw [kcutTcp_fst]
  split
  · exact ⟨hf, hfast⟩
  · rw [syscall]
    split
    · constructor <;> simp only <;> omega
    · exact ⟨hr, hreal⟩

/-- Every result is a count up to the requested size or lies in the range of the
raw errors. -/
lemma kcutTcpRead_ret_mem (cfg : Config) (threshold : ℤ) (k : Kernel σ R) (fd : ℤ) (iov : Iovec)
    (kcutCnt errno : ℤ) :
    -4095 ≤ (kcutTcpRead cfg threshold k fd iov kcutCnt errno).1.ret ∧
      (kcutTcpRead cfg threshold k fd iov kcutCnt errno).1.ret ≤ iov.len.toNat := by
  exact kcutTcp_ret_mem cfg threshold kcutCnt errno
    (fastMsg_rc_le cfg.shortcut k.file _ _ _ fd iov) (ksysMsg_rc_le _ _ _ fd iov)

lemma kcutTcpWrite_ret_mem (cfg : Config) (threshold : ℤ) (k : Kernel σ R) (stack : Msghdr R)
    (fd : ℤ) (iov : Iovec) (kcutCnt errno : ℤ) :
    -4095 ≤ (kcutTcpWrite cfg threshold k stack fd iov kcutCnt errno).1.ret ∧
      (kcutTcpWrite cfg threshold k stack fd iov kcutCnt errno).1.ret ≤ iov.len.toNat := by
  exact kcutTcp_ret_mem cfg threshold kcutCnt errno
    (fastMsg_rc_le cfg.shortcut k.file _ _ _ fd iov) (ksysMsg_rc_le _ _ _ fd iov)

/-- What a caller can tell apart: the return value, the error when it is -1, and
whether it slept. -/
def SameCall (r r' : Result) : Prop :=
  r.ret = r'.ret ∧ (r'.ret = -1 → r.errno = r'.errno) ∧ r.slept = r'.slept

instance (r r' : Result) : Decidable (SameCall r r') := inferInstanceAs (Decidable (_ ∧ _ ∧ _))

/-- For a given previous `errno` an error can agree by accident. For all of
them, the fast path agrees exactly on counts. -/
lemma kcutTcp_same_iff (cfg : Config) (threshold : ℤ) (fast real : Outcome) :
    (∀ kcutCnt errno, SameCall (kcutTcp cfg threshold fast real kcutCnt errno).1
      (syscall real errno)) ↔
      fast.rc.val = real.rc.val ∧ fast.slept = real.slept ∧ 0 ≤ real.rc.val := by
  constructor
  · intro h
    have hfast : FastPath cfg 1 := Or.inr Int.one_ne_zero
    -- no system call leaves 0 behind in `errno`
    have h1 := h 1 0
    rw [kcutTcp_fst, if_pos hfast] at h1
    by_cases hneg : real.rc.val < 0
    · rw [syscall, if_pos hneg] at h1
      have herrno : 0 = -real.rc.val := h1.2.1 rfl
      omega
    · rw [syscall, if_neg hneg] at h1
      exact ⟨h1.1, h1.2.2, not_lt.mp hneg⟩
  · rintro ⟨hrc, hslept, hpos⟩ kcutCnt errno
    rw [kcutTcp_fst, syscall, if_neg (not_lt.mpr hpos)]
    split
    · exact ⟨hrc, fun _ => rfl, hslept⟩
    · exact ⟨rfl, fun _ => rfl, rfl⟩

/-- The descriptor is open, a call that has to wait is made on a blocking file
(or through `ksys_read`), and `tcp_recvmsg` has bytes or the end of the stream
to report. -/
def ReadsAlike (cfg : Config) (k : Kernel σ R) (fd : ℤ) (iov : Iovec) : Prop :=
  ∃ f, k.file fd = some f ∧
    (cfg.shortcut = true → k.tcpRecvmsg.waits f.sock iov ⟨0, ()⟩ = true → f.nonblock = false) ∧
    0 ≤ (k.tcpRecvmsg.run f.sock iov (syscallMsg () f)).rc.val

/-- The header left on the stack has the fields of `write`'s header, and asks not
to wait as `write` would, should the call have to wait. -/
def HeaderAlike (k : Kernel σ R) (stack : Msghdr R) (f : File σ) (iov : Iovec) : Prop :=
  stack.plain = ⟨0, k.zeroed⟩ ∧
    (k.tcpSendmsg.waits f.sock iov ⟨0, k.zeroed⟩ = true → stack.dontwait = f.nonblock)

/-- The descriptor is open, the header left on the stack is like `write`'s (or the
call goes through `ksys_write`), and `tcp_sendmsg` accepts bytes. -/
def WritesAlike (cfg : Config) (k : Kernel σ R) (stack : Msghdr R) (fd : ℤ) (iov : Iovec) : Prop :=
  ∃ f, k.file fd = some f ∧ (cfg.shortcut = true → HeaderAlike k stack f iov) ∧
    0 ≤ (k.tcpSendmsg.run f.sock iov (syscallMsg k.zeroed f)).rc.val

@[simp] theorem syscallMsg_plain (other : R) (f : File σ) :
    (syscallMsg other f).plain = ⟨0, other⟩ := by
  cases h : f.nonblock <;> simp [syscallMsg, h, Msghdr.plain]

@[simp] theorem syscallMsg_dontwait (other : R) (f : File σ) :
    (syscallMsg other f).dontwait = f.nonblock := by
  cases h : f.nonblock <;> simp [syscallMsg, h, Msghdr.dontwait, MSG_DONTWAIT]

/-- Asking not to wait makes a difference exactly to a call that would wait. -/
lemma run_zero_eq_iff (call : TcpCall σ R) (other : R) (f : File σ) (iov : Iovec) :
    (call.run f.sock iov ⟨0, other⟩).rc.val = (call.run f.sock iov (syscallMsg other f)).rc.val ∧
      (call.run f.sock iov ⟨0, other⟩).slept = (call.run f.sock iov (syscallMsg other f)).slept ↔
      (call.waits f.sock iov ⟨0, other⟩ = true → f.nonblock = false) := by
  have hplain : (⟨0, other⟩ : Msghdr R).plain = ⟨0, other⟩ := by simp [Msghdr.plain]
  have hwait : (⟨0, other⟩ : Msghdr R).dontwait = false := by simp [Msghdr.dontwait]
  simp only [TcpCall.run, hplain, hwait, syscallMsg_plain, syscallMsg_dontwait]
  cases call.waits f.sock iov ⟨0, other⟩ <;> cases f.nonblock <;> simp

/-- A descriptor that is not open makes the fast path report the end of the
stream, or a raw error. -/
lemma not_sameCount_of_closed (fast : Outcome) {real : Outcome} (h : real.rc.val = -EBADF) :
    ¬ (fast.rc.val = real.rc.val ∧ fast.slept = real.slept ∧ 0 ≤ real.rc.val) := by
  rintro ⟨-, -, hpos⟩
  rw [h] at hpos
  exact absurd hpos (by decide)

lemma read_same_iff (cfg : Config) (threshold : ℤ) (k : Kernel σ R) (fd : ℤ) (iov : Iovec) :
    (∀ kcutCnt errno, SameCall (kcutTcpRead cfg threshold k fd iov kcutCnt errno).1
      (read k fd iov errno)) ↔ ReadsAlike cfg k fd iov := by
  simp only [kcutTcpRead, read]
  rw [kcutTcp_same_iff, ReadsAlike]
  cases hf : k.file fd with
  | none =>
    refine iff_of_false (not_sameCount_of_closed _ ?_) (by simp)
    simp [ksysRead, ksysMsg, hf]
  | some f =>
    cases hs : cfg.shortcut
    · simp [ksysRead, ksysMsg, hf]
    · have hwait := run_zero_eq_iff k.tcpRecvmsg () f iov
      simp only [kcutTcpRecvmsg, kcutMsg, ksysRead, ksysMsg, hf, if_true, forall_const,
        Option.some.injEq, exists_eq_left']
      rw [← and_assoc, hwait]

lemma write_same_iff (cfg : Config) (threshold : ℤ) (k : Kernel σ R) (stack : Msghdr R) (fd : ℤ)
    (iov : Iovec) :
    (∀ kcutCnt errno, SameCall (kcutTcpWrite cfg threshold k stack fd iov kcutCnt errno).1
      (write k fd iov errno)) ↔
      ∃ f, k.file fd = some f ∧
        (cfg.shortcut = true →
          (k.tcpSendmsg.run f.sock iov stack).rc.val =
            (k.tcpSendmsg.run f.sock iov (syscallMsg k.zeroed f)).rc.val ∧
          (k.tcpSendmsg.run f.sock iov stack).slept =
            (k.tcpSendmsg.run f.sock iov (syscallMsg k.zeroed f)).slept) ∧
        0 ≤ (k.tcpSendmsg.run f.sock iov (syscallMsg k.zeroed f)).rc.val := by
  simp only [kcutTcpWrite, write]
  rw [kcutTcp_same_iff]
  cases hf : k.file fd with
  | none =>
    refine iff_of_false (not_sameCount_of_closed _ ?_) (by simp)
    simp [ksysWrite, ksysMsg, hf]
  | some f =>
    cases hs : cfg.shortcut
    · simp [ksysWrite, ksysMsg, hf]
    · simp only [kcutTcpSendmsg, kcutMsg, ksysWrite, ksysMsg, hf, if_true, forall_const,
        Option.some.injEq, exists_eq_left', and_assoc]

/-- A message function sees no more of a header than its fields and, when it
would wait, the request not to. -/
lemma run_eq_of_headerAlike {k : Kernel σ R} {stack : Msghdr R} {f : File σ} {iov : Iovec}
    (h : HeaderAlike k stack f iov) :
    k.tcpSendmsg.run f.sock iov stack =
      k.tcpSendmsg.run f.sock iov (syscallMsg k.zeroed f) := by
  obtain ⟨hplain, hwait⟩ := h
  simp only [TcpCall.run, hplain, syscallMsg_plain, syscallMsg_dontwait]
  by_cases hw : k.tcpSendmsg.waits f.sock iov ⟨0, k.zeroed⟩ = true
  · rw [hwait hw]
  · rw [eq_false_of_ne_true hw]
    rfl

lemma write_same_of_writesAlike {cfg : Config} {k : Kernel σ R} {stack : Msghdr R} {fd : ℤ}
    {iov : Iovec} (threshold : ℤ) (h : WritesAlike cfg k stack fd iov) (kcutCnt errno : ℤ) :
    SameCall (kcutTcpWrite cfg threshold k stack fd iov kcutCnt errno).1
      (write k fd iov errno) := by
  obtain ⟨f, hf, hheader, hpos⟩ := h
  refine (write_same_iff cfg threshold k stack fd iov).mpr ⟨f, hf, ?_, hpos⟩ kcutCnt errno
  intro hs
  rw [run_eq_of_headerAlike (hheader hs)]
  exact ⟨rfl, rfl⟩

open Classical in
/-- A `tcp_sendmsg` that accepts nothing, and fails on every header but the one
whose fields are `other`. -/
noncomputable def pickySend (waits : σ → Iovec → Msghdr R → Bool) (other : R) : TcpCall σ R where
  waits := waits
  atOnce _ _ msg := if msg = ⟨0, other⟩ then ⟨0, by omega, by omega⟩ else ⟨-1, by omega, by omega⟩
  afterSleep _ _ msg :=
    if msg = ⟨0, other⟩ then ⟨0, by omega, by omega⟩ else ⟨-1, by omega, by omega⟩
  atOnce_le _ iov msg := by split <;> simp
  afterSleep_le _ iov msg := by split <;> simp

lemma pickySend_run_rc (waits : σ → Iovec → Msghdr R → Bool) (other : R) (s : σ) (iov : Iovec)
    (msg : Msghdr R) :
    ((pickySend waits other).run s iov msg).rc.val = 0 ↔ msg.plain = ⟨0, other⟩ := by
  simp only [TcpCall.run, pickySend]
  by_cases h : msg.plain = ⟨0, other⟩
  · simp only [h, if_true]
    split <;> simp
  · simp only [h, if_false]
    split <;> simp

/-- No header but these will do for every `tcp_sendmsg`: one that tells headers
apart reports a different one, and a sleep shows whether it was asked not to
wait. -/
lemma headerAlike_of_forall_send {cfg : Config} (threshold : ℤ) {k : Kernel σ R}
    {stack : Msghdr R} {fd : ℤ} {iov : Iovec} {f : File σ} (hf : k.file fd = some f)
    (hs : cfg.shortcut = true)
    (h : ∀ send : TcpCall σ R, send.waits = k.tcpSendmsg.waits →
      0 ≤ (ksysWrite { k with tcpSendmsg := send } fd iov).rc.val →
      ∀ kcutCnt errno, SameCall
        (kcutTcpWrite cfg threshold { k with tcpSendmsg := send } stack fd iov kcutCnt errno).1
        (write { k with tcpSendmsg := send } fd iov errno)) :
    HeaderAlike k stack f iov := by
  have hzero : ((pickySend k.tcpSendmsg.waits k.zeroed).run f.sock iov
      (syscallMsg k.zeroed f)).rc.val = 0 := by
    rw [pickySend_run_rc, syscallMsg_plain]
  have hsame := h (pickySend k.tcpSendmsg.waits k.zeroed) rfl
    (by simp only [ksysWrite, ksysMsg, hf]; exact le_of_eq hzero.symm)
  rw [write_same_iff] at hsame
  obtain ⟨f', hf', hrun, -⟩ := hsame
  obtain rfl : f = f' := by simpa [hf] using hf'
  have hplain : stack.plain = ⟨0, k.zeroed⟩ :=
    (pickySend_run_rc _ _ f.sock iov stack).mp ((hrun hs).1.trans hzero)
  have hslept := (hrun hs).2
  rw [TcpCall.run_slept, TcpCall.run_slept, hplain, syscallMsg_plain, syscallMsg_dontwait] at hslept
  constructor
  · exact hplain
  · intro hw
    have hwaits : (pickySend k.tcpSendmsg.waits k.zeroed).waits f.sock iov ⟨0, k.zeroed⟩ = true :=
      hw
    rw [hwaits, Bool.true_and, Bool.true_and] at hslept
    exact Bool.not_inj hslept

/-- For every build, descriptor, buffer, kernel state and stack content, whatever
the counter and the previous `errno` are: a read returns what the system call
returns, with its `errno` and its blocking behaviour, exactly under its condition.
A write does under its condition. It never does on an error, and the condition
on the header is the weakest that serves every `tcp_sendmsg` that waits where this
one waits. -/
theorem kcutTcp_compatible (cfg : Config) (threshold : ℤ) (k : Kernel σ R)
    (stack : Msghdr R) (fd : ℤ) (iov : Iovec) :
    ((∀ kcutCnt errno, SameCall (kcutTcpRead cfg threshold k fd iov kcutCnt errno).1
      (read k fd iov errno)) ↔ ReadsAlike cfg k fd iov) ∧
    (WritesAlike cfg k stack fd iov →
      ∀ kcutCnt errno, SameCall (kcutTcpWrite cfg threshold k stack fd iov kcutCnt errno).1
        (write k fd iov errno)) ∧
    ((∀ kcutCnt errno, SameCall (kcutTcpWrite cfg threshold k stack fd iov kcutCnt errno).1
      (write k fd iov errno)) →
        ∃ f, k.file fd = some f ∧
          0 ≤ (k.tcpSendmsg.run f.sock iov (syscallMsg k.zeroed f)).rc.val) ∧
    (∀ f, k.file fd = some f → cfg.shortcut = true →
      (∀ send : TcpCall σ R, send.waits = k.tcpSendmsg.waits →
        0 ≤ (ksysWrite { k with tcpSendmsg := send } fd iov).rc.val →
        ∀ kcutCnt errno, SameCall
          (kcutTcpWrite cfg threshold { k with tcpSendmsg := send } stack fd iov kcutCnt errno).1
          (write { k with tcpSendmsg := send } fd iov errno)) →
      HeaderAlike k stack f iov) := by
  constructor
  · exact read_same_iff cfg threshold k fd iov
  constructor
  · exact write_same_of_writesAlike threshold
  constructor
  · intro h
    obtain ⟨f, hf, -, hpos⟩ := (write_same_iff cfg threshold k stack fd iov).mp h
    exact ⟨f, hf, hpos⟩
  · intro f hf hs h
    exact headerAlike_of_forall_send threshold hf hs h

inductive Demo where
  | empty
  | reset
  deriving DecidableEq

/-- An empty socket makes a reader wait for the end of the stream; a reset one
reports -ECONNRESET. -/
def demoCall (R : Type) : TcpCall Demo R where
  waits s _ _ := decide (s = .empty)
  atOnce s _ _ := if s = .empty then ⟨-11, by omega, by omega⟩ else ⟨-104, by omega, by omega⟩
  afterSleep _ _ _ := ⟨0, by omega, by omega⟩
  atOnce_le s iov _ := by split <;> simp
  afterSleep_le _ iov _ := by simp

/-- Descriptor 3 is a non-blocking empty socket and 4 a reset one. -/
def demoKernel : Kernel Demo Unit where
  file fd := if fd = 3 then some ⟨.empty, true⟩ else if fd = 4 then some ⟨.reset, true⟩ else none
  tcpRecvmsg := demoCall Unit
  tcpSendmsg := demoCall Unit
  zeroed := ()

/-- The build of the echo server without options. -/
def plainBuild : Config := ⟨false, false, false, true, false⟩

/-- With one fast call left: the reader of an empty non-blocking socket is put
to sleep, the error of a reset one comes back raw with `errno` untouched, and
the descriptor 5, which is not open, reads as the end of the stream. -/
theorem kcutTcpRead_not_compatible :
    (kcutTcpRead plainBuild 20 demoKernel 3 ⟨0, 4096⟩ 1 0).1 = ⟨0, 0, true⟩ ∧
      read demoKernel 3 ⟨0, 4096⟩ 0 = ⟨-1, 11, false⟩ ∧
    (kcutTcpRead plainBuild 20 demoKernel 4 ⟨0, 4096⟩ 1 0).1 = ⟨-104, 0, false⟩ ∧
      (kcutTcpWrite plainBuild 20 demoKernel ⟨0, ()⟩ 4 ⟨0, 4096⟩ 1 0).1 = ⟨-104, 0, false⟩ ∧
      read demoKernel 4 ⟨0, 4096⟩ 0 = ⟨-1, 104, false⟩ ∧
      write demoKernel 4 ⟨0, 4096⟩ 0 = ⟨-1, 104, false⟩ ∧
    (kcutTcpRead plainBuild 20 demoKernel 5 ⟨0, 4096⟩ 1 0).1 = ⟨0, 0, false⟩ ∧
      read demoKernel 5 ⟨0, 4096⟩ 0 = ⟨-1, 9, false⟩ ∧
    ∀ fd ∈ [3, 4, 5], ¬ SameCall (kcutTcpRead plainBuild 20 demoKernel fd ⟨0, 4096⟩ 1 0).1
      (read demoKernel fd ⟨0, 4096⟩ 0) := by
  decide

end SymbiOS.Kcut
