import SymbiOS.GuardedRun
import SymbiOS.KcutTcp
import Mathlib.Data.List.Basic

/-!
# The echo server's connection loop

One connection of `esrv.c` built with `KCUT_TCP`: the drain loop that reads into
`buf` and the inner loop that writes the bytes back. The buffer is memory
addressed relative to `buf`, so that an offset below it is an address too.
-/
namespace SymbiOS.EchoServer
open SymbiOS.GuardedRun

def EAGAIN : ℤ := 11

def BUF_SIZE : ℤ := 4096

/-- Waiting in `epoll_wait`, at the read of the drain loop, at the write of the
inner loop, or closed. -/
inductive Pc where
  | polling
  | reading
  | writing
  | closed
  deriving Repr, DecidableEq

/-- One connection. `nr` and `sent` are the locals of the last echo loop;
`received` and `written` record the bytes that its reads returned and that its
writes took. -/
structure Conn (B : Type) where
  pc : Pc
  buf : ℤ → B
  nr : ℤ
  sent : ℤ
  received : List B
  written : List B

/-- What the connection sees next: an event of `epoll_wait`, with what the other
connections have left in the shared buffer, or the return of a call. -/
inductive Event (B : Type) where
  | epollin (buf : ℤ → B)
  | hangup
  | readReturns (nr errno : ℤ) (data : List B)
  | writeReturns (nw errno : ℤ)

variable {B : Type}

/-- The bytes at the addresses from `a` up to `b`. -/
def slice (buf : ℤ → B) (a b : ℤ) : List B :=
  (List.range (b - a).toNat).map fun i : ℕ => buf (a + i)

/-- The kernel puts `data` at the start of the buffer. -/
def store (buf : ℤ → B) (data : List B) : ℤ → B :=
  fun i => if 0 ≤ i then data.getD i.toNat (buf i) else buf i

@[simp] theorem length_slice (buf : ℤ → B) (a b : ℤ) : (slice buf a b).length = (b - a).toNat := by
  simp [slice]

lemma slice_append (buf : ℤ → B) {a b c : ℤ} (hab : a ≤ b) (hbc : b ≤ c) :
    slice buf a b ++ slice buf b c = slice buf a c := by
  have hlen : (c - a).toNat = (b - a).toNat + (c - b).toNat := by omega
  rw [slice, slice, slice, hlen, List.range_add, List.map_append, List.map_map]
  congr 1
  refine List.map_congr_left fun i _ => ?_
  simp only [Function.comp_apply]
  congr 1
  omega

lemma slice_store (buf : ℤ → B) (data : List B) :
    slice (store buf data) 0 data.length = data := by
  refine List.ext_getElem (by simp) fun i _ h => ?_
  simp [slice, store, h]

namespace Conn

/-- One event. The echo loop runs while `sent < nr`; what `kcut_tcp_write`
returns is added to `sent` unless it is -1. -/
def step (s : Conn B) : Event B → Conn B
  | .epollin buf => if s.pc = .polling then { s with pc := .reading, buf := buf } else s
  | .hangup => if s.pc = .polling then { s with pc := .closed } else s
  | .readReturns nr errno data =>
      if s.pc ≠ .reading then s
      else if nr = -1 then { s with pc := if errno = EAGAIN then .polling else .closed }
      else if nr = 0 then { s with pc := .closed }
      else
        { s with
          pc := if 0 < nr then .writing else .reading
          buf := store s.buf data
          nr := nr
          sent := 0
          received := s.received ++ data }
  | .writeReturns nw errno =>
      if s.pc ≠ .writing then s
      else if nw = -1 then { s with pc := if errno = EAGAIN then .writing else .closed }
      else
        { s with
          pc := if s.sent + nw < s.nr then .writing else .reading
          sent := s.sent + nw
          written := s.written ++ slice s.buf s.sent (s.sent + nw) }

/-- A new connection. -/
def start (buf : ℤ → B) : Conn B := ⟨.polling, buf, 0, 0, [], []⟩

/-- The calls return counts up to the requested size, -1, or a raw negative
errno, and a read stores as many bytes as it reports. -/
def Possible (s : Conn B) : Event B → Prop
  | .epollin _ => s.pc = .polling
  | .hangup => s.pc = .polling
  | .readReturns nr _ data =>
      s.pc = .reading ∧ -4095 ≤ nr ∧ nr ≤ BUF_SIZE ∧ data.length = nr.toNat
  | .writeReturns nw _ => s.pc = .writing ∧ -4095 ≤ nw ∧ nw ≤ s.nr - s.sent

instance instDecidablePossible (s : Conn B) : (e : Event B) → Decidable (s.Possible e)
  | .epollin _ | .hangup => inferInstanceAs (Decidable (s.pc = .polling))
  | .readReturns .. => inferInstanceAs (Decidable (_ ∧ _ ∧ _ ∧ _))
  | .writeReturns .. => inferInstanceAs (Decidable (_ ∧ _ ∧ _))

/-- The bytes written are a prefix of the bytes read, and the write offset is
within the bytes of the last read. -/
def Echoes (s : Conn B) : Prop :=
  s.written <+: s.received ∧ 0 ≤ s.sent ∧ s.sent ≤ max s.nr 0

end Conn

/-- A failing write reports -1. -/
def NoRawError : Event B → Prop
  | .writeReturns nw _ => -1 ≤ nw
  | _ => True

instance instDecidableNoRawError : (e : Event B) → Decidable (NoRawError e)
  | .writeReturns nw _ => inferInstanceAs (Decidable (-1 ≤ nw))
  | .epollin _ | .hangup | .readReturns .. => .isTrue trivial

namespace Conn

variable {s : Conn B} {e : Event B}

/-- What `kcut_tcp_read` returns for the whole buffer is possible. -/
lemma possible_kcutTcpRead {σ R : Type} (cfg : Kcut.Config) (threshold : ℤ)
    (k : Kcut.Kernel σ R) (fd : ℤ) (iov : Kcut.Iovec) (kcutCnt errno : ℤ) (data : List B)
    (hpc : s.pc = .reading) (hlen : iov.len.toNat = BUF_SIZE)
    (hdata : data.length = (Kcut.kcutTcpRead cfg threshold k fd iov kcutCnt errno).1.ret.toNat) :
    s.Possible (.readReturns
      (Kcut.kcutTcpRead cfg threshold k fd iov kcutCnt errno).1.ret errno data) := by
  obtain ⟨hge, hle⟩ := Kcut.kcutTcpRead_ret_mem cfg threshold k fd iov kcutCnt errno
  exact ⟨hpc, hge, hlen ▸ hle, hdata⟩

/-- What `kcut_tcp_write` returns for the bytes from `sent` on is possible. -/
lemma possible_kcutTcpWrite {σ R : Type} (cfg : Kcut.Config) (threshold : ℤ)
    (k : Kcut.Kernel σ R) (stack : Kcut.Msghdr R) (fd : ℤ) (iov : Kcut.Iovec) (kcutCnt errno : ℤ)
    (hpc : s.pc = .writing) (hlen : iov.len.toNat = s.nr - s.sent) :
    s.Possible (.writeReturns
      (Kcut.kcutTcpWrite cfg threshold k stack fd iov kcutCnt errno).1.ret errno) := by
  obtain ⟨hge, hle⟩ := Kcut.kcutTcpWrite_ret_mem cfg threshold k stack fd iov kcutCnt errno
  exact ⟨hpc, hge, hlen ▸ hle⟩

/-- The bytes still to be written are what the read has returned and no write
has taken. -/
structure Owes (s : Conn B) : Prop where
  sent_nonneg : 0 ≤ s.sent
  sent_le : s.sent ≤ max s.nr 0
  /-- Outside the echo loop nothing is owed. -/
  settled : s.pc = .polling ∨ s.pc = .reading → s.received = s.written
  /-- Inside it, the rest of the buffer is. -/
  rest : s.pc = .writing → s.sent < s.nr ∧ s.received = s.written ++ slice s.buf s.sent s.nr
  taken : s.written <+: s.received

lemma Owes.echoes (h : s.Owes) : s.Echoes := ⟨h.taken, h.sent_nonneg, h.sent_le⟩

lemma owes_start (buf : ℤ → B) : (start buf).Owes := by
  constructor <;> simp [start]

/-- Leaving a loop early keeps both logs and the locals. -/
lemma Owes.leave (h : s.Owes) {pc : Pc} (hw : pc ≠ .writing)
    (hset : pc = .polling ∨ pc = .reading → s.received = s.written) :
    ({ s with pc := pc }).Owes where
  sent_nonneg := h.sent_nonneg
  sent_le := h.sent_le
  settled := hset
  rest hpc := absurd hpc hw
  taken := h.taken

lemma Owes.read (h : s.Owes) {nr errno : ℤ} {data : List B}
    (hp : s.Possible (.readReturns nr errno data)) :
    (s.step (.readReturns nr errno data)).Owes := by
  obtain ⟨hpc, -, -, hlen⟩ := hp
  have hset : s.received = s.written := h.settled (Or.inr hpc)
  simp only [step, hpc, ne_eq, not_true_eq_false, if_false]
  by_cases herr : nr = -1
  · rw [if_pos herr]
    split
    · exact h.leave (by decide) fun _ => hset
    · exact h.leave (by decide) fun _ => hset
  by_cases heof : nr = 0
  · rw [if_neg herr, if_pos heof]
    exact h.leave (by decide) fun _ => hset
  rw [if_neg herr, if_neg heof]
  by_cases hpos : 0 < nr
  · -- the echo loop starts with the whole buffer to write
    have hdata : slice (store s.buf data) 0 nr = data := by
      have hnr : nr = data.length := by omega
      rw [hnr]
      exact slice_store s.buf data
    refine ⟨le_rfl, le_max_right nr 0, by simp [hpos], fun _ => ⟨hpos, ?_⟩, ?_⟩
    · simp only [hset, hdata]
    · simp [hset]
  · -- a raw error: the echo loop is not entered and the drain loop reads again
    have hnil : data = [] := List.eq_nil_of_length_eq_zero (by omega)
    refine ⟨le_rfl, le_max_right nr 0, ?_, by simp [hpos], ?_⟩
    · simp [hnil, hset]
    · simp [hnil, hset]

lemma Owes.write (h : s.Owes) {nw errno : ℤ} (hp : s.Possible (.writeReturns nw errno))
    (hraw : -1 ≤ nw) : (s.step (.writeReturns nw errno)).Owes := by
  obtain ⟨hpc, -, hle⟩ := hp
  obtain ⟨hlt, hrest⟩ := h.rest hpc
  have hnonneg := h.sent_nonneg
  simp only [step, hpc, ne_eq, not_true_eq_false, if_false]
  by_cases herr : nw = -1
  · rw [if_pos herr]
    by_cases hagain : errno = EAGAIN
    · rw [if_pos hagain, ← hpc]
      exact h
    · rw [if_neg hagain]
      exact h.leave (by decide) (by simp)
  rw [if_neg herr]
  -- the count advances through what is still owed
  have hsplit : slice s.buf s.sent (s.sent + nw) ++ slice s.buf (s.sent + nw) s.nr =
      slice s.buf s.sent s.nr := slice_append s.buf (by omega) (by omega)
  have hrec : s.received = (s.written ++ slice s.buf s.sent (s.sent + nw)) ++
      slice s.buf (s.sent + nw) s.nr := by
    rw [List.append_assoc, hsplit, hrest]
  refine ⟨?_, ?_, ?_, ?_, ?_⟩
  · simp only
    omega
  · simp only
    omega
  · intro hout
    have hend : s.nr = s.sent + nw := by
      by_contra hne
      have hin : s.sent + nw < s.nr := by omega
      simp [hin] at hout
    simp only
    rw [hrec, hend]
    simp [slice]
  · intro hin
    refine ⟨?_, hrec⟩
    by_contra hge
    simp [hge] at hin
  · exact ⟨_, hrec.symm⟩

/-- One event under the condition. -/
lemma Owes.step (h : s.Owes) (hp : s.Possible e) (hraw : NoRawError e) : (s.step e).Owes := by
  cases e with
  | epollin buf =>
    have hpc : s.pc = .polling := hp
    have hset := h.settled (Or.inl hpc)
    simp only [Conn.step, hpc, if_true]
    exact ⟨h.sent_nonneg, h.sent_le, fun _ => hset, by simp, h.taken⟩
  | hangup =>
    have hpc : s.pc = .polling := hp
    simp only [Conn.step, hpc, if_true]
    exact h.leave (by decide) (by simp)
  | readReturns nr errno data => exact h.read hp
  | writeReturns nw errno => exact h.write hp hraw

/-- A raw error moves the offset back. If it stays inside the buffer, the bytes
it went back over are written a second time by the next write. -/
lemma Owes.not_echoes_of_raw (h : s.Owes) (hp : s.Possible e) (hraw : ¬ NoRawError e) :
    ∃ later, Guarded Conn.step Possible s (e :: later) ∧
      ¬ (runFrom Conn.step s (e :: later)).Echoes := by
  cases e with
  | writeReturns nw errno =>
    obtain ⟨hpc, hge, hle⟩ := id hp
    obtain ⟨hlt, hrest⟩ := h.rest hpc
    have hneg : nw < -1 := not_le.mp hraw
    have hnext : s.step (.writeReturns nw errno) = { s with sent := s.sent + nw } := by
      have hback : slice s.buf s.sent (s.sent + nw) = [] := by
        simp only [slice, List.map_eq_nil_iff, List.range_eq_nil]
        omega
      have hin : s.sent + nw < s.nr := by omega
      simp only [Conn.step, hpc, ne_eq, not_true_eq_false, if_false, if_neg (by omega : nw ≠ -1),
        if_pos hin, hback, List.append_nil]
    by_cases hbelow : s.sent + nw < 0
    · refine ⟨[], ⟨hp, trivial⟩, ?_⟩
      rw [runFrom_cons, hnext, runFrom_nil]
      rintro ⟨-, hsent, -⟩
      exact absurd hsent (not_le.mpr hbelow)
    · refine ⟨[.writeReturns (s.nr - (s.sent + nw)) 0], ⟨hp, ?_, trivial⟩, ?_⟩
      · rw [hnext]
        exact ⟨hpc, by omega, le_rfl⟩
      · rw [runFrom_cons, hnext, runFrom_cons, runFrom_nil]
        simp only [Conn.step, hpc, ne_eq, not_true_eq_false, if_false,
          if_neg (by omega : ¬ s.nr - (s.sent + nw) = -1)]
        rintro ⟨hpre, -, -⟩
        have hlong := hpre.length_le
        simp only [hrest, List.length_append, length_slice] at hlong
        omega
  | _ => exact absurd trivial hraw

/-- For any sequence of events and of results that the calls can return: if no
write returns a raw error, then after every event the bytes written are a prefix
of the bytes read and the offset is inside the buffer. Where a raw error comes
next, some results after it break this. -/
theorem echoes_of_run (buf : ℤ → B) (events : List (Event B))
    (h : Guarded Conn.step (fun s e => s.Possible e ∧ NoRawError e) (start buf) events) :
    (∀ before, before <+: events → (runFrom Conn.step (start buf) before).Echoes) ∧
    ∀ e, (runFrom Conn.step (start buf) events).Possible e → ¬ NoRawError e →
      ∃ later, Guarded Conn.step Possible (runFrom Conn.step (start buf) events) (e :: later) ∧
        ¬ (runFrom Conn.step (start buf) (events ++ e :: later)).Echoes := by
  have hstep : ∀ (s : Conn B) (e : Event B), s.Owes → s.Possible e ∧ NoRawError e →
      (s.step e).Owes := fun s e hs he => hs.step he.1 he.2
  refine ⟨fun before hbefore => ?_, fun e hp hraw => ?_⟩
  · exact (h.invariant_prefix hstep (owes_start buf) hbefore).echoes
  · have hend := h.invariant hstep (owes_start buf)
    obtain ⟨later, hposs, hbad⟩ := hend.not_echoes_of_raw hp hraw
    refine ⟨later, hposs, ?_⟩
    rwa [runFrom, List.foldl_append]

/-- Two bytes go back in two writes with a refused one between them. -/
theorem echoes_two_bytes :
    (runFrom Conn.step (start fun _ => 0) [.epollin fun _ => 0, .readReturns 2 0 [7, 8],
      .writeReturns 1 0, .writeReturns (-1) EAGAIN, .writeReturns 1 0]).Echoes :=
  (echoes_of_run (fun _ => 0) [.epollin fun _ => 0, .readReturns 2 0 [7, 8],
    .writeReturns 1 0, .writeReturns (-1) EAGAIN, .writeReturns 1 0] (by decide)).1 _
    (List.prefix_refl _)

/-- The shortcut's write on a full socket returns a raw -EAGAIN. After it the
offset is -10, and the write that follows hands out the bytes below the buffer. -/
theorem raw_eagain_writes_below_buffer :
    (Kcut.kcutTcpWrite Kcut.plainBuild 20 Kcut.demoKernel ⟨Kcut.MSG_DONTWAIT, ()⟩ 3 ⟨0, 1⟩
      1 0).1.ret = -EAGAIN ∧
    Guarded Conn.step Possible (start fun _ => 0) [.epollin fun _ => 0, .readReturns 2 0 [7, 8],
      .writeReturns 1 0, .writeReturns (-EAGAIN) 0, .writeReturns 12 0] ∧
    (runFrom Conn.step (start fun _ => 0) [.epollin fun _ => 0, .readReturns 2 0 [7, 8],
      .writeReturns 1 0, .writeReturns (-EAGAIN) 0]).sent = -10 ∧
    ¬ (runFrom Conn.step (start fun _ => 0) [.epollin fun _ => 0, .readReturns 2 0 [7, 8],
      .writeReturns 1 0, .writeReturns (-EAGAIN) 0]).Echoes ∧
    (runFrom Conn.step (start fun _ => 0) [.epollin fun _ => 0, .readReturns 2 0 [7, 8],
      .writeReturns 1 0, .writeReturns (-EAGAIN) 0, .writeReturns 12 0]).written =
      [7, 0, 0, 0, 0, 0, 0, 0, 0, 0, 0, 7, 8] := by
  refine ⟨by decide, by decide, by decide, ?_, by decide⟩
  rintro ⟨-, hsent, -⟩
  exact absurd hsent (by decide)

end Conn

end SymbiOS.EchoServer
