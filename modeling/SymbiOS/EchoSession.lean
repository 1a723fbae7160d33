import SymbiOS.EchoServer
import Mathlib.Data.List.TakeDrop

/-!
# A session of the echo client with the echo server

`eclnt.c` against one connection of `esrv.c`, with the two socket buffers between
them. The client sends its packet with `write_all`, then takes it back with
`read_all`; its socket blocks. The server's socket does not block and is watched
edge-triggered: `epoll_wait` reports it once for new bytes. Calls may move any
number of bytes that fits, and either side may be held up for any time. The build is
one whose calls are the real ones: an error is -1 with `errno`. Resets and hangups
of the connection are left out.
-/
namespace SymbiOS.EchoSession
open SymbiOS.EchoServer SymbiOS.GuardedRun

/-- At the top of the measurement loop, in `write_all`, in `read_all`, or past
the loop with the socket closed. -/
inductive ClientPc where
  | loop
  | writeAll
  | readAll
  | stopped
  deriving Repr, DecidableEq

/-- The client. `p` is the offset of `write_all`'s pointer, `rcvbuf` holds what
`read_all` has stored in this transaction, and `n` counts the transactions. -/
structure Client (B : Type) where
  pc : ClientPc
  p : ℕ
  rcvbuf : List B
  n : ℕ

/-- Both ends and the bytes on the way. `edge` is set while `epoll_wait` has
something new to report for the connection. -/
structure Session (B : Type) where
  client : Client B
  server : Conn B
  request : List B
  reply : List B
  edge : Bool

/-- What happens next: a step of the client's loop, the return of one call of
either side, or an error that makes the side give up. -/
inductive Action (B : Type) where
  | begins
  | stops
  | clientWrites (k : ℕ)
  | clientReads (k : ℕ)
  | clientFails
  | wakes (buf : ℤ → B)
  | reads (k : ℕ)
  | drained
  | eof
  | writes (k : ℕ)
  | refused
  | serverFails (errno : ℤ)

variable {B : Type}

/-- The actions that move something. Being refused by a full buffer, and giving
up, are not among them. -/
def Action.Moves : Action B → Prop
  | .refused | .clientFails | .serverFails _ => False
  | .begins | .stops | .clientWrites _ | .clientReads _ | .wakes _ | .reads _ | .drained | .eof
  | .writes _ => True

instance Action.instDecidableMoves : (a : Action B) → Decidable a.Moves
  | .refused | .clientFails | .serverFails _ => .isFalse id
  | .begins | .stops | .clientWrites _ | .clientReads _ | .wakes _ | .reads _ | .drained | .eof
  | .writes _ => .isTrue trivial

/-- The bytes a connection of the server has read and not yet written. -/
def unwritten (c : Conn B) : List B :=
  if c.pc = .writing then slice c.buf c.sent c.nr else []

/-- One more call, the read that finds nothing, ends the drain loop. -/
def draining (c : Conn B) : ℕ :=
  match c.pc with
  | .reading => 1
  | .polling | .writing | .closed => 0

lemma draining_le (c : Conn B) : draining c ≤ 1 := by
  unfold draining
  split <;> decide

lemma unwritten_of_ne {c : Conn B} (h : c.pc ≠ .writing) : unwritten c = [] := by
  simp [unwritten, h]

namespace Client

/-- One pass of the loop in `write_all`, which ends when nothing is left. -/
def writeAll (c : Client B) (size k : ℕ) : Client B :=
  { c with p := c.p + k, pc := if c.p + k < size then .writeAll else .readAll }

/-- One pass of the loop in `read_all`. After the last one the transaction is
recorded. -/
def readAll (c : Client B) (size : ℕ) (data : List B) : Client B :=
  { c with
    rcvbuf := c.rcvbuf ++ data
    pc := if c.rcvbuf.length + data.length < size then .readAll else .loop
    n := if c.rcvbuf.length + data.length < size then c.n else c.n + 1 }

/-- What a client has ahead of it in calls that move something, the server's
included, until it reads. -/
def ahead (c : Client B) (size : ℕ) : ℕ :=
  match c.pc with
  | .loop => 6 * size + 1
  | .writeAll => 6 * (size - c.p)
  | .readAll | .stopped => 0

variable {c : Client B} {size k : ℕ} {data : List B}

lemma writeAll_of_lt (h : c.p + k < size) :
    c.writeAll size k = { c with p := c.p + k, pc := .writeAll } := by
  simp [writeAll, h]

lemma writeAll_of_le (h : size ≤ c.p + k) :
    c.writeAll size k = { c with p := c.p + k, pc := .readAll } := by
  simp [writeAll, not_lt.mpr h]

lemma readAll_of_lt (h : c.rcvbuf.length + data.length < size) :
    c.readAll size data = { c with rcvbuf := c.rcvbuf ++ data, pc := .readAll } := by
  simp [readAll, h]

lemma readAll_of_le (h : size ≤ c.rcvbuf.length + data.length) :
    c.readAll size data =
      { c with rcvbuf := c.rcvbuf ++ data, pc := .loop, n := c.n + 1 } := by
  simp [readAll, not_lt.mpr h]

end Client

namespace Session

/-- What the server's connection sees of an action. -/
def serverEvent (s : Session B) : Action B → Option (Event B)
  | .wakes buf => some (.epollin buf)
  | .reads k => some (.readReturns k 0 (s.request.take k))
  | .drained => some (.readReturns (-1) EAGAIN [])
  | .eof => some (.readReturns 0 0 [])
  | .writes k => some (.writeReturns k 0)
  | .refused => some (.writeReturns (-1) EAGAIN)
  | .serverFails errno =>
      some (if s.server.pc = .reading then .readReturns (-1) errno []
        else .writeReturns (-1) errno)
  | .begins | .stops | .clientWrites _ | .clientReads _ | .clientFails => none

def stepServer (s : Session B) (a : Action B) : Conn B :=
  (s.serverEvent a).elim s.server s.server.step

/-- One action. Bytes that arrive, and a closed socket, raise the edge. -/
def step (sndbuf : List B) (s : Session B) (a : Action B) : Session B :=
  match a with
  | .begins => { s with client := { s.client with pc := .writeAll, p := 0, rcvbuf := [] } }
  | .stops | .clientFails => { s with client := { s.client with pc := .stopped }, edge := true }
  | .clientWrites k =>
      { s with
        client := s.client.writeAll sndbuf.length k
        request := s.request ++ (sndbuf.drop s.client.p).take k
        edge := true }
  | .clientReads k =>
      { s with
        client := s.client.readAll sndbuf.length (s.reply.take k)
        reply := s.reply.drop k }
  | .wakes _ => { s with server := s.stepServer a, edge := false }
  | .reads k => { s with server := s.stepServer a, request := s.request.drop k }
  | .writes k =>
      { s with
        server := s.stepServer a
        reply := s.reply ++ slice s.server.buf s.server.sent (s.server.sent + k) }
  | .drained | .eof | .refused | .serverFails _ => { s with server := s.stepServer a }

/-- What the kernel lets happen: a call moves at least one byte and no more than
asked for, than is there, and than fits into buffers of `capIn` and `capOut`
bytes. The server is told to try again when nothing can move, and sees the end
of the stream only behind the last byte. -/
def Possible (sndbuf : List B) (capIn capOut : ℕ) (s : Session B) : Action B → Prop
  | .begins | .stops => s.client.pc = .loop
  | .clientWrites k => s.client.pc = .writeAll ∧ 0 < k ∧ s.client.p + k ≤ sndbuf.length ∧
      s.request.length + k ≤ capIn
  | .clientReads k => s.client.pc = .readAll ∧ 0 < k ∧
      s.client.rcvbuf.length + k ≤ sndbuf.length ∧ k ≤ s.reply.length
  | .clientFails => s.client.pc = .writeAll ∨ s.client.pc = .readAll
  | .wakes _ => s.server.pc = .polling ∧ s.edge = true
  | .reads k => s.server.pc = .reading ∧ 0 < k ∧ (k : ℤ) ≤ BUF_SIZE ∧ k ≤ s.request.length
  | .drained => s.server.pc = .reading ∧ s.request.length = 0 ∧ s.client.pc ≠ .stopped
  | .eof => s.server.pc = .reading ∧ s.request.length = 0 ∧ s.client.pc = .stopped
  | .writes k => s.server.pc = .writing ∧ 0 < k ∧ (k : ℤ) ≤ s.server.nr - s.server.sent ∧
      s.reply.length + k ≤ capOut
  | .refused => s.server.pc = .writing ∧ capOut ≤ s.reply.length
  | .serverFails errno =>
      (s.server.pc = .reading ∨ s.server.pc = .writing) ∧ errno ≠ EAGAIN

instance instDecidablePossible (sndbuf : List B) (capIn capOut : ℕ) (s : Session B) :
    (a : Action B) → Decidable (s.Possible sndbuf capIn capOut a)
  | .begins | .stops => inferInstanceAs (Decidable (s.client.pc = .loop))
  | .clientFails => inferInstanceAs (Decidable (_ ∨ _))
  | .wakes _ | .refused => inferInstanceAs (Decidable (_ ∧ _))
  | .serverFails _ => inferInstanceAs (Decidable ((_ ∨ _) ∧ _))
  | .drained | .eof => inferInstanceAs (Decidable (_ ∧ _ ∧ _))
  | .clientWrites _ | .clientReads _ | .reads _ | .writes _ =>
      inferInstanceAs (Decidable (_ ∧ _ ∧ _ ∧ _))

/-- A fresh connection: accepted, registered with epoll, nothing sent. -/
def start (buf : ℤ → B) : Session B := ⟨⟨.loop, 0, [], 0⟩, Conn.start buf, [], [], false⟩

variable {sndbuf : List B} {capIn capOut : ℕ} {s : Session B} {a : Action B}

/-- The calls of the server return what the server's own model allows. -/
lemma possible_serverEvent (howes : s.server.Owes) (h : s.Possible sndbuf capIn capOut a)
    {e : Event B} (he : s.serverEvent a = some e) : s.server.Possible e ∧ NoRawError e := by
  cases a with
  | begins | stops | clientWrites | clientReads | clientFails => simp [serverEvent] at he
  | wakes buf =>
    obtain rfl : Event.epollin buf = e := by simpa [serverEvent] using he
    exact ⟨h.1, trivial⟩
  | reads k =>
    obtain rfl : Event.readReturns k 0 (s.request.take k) = e := by simpa [serverEvent] using he
    obtain ⟨hpc, hpos, hbuf, hk⟩ := h
    exact ⟨⟨hpc, by omega, hbuf, by simp [hk]⟩, trivial⟩
  | drained =>
    obtain rfl : Event.readReturns (-1) EAGAIN [] = e := by simpa [serverEvent] using he
    exact ⟨⟨h.1, by decide, by decide, rfl⟩, trivial⟩
  | eof =>
    obtain rfl : Event.readReturns 0 0 [] = e := by simpa [serverEvent] using he
    exact ⟨⟨h.1, by decide, by decide, rfl⟩, trivial⟩
  | writes k =>
    obtain rfl : Event.writeReturns k 0 = e := by simpa [serverEvent] using he
    obtain ⟨hpc, hpos, hleft, -⟩ := h
    exact ⟨⟨hpc, by omega, hleft⟩, show (-1 : ℤ) ≤ k by omega⟩
  | refused =>
    obtain rfl : Event.writeReturns (-1) EAGAIN = e := by simpa [serverEvent] using he
    have hlt := (howes.rest h.1).1
    exact ⟨⟨h.1, by decide, by omega⟩, le_rfl⟩
  | serverFails errno =>
    obtain ⟨hpc | hpc, -⟩ := h
    · obtain rfl : Event.readReturns (-1) errno [] = e := by simpa [serverEvent, hpc] using he
      exact ⟨⟨hpc, by decide, by decide, rfl⟩, trivial⟩
    · obtain rfl : Event.writeReturns (-1) errno = e := by simpa [serverEvent, hpc] using he
      have hlt := (howes.rest hpc).1
      exact ⟨⟨hpc, by decide, by omega⟩, le_rfl⟩

lemma owes_stepServer (howes : s.server.Owes) (h : s.Possible sndbuf capIn capOut a) :
    (s.stepServer a).Owes := by
  cases he : s.serverEvent a with
  | none => simpa [stepServer, he] using howes
  | some e =>
    obtain ⟨hposs, hraw⟩ := possible_serverEvent howes h he
    simpa [stepServer, he] using howes.step hposs hraw

lemma stepServer_wakes (buf : ℤ → B) (hpc : s.server.pc = .polling) :
    s.stepServer (.wakes buf) = { s.server with pc := .reading, buf := buf } := by
  simp [stepServer, serverEvent, Conn.step, hpc]

lemma stepServer_reads {k : ℕ} (hpc : s.server.pc = .reading) (hpos : 0 < k) :
    s.stepServer (.reads k) =
      { pc := .writing, buf := store s.server.buf (s.request.take k), nr := k, sent := 0,
        received := s.server.received ++ s.request.take k, written := s.server.written } := by
  have hne : (k : ℤ) ≠ -1 := by omega
  simp [stepServer, serverEvent, Conn.step, hpc, hne, hpos, hpos.ne']

lemma stepServer_drained (hpc : s.server.pc = .reading) :
    s.stepServer .drained = { s.server with pc := .polling } := by
  simp [stepServer, serverEvent, Conn.step, hpc]

lemma stepServer_eof (hpc : s.server.pc = .reading) :
    s.stepServer .eof = { s.server with pc := .closed } := by
  simp [stepServer, serverEvent, Conn.step, hpc]

lemma stepServer_writes {k : ℕ} (hpc : s.server.pc = .writing) :
    s.stepServer (.writes k) =
      { s.server with
        pc := if s.server.sent + k < s.server.nr then .writing else .reading
        sent := s.server.sent + k
        written := s.server.written ++ slice s.server.buf s.server.sent (s.server.sent + k) } := by
  have hne : (k : ℤ) ≠ -1 := by omega
  simp [stepServer, serverEvent, Conn.step, hpc, hne]

lemma stepServer_refused (hpc : s.server.pc = .writing) : s.stepServer .refused = s.server := by
  have hself : { s.server with pc := .writing } = s.server := by rw [← hpc]
  simpa [stepServer, serverEvent, Conn.step, hpc] using hself

lemma stepServer_serverFails {errno : ℤ} (hpc : s.server.pc = .reading ∨ s.server.pc = .writing)
    (herr : errno ≠ EAGAIN) :
    s.stepServer (.serverFails errno) = { s.server with pc := .closed } := by
  rcases hpc with hpc | hpc <;> simp [stepServer, serverEvent, Conn.step, hpc, herr]

/-- After a read the server holds what it read. -/
lemma unwritten_reads (sndbuf : List B) {k : ℕ} (h : s.Possible sndbuf capIn capOut (.reads k)) :
    unwritten (s.step sndbuf (.reads k)).server = s.request.take k := by
  obtain ⟨hpc, hpos, -, hk⟩ := h
  have hlen : ((s.request.take k).length : ℤ) = k := by simp [hk]
  simp only [unwritten, step, stepServer_reads hpc hpos, if_true]
  rw [← hlen]
  exact slice_store _ _

/-- A write hands on the front of what the server holds. -/
lemma unwritten_writes (sndbuf : List B) {k : ℕ} (h : s.Possible sndbuf capIn capOut (.writes k)) :
    slice s.server.buf s.server.sent (s.server.sent + k) ++ unwritten (s.step sndbuf (.writes k)).server =
      unwritten s.server := by
  obtain ⟨hpc, hpos, hleft, -⟩ := h
  simp only [unwritten, step, stepServer_writes hpc, hpc, if_true]
  by_cases hlt : s.server.sent + k < s.server.nr
  · rw [if_pos hlt, if_pos rfl]
    exact slice_append _ (by omega) (by omega)
  · have hend : s.server.sent + k = s.server.nr := by omega
    simp [hend]

lemma length_unwritten (howes : s.server.Owes) (hpc : s.server.pc = .writing) :
    ((unwritten s.server).length : ℤ) = s.server.nr - s.server.sent := by
  have hlt := (howes.rest hpc).1
  simp only [unwritten, hpc, if_true, length_slice]
  omega

/-- Bytes are neither lost nor repeated nor reordered on the way, whoever moves
next, and the server is not left asleep with bytes to read. -/
structure Inv (sndbuf : List B) (s : Session B) : Prop where
  owes : s.server.Owes
  sent_le : s.client.p ≤ sndbuf.length
  delivered : s.client.rcvbuf ++ s.reply <+: sndbuf.take s.client.p
  /-- While the server serves, what the client has sent is back, on the way or
  with the server. -/
  carried : s.server.pc ≠ .closed →
    s.client.rcvbuf ++ s.reply ++ unwritten s.server ++ s.request = sndbuf.take s.client.p
  writing : s.client.pc = .writeAll → s.client.rcvbuf = [] ∧ s.client.p < sndbuf.length
  reading : s.client.pc = .readAll →
    s.client.p = sndbuf.length ∧ s.client.rcvbuf.length < sndbuf.length
  /-- Between transactions everything has come back. -/
  settled : s.client.pc = .loop →
    s.client.p = s.client.rcvbuf.length ∧ (s.client.n = 0 ∨ s.client.rcvbuf = sndbuf)
  /-- Asleep without an edge, the server has nothing to read. -/
  armed : s.server.pc = .polling → s.edge = false →
    s.request = [] ∧ s.client.pc ≠ .stopped

lemma inv_start (buf : ℤ → B) : (start buf).Inv sndbuf where
  owes := Conn.owes_start buf
  sent_le := Nat.zero_le _
  delivered := by simp [start]
  carried := by simp [start, unwritten, Conn.start]
  writing := by simp [start]
  reading := by simp [start]
  settled := by simp [start]
  armed := by simp [start]

/-- Between transactions both directions are empty. -/
lemma Inv.quiet (h : s.Inv sndbuf) (hpc : s.client.pc = .loop) :
    s.reply = [] ∧ (s.server.pc ≠ .closed → unwritten s.server = [] ∧ s.request = []) := by
  obtain ⟨hp, -⟩ := h.settled hpc
  have hlen := h.delivered.length_le
  simp only [List.length_append, List.length_take] at hlen
  refine ⟨List.eq_nil_of_length_eq_zero (by omega), fun hopen => ?_⟩
  have hall := congrArg List.length (h.carried hopen)
  simp only [List.length_append, List.length_take] at hall
  exact ⟨List.eq_nil_of_length_eq_zero (by omega), List.eq_nil_of_length_eq_zero (by omega)⟩

lemma Inv.begins (h : s.Inv sndbuf) (hne : sndbuf ≠ []) (hpc : s.client.pc = .loop) :
    (s.step sndbuf .begins).Inv sndbuf := by
  obtain ⟨hreply, hopen⟩ := h.quiet hpc
  refine ⟨h.owes, Nat.zero_le _, by simp [step, hreply], fun hserver => ?_,
    fun _ => ⟨rfl, List.length_pos_iff.mpr hne⟩, by simp [step], by simp [step],
    fun hpoll hedge => ⟨(h.armed hpoll hedge).1, by simp [step]⟩⟩
  obtain ⟨hheld, hreq⟩ := hopen hserver
  change [] ++ s.reply ++ unwritten s.server ++ s.request = sndbuf.take 0
  simp [hreply, hheld, hreq]

/-- The client leaves its loop or gives up inside a call. -/
lemma Inv.leaves (h : s.Inv sndbuf) :
    ({ s with client := { s.client with pc := .stopped }, edge := true } : Session B).Inv
      sndbuf where
  owes := h.owes
  sent_le := h.sent_le
  delivered := h.delivered
  carried := h.carried
  writing := by simp
  reading := by simp
  settled := by simp
  armed := by simp

lemma Inv.clientWrites (h : s.Inv sndbuf) {k : ℕ}
    (hp : s.Possible sndbuf capIn capOut (.clientWrites k)) :
    (s.step sndbuf (.clientWrites k)).Inv sndbuf := by
  obtain ⟨hpc, hpos, hle, -⟩ := hp
  obtain ⟨hrcv, hlt⟩ := h.writing hpc
  have hdelivered : s.client.rcvbuf ++ s.reply <+: sndbuf.take (s.client.p + k) :=
    h.delivered.trans (List.take_prefix_take_left (Nat.le_add_right _ _))
  have hcarried (hserver : s.server.pc ≠ .closed) :
      s.client.rcvbuf ++ s.reply ++ unwritten s.server ++
        (s.request ++ (sndbuf.drop s.client.p).take k) = sndbuf.take (s.client.p + k) := by
    rw [← List.append_assoc, h.carried hserver, List.take_add]
  rcases hle.lt_or_eq with hin | hend
  · rw [step, Client.writeAll_of_lt hin]
    exact ⟨h.owes, hle, hdelivered, hcarried, fun _ => ⟨hrcv, hin⟩, by simp, by simp, by simp⟩
  · rw [step, Client.writeAll_of_le hend.ge]
    refine ⟨h.owes, hle, hdelivered, hcarried, by simp, fun _ => ⟨hend, ?_⟩, by simp, by simp⟩
    rw [hrcv]
    exact lt_of_le_of_lt (Nat.zero_le _) hlt

lemma Inv.clientReads (h : s.Inv sndbuf) {k : ℕ}
    (hp : s.Possible sndbuf capIn capOut (.clientReads k)) :
    (s.step sndbuf (.clientReads k)).Inv sndbuf := by
  obtain ⟨hpc, hpos, hle, hk⟩ := hp
  obtain ⟨hall, hlt⟩ := h.reading hpc
  have hlen : (s.reply.take k).length = k := by simp [hk]
  -- the bytes only move from the reply buffer to the receive buffer
  have hmove : s.client.rcvbuf ++ s.reply.take k ++ s.reply.drop k =
      s.client.rcvbuf ++ s.reply := by
    rw [List.append_assoc, List.take_append_drop]
  have hdelivered : s.client.rcvbuf ++ s.reply.take k ++ s.reply.drop k <+:
      sndbuf.take s.client.p := by
    rw [hmove]
    exact h.delivered
  have hcarried (hserver : s.server.pc ≠ .closed) :
      s.client.rcvbuf ++ s.reply.take k ++ s.reply.drop k ++ unwritten s.server ++ s.request =
        sndbuf.take s.client.p := by
    rw [hmove]
    exact h.carried hserver
  have harmed (hpoll : s.server.pc = .polling) (hedge : s.edge = false) : s.request = [] :=
    (h.armed hpoll hedge).1
  rcases hle.lt_or_eq with hin | hend
  · rw [step, Client.readAll_of_lt (by omega)]
    exact ⟨h.owes, h.sent_le, hdelivered, hcarried, by simp,
      fun _ => ⟨hall, by simp only [List.length_append]; omega⟩, by simp,
      fun hpoll hedge => ⟨harmed hpoll hedge, by simp⟩⟩
  · rw [step, Client.readAll_of_le (by omega)]
    -- the last bytes of the packet are in
    have hfull : s.client.rcvbuf ++ s.reply.take k = sndbuf := by
      have hpre : s.client.rcvbuf ++ s.reply.take k <+: sndbuf :=
        ((List.prefix_append _ _).trans hdelivered).trans (List.take_prefix _ _)
      exact hpre.eq_of_length (by simp only [List.length_append]; omega)
    exact ⟨h.owes, h.sent_le, hdelivered, hcarried, by simp, by simp,
      fun _ => ⟨hall.trans (congrArg List.length hfull).symm, Or.inr hfull⟩,
      fun hpoll hedge => ⟨harmed hpoll hedge, by simp⟩⟩

/-- A step of the server that keeps both buffers, where it holds nothing before
and after. -/
lemma Inv.serverMoves (h : s.Inv sndbuf) {server : Conn B} {edge : Bool} (howes : server.Owes)
    (hkeeps : server.pc ≠ .closed →
      s.server.pc ≠ .closed ∧ unwritten server = unwritten s.server)
    (harmed : server.pc = .polling → edge = false → s.request = [] ∧ s.client.pc ≠ .stopped) :
    ({ s with server := server, edge := edge } : Session B).Inv sndbuf where
  owes := howes
  sent_le := h.sent_le
  delivered := h.delivered
  carried hserver := by
    obtain ⟨hopen, heq⟩ := hkeeps hserver
    rw [← h.carried hopen, ← heq]
  writing := h.writing
  reading := h.reading
  settled := h.settled
  armed := harmed

lemma Inv.reads (h : s.Inv sndbuf) {k : ℕ} (hp : s.Possible sndbuf capIn capOut (.reads k)) :
    (s.step sndbuf (.reads k)).Inv sndbuf := by
  have hheld := unwritten_reads sndbuf hp
  have howes := owes_stepServer h.owes hp
  obtain ⟨hpc, hpos, -, -⟩ := hp
  refine ⟨howes, h.sent_le, h.delivered, fun _ => ?_, h.writing, h.reading, h.settled, ?_⟩
  · have hall := h.carried (by simp [hpc])
    rw [unwritten_of_ne (by simp [hpc]), List.append_nil] at hall
    rw [hheld]
    change s.client.rcvbuf ++ s.reply ++ s.request.take k ++ s.request.drop k =
      sndbuf.take s.client.p
    rw [List.append_assoc, List.take_append_drop, hall]
  · simp [step, stepServer_reads hpc hpos]

lemma Inv.writes (h : s.Inv sndbuf) {k : ℕ} (hp : s.Possible sndbuf capIn capOut (.writes k)) :
    (s.step sndbuf (.writes k)).Inv sndbuf := by
  have hheld := unwritten_writes sndbuf hp
  have howes := owes_stepServer h.owes hp
  obtain ⟨hpc, hpos, -, -⟩ := hp
  have hall := h.carried (by simp [hpc])
  -- the written bytes leave what the server holds for the reply buffer
  have hmove : s.client.rcvbuf ++ (step sndbuf s (.writes k)).reply ++
      unwritten (step sndbuf s (.writes k)).server ++ s.request = sndbuf.take s.client.p := by
    rw [← hall, ← hheld]
    simp [step]
  refine ⟨howes, h.sent_le, ?_, fun _ => hmove, h.writing, h.reading, h.settled, ?_⟩
  · refine List.IsPrefix.trans ?_ (hmove ▸ List.prefix_append _ _)
    exact List.prefix_append _ _
  · simp only [step, stepServer_writes hpc]
    intro hpoll
    split at hpoll <;> simp at hpoll

/-- Every action keeps the invariant. -/
lemma Inv.step (h : s.Inv sndbuf) (hne : sndbuf ≠ []) (hp : s.Possible sndbuf capIn capOut a) :
    (s.step sndbuf a).Inv sndbuf := by
  have howes := owes_stepServer h.owes hp
  cases a with
  | begins => exact h.begins hne hp
  | stops => exact h.leaves
  | clientWrites k => exact h.clientWrites hp
  | clientReads k => exact h.clientReads hp
  | clientFails => exact h.leaves
  | reads k => exact h.reads hp
  | writes k => exact h.writes hp
  | wakes buf =>
    refine h.serverMoves howes (fun _ => ?_) ?_
    · simp [unwritten, stepServer_wakes buf hp.1, hp.1]
    · simp [stepServer_wakes buf hp.1]
  | drained =>
    refine h.serverMoves howes (fun _ => ?_) ?_
    · simp [unwritten, stepServer_drained hp.1, hp.1]
    · exact fun _ _ => ⟨List.eq_nil_of_length_eq_zero hp.2.1, hp.2.2⟩
  | eof =>
    refine h.serverMoves howes ?_ ?_
    · simp [stepServer_eof hp.1]
    · simp [stepServer_eof hp.1]
  | refused =>
    have hself : s.stepServer .refused = s.server := stepServer_refused hp.1
    refine h.serverMoves howes (fun _ => ?_) ?_
    · simp [hself, hp.1, unwritten]
    · simp [hself, hp.1]
  | serverFails errno =>
    refine h.serverMoves howes ?_ ?_
    · simp [stepServer_serverFails hp.1 hp.2]
    · simp [stepServer_serverFails hp.1 hp.2]

lemma inv_run (hne : sndbuf ≠ []) (buf : ℤ → B) {actions : List (Action B)}
    (h : Guarded (step sndbuf) (Possible sndbuf capIn capOut) (start buf) actions) :
    (runFrom (step sndbuf) (start buf) actions).Inv sndbuf :=
  h.invariant (fun _ _ hs hp => hs.step hne hp) (inv_start buf)

/-- In every run of the two sides, errors included: what the client has got back
and what is on the way to it is a prefix of what it sent. While the server serves,
the rest of it is with the server or on the way there. A transaction that is
counted has brought the whole packet back. -/
theorem packet_comes_back (hne : sndbuf ≠ []) (buf : ℤ → B) (actions : List (Action B))
    (h : Guarded (step sndbuf) (Possible sndbuf capIn capOut) (start buf) actions) :
    let s := runFrom (step sndbuf) (start buf) actions
    s.client.rcvbuf ++ s.reply <+: sndbuf.take s.client.p ∧
      (s.server.pc ≠ .closed →
        s.client.rcvbuf ++ s.reply ++ unwritten s.server ++ s.request = sndbuf.take s.client.p) ∧
      (s.client.pc = .loop → 0 < s.client.n → s.client.rcvbuf = sndbuf) := by
  intro s
  have hinv : s.Inv sndbuf := inv_run hne buf h
  refine ⟨hinv.delivered, hinv.carried, fun hloop hn => ?_⟩
  exact (hinv.settled hloop).2.resolve_left hn.ne'

/-- Two bytes through buffers of one byte. -/
theorem packet_comes_back_two_bytes :
    let s := runFrom (step [7, 8]) (start fun _ => 0)
      [.begins, .clientWrites 1, .wakes fun _ => 0, .reads 1, .clientWrites 1, .writes 1,
        .clientReads 1, .reads 1, .writes 1, .clientReads 1]
    s.client.rcvbuf ++ s.reply <+: [7, 8].take s.client.p ∧
      (s.server.pc ≠ .closed →
        s.client.rcvbuf ++ s.reply ++ unwritten s.server ++ s.request = [7, 8].take s.client.p) ∧
      (s.client.pc = .loop → 0 < s.client.n → s.client.rcvbuf = [7, 8]) :=
  packet_comes_back (by decide) (fun _ => 0) _
    (by decide : Guarded (step [7, 8]) (Possible [7, 8] 1 1) (start fun _ => 0) _)

/-- A packet that fits into the two buffers and one byte held by the server
cannot block both sides. -/
lemma Inv.exists_move (h : s.Inv sndbuf) (hin : 0 < capIn) (hout : 0 < capOut)
    (hfits : sndbuf.length ≤ capIn + capOut + 1) (hclient : s.client.pc ≠ .stopped)
    (hserver : s.server.pc ≠ .closed) :
    ∃ a : Action B, a.Moves ∧ s.Possible sndbuf capIn capOut a := by
  have hall := congrArg List.length (h.carried hserver)
  have hsent := h.sent_le
  simp only [List.length_append, List.length_take, min_eq_left hsent] at hall
  cases hs : s.server.pc with
  | closed => exact absurd hs hserver
  | reading =>
    by_cases hreq : s.request.length = 0
    · exact ⟨.drained, trivial, hs, hreq, hclient⟩
    · exact ⟨.reads 1, trivial, hs, by decide, by decide, by omega⟩
  | polling =>
    by_cases hedge : s.edge = true
    · exact ⟨.wakes s.server.buf, trivial, hs, hedge⟩
    -- asleep: everything is back, so the client has to move
    have hreq := (h.armed hs (by simpa using hedge)).1
    rw [unwritten_of_ne (by simp [hs]), hreq] at hall
    simp only [List.length_nil] at hall
    cases hc : s.client.pc with
    | loop => exact ⟨.begins, trivial, hc⟩
    | stopped => exact absurd hc hclient
    | writeAll =>
      have hlt := (h.writing hc).2
      exact ⟨.clientWrites 1, trivial, hc, by decide, by omega, by simp [hreq]; omega⟩
    | readAll =>
      obtain ⟨hp, hlt⟩ := h.reading hc
      exact ⟨.clientReads 1, trivial, hc, by decide, by omega, by omega⟩
  | writing =>
    have hheld := length_unwritten h.owes hs
    have hlt := (h.owes.rest hs).1
    by_cases hroom : s.reply.length < capOut
    · exact ⟨.writes 1, trivial, hs, by decide, by omega, by omega⟩
    -- the reply buffer is full: either the client reads it or has room to write
    cases hc : s.client.pc with
    | loop => exact ⟨.begins, trivial, hc⟩
    | stopped => exact absurd hc hclient
    | writeAll =>
      have hp := (h.writing hc).2
      exact ⟨.clientWrites 1, trivial, hc, by decide, by omega, by omega⟩
    | readAll =>
      obtain ⟨hp, hrcv⟩ := h.reading hc
      exact ⟨.clientReads 1, trivial, hc, by decide, by omega, by omega⟩

/-- The server is awake, `i` echoed bytes wait for the client, which is still
writing, and one byte waits for the server. -/
def Filling (i : ℕ) (s : Session B) : Prop :=
  s.client.pc = .writeAll ∧ s.client.p = i + 1 ∧ s.request.length = 1 ∧ s.reply.length = i ∧
    s.server.pc = .reading

/-- One more byte goes through the server. -/
def fill : List (Action B) := [.reads 1, .writes 1, .clientWrites 1]

lemma Filling.next {i : ℕ} (h : Filling i s) (hroom : i < capOut) (hin : 0 < capIn)
    (hmore : i + 2 < sndbuf.length) :
    Guarded (step sndbuf) (Possible sndbuf capIn capOut) s fill ∧
      Filling (i + 1) (runFrom (step sndbuf) s fill) := by
  obtain ⟨hc, hp, hreq, hreply, hs⟩ := h
  have hread := stepServer_reads hs (k := 1) (by decide)
  let t := s.step sndbuf (.reads 1)
  have ht : t.server.pc = .writing := by simp [t, step, hread]
  have hwrite := stepServer_writes ht (k := 1)
  let u := t.step sndbuf (.writes 1)
  have htnr : t.server.nr = 1 ∧ t.server.sent = 0 := by simp [t, step, hread]
  have hu : u.server.pc = .reading := by simp [u, step, hwrite, htnr]
  have htreply : t.reply.length = i := by simp [t, step, hreply]
  have hureply : u.reply.length = i + 1 := by simp [u, step, htreply]
  have hureq : u.request.length = 0 := by simp [u, t, step, hreq]
  have huc : u.client = s.client := rfl
  have hlast : u.client.p + 1 < sndbuf.length := by rw [huc, hp]; omega
  refine ⟨⟨⟨hs, by decide, by decide, hreq.ge⟩, ⟨ht, by decide, by rw [htnr.1, htnr.2]; decide, ?_⟩,
    ⟨by rw [← hc]; rfl, by decide, hlast.le, ?_⟩, trivial⟩, ?_⟩
  · change t.reply.length + 1 ≤ capOut
    omega
  · change u.request.length + 1 ≤ capIn
    omega
  · change Filling (i + 1) (u.step sndbuf (.clientWrites 1))
    rw [step, Client.writeAll_of_lt hlast]
    refine ⟨rfl, by simp [huc, hp], ?_, hureply, hu⟩
    have htake : ((sndbuf.drop u.client.p).take 1).length = 1 := by simp; omega
    simp only [List.length_append, hureq, htake]

/-- The bytes go through one by one until the reply buffer is full. -/
lemma Filling.run {i : ℕ} (h : Filling i s) (k : ℕ) (hroom : i + k ≤ capOut) (hin : 0 < capIn)
    (hmore : i + k + 1 < sndbuf.length) :
    Guarded (step sndbuf) (Possible sndbuf capIn capOut) s (List.replicate k fill).flatten ∧
      Filling (i + k) (runFrom (step sndbuf) s (List.replicate k fill).flatten) := by
  induction k generalizing i s with
  | zero => exact ⟨trivial, h⟩
  | succ k ih =>
    obtain ⟨hguard, hnext⟩ := h.next (by omega : i < capOut) hin (by omega : i + 2 < sndbuf.length)
    obtain ⟨hrest, hend⟩ := ih hnext (by omega) (by omega)
    rw [List.replicate_succ, List.flatten_cons, runFrom_append]
    refine ⟨guarded_append.mpr ⟨hguard, hrest⟩, ?_⟩
    rwa [Nat.add_right_comm] at hend

/-- The whole way into the corner: the server holds a byte it cannot write, and
the client fills the request buffer. -/
def corner (capIn capOut : ℕ) (buf : ℤ → B) : List (Action B) :=
  [.begins, .clientWrites 1, .wakes buf] ++ (List.replicate capOut fill).flatten ++
    [.reads 1, .clientWrites capIn]

lemma filling_zero (capOut : ℕ) (buf : ℤ → B) (hin : 0 < capIn) (hsize : 1 < sndbuf.length) :
    Guarded (step sndbuf) (Possible sndbuf capIn capOut) (start buf)
        [.begins, .clientWrites 1, .wakes buf] ∧
      Filling 0 (runFrom (step sndbuf) (start buf) [.begins, .clientWrites 1, .wakes buf]) := by
  have htake : (sndbuf.take 1).length = 1 := by simp; omega
  have hlast : 0 + 1 < sndbuf.length := by omega
  refine ⟨⟨rfl, ⟨rfl, by decide, hlast.le, ?_⟩, ⟨rfl, rfl⟩, trivial⟩, ?_⟩
  · simpa [step, start, Nat.one_le_iff_ne_zero] using hin.ne'
  · simp only [runFrom_cons, runFrom_nil, step]
    rw [Client.writeAll_of_lt hlast]
    exact ⟨rfl, rfl, by simpa [start] using htake, rfl, rfl⟩

/-- The server cannot write and the client cannot either. -/
def Cornered (capIn capOut : ℕ) (s : Session B) : Prop :=
  s.client.pc = .writeAll ∧ s.request.length = capIn ∧ s.reply.length = capOut ∧
    s.server.pc = .writing

lemma Cornered.not_possible (h : s.Cornered capIn capOut) (ha : a.Moves) :
    ¬ s.Possible sndbuf capIn capOut a := by
  obtain ⟨hc, hreq, hreply, hs⟩ := h
  cases a with
  | begins | stops => simp [Possible, hc]
  | clientReads k => simp [Possible, hc]
  | wakes buf => simp [Possible, hs]
  | reads k => simp [Possible, hs]
  | drained | eof => simp [Possible, hs]
  | clientWrites k =>
    rintro ⟨-, hk, -, hroom⟩
    omega
  | writes k =>
    rintro ⟨-, hk, -, hroom⟩
    omega
  | refused | clientFails | serverFails => exact ha.elim

lemma Filling.cornered (h : Filling capOut s) (hin : 0 < capIn)
    (hsize : capIn + capOut + 1 < sndbuf.length) :
    Guarded (step sndbuf) (Possible sndbuf capIn capOut) s [.reads 1, .clientWrites capIn] ∧
      (runFrom (step sndbuf) s [.reads 1, .clientWrites capIn]).Cornered capIn capOut := by
  obtain ⟨hc, hp, hreq, hreply, hs⟩ := h
  have hread := stepServer_reads hs (k := 1) (by decide)
  have hlast : s.client.p + capIn < sndbuf.length := by omega
  have hempty : (s.request.drop 1).length = 0 := by simp [hreq]
  refine ⟨⟨⟨hs, by decide, by decide, hreq.ge⟩, ⟨hc, hin, hlast.le, ?_⟩, trivial⟩, ?_⟩
  · change (s.request.drop 1).length + capIn ≤ capIn
    omega
  · simp only [runFrom_cons, runFrom_nil, step]
    rw [Client.writeAll_of_lt hlast]
    refine ⟨rfl, ?_, hreply, by rw [hread]⟩
    have htake : ((sndbuf.drop s.client.p).take capIn).length = capIn := by simp; omega
    simp only [List.length_append, hempty, htake, Nat.zero_add]

lemma cornered_corner (buf : ℤ → B) (hin : 0 < capIn)
    (hsize : capIn + capOut + 1 < sndbuf.length) :
    Guarded (step sndbuf) (Possible sndbuf capIn capOut) (start buf) (corner capIn capOut buf) ∧
      (runFrom (step sndbuf) (start buf) (corner capIn capOut buf)).Cornered capIn capOut := by
  have hsizes : 1 < sndbuf.length ∧ 0 + capOut + 1 < sndbuf.length := ⟨by omega, by omega⟩
  obtain ⟨hfirst, hzero⟩ := filling_zero capOut buf hin hsizes.1
  obtain ⟨hmid, hfull⟩ := hzero.run capOut (Nat.zero_add capOut).le hin hsizes.2
  rw [Nat.zero_add] at hfull
  obtain ⟨hlast, hend⟩ := hfull.cornered hin hsize
  rw [corner, guarded_append, guarded_append, runFrom_append, runFrom_append]
  exact ⟨⟨⟨hfirst, hmid⟩, hlast⟩, hend⟩

/-- The two sides can never block each other, in any run, exactly when the packet
is at most one byte longer than the two socket buffers together: the client does
not read before it has written everything, and the server does not read on while
a byte of the last read is unwritten. -/
theorem never_stuck_iff (hne : sndbuf ≠ []) (hin : 0 < capIn) (hout : 0 < capOut) :
    (∀ (buf : ℤ → B) (actions : List (Action B)),
      Guarded (step sndbuf) (Possible sndbuf capIn capOut) (start buf) actions →
      let s := runFrom (step sndbuf) (start buf) actions
      s.client.pc ≠ .stopped → s.server.pc ≠ .closed →
        ∃ a : Action B, a.Moves ∧ s.Possible sndbuf capIn capOut a) ↔
      sndbuf.length ≤ capIn + capOut + 1 := by
  constructor
  · intro h
    by_contra hlong
    obtain ⟨b, rest, -⟩ := List.exists_cons_of_ne_nil hne
    obtain ⟨hguard, hend⟩ := cornered_corner (fun _ => b) hin (Nat.not_le.mp hlong)
    obtain ⟨a, hmoves, hposs⟩ := h _ _ hguard (by simp [hend.1]) (by simp [hend.2.2.2])
    exact hend.not_possible hmoves hposs
  · intro hfits buf actions h s hclient hserver
    exact (inv_run hne buf h).exists_move hin hout hfits hclient hserver

/-- Two bytes and buffers of one byte. -/
theorem never_stuck_two_bytes :
    (∀ (buf : ℤ → ℕ) (actions : List (Action ℕ)),
      Guarded (step [7, 8]) (Possible [7, 8] 1 1) (start buf) actions →
      let s := runFrom (step [7, 8]) (start buf) actions
      s.client.pc ≠ .stopped → s.server.pc ≠ .closed →
        ∃ a : Action ℕ, a.Moves ∧ s.Possible [7, 8] 1 1 a) ↔
      [7, 8].length ≤ 1 + 1 + 1 :=
  never_stuck_iff (by decide) (by decide) (by decide)

/-- What the rest of a transaction can still take: each byte goes through four
calls, and each write of the client can wake the server once more. -/
def potential (size : ℕ) (s : Session B) : ℕ :=
  s.client.ahead size + 3 * (s.request.length + (unwritten s.server).length) +
    s.reply.length + 2 * s.edge.toNat + draining s.server

/-- Every action that moves something uses up part of it. A transaction that is
completed makes room for the next. -/
lemma potential_step (hne : sndbuf ≠ [])
    (hp : s.Possible sndbuf capIn capOut a) (hmoves : a.Moves) :
    (s.step sndbuf a).potential sndbuf.length + (6 * sndbuf.length + 1) * s.client.n + 1 ≤
      s.potential sndbuf.length + (6 * sndbuf.length + 1) * (s.step sndbuf a).client.n := by
  have hpos : 0 < sndbuf.length := List.length_pos_iff.mpr hne
  have hedge1 : s.edge.toNat ≤ 1 := Bool.toNat_le s.edge
  cases a with
  | refused | clientFails | serverFails => exact hmoves.elim
  | begins =>
    have hpc : s.client.pc = .loop := hp
    simp only [potential, Client.ahead, Session.step, hpc]
    omega
  | stops =>
    have hpc : s.client.pc = .loop := hp
    simp only [potential, Client.ahead, Session.step, hpc, Bool.toNat_true]
    omega
  | clientWrites k =>
    obtain ⟨hpc, hk, hle, -⟩ := hp
    have htake : ((sndbuf.drop s.client.p).take k).length = k := by simp; omega
    rcases hle.lt_or_eq with hin | hend
    · simp only [potential, Client.ahead, Session.step, Client.writeAll_of_lt hin, hpc,
        List.length_append, htake, Bool.toNat_true]
      omega
    · simp only [potential, Client.ahead, Session.step, Client.writeAll_of_le hend.ge, hpc,
        List.length_append, htake, Bool.toNat_true]
      omega
  | clientReads k =>
    obtain ⟨hpc, hk, hle, hreply⟩ := hp
    have hlen : (s.reply.take k).length = k := by simp [hreply]
    rcases hle.lt_or_eq with hin | hend
    · simp only [potential, Client.ahead, Session.step, Client.readAll_of_lt (hlen.symm ▸ hin), hpc,
        List.length_drop]
      omega
    · simp only [potential, Client.ahead, Session.step,
        Client.readAll_of_le (hlen.symm ▸ hend.ge), hpc, List.length_drop, Nat.mul_add]
      omega
  | wakes buf =>
    obtain ⟨hpc, hedge⟩ := hp
    simp only [potential, unwritten, draining, Session.step, stepServer_wakes buf hpc, hedge, hpc,
      Bool.toNat_true, Bool.toNat_false, reduceCtorEq, if_false]
    omega
  | reads k =>
    have hheld := unwritten_reads sndbuf hp
    obtain ⟨hpc, hk, -, hreq⟩ := hp
    have hlen : (s.request.take k).length = k := by simp [hreq]
    have hnone : unwritten s.server = [] := unwritten_of_ne (by simp [hpc])
    simp only [potential, hheld, hlen, hnone]
    simp only [draining, Session.step, stepServer_reads hpc hk, hpc, List.length_drop,
      List.length_nil]
    omega
  | drained =>
    have hpc := hp.1
    simp only [potential, unwritten, draining, Session.step, stepServer_drained hpc, hpc,
      reduceCtorEq, if_false]
    omega
  | eof =>
    have hpc := hp.1
    simp only [potential, unwritten, draining, Session.step, stepServer_eof hpc, hpc,
      reduceCtorEq, if_false]
    omega
  | writes k =>
    have hheld := congrArg List.length (unwritten_writes sndbuf hp)
    obtain ⟨hpc, hk, hleft, -⟩ := hp
    have hslice : (slice s.server.buf s.server.sent (s.server.sent + k)).length = k := by simp
    have hmore : draining (s.step sndbuf (.writes k)).server ≤ 1 := draining_le _
    have hnot : draining s.server = 0 := by simp only [draining, hpc]
    rw [List.length_append, hslice] at hheld
    have hreply : (s.step sndbuf (.writes k)).reply.length = s.reply.length + k := by
      simp only [Session.step, List.length_append, hslice]
    have hreq : (s.step sndbuf (.writes k)).request = s.request := rfl
    have hclient : (s.step sndbuf (.writes k)).client = s.client := rfl
    have hedge : (s.step sndbuf (.writes k)).edge = s.edge := rfl
    simp only [potential, hreply, hreq, hclient, hedge, hnot]
    omega

/-- The bound on a run with no failures in which every action moves something:
at most `6 * pkt_size + 1` actions for each transaction completed and as many for
the one that is running. So any schedule that keeps moving completes its
transactions. -/
theorem length_le_of_moves (hne : sndbuf ≠ []) (buf : ℤ → B) (actions : List (Action B))
    (h : Guarded (step sndbuf) (fun s a => s.Possible sndbuf capIn capOut a ∧ a.Moves)
      (start buf) actions) :
    actions.length ≤ (6 * sndbuf.length + 1) *
      ((runFrom (step sndbuf) (start buf) actions).client.n + 1) := by
  let credit : Session B → ℕ := fun s => (6 * sndbuf.length + 1) * s.client.n
  have hstep (s : Session B) (a : Action B) (hs : s.Inv sndbuf)
      (hp : s.Possible sndbuf capIn capOut a ∧ a.Moves) : (s.step sndbuf a).Inv sndbuf ∧
      (s.step sndbuf a).potential sndbuf.length + credit s + 1 ≤
        s.potential sndbuf.length + credit (s.step sndbuf a) :=
    ⟨hs.step hne hp.1, potential_step hne hp.1 hp.2⟩
  have hbound := h.length_add_le hstep (inv_start buf)
  have hstart : potential sndbuf.length (start buf) = 6 * sndbuf.length + 1 := by
    simp [potential, Client.ahead, draining, start, unwritten, Conn.start]
  rw [hstart] at hbound
  rw [Nat.mul_add, Nat.mul_one, Nat.add_comm (_ * _)]
  exact le_trans (by omega) hbound

/-- Two bytes through buffers of one byte. -/
theorem length_le_of_moves_two_bytes :
    [Action.begins, .clientWrites 1, .wakes fun _ => 0, .reads 1, .clientWrites 1, .writes 1,
        .clientReads 1, .reads 1, .writes 1, .clientReads 1].length ≤
      (6 * [7, 8].length + 1) *
        ((runFrom (step [7, 8]) (start fun _ => 0)
          [.begins, .clientWrites 1, .wakes fun _ => 0, .reads 1, .clientWrites 1, .writes 1,
            .clientReads 1, .reads 1, .writes 1, .clientReads 1]).client.n + 1) :=
  length_le_of_moves (by decide) (fun _ => 0) _
    (by decide : Guarded (step [7, 8]) (fun s a => s.Possible [7, 8] 1 1 a ∧ a.Moves)
      (start fun _ => 0) _)

end Session
end SymbiOS.EchoSession
