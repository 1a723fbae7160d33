import SymbiOS.KldMount

/-!
# The event loop of the mounted file system

`kldfsLoop` waits for the requests of the kernel and for the signals that end the program.
The signals are blocked and read from a descriptor, which is watched edge-triggered; the
descriptor of the file system is watched level-triggered. Signals and requests arrive at
any time.
-/
namespace SymbiOS.Kld.Loop
open SymbiOS.GuardedRun SymbiOS.Kld.Mount

inductive Signal where
  | sighup
  | sigint
  | sigquit
  | sigkill
  | sigusr1
  | sigusr2
  | sigpipe
  | sigalrm
  | sigterm
  | sigvtalrm
  | sigio
  deriving Repr, DecidableEq

/-- `sigAddTermSignals`. -/
def termSignals : Finset Signal :=
  {.sigalrm, .sigterm, .sigint, .sighup, .sigquit, .sigusr1, .sigvtalrm, .sigusr2, .sigpipe, .sigio}

/-- The cases of the switch in `sigEvent`. -/
def exitSignals : Finset Signal :=
  {.sigalrm, .sigterm, .sigint, .sighup, .sigkill, .sigusr1, .sigvtalrm, .sigusr2, .sigpipe, .sigio}

def EPOLLIN : ℕ := 0x001

def EPOLLERR : ℕ := 0x008

inductive EvntHdlrRc where
  | EVNT_HDLR_SUCCESS
  | EVNT_HDLR_FAILED
  | EVNT_HDLR_EXIT_LOOP
  deriving Repr, DecidableEq

inductive Hdlr where
  | sigEvent
  | fsEvent
  deriving Repr, DecidableEq

structure Event where
  hdlr : Hdlr
  evnts : ℕ
  deriving Repr, DecidableEq

/-- In `epoll_wait`, in the loop over the events that it returned, or past the loop. -/
inductive Pc where
  | waiting
  | handling (events : List Event)
  | left (rc : Bool)
  | aborted
  deriving Repr, DecidableEq

/-- The program and what the kernel holds for it. `ready` is set while the signal descriptor
is on the ready list, `queue` holds the requests that wait for the program, `log` the
requests that it has processed with its replies, and `client` what the kernel knows. -/
structure Daemon where
  pending : Finset Signal
  ready : Bool
  mounted : Bool
  queue : List Request
  log : List (Request × Answer)
  client : Client
  pc : Pc
  deriving DecidableEq

inductive WaitErrno where
  | EINTR
  | EINVAL
  | EBADF
  | EFAULT
  deriving Repr, DecidableEq

/-- What happens next. The program's own steps are `polls`, `reads` and `serves`. -/
inductive Action where
  | arrives (signo : Signal)
  | wakes
  | sends (req : Request)
  | unmounts
  | fails (errno : WaitErrno)
  | polls (events : List Event)
  | reads (fdsi : Option Signal)
  | serves
  deriving DecidableEq

/-- The program's steps. -/
def Action.Runs : Action → Bool
  | .polls _ | .reads _ | .serves => true
  | .arrives _ | .wakes | .sends _ | .unmounts | .fails _ => false

/-- The signals left and the result, for what the read finds; nothing fails the assertion. -/
def sigEvent (pending : Finset Signal) (evnts : ℕ) (fdsi : Option Signal) :
    Option (Finset Signal × EvntHdlrRc) :=
  if evnts &&& EPOLLIN ≠ 0 then
    fdsi.map fun signo =>
      (pending.erase signo,
        if signo ∈ exitSignals then .EVNT_HDLR_EXIT_LOOP else .EVNT_HDLR_SUCCESS)
  else some (pending, .EVNT_HDLR_SUCCESS)

variable (fmt : DirentFormat (List UInt8)) (pid : ℕ) (s : Fs (List UInt8))

/-- One request is received and processed. From an unmounted file system there is nothing
to receive. -/
def Daemon.process (d : Daemon) : Option Daemon :=
  match d.queue with
  | [] => some d
  | req :: queue =>
      (handle fmt pid s req).map fun answer =>
        { d with
          queue := queue
          log := d.log ++ [(req, answer)]
          client := d.client.learn req (some answer) }

def fsEvent (d : Daemon) (evnts : ℕ) : Option (Daemon × EvntHdlrRc) :=
  (if evnts &&& EPOLLIN ≠ 0 then d.process fmt pid s else some d).map
    fun d => (d, .EVNT_HDLR_SUCCESS)

def next : List Event → Pc
  | [] => .waiting
  | e :: events => .handling (e :: events)

/-- What the loop does with the result of a handler. -/
def dispatch (rest : List Event) : EvntHdlrRc → Pc
  | .EVNT_HDLR_SUCCESS => next rest
  | .EVNT_HDLR_EXIT_LOOP => .left true
  | .EVNT_HDLR_FAILED => .left false

def Daemon.step (d : Daemon) : Action → Daemon
  | .arrives signo =>
      -- a signal that is pending already is not sent again
      { d with pending := insert signo d.pending, ready := d.ready || signo ∉ d.pending }
  | .wakes => { d with ready := true }
  | .sends req => { d with queue := d.queue ++ [req] }
  | .unmounts => { d with mounted := false, queue := [] }
  | .fails .EINTR | .fails .EINVAL => d
  | .fails .EBADF | .fails .EFAULT => { d with pc := .left false }
  | .polls events => { d with ready := false, pc := next events }
  | .reads fdsi =>
      match d.pc with
      | .handling (⟨.sigEvent, evnts⟩ :: rest) =>
          match sigEvent d.pending evnts fdsi with
          | some (pending, rc) => { d with pending := pending, pc := dispatch rest rc }
          | none => { d with pc := .aborted }
      | _ => d
  | .serves =>
      match d.pc with
      | .handling (⟨.fsEvent, evnts⟩ :: rest) =>
          match fsEvent fmt pid s d evnts with
          | some (d', rc) => { d' with pc := dispatch rest rc }
          | none => { d with pc := .aborted }
      | _ => d

/-- What `epoll_wait` has to return. -/
def Daemon.readyEvents (d : Daemon) : List Event :=
  (if d.ready = true ∧ d.pending ≠ ∅ then [⟨.sigEvent, EPOLLIN⟩] else []) ++
    if d.mounted then (if d.queue = [] then [] else [⟨.fsEvent, EPOLLIN⟩])
    else [⟨.fsEvent, EPOLLERR⟩]

/-- The actions that can come next: signals of the mask, requests that the kernel sends, and
the program's steps as the descriptors let them. The events come in any order; any signal
that is pending may be read, and nothing only if there is none; from a mounted file system
a request is received once there is one. -/
def Daemon.Possible (d : Daemon) : Action → Prop
  | .arrives signo => signo ∈ termSignals
  | .wakes => True
  | .sends req => d.mounted = true ∧ d.client.Sends req
  | .unmounts => d.mounted = true
  | .fails _ => d.pc = .waiting
  | .polls events => d.pc = .waiting ∧ events ≠ [] ∧ events.Perm d.readyEvents
  | .reads none => ∃ evnts rest, d.pc = .handling (⟨.sigEvent, evnts⟩ :: rest) ∧ d.pending = ∅
  | .reads (some signo) =>
      ∃ evnts rest, d.pc = .handling (⟨.sigEvent, evnts⟩ :: rest) ∧ signo ∈ d.pending
  | .serves =>
      ∃ evnts rest, d.pc = .handling (⟨.fsEvent, evnts⟩ :: rest) ∧
        (evnts &&& EPOLLIN ≠ 0 → d.mounted = true → d.queue ≠ [])

/-- At the beginning of the loop the file system is mounted. -/
def start : Daemon := ⟨∅, false, true, [], [], .mount, .waiting⟩

variable {fmt pid s} {d : Daemon}

theorem sends_learn {c : Client} {req : Request} (h : c.Sends req) (got : Request)
    (answer : Option Answer) : (c.learn got answer).Sends req := by
  have hgrows : c.dirs ⊆ (c.learn got answer).dirs ∧ c.regs ⊆ (c.learn got answer).regs ∧
      c.handles ⊆ (c.learn got answer).handles := by
    unfold Client.learn
    split
    · split_ifs
      · exact ⟨Finset.subset_insert _ _, subset_rfl, subset_rfl⟩
      · exact ⟨subset_rfl, Finset.subset_insert _ _, subset_rfl⟩
    · exact ⟨subset_rfl, subset_rfl, Finset.subset_insert _ _⟩
    · exact ⟨subset_rfl, subset_rfl, subset_rfl⟩
  obtain ⟨hdirs, hregs, hhandles⟩ := hgrows
  cases req with
  | lookup dirino name => exact hdirs h
  | getattr ino => exact h.imp (@hdirs ino) (@hregs ino)
  | readlink ino => exact h.elim
  | «open» ino flags => exact hregs h
  | read ino size off => exact h.imp fun flags hflags => hhandles hflags
  | write ino off bytes => exact h.imp fun flags hflags => ⟨hhandles hflags.1, hflags.2⟩
  | readdir dirino size off => exact hdirs h
  | setxattr ino name value => exact h.imp (@hdirs ino) (@hregs ino)
  | getxattr ino name => exact h.imp (@hdirs ino) (@hregs ino)
  | removexattr ino name => exact h.imp (@hdirs ino) (@hregs ino)

def Pc.events : Pc → List Event
  | .handling events => events
  | .waiting | .left _ | .aborted => []

@[simp] theorem events_next (events : List Event) : (next events).events = events := by
  cases events <;> rfl

theorem next_ne_aborted (events : List Event) : next events ≠ .aborted := by
  cases events <;> simp [next]

theorem next_ne_nil (events : List Event) : next events ≠ .handling [] := by
  cases events <;> simp [next]

/-- What the handler of an event finds. -/
def Daemon.Fits (d : Daemon) : Event → Prop
  | ⟨.sigEvent, evnts⟩ => evnts = EPOLLIN ∧ d.pending.Nonempty
  | ⟨.fsEvent, evnts⟩ => evnts &&& EPOLLIN ≠ 0 → d.mounted = true → d.queue ≠ []

variable (fmt pid s) in
/-- The requests that wait, and those that were processed, are such that the kernel sends
them; each handler that is to be called finds something, and is called once. -/
structure Daemon.Inv (d : Daemon) : Prop where
  knows : d.client.Knows s
  sends : ∀ req ∈ d.queue, d.client.Sends req
  answered : ∀ x ∈ d.log, d.client.Sends x.1 ∧ handle fmt pid s x.1 = some x.2
  alive : d.pc ≠ .aborted
  busy : d.pc ≠ .handling []
  once : (d.pc.events.map Event.hdlr).Nodup
  fits : ∀ e ∈ d.pc.events, d.Fits e

theorem inv_start (h : Client.mount.Knows s) : start.Inv fmt pid s where
  knows := h
  sends _ hreq := absurd hreq List.not_mem_nil
  answered _ hx := absurd hx List.not_mem_nil
  alive := by decide
  busy := by decide
  once := List.nodup_nil
  fits _ he := absurd he List.not_mem_nil

/-- The handler of a signal event reads a signal. -/
theorem Daemon.Inv.reads_cases (h : d.Inv fmt pid s) {fdsi : Option Signal}
    (hp : d.Possible (.reads fdsi)) :
    ∃ signo rest, fdsi = some signo ∧ signo ∈ d.pending ∧
      d.pc = .handling (⟨.sigEvent, EPOLLIN⟩ :: rest) ∧
      d.step fmt pid s (.reads fdsi) =
        { d with
          pending := d.pending.erase signo
          pc := if signo ∈ exitSignals then .left true else next rest } := by
  have hfirst {evnts : ℕ} {rest : List Event}
      (hpc : d.pc = .handling (⟨.sigEvent, evnts⟩ :: rest)) :
      evnts = EPOLLIN ∧ d.pending.Nonempty := by
    have hfits := h.fits ⟨.sigEvent, evnts⟩ (by rw [hpc]; exact List.mem_cons_self)
    exact hfits
  cases fdsi with
  | none =>
    obtain ⟨evnts, rest, hpc, hnone⟩ := hp
    exact absurd hnone (hfirst hpc).2.ne_empty
  | some signo =>
    obtain ⟨evnts, rest, hpc, hmem⟩ := hp
    obtain rfl := (hfirst hpc).1
    refine ⟨signo, rest, rfl, hmem, hpc, ?_⟩
    have hin : EPOLLIN &&& EPOLLIN ≠ 0 := by decide
    simp only [Daemon.step, hpc, sigEvent, if_pos hin, Option.map_some]
    split_ifs with hexit
    · rfl
    · rfl

/-- The handler of an event of the file system processes the first request, or there is
nothing to receive. -/
theorem Daemon.Inv.serves_cases (h : d.Inv fmt pid s) (hheap : s.Heap) (hp : d.Possible .serves) :
    ∃ evnts rest, d.pc = .handling (⟨.fsEvent, evnts⟩ :: rest) ∧
      (d.step fmt pid s .serves = { d with pc := next rest } ∨
        ∃ req queue answer, d.queue = req :: queue ∧ handle fmt pid s req = some answer ∧
          d.step fmt pid s .serves =
            { d with
              queue := queue
              log := d.log ++ [(req, answer)]
              client := d.client.step fmt pid s req
              pc := next rest }) := by
  obtain ⟨evnts, rest, hpc, -⟩ := hp
  refine ⟨evnts, rest, hpc, ?_⟩
  by_cases hin : evnts &&& EPOLLIN ≠ 0
  · cases hqueue : d.queue with
    | nil =>
      left
      simp [Daemon.step, hpc, fsEvent, hin, Daemon.process, hqueue, dispatch]
    | cons req queue =>
      right
      have hreq : d.client.Sends req := h.sends req (by rw [hqueue]; exact List.mem_cons_self)
      obtain ⟨answer, hanswer⟩ := Option.isSome_iff_exists.mp (h.knows.answered hheap hreq)
      refine ⟨req, queue, answer, rfl, hanswer, ?_⟩
      simp [Daemon.step, hpc, fsEvent, hin, Daemon.process, hqueue, hanswer, dispatch, Client.step]
  · left
    simp [Daemon.step, hpc, fsEvent, hin, dispatch]

/-- What `epoll_wait` reports is there. -/
theorem fits_of_mem_readyEvents {e : Event} (h : e ∈ d.readyEvents) : d.Fits e := by
  unfold Daemon.readyEvents at h
  rcases List.mem_append.mp h with hsig | hfs
  · split_ifs at hsig with hready
    · obtain rfl := List.mem_singleton.mp hsig
      exact ⟨rfl, Finset.nonempty_iff_ne_empty.mpr hready.2⟩
    · cases hsig
  · split_ifs at hfs with hmounted hqueue
    · cases hfs
    · obtain rfl := List.mem_singleton.mp hfs
      exact fun _ _ => hqueue
    · obtain rfl := List.mem_singleton.mp hfs
      exact fun hin => absurd (by decide) hin

theorem nodup_readyEvents (d : Daemon) : (d.readyEvents.map Event.hdlr).Nodup := by
  unfold Daemon.readyEvents
  split_ifs <;> simp

theorem Daemon.Inv.step (h : d.Inv fmt pid s) (hheap : s.Heap) {a : Action} (hp : d.Possible a) :
    (d.step fmt pid s a).Inv fmt pid s := by
  cases a with
  | arrives signo =>
    refine { h with fits := fun e he => ?_ }
    obtain ⟨hdlr, evnts⟩ := e
    cases hdlr with
    | sigEvent => exact ⟨(h.fits _ he).1, signo, Finset.mem_insert_self signo d.pending⟩
    | fsEvent => exact h.fits _ he
  | wakes => exact { h with }
  | sends req =>
    refine { h with sends := fun r hr => ?_, fits := fun e he => ?_ }
    · rcases List.mem_append.mp hr with hr | hr
      · exact h.sends r hr
      · obtain rfl := List.mem_singleton.mp hr
        exact hp.2
    · obtain ⟨hdlr, evnts⟩ := e
      cases hdlr with
      | sigEvent => exact h.fits _ he
      | fsEvent => exact fun _ _ => List.append_ne_nil_of_right_ne_nil _ (List.cons_ne_nil _ _)
  | unmounts =>
    refine { h with sends := fun r hr => absurd hr List.not_mem_nil, fits := fun e he => ?_ }
    obtain ⟨hdlr, evnts⟩ := e
    cases hdlr with
    | sigEvent => exact h.fits _ he
    | fsEvent => exact fun _ hmounted => absurd hmounted Bool.false_ne_true
  | fails errno =>
    cases errno with
    | EINTR => exact h
    | EINVAL => exact h
    | EBADF | EFAULT =>
      exact { h with
        alive := by simp [Daemon.step]
        busy := by simp [Daemon.step]
        once := List.nodup_nil
        fits := fun e he => absurd he List.not_mem_nil }
  | polls events =>
    obtain ⟨-, -, hperm⟩ := hp
    refine { h with
      alive := next_ne_aborted events
      busy := next_ne_nil events
      once := ?_
      fits := fun e he => ?_ }
    · simp only [Daemon.step, events_next]
      exact ((hperm.map Event.hdlr).nodup_iff).mpr (nodup_readyEvents d)
    · simp only [Daemon.step, events_next] at he
      show d.Fits e
      exact fits_of_mem_readyEvents (hperm.mem_iff.mp he)
  | reads fdsi =>
    obtain ⟨signo, rest, -, -, hpc, hstep⟩ := h.reads_cases hp
    rw [hstep]
    have honce := h.once
    have hfits := h.fits
    rw [hpc] at honce hfits
    split_ifs with hexit
    · exact { h with
        alive := by simp
        busy := by simp
        once := List.nodup_nil
        fits := fun e he => absurd he List.not_mem_nil }
    · refine { h with
        alive := next_ne_aborted rest
        busy := next_ne_nil rest
        once := by rw [events_next]; exact (List.nodup_cons.mp honce).2
        fits := fun e he => ?_ }
      rw [events_next] at he
      have hother : e.hdlr ≠ .sigEvent := fun heq =>
        (List.nodup_cons.mp honce).1 (List.mem_map.mpr ⟨e, he, heq⟩)
      obtain ⟨hdlr, evnts⟩ := e
      cases hdlr with
      | sigEvent => exact absurd rfl hother
      | fsEvent => exact hfits _ (List.mem_cons_of_mem _ he)
  | serves =>
    obtain ⟨evnts, rest, hpc, hcases⟩ := h.serves_cases hheap hp
    have honce := h.once
    have hfits := h.fits
    rw [hpc] at honce hfits
    have hrest {d' : Daemon} {e : Event} (hpending : d'.pending = d.pending) (he : e ∈ rest) :
        d'.Fits e := by
      have hother : e.hdlr ≠ .fsEvent := fun heq =>
        (List.nodup_cons.mp honce).1 (List.mem_map.mpr ⟨e, he, heq⟩)
      have hold := hfits e (List.mem_cons_of_mem _ he)
      obtain ⟨hdlr, evnts⟩ := e
      cases hdlr with
      | sigEvent => exact ⟨hold.1, hpending ▸ hold.2⟩
      | fsEvent => exact absurd rfl hother
    have hnext : ((next rest).events.map Event.hdlr).Nodup := by
      rw [events_next]
      exact (List.nodup_cons.mp honce).2
    rcases hcases with hstep | ⟨req, queue, answer, hqueue, hanswer, hstep⟩
    · rw [hstep]
      exact { h with
        alive := next_ne_aborted rest
        busy := next_ne_nil rest
        once := hnext
        fits := fun e he => hrest rfl (by rwa [events_next] at he) }
    · rw [hstep]
      have hreq : d.client.Sends req := h.sends req (by rw [hqueue]; exact List.mem_cons_self)
      refine ⟨h.knows.step hheap hreq, fun r hr => ?_, fun x hx => ?_, next_ne_aborted rest,
        next_ne_nil rest, hnext, fun e he => hrest rfl (by rwa [events_next] at he)⟩
      · exact sends_learn (h.sends r (by rw [hqueue]; exact List.mem_cons_of_mem req hr)) _ _
      · rcases List.mem_append.mp hx with hx | hx
        · exact ⟨sends_learn (h.answered x hx).1 _ _, (h.answered x hx).2⟩
        · obtain rfl := List.mem_singleton.mp hx
          exact ⟨sends_learn hreq _ _, hanswer⟩

/-- A handler never waits. -/
theorem Daemon.Inv.exists_step (h : d.Inv fmt pid s) {events : List Event}
    (hpc : d.pc = .handling events) : ∃ a : Action, a.Runs = true ∧ d.Possible a := by
  cases events with
  | nil => exact absurd hpc h.busy
  | cons e rest =>
    have hfits := h.fits e (by rw [hpc]; exact List.mem_cons_self)
    obtain ⟨hdlr, evnts⟩ := e
    cases hdlr with
    | sigEvent =>
      obtain ⟨signo, hmem⟩ := hfits.2
      exact ⟨.reads (some signo), rfl, evnts, rest, hpc, hmem⟩
    | fsEvent => exact ⟨.serves, rfl, evnts, rest, hpc, hfits⟩

def Action.request : Action → Option Request
  | .sends req => some req
  | _ => none

def sent (actions : List Action) : List Request := actions.filterMap Action.request

/-- The requests are processed in the order in which they were sent, the signals have
arrived, and the loop has ended for a reason. -/
structure Traced (d : Daemon) (past : List Action) : Prop where
  order : d.log.map Prod.fst ++ d.queue <+: sent past
  whole : d.mounted = true → d.log.map Prod.fst ++ d.queue = sent past
  came : ∀ signo ∈ d.pending, .arrives signo ∈ past
  exits : d.pc = .left true → ∃ signo ∈ exitSignals, .arrives signo ∈ past
  failed : d.pc = .left false → .fails .EBADF ∈ past ∨ .fails .EFAULT ∈ past

theorem sent_append (past : List Action) (a : Action) :
    sent (past ++ [a]) = sent past ++ a.request.toList := by
  cases hreq : a.request with
  | none => simp [sent, hreq]
  | some req => simp [sent, hreq]

theorem Traced.later {past : List Action} (h : Traced d past) {a : Action}
    (ha : a.request = none) : Traced d (past ++ [a]) := by
  have hsent : sent (past ++ [a]) = sent past := by
    rw [sent_append, ha, Option.toList_none, List.append_nil]
  exact
    { order := hsent ▸ h.order
      whole := fun hm => hsent ▸ h.whole hm
      came := fun signo hmem => List.mem_append_left _ (h.came signo hmem)
      exits := fun hleft => (h.exits hleft).imp fun signo hx => ⟨hx.1, List.mem_append_left _ hx.2⟩
      failed := fun hleft =>
        (h.failed hleft).imp (List.mem_append_left [a]) (List.mem_append_left [a]) }

theorem next_ne_left (events : List Event) (rc : Bool) : next events ≠ .left rc := by
  cases events <;> simp [next]

theorem Traced.step {past : List Action} (h : Traced d past) (hinv : d.Inv fmt pid s)
    (hheap : s.Heap) {a : Action} (hp : d.Possible a) :
    Traced (d.step fmt pid s a) (past ++ [a]) := by
  cases a with
  | arrives signo =>
    refine { h.later (a := .arrives signo) rfl with came := fun x hx => ?_ }
    rcases Finset.mem_insert.mp hx with rfl | hx
    · exact List.mem_append_right past List.mem_cons_self
    · exact List.mem_append_left _ (h.came x hx)
  | wakes => exact { h.later (a := .wakes) rfl with }
  | sends req =>
    have hwhole : d.log.map Prod.fst ++ (d.queue ++ [req]) = sent (past ++ [.sends req]) := by
      rw [← List.append_assoc, h.whole hp.1, sent_append]
      rfl
    exact
      { order := hwhole ▸ List.prefix_rfl
        whole := fun _ => hwhole
        came := fun signo hmem => List.mem_append_left _ (h.came signo hmem)
        exits := fun hleft => (h.exits hleft).imp fun signo hx => ⟨hx.1, List.mem_append_left _ hx.2⟩
        failed := fun hleft =>
          (h.failed hleft).imp (List.mem_append_left _) (List.mem_append_left _) }
  | unmounts =>
    refine { h.later (a := .unmounts) rfl with
      order := ?_
      whole := fun hmounted => absurd hmounted Bool.false_ne_true }
    have horder := (h.later (a := .unmounts) rfl).order
    show d.log.map Prod.fst ++ [] <+: _
    rw [List.append_nil]
    exact (List.prefix_append _ _).trans horder
  | fails errno =>
    have hlater := h.later (a := .fails errno) rfl
    cases errno with
    | EINTR => exact hlater
    | EINVAL => exact hlater
    | EBADF =>
      refine { hlater with exits := fun hleft => ?_, failed := fun _ => .inl ?_ }
      · cases hleft
      · exact List.mem_append_right past List.mem_cons_self
    | EFAULT =>
      refine { hlater with exits := fun hleft => ?_, failed := fun _ => .inr ?_ }
      · cases hleft
      · exact List.mem_append_right past List.mem_cons_self
  | polls events =>
    exact { h.later (a := .polls events) rfl with
      exits := fun hleft => absurd hleft (next_ne_left events true)
      failed := fun hleft => absurd hleft (next_ne_left events false) }
  | reads fdsi =>
    have hlater := h.later (a := .reads fdsi) rfl
    obtain ⟨signo, rest, -, hmem, -, hstep⟩ := hinv.reads_cases hp
    rw [hstep]
    refine { hlater with
      came := fun x hx => hlater.came x (Finset.mem_of_mem_erase hx)
      exits := fun hleft => ?_
      failed := fun hleft => ?_ }
    · split_ifs at hleft with hexit
      · exact ⟨signo, hexit, hlater.came signo hmem⟩
      · exact absurd hleft (next_ne_left rest true)
    · split_ifs at hleft with hexit
      · cases hleft
      · exact absurd hleft (next_ne_left rest false)
  | serves =>
    have hlater := h.later (a := .serves) rfl
    obtain ⟨evnts, rest, -, hcases⟩ := hinv.serves_cases hheap hp
    have hnext (rc : Bool) : next rest ≠ .left rc := next_ne_left rest rc
    rcases hcases with hstep | ⟨req, queue, answer, hqueue, -, hstep⟩
    · rw [hstep]
      exact { hlater with
        exits := fun hleft => absurd hleft (hnext true)
        failed := fun hleft => absurd hleft (hnext false) }
    · rw [hstep]
      have hlog : (d.log ++ [(req, answer)]).map Prod.fst ++ queue =
          d.log.map Prod.fst ++ d.queue := by
        simp [hqueue]
      exact { hlater with
        order := hlog.symm ▸ hlater.order
        whole := fun hmounted => hlog.trans (hlater.whole hmounted)
        exits := fun hleft => absurd hleft (hnext true)
        failed := fun hleft => absurd hleft (hnext false) }

theorem traced_run (hheap : s.Heap) {past actions : List Action} (h : Traced d past)
    (hinv : d.Inv fmt pid s) (hrun : Guarded (Daemon.step fmt pid s) Daemon.Possible d actions) :
    Traced (runFrom (Daemon.step fmt pid s) d actions) (past ++ actions) := by
  induction actions generalizing d past with
  | nil => rwa [List.append_nil]
  | cons a actions ih =>
    have hnext := ih (h.step hinv hheap hrun.1) (hinv.step hheap hrun.1) hrun.2
    rwa [List.append_assoc] at hnext

theorem inv_run (hheap : s.Heap) {actions : List Action} (hinv : d.Inv fmt pid s)
    (hrun : Guarded (Daemon.step fmt pid s) Daemon.Possible d actions) :
    (runFrom (Daemon.step fmt pid s) d actions).Inv fmt pid s :=
  hrun.invariant (fun _ _ h hp => h.step hheap hp) hinv

/-- A run of the program in the system, with `libkernel.so` mounted. -/
def Run (fmt : DirentFormat (List UInt8)) (pid : ℕ) (actions : List Action) : Prop :=
  Guarded (Daemon.step fmt pid kldfs) Daemon.Possible start actions

theorem Run.inv {actions : List Action} (h : Run fmt pid actions) :
    (runFrom (Daemon.step fmt pid kldfs) start actions).Inv fmt pid kldfs :=
  inv_run (heap_of_run kldfs_eq) (inv_start (knows_mount live_one rfl)) h

theorem traced_start : Traced start [] where
  order := List.prefix_rfl
  whole _ := rfl
  came signo hmem := absurd hmem (Finset.notMem_empty signo)
  exits hleft := by cases hleft
  failed hleft := by cases hleft

/-- Whatever arrives and in whatever order: no assertion fails and no handler waits; the
requests are answered in the order in which they were sent, as the one file is specified,
and none is lost while the file system is mounted; and the loop ends for a signal that has
arrived or an error of `epoll_wait`. -/
theorem loop_answers (fmt : DirentFormat (List UInt8)) (hfmt : WritesRoot fmt) (pid : ℕ)
    (hpid : pid < 2 ^ 31) (actions : List Action)
    (h : Run fmt pid actions) :
    let d := runFrom (Daemon.step fmt pid kldfs) start actions
    d.pc ≠ .aborted ∧
      (∀ events, d.pc = .handling events → ∃ a : Action, a.Runs = true ∧ d.Possible a) ∧
      (∀ x ∈ d.log, x.2 = spec fmt pid x.1) ∧ Traced d actions := by
  intro d
  have hinv : d.Inv fmt pid kldfs := h.inv
  refine ⟨hinv.alive, fun events hpc => hinv.exists_step hpc, fun x hx => ?_, ?_⟩
  · obtain ⟨hsends, hanswer⟩ := hinv.answered x hx
    have hspec := handle_eq_spec hfmt hpid hinv.knows hsends
    exact Option.some.inj (hanswer.symm.trans hspec)
  · have htraced := traced_run (heap_of_run kldfs_eq) traced_start
      (inv_start (knows_mount live_one rfl)) h
    rwa [List.nil_append] at htraced

/-- A request and a signal, reported together. -/
def lookupAndTerm : List Action :=
  [.sends (.lookup 1 libkernel), .arrives .sigterm,
    .polls [⟨.fsEvent, EPOLLIN⟩, ⟨.sigEvent, EPOLLIN⟩], .serves, .reads (some .sigterm)]

theorem run_lookupAndTerm : Run fuseDirent 123 lookupAndTerm := by
  have hterm : Signal.sigterm ∈ termSignals := by decide
  refine ⟨⟨rfl, Finset.mem_singleton_self 1⟩, hterm, ⟨rfl, by simp, ?_⟩,
    ⟨EPOLLIN, [⟨.sigEvent, EPOLLIN⟩], rfl, fun _ _ => List.cons_ne_nil _ _⟩, ?_, trivial⟩
  · exact List.Perm.swap _ _ []
  · exact ⟨EPOLLIN, [], rfl, Finset.mem_singleton_self Signal.sigterm⟩

theorem loop_answers_lookup :
    let d := runFrom (Daemon.step fuseDirent 123 kldfs) start lookupAndTerm
    d.pc ≠ .aborted ∧
      (∀ events, d.pc = .handling events → ∃ a : Action, a.Runs = true ∧ d.Possible a) ∧
      (∀ x ∈ d.log, x.2 = spec fuseDirent 123 x.1) ∧ Traced d lookupAndTerm :=
  loop_answers fuseDirent (fun e _ => (fuseDirent_length e).1) 123 (by decide) lookupAndTerm
    run_lookupAndTerm

/-- The loop waits, for requests only, with a signal pending that would end it. -/
def Daemon.Deaf (d : Daemon) : Prop :=
  d.pc = .waiting ∧ d.ready = false ∧ ∃ signo ∈ d.pending, signo ∈ exitSignals

/-- Every signal that is pending ends the loop once it is read, and is going to be read. -/
structure Daemon.Awake (d : Daemon) : Prop where
  only : d.pending ⊆ exitSignals
  seen : d.pending.Nonempty →
    d.ready = true ∨ Hdlr.sigEvent ∈ d.pc.events.map Event.hdlr ∨ ∃ rc, d.pc = .left rc

theorem awake_start : start.Awake where
  only := Finset.empty_subset _
  seen h := absurd h Finset.not_nonempty_empty

theorem exitSignals_of_ne {signo : Signal} (h : signo ∈ termSignals) (hne : signo ≠ .sigquit) :
    signo ∈ exitSignals := by
  revert h hne
  cases signo <;> decide

/-- With a signal pending, `epoll_wait` reports it. -/
theorem Daemon.Awake.polled (h : d.Awake) {events : List Event} (hp : d.Possible (.polls events))
    (hsome : d.pending.Nonempty) : Hdlr.sigEvent ∈ events.map Event.hdlr := by
  obtain ⟨hpc, -, hperm⟩ := hp
  have hready : d.ready = true := by
    have hseen := h.seen hsome
    rw [hpc] at hseen
    simpa [Pc.events] using hseen
  have hmem : Event.mk .sigEvent EPOLLIN ∈ d.readyEvents := by
    unfold Daemon.readyEvents
    rw [if_pos ⟨hready, hsome.ne_empty⟩]
    exact List.mem_append_left _ List.mem_cons_self
  exact List.mem_map_of_mem (hperm.mem_iff.mpr hmem)

theorem Daemon.Awake.step (h : d.Awake) (hinv : d.Inv fmt pid s) (hheap : s.Heap) {a : Action}
    (hp : d.Possible a) (hquit : a ≠ .arrives .sigquit) : (d.step fmt pid s a).Awake := by
  cases a with
  | arrives signo =>
    have hexit : signo ∈ exitSignals :=
      exitSignals_of_ne hp fun heq => hquit (congrArg Action.arrives heq)
    refine ⟨Finset.insert_subset hexit h.only, fun _ => ?_⟩
    by_cases hmem : signo ∈ d.pending
    · exact (h.seen ⟨signo, hmem⟩).imp_left fun hready => by simp [Daemon.step, hready]
    · exact .inl (by simp [Daemon.step, hmem])
  | wakes => exact ⟨h.only, fun _ => .inl rfl⟩
  | sends req => exact ⟨h.only, h.seen⟩
  | unmounts => exact ⟨h.only, h.seen⟩
  | fails errno =>
    cases errno with
    | EINTR => exact h
    | EINVAL => exact h
    | EBADF => exact ⟨h.only, fun _ => .inr (.inr ⟨false, rfl⟩)⟩
    | EFAULT => exact ⟨h.only, fun _ => .inr (.inr ⟨false, rfl⟩)⟩
  | polls events =>
    refine ⟨h.only, fun hsome => .inr (.inl ?_)⟩
    simp only [Daemon.step, events_next]
    exact h.polled hp hsome
  | reads fdsi =>
    obtain ⟨signo, rest, -, hmem, -, hstep⟩ := hinv.reads_cases hp
    rw [hstep, if_pos (h.only hmem)]
    exact ⟨(Finset.erase_subset signo d.pending).trans h.only, fun _ => .inr (.inr ⟨true, rfl⟩)⟩
  | serves =>
    obtain ⟨evnts, rest, hpc, hcases⟩ := hinv.serves_cases hheap hp
    have hseen (hsome : d.pending.Nonempty) : d.ready = true ∨
        Hdlr.sigEvent ∈ (next rest).events.map Event.hdlr ∨ ∃ rc, next rest = .left rc := by
      rcases h.seen hsome with hready | hmem | ⟨rc, hleft⟩
      · exact .inl hready
      · rw [hpc] at hmem
        rw [events_next]
        exact .inr (.inl ((List.mem_cons.mp hmem).resolve_left (by simp)))
      · rw [hpc] at hleft
        cases hleft
    rcases hcases with hstep | ⟨req, queue, answer, -, -, hstep⟩
    · rw [hstep]
      exact ⟨h.only, hseen⟩
    · rw [hstep]
      exact ⟨h.only, hseen⟩

/-- Both invariants along a run without `sigquit`. -/
theorem awake_run {actions : List Action} (h : Run fmt pid actions)
    (hquit : .arrives .sigquit ∉ actions) :
    (runFrom (Daemon.step fmt pid kldfs) start actions).Awake := by
  have hne : ∀ a ∈ actions, a ≠ .arrives .sigquit := fun a ha heq => hquit (heq ▸ ha)
  have hboth := (h.and_forall hne).invariant (I := fun d => d.Inv fmt pid kldfs ∧ d.Awake)
    (fun d a hd hp => ⟨hd.1.step (heap_of_run kldfs_eq) hp.1,
      hd.2.step hd.1 (heap_of_run kldfs_eq) hp.1 hp.2⟩)
    ⟨inv_start (knows_mount live_one rfl), awake_start⟩
  exact hboth.2

theorem Daemon.Awake.not_deaf (h : d.Awake) : ¬ d.Deaf := by
  rintro ⟨hpc, hready, signo, hmem, -⟩
  have hseen := h.seen ⟨signo, hmem⟩
  rw [hpc, hready] at hseen
  simp [Pc.events] at hseen

/-- `sigquit` and another signal arrive; the first is read, at the only edge. -/
def corner (signo : Signal) : List Action :=
  [.arrives .sigquit, .arrives signo, .polls [⟨.sigEvent, EPOLLIN⟩], .reads (some .sigquit)]

theorem run_corner {signo : Signal} (h : signo ∈ termSignals) : Run fmt pid (corner signo) := by
  have hquit : Signal.sigquit ∈ termSignals := by decide
  refine ⟨hquit, h, ⟨rfl, by simp, ?_⟩, ⟨EPOLLIN, [], rfl, ?_⟩, trivial⟩
  · simp [Daemon.readyEvents, Daemon.step, start]
  · simp [Daemon.step, start]

theorem deaf_corner {signo : Signal} (h : signo ∈ termSignals) (hne : signo ≠ .sigquit) :
    (runFrom (Daemon.step fmt pid kldfs) start (corner signo)).Deaf := by
  refine ⟨rfl, rfl, signo, ?_, exitSignals_of_ne h hne⟩
  show signo ∈ (insert signo (insert Signal.sigquit ∅) : Finset Signal).erase .sigquit
  exact Finset.mem_erase.mpr ⟨hne, Finset.mem_insert_self _ _⟩

/-- A signal that ends the program can stay unread, with the loop waiting for requests
only, if and only if `sigquit` is among the signals sent and is not the only one. It is
blocked like the others, and no case of the switch. -/
theorem never_deaf_iff (fmt : DirentFormat (List UInt8)) (pid : ℕ) (signals : Finset Signal)
    (hmask : signals ⊆ termSignals) :
    (∀ actions, Run fmt pid actions → (∀ signo, .arrives signo ∈ actions → signo ∈ signals) →
      ¬ (runFrom (Daemon.step fmt pid kldfs) start actions).Deaf) ↔
    (.sigquit ∈ signals → signals ⊆ {.sigquit}) := by
  constructor
  · intro h hquit signo hsigno
    by_contra hne
    rw [Finset.mem_singleton] at hne
    refine h (corner signo) (run_corner (hmask hsigno)) (fun x hx => ?_)
      (deaf_corner (hmask hsigno) hne)
    have hcases : x = .sigquit ∨ x = signo := by simpa [corner] using hx
    rcases hcases with rfl | rfl
    · exact hquit
    · exact hsigno
  · intro h actions hrun hsignals
    by_cases hquit : .sigquit ∈ signals
    · rintro ⟨-, -, signo, hmem, hexit⟩
      have htraced := traced_run (heap_of_run kldfs_eq) traced_start
        (inv_start (knows_mount live_one rfl)) hrun
      have harrived := htraced.came signo hmem
      rw [List.nil_append] at harrived
      obtain rfl := Finset.mem_singleton.mp (h hquit (hsignals signo harrived))
      exact absurd hexit (by decide)
    · exact (awake_run hrun fun hmem => hquit (hsignals _ hmem)).not_deaf

theorem never_deaf_hangup_term :
    (∀ actions, Run fuseDirent 123 actions →
      (∀ signo, .arrives signo ∈ actions → signo ∈ ({.sighup, .sigterm} : Finset Signal)) →
      ¬ (runFrom (Daemon.step fuseDirent 123 kldfs) start actions).Deaf) ↔
    (.sigquit ∈ ({.sighup, .sigterm} : Finset Signal) →
      ({.sighup, .sigterm} : Finset Signal) ⊆ {.sigquit}) :=
  never_deaf_iff fuseDirent 123 {.sighup, .sigterm} (by decide)

/-- Signals that are pending already, and errors after which the loop goes on. -/
def Action.Quiet (pending : Finset Signal) : Action → Prop
  | .arrives signo => signo ∈ pending
  | .wakes | .fails .EBADF | .fails .EFAULT => False
  | .sends _ | .unmounts | .fails .EINTR | .fails .EINVAL | .polls _ | .reads _ | .serves => True

/-- The loop that takes events of the file system only. -/
structure Daemon.Deafened (pending : Finset Signal) (d : Daemon) : Prop where
  same : d.pending = pending
  unready : d.ready = false
  files : ∀ e ∈ d.pc.events, e.hdlr = .fsEvent
  stays : ∀ rc, d.pc ≠ .left rc

theorem Daemon.Deafened.step {pending : Finset Signal} (h : d.Deafened pending)
    (hinv : d.Inv fmt pid s) (hheap : s.Heap) {a : Action} (hp : d.Possible a)
    (hquiet : a.Quiet pending) : (d.step fmt pid s a).Deafened pending := by
  cases a with
  | arrives signo =>
    have hmem : signo ∈ d.pending := h.same ▸ hquiet
    exact { h with
      same := (Finset.insert_eq_of_mem hmem).trans h.same
      unready := by simp [Daemon.step, h.unready, hmem] }
  | wakes => exact hquiet.elim
  | sends req => exact { h with }
  | unmounts => exact { h with }
  | fails errno =>
    cases errno with
    | EINTR => exact h
    | EINVAL => exact h
    | EBADF => exact hquiet.elim
    | EFAULT => exact hquiet.elim
  | polls events =>
    obtain ⟨-, -, hperm⟩ := hp
    refine { h with unready := rfl, files := fun e he => ?_, stays := next_ne_left events }
    simp only [Daemon.step, events_next] at he
    have hready := hperm.mem_iff.mp he
    unfold Daemon.readyEvents at hready
    rw [if_neg (by simp [h.unready]), List.nil_append] at hready
    split_ifs at hready with hmounted hqueue
    · cases hready
    · rw [List.mem_singleton.mp hready]
    · rw [List.mem_singleton.mp hready]
  | reads fdsi =>
    obtain ⟨signo, rest, -, -, hpc, -⟩ := hinv.reads_cases hp
    have hfile := h.files ⟨.sigEvent, EPOLLIN⟩ (by rw [hpc]; exact List.mem_cons_self)
    cases hfile
  | serves =>
    obtain ⟨evnts, rest, hpc, hcases⟩ := hinv.serves_cases hheap hp
    have hfiles (e : Event) (he : e ∈ (next rest).events) : e.hdlr = .fsEvent := by
      rw [events_next] at he
      exact h.files e (by rw [hpc]; exact List.mem_cons_of_mem _ he)
    rcases hcases with hstep | ⟨req, queue, answer, -, -, hstep⟩
    · rw [hstep]
      exact { h with files := hfiles, stays := next_ne_left rest }
    · rw [hstep]
      exact { h with files := hfiles, stays := next_ne_left rest }

/-- Once deaf, the loop serves requests and does not end, however often the signals that are
pending are sent again. -/
theorem deaf_stays (fmt : DirentFormat (List UInt8)) (pid : ℕ) (before after : List Action)
    (h : Run fmt pid (before ++ after))
    (hdeaf : (runFrom (Daemon.step fmt pid kldfs) start before).Deaf)
    (hquiet : ∀ a ∈ after, a.Quiet (runFrom (Daemon.step fmt pid kldfs) start before).pending) :
    let d := runFrom (Daemon.step fmt pid kldfs) start (before ++ after)
    d.pending = (runFrom (Daemon.step fmt pid kldfs) start before).pending ∧
      ∀ rc, d.pc ≠ .left rc := by
  intro d
  obtain ⟨hbefore, hafter⟩ := guarded_append.mp h
  set mid := runFrom (Daemon.step fmt pid kldfs) start before with hmid
  have hinv : mid.Inv fmt pid kldfs := Run.inv hbefore
  have hstart : mid.Deafened mid.pending :=
    { same := rfl
      unready := hdeaf.2.1
      files := fun e he => by simp [hdeaf.1, Pc.events] at he
      stays := fun rc hleft => by simp [hdeaf.1] at hleft }
  have hboth := (hafter.and_forall hquiet).invariant
    (I := fun d => d.Inv fmt pid kldfs ∧ d.Deafened mid.pending)
    (fun d a hd hp => ⟨hd.1.step (heap_of_run kldfs_eq) hp.1,
      hd.2.step hd.1 (heap_of_run kldfs_eq) hp.1 hp.2⟩) ⟨hinv, hstart⟩
  have hend : d = runFrom (Daemon.step fmt pid kldfs) mid after := runFrom_append _ _ _
  rw [hend]
  exact ⟨hboth.2.same, hboth.2.stays⟩

/-- After the corner, `sigterm` is sent once more and a request is served. -/
theorem deaf_stays_term :
    let d := runFrom (Daemon.step fuseDirent 123 kldfs) start (corner .sigterm ++
      [.arrives .sigterm, .sends (.lookup 1 libkernel), .polls [⟨.fsEvent, EPOLLIN⟩], .serves])
    d.pending = (runFrom (Daemon.step fuseDirent 123 kldfs) start (corner .sigterm)).pending ∧
      ∀ rc, d.pc ≠ .left rc := by
  have hterm : Signal.sigterm ∈ termSignals := by decide
  have hpending : Signal.sigterm ∈
      (runFrom (Daemon.step fuseDirent 123 kldfs) start (corner .sigterm)).pending := by decide
  refine deaf_stays fuseDirent 123 (corner .sigterm) _
    (guarded_append.mpr ⟨run_corner hterm, hterm, ⟨rfl, Finset.mem_singleton_self 1⟩,
      ⟨rfl, by simp, List.Perm.refl _⟩,
      ⟨EPOLLIN, [], rfl, fun _ _ => List.cons_ne_nil _ _⟩, trivial⟩)
    (deaf_corner hterm (by decide)) fun a ha => ?_
  simp only [List.mem_cons, List.not_mem_nil, or_false] at ha
  rcases ha with rfl | rfl | rfl | rfl
  · exact hpending
  · trivial
  · trivial
  · trivial

/-- The most steps until the signal is read, with one poll ahead if no signal event is left. -/
def toSignal : List Event → ℕ
  | [] => 3
  | ⟨.sigEvent, _⟩ :: _ => 1
  | ⟨.fsEvent, _⟩ :: rest => toSignal rest + 1

def Daemon.stepsLeft (d : Daemon) : ℕ :=
  match d.pc with
  | .waiting => 3
  | .handling events => toSignal events
  | .left _ | .aborted => 0

theorem stepsLeft_next {events : List Event} (h : d.pc = next events) :
    d.stepsLeft = toSignal events := by
  rw [Daemon.stepsLeft, h]
  cases events <;> rfl

/-- At most one event of the file system comes before. -/
theorem toSignal_le {events : List Event} (hnodup : (events.map Event.hdlr).Nodup) :
    toSignal events ≤ 4 ∧ (.sigEvent ∈ events.map Event.hdlr → toSignal events ≤ 2) := by
  rcases events with - | ⟨⟨_ | _, evnts⟩, rest⟩
  · simp [toSignal]
  · simp [toSignal]
  · rcases rest with - | ⟨⟨_ | _, evnts'⟩, rest⟩
    · simp [toSignal]
    · simp [toSignal]
    · simp at hnodup

/-- A signal is pending, or the loop has ended. -/
def Daemon.Called (d : Daemon) : Prop := d.pending.Nonempty ∨ ∃ rc, d.pc = .left rc

/-- Each of the program's steps is one nearer to the end. -/
theorem Daemon.Called.step (h : d.Called) (hawake : d.Awake) (hinv : d.Inv fmt pid s)
    (hheap : s.Heap) {a : Action} (hp : d.Possible a) :
    (d.step fmt pid s a).Called ∧
      (d.step fmt pid s a).stepsLeft + (if a.Runs then 1 else 0) ≤ d.stepsLeft := by
  cases a with
  | arrives signo => exact ⟨.inl ⟨signo, Finset.mem_insert_self signo d.pending⟩, le_rfl⟩
  | wakes => exact ⟨h, le_rfl⟩
  | sends req => exact ⟨h, le_rfl⟩
  | unmounts => exact ⟨h, le_rfl⟩
  | fails errno =>
    cases errno with
    | EINTR => exact ⟨h, le_rfl⟩
    | EINVAL => exact ⟨h, le_rfl⟩
    | EBADF => exact ⟨.inr ⟨false, rfl⟩, Nat.zero_le _⟩
    | EFAULT => exact ⟨.inr ⟨false, rfl⟩, Nat.zero_le _⟩
  | polls events =>
    have hsome : d.pending.Nonempty := h.resolve_right fun ⟨rc, hrc⟩ => by simp [hp.1] at hrc
    have honce := (hinv.step hheap hp).once
    simp only [Daemon.step, events_next] at honce
    refine ⟨.inl hsome, ?_⟩
    have hle := (toSignal_le honce).2 (hawake.polled hp hsome)
    have hnow : d.stepsLeft = 3 := by rw [Daemon.stepsLeft, hp.1]
    rw [hnow]
    exact Nat.succ_le_succ ((stepsLeft_next rfl).le.trans hle)
  | reads fdsi =>
    obtain ⟨signo, rest, -, hmem, hpc, hstep⟩ := hinv.reads_cases hp
    rw [hstep, if_pos (hawake.only hmem)]
    refine ⟨.inr ⟨true, rfl⟩, ?_⟩
    rw [Daemon.stepsLeft, Daemon.stepsLeft, hpc]
    exact le_rfl
  | serves =>
    obtain ⟨evnts, rest, hpc, hcases⟩ := hinv.serves_cases hheap hp
    have hsome : d.pending.Nonempty := h.resolve_right fun ⟨rc, hrc⟩ => by simp [hpc] at hrc
    have hleft : d.stepsLeft = toSignal rest + 1 := by rw [Daemon.stepsLeft, hpc]; rfl
    rcases hcases with hstep | ⟨req, queue, answer, -, -, hstep⟩
    · rw [hstep, stepsLeft_next rfl, hleft]
      exact ⟨.inl hsome, le_rfl⟩
    · rw [hstep, stepsLeft_next rfl, hleft]
      exact ⟨.inl hsome, le_rfl⟩

theorem Daemon.Inv.stepsLeft_le (h : d.Inv fmt pid s) : d.stepsLeft ≤ 4 := by
  have honce := h.once
  unfold Daemon.stepsLeft
  cases hpc : d.pc with
  | waiting => exact Nat.le_of_ble_eq_true rfl
  | handling events =>
    rw [hpc] at honce
    exact (toSignal_le honce).1
  | left rc => exact Nat.zero_le 4
  | aborted => exact Nat.zero_le 4

/-- With a signal pending the program can go on. -/
theorem Daemon.Awake.exists_step (h : d.Awake) (hinv : d.Inv fmt pid s) (hsome : d.pending.Nonempty)
    (hstay : ∀ rc, d.pc ≠ .left rc) : ∃ a : Action, a.Runs = true ∧ d.Possible a := by
  cases hpc : d.pc with
  | waiting =>
    refine ⟨.polls d.readyEvents, rfl, hpc, fun hnil => ?_, List.Perm.refl _⟩
    have hseen := h.seen hsome
    rw [hpc] at hseen
    simp [Daemon.readyEvents, hsome.ne_empty, Pc.events] at hnil hseen
    simp [hseen] at hnil
  | handling events => exact hinv.exists_step hpc
  | left rc => exact absurd hpc (hstay rc)
  | aborted => exact absurd hpc hinv.alive

/-- Without `sigquit`, at most four steps of the program come after a signal, however many
requests wait; until then there is always one that can be taken. -/
theorem stops_within (fmt : DirentFormat (List UInt8)) (pid : ℕ) (before after : List Action)
    (h : Run fmt pid (before ++ after))
    (hquit : .arrives .sigquit ∉ before ++ after) (signo : Signal)
    (hsigno : .arrives signo ∈ before) :
    let d := runFrom (Daemon.step fmt pid kldfs) start (before ++ after)
    after.countP Action.Runs ≤ 4 ∧
      ((∃ rc, d.pc = .left rc) ∨ ∃ a : Action, a.Runs = true ∧ d.Possible a) := by
  intro d
  have hne : ∀ a ∈ before ++ after, a ≠ .arrives .sigquit := fun a ha heq => hquit (heq ▸ ha)
  obtain ⟨hbefore, hafter⟩ := guarded_append.mp (h.and_forall hne)
  set mid := runFrom (Daemon.step fmt pid kldfs) start before
  have hheap := heap_of_run kldfs_eq
  have hstep (d : Daemon) (a : Action) (hd : d.Inv fmt pid kldfs ∧ d.Awake)
      (hp : d.Possible a ∧ a ≠ .arrives .sigquit) :
      (d.step fmt pid kldfs a).Inv fmt pid kldfs ∧ (d.step fmt pid kldfs a).Awake :=
    ⟨hd.1.step hheap hp.1, hd.2.step hd.1 hheap hp.1 hp.2⟩
  have hfirst : start.Inv fmt pid kldfs ∧ start.Awake :=
    ⟨inv_start (knows_mount live_one rfl), awake_start⟩
  have hmid := hbefore.invariant hstep hfirst
  have hcalled : mid.Called := hbefore.established (J := Daemon.Called) hstep
    (fun d hd hp => (Or.inl ⟨signo, Finset.mem_insert_self signo d.pending⟩ :
      (d.step fmt pid kldfs (.arrives signo)).Called))
    (fun d a hd hcalled hp => (hcalled.step hd.2 hd.1 hheap hp.1).1) hfirst hsigno
  have hcount := hafter.countP_add_le
    (I := fun d => (d.Inv fmt pid kldfs ∧ d.Awake) ∧ d.Called) (μ := Daemon.stepsLeft)
    (p := Action.Runs)
    (fun d a hd hp => by
      obtain ⟨hnext, hdrop⟩ := hd.2.step hd.1.2 hd.1.1 hheap hp.1
      exact ⟨⟨hstep d a hd.1 hp, hnext⟩, hdrop⟩) ⟨hmid, hcalled⟩
  have hlast := hafter.invariant (I := fun d => (d.Inv fmt pid kldfs ∧ d.Awake) ∧ d.Called)
    (fun d a hd hp => ⟨hstep d a hd.1 hp, (hd.2.step hd.1.2 hd.1.1 hheap hp.1).1⟩)
    ⟨hmid, hcalled⟩
  have hend : d = runFrom (Daemon.step fmt pid kldfs) mid after := runFrom_append _ _ _
  rw [← hend] at hlast
  refine ⟨(Nat.le_of_add_right_le hcount).trans hmid.1.stepsLeft_le, ?_⟩
  by_cases hleft : ∃ rc, d.pc = .left rc
  · exact .inl hleft
  · have hstay (rc : Bool) : d.pc ≠ .left rc := fun heq => hleft ⟨rc, heq⟩
    have hsome := hlast.2.resolve_right hleft
    exact .inr (hlast.1.2.exists_step hlast.1.1 hsome hstay)

theorem stops_within_lookup :
    let d := runFrom (Daemon.step fuseDirent 123 kldfs) start lookupAndTerm
    [Action.polls [⟨.fsEvent, EPOLLIN⟩, ⟨.sigEvent, EPOLLIN⟩], .serves,
        .reads (some .sigterm)].countP Action.Runs ≤ 4 ∧
      ((∃ rc, d.pc = .left rc) ∨ ∃ a : Action, a.Runs = true ∧ d.Possible a) :=
  stops_within fuseDirent 123 [.sends (.lookup 1 libkernel), .arrives .sigterm]
    [.polls [⟨.fsEvent, EPOLLIN⟩, ⟨.sigEvent, EPOLLIN⟩], .serves, .reads (some .sigterm)]
    run_lookupAndTerm (by decide) .sigterm (by decide)

end SymbiOS.Kld.Loop
