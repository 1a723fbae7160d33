import SymbiOS.BitStruct
import SymbiOS.InterposerHandlers

/-!
# The debug and breakpoint traps of the interposer

`db_c_entry` looks which of the four hardware breakpoints has been hit, takes it out of DR7,
and leaves a record of the interrupted program on a scratchpad whose address is in the last
word of the handler's own page. `bp_c_entry` puts the byte back that an `int3` replaced. Both
are called by a handler that returns from the trap.
-/
namespace SymbiOS.DebugTrap
open SymbiOS.X86 SymbiOS.InterposerHandlers

inductive Dr6Field
  | B (n : Fin 4)
  | Res | BD | BS | BT
  deriving DecidableEq

/-- `unnamed` fields are gaps. -/
inductive Dr7Field
  | L (n : Fin 4)
  | G (n : Fin 4)
  | LE | GE | unnamed10 | GD | unnamed14
  | RW (n : Fin 4)
  | LEN (n : Fin 4)
  | unnamed32
  deriving DecidableEq

def Dr6Field.width : Dr6Field → ℕ
  | .Res => 9
  | _ => 1

def Dr7Field.width : Dr7Field → ℕ
  | .RW _ | .LEN _ | .unnamed14 => 2
  | .unnamed10 => 3
  | .unnamed32 => 32
  | _ => 1

def DR6 : BitStruct Dr6Field where
  order := [.B 0, .B 1, .B 2, .B 3, .Res, .BD, .BS, .BT]
  width := Dr6Field.width

def DR7 : BitStruct Dr7Field where
  order := [.L 0, .G 0, .L 1, .G 1, .L 2, .G 2, .L 3, .G 3, .LE, .GE, .unnamed10, .GD, .unnamed14,
    .RW 0, .LEN 0, .RW 1, .LEN 1, .RW 2, .LEN 2, .RW 3, .LEN 3, .unnamed32]
  width := Dr7Field.width

/-- One of the tests: a status bit of DR6, an enable bit and a condition of DR7, and the
number that is noted. -/
structure Check where
  status : Dr6Field
  enable : Dr7Field
  condition : Dr7Field
  number : ℕ
  deriving DecidableEq

def globalCheck (n : Fin 4) : Check := ⟨.B n, .G n, .RW n, n⟩

def localCheck (n : Fin 4) : Check := ⟨.B n, .L n, .RW n, n⟩

def checks : List Check :=
  [globalCheck 0, globalCheck 1, globalCheck 2, globalCheck 3,
    localCheck 0, localCheck 1, localCheck 2, localCheck 3]

def fires (dr6 dr7 : Word) (c : Check) : Bool :=
  decide (DR6.get dr6 c.status ≠ 0) && decide (DR7.get dr7 c.enable ≠ 0)

def check (dr6 : Word) (s : Word × ℕ) (c : Check) : Word × ℕ :=
  if fires dr6 s.1 c then (DR7.set (DR7.set s.1 c.enable 0) c.condition 0, c.number) else s

/-- DR7 after the tests, and `dr_hit`, which is 9 if none succeeds. -/
def runChecks (dr6 dr7 : Word) : Word × ℕ := checks.foldl (check dr6) (dr7, 9)

def newDr7 (dr6 dr7 : Word) : Word := (runChecks dr6 dr7).1

def drHit (dr6 dr7 : Word) : ℕ := (runChecks dr6 dr7).2

variable {dr6 dr7 : Word} {cs : List Check} {c : Check} {f : Dr7Field}

lemma dr7_stop_le (f : Dr7Field) : DR7.stop f ≤ 64 := by
  cases f with
  | L n | G n | RW n | LEN n =>
    revert n
    decide
  | _ => decide

lemma dr7_disjoint {f g : Dr7Field} (h : f ≠ g) :
    DR7.stop f ≤ DR7.start g ∨ DR7.stop g ≤ DR7.start f := by
  have horder : ∀ f ∈ DR7.order, ∀ g ∈ DR7.order, f ≠ g →
      DR7.stop f ≤ DR7.start g ∨ DR7.stop g ≤ DR7.start f := by decide
  have hmem : ∀ f, f ∈ DR7.order := by
    intro f
    cases f with
    | L n | G n | RW n | LEN n =>
      revert n
      decide
    | _ => decide
  exact horder f (hmem f) g (hmem g) h

lemma get_set (f g : Dr7Field) (raw : Word) :
    DR7.get (DR7.set raw f 0) g = if g = f then 0 else DR7.get raw g := by
  by_cases h : g = f
  · subst h
    rw [if_pos rfl, BitStruct.get_set_self DR7 raw (dr7_stop_le g)]
  · rw [if_neg h, BitStruct.get_set_of_disjoint DR7 raw (dr7_stop_le g) (dr7_disjoint (Ne.symm h))]

lemma get_check (s : Word × ℕ) (c : Check) (f : Dr7Field) :
    DR7.get (check dr6 s c).1 f =
      if fires dr6 s.1 c = true ∧ (f = c.enable ∨ f = c.condition) then 0 else DR7.get s.1 f := by
  rw [check]
  by_cases hfires : fires dr6 s.1 c = true
  · rw [if_pos hfires, get_set, get_set]
    by_cases hc : f = c.condition
    · rw [if_pos hc, if_pos ⟨hfires, Or.inr hc⟩]
    · by_cases he : f = c.enable
      · rw [if_neg hc, if_pos he, if_pos ⟨hfires, Or.inl he⟩]
      · rw [if_neg hc, if_neg he, if_neg fun h => h.2.elim he hc]
  · rw [if_neg hfires, if_neg fun h => hfires h.1]

/-- Tests whose enable bits are their own. -/
structure Separate (cs : List Check) : Prop where
  enables : (cs.map Check.enable).Nodup
  conditions : ∀ c ∈ cs, ∀ d ∈ cs, c.enable ≠ d.condition

lemma Separate.init (h : Separate (cs ++ [c])) : Separate cs := by
  refine ⟨?_, fun a ha b hb =>
    h.conditions a (List.mem_append_left _ ha) b (List.mem_append_left _ hb)⟩
  have hall := h.enables
  rw [List.map_append] at hall
  exact List.Nodup.of_append_left hall

/-- If the fields are as the tests before the last one leave them, the last one succeeds as it
would have at the outset. -/
lemma fires_of_get {s : Word} (hcs : Separate (cs ++ [c]))
    (hget : ∀ f, DR7.get s f =
      if ∃ d ∈ cs, fires dr6 dr7 d = true ∧ (f = d.enable ∨ f = d.condition) then 0
      else DR7.get dr7 f) :
    fires dr6 s c = fires dr6 dr7 c := by
  have henable : DR7.get s c.enable = DR7.get dr7 c.enable := by
    rw [hget, if_neg]
    rintro ⟨d, hd, -, he | he⟩
    · have hall := hcs.enables
      rw [List.map_append, List.nodup_append] at hall
      exact hall.2.2 _ (List.mem_map_of_mem hd) _ (List.mem_singleton.mpr rfl) he.symm
    · exact hcs.conditions c (by simp) d (List.mem_append_left _ hd) he
  rw [fires, fires, henable]

/-- After such tests a field is zero if one of them succeeded at the outset and clears it. -/
lemma get_foldl_check (hcs : Separate cs) (f : Dr7Field) :
    DR7.get (cs.foldl (check dr6) (dr7, 9)).1 f =
      if ∃ c ∈ cs, fires dr6 dr7 c = true ∧ (f = c.enable ∨ f = c.condition) then 0
      else DR7.get dr7 f := by
  induction cs using List.reverseRecOn generalizing f with
  | nil => simp
  | append_singleton cs c ih =>
    rw [List.foldl_append, List.foldl_cons, List.foldl_nil, get_check,
      fires_of_get hcs (ih hcs.init), ih hcs.init]
    by_cases hlast : fires dr6 dr7 c = true ∧ (f = c.enable ∨ f = c.condition)
    · rw [if_pos hlast, if_pos ⟨c, by simp, hlast⟩]
    · rw [if_neg hlast]
      refine if_congr ⟨fun ⟨d, hd, h⟩ => ⟨d, List.mem_append_left _ hd, h⟩, ?_⟩ rfl rfl
      rintro ⟨d, hd, h⟩
      rcases List.mem_append.mp hd with hd | hd
      · exact ⟨d, hd, h⟩
      · rw [List.mem_singleton.mp hd] at h
        exact absurd h hlast

/-- The number is that of the last test that succeeds. -/
lemma number_foldl_check (hcs : Separate cs) :
    (cs.foldl (check dr6) (dr7, 9)).2 =
      ((cs.reverse.find? (fires dr6 dr7)).map Check.number).getD 9 := by
  induction cs using List.reverseRecOn with
  | nil => rfl
  | append_singleton cs c ih =>
    rw [List.foldl_append, List.foldl_cons, List.foldl_nil, check,
      fires_of_get hcs (get_foldl_check hcs.init), List.reverse_append, List.reverse_singleton,
      List.singleton_append]
    cases hc : fires dr6 dr7 c
    · rw [if_neg (by decide), ih hcs.init, List.find?_cons_of_neg (by rw [hc]; decide)]
    · rw [if_pos rfl, List.find?_cons_of_pos hc]
      rfl

lemma separate_checks : Separate checks := by
  constructor <;> decide

lemma mem_checks : c ∈ checks ↔ ∃ n, c = globalCheck n ∨ c = localCheck n := by
  constructor
  · intro h
    simp only [checks, List.mem_cons, List.not_mem_nil, or_false] at h
    rcases h with h | h | h | h | h | h | h | h
    · exact ⟨0, Or.inl h⟩
    · exact ⟨1, Or.inl h⟩
    · exact ⟨2, Or.inl h⟩
    · exact ⟨3, Or.inl h⟩
    · exact ⟨0, Or.inr h⟩
    · exact ⟨1, Or.inr h⟩
    · exact ⟨2, Or.inr h⟩
    · exact ⟨3, Or.inr h⟩
  · rintro ⟨n, rfl | rfl⟩
    · revert n
      decide
    · revert n
      decide

/-- The hardware has noted a hit of breakpoint `n`. -/
def noted (dr6 : Word) (n : Fin 4) : Bool := decide (DR6.get dr6 (.B n) ≠ 0)

def locallyArmed (dr7 : Word) (n : Fin 4) : Bool := decide (DR7.get dr7 (.L n) ≠ 0)

def globallyArmed (dr7 : Word) (n : Fin 4) : Bool := decide (DR7.get dr7 (.G n) ≠ 0)

def armed (dr7 : Word) (n : Fin 4) : Bool := locallyArmed dr7 n || globallyArmed dr7 n

/-- The fields that are zero after the tests: the enable bits of a breakpoint that was hit,
and its condition if it was armed. -/
def cleared (dr6 dr7 : Word) : Dr7Field → Bool
  | .L n | .G n => noted dr6 n
  | .RW n => noted dr6 n && armed dr7 n
  | _ => false

lemma get_newDr7 (dr6 dr7 : Word) (f : Dr7Field) :
    DR7.get (newDr7 dr6 dr7) f = if cleared dr6 dr7 f then 0 else DR7.get dr7 f := by
  have hclears : (∃ c ∈ checks, fires dr6 dr7 c = true ∧ (f = c.enable ∨ f = c.condition)) ↔
      cleared dr6 dr7 f = true ∧ (DR7.get dr7 f ≠ 0 ∨ ∃ n, f = .RW n) := by
    simp only [mem_checks]
    constructor
    · rintro ⟨c, ⟨n, rfl | rfl⟩, hfires, rfl | rfl⟩
      all_goals
        obtain ⟨hnoted, hset⟩ := Bool.and_eq_true_iff.mp hfires
      · exact ⟨hnoted, Or.inl (of_decide_eq_true hset)⟩
      · exact ⟨Bool.and_eq_true_iff.mpr ⟨hnoted, Bool.or_eq_true_iff.mpr (Or.inr hset)⟩,
          Or.inr ⟨n, rfl⟩⟩
      · exact ⟨hnoted, Or.inl (of_decide_eq_true hset)⟩
      · exact ⟨Bool.and_eq_true_iff.mpr ⟨hnoted, Bool.or_eq_true_iff.mpr (Or.inl hset)⟩,
          Or.inr ⟨n, rfl⟩⟩
    · rintro ⟨hcleared, hset⟩
      cases f with
      | L n =>
        have hset : DR7.get dr7 (.L n) ≠ 0 := hset.resolve_right fun ⟨_, h⟩ => by cases h
        exact ⟨localCheck n, ⟨n, Or.inr rfl⟩,
          Bool.and_eq_true_iff.mpr ⟨hcleared, decide_eq_true hset⟩, Or.inl rfl⟩
      | G n =>
        have hset : DR7.get dr7 (.G n) ≠ 0 := hset.resolve_right fun ⟨_, h⟩ => by cases h
        exact ⟨globalCheck n, ⟨n, Or.inl rfl⟩,
          Bool.and_eq_true_iff.mpr ⟨hcleared, decide_eq_true hset⟩, Or.inl rfl⟩
      | RW n =>
        simp only [cleared, armed, Bool.and_eq_true, Bool.or_eq_true] at hcleared
        rcases hcleared with ⟨hnoted, hlocal | hglobal⟩
        · exact ⟨localCheck n, ⟨n, Or.inr rfl⟩,
            Bool.and_eq_true_iff.mpr ⟨hnoted, hlocal⟩, Or.inr rfl⟩
        · exact ⟨globalCheck n, ⟨n, Or.inl rfl⟩,
            Bool.and_eq_true_iff.mpr ⟨hnoted, hglobal⟩, Or.inr rfl⟩
      | _ => exact absurd hcleared Bool.false_ne_true
  rw [newDr7, runChecks, get_foldl_check separate_checks]
  by_cases hcleared : cleared dr6 dr7 f = true
  · rw [if_pos hcleared]
    by_cases hset : DR7.get dr7 f ≠ 0 ∨ ∃ n, f = .RW n
    · rw [if_pos (hclears.mpr ⟨hcleared, hset⟩)]
    · rw [if_neg fun h => hset (hclears.mp h).2]
      exact not_not.mp (not_or.mp hset).1
  · rw [if_neg hcleared, if_neg fun h => hcleared (hclears.mp h).1]

/-- The breakpoint that is reported: the highest local one that was hit, or else the highest
global one. -/
lemma drHit_eq (dr6 dr7 : Word) :
    drHit dr6 dr7 =
      ((([3, 2, 1, 0] : List (Fin 4)).find? fun n => noted dr6 n && locallyArmed dr7 n).or
        (([3, 2, 1, 0] : List (Fin 4)).find? fun n => noted dr6 n && globallyArmed dr7 n)).elim
        9 Fin.val := by
  have hlocal (n : Fin 4) : fires dr6 dr7 (localCheck n) = (noted dr6 n && locallyArmed dr7 n) :=
    rfl
  have hglobal (n : Fin 4) :
      fires dr6 dr7 (globalCheck n) = (noted dr6 n && globallyArmed dr7 n) := rfl
  have hreverse : checks.reverse =
      ([3, 2, 1, 0] : List (Fin 4)).map localCheck ++
        ([3, 2, 1, 0] : List (Fin 4)).map globalCheck := rfl
  rw [drHit, runChecks, number_foldl_check separate_checks, hreverse, List.find?_append,
    List.find?_map, List.find?_map]
  simp only [Function.comp_def, hlocal, hglobal]
  cases List.find? (fun n => noted dr6 n && locallyArmed dr7 n) [3, 2, 1, 0] with
  | some n => rfl
  | none =>
    cases List.find? (fun n => noted dr6 n && globallyArmed dr7 n) [3, 2, 1, 0] with
    | some n => rfl
    | none => rfl

lemma armed_newDr7 (dr6 dr7 : Word) (n : Fin 4) :
    armed (newDr7 dr6 dr7) n = (armed dr7 n && !noted dr6 n) := by
  simp only [armed, locallyArmed, globallyArmed]
  by_cases hnoted : noted dr6 n = true
  · have hlocal : DR7.get (newDr7 dr6 dr7) (.L n) = 0 :=
      (get_newDr7 dr6 dr7 (.L n)).trans (if_pos hnoted)
    have hglobal : DR7.get (newDr7 dr6 dr7) (.G n) = 0 :=
      (get_newDr7 dr6 dr7 (.G n)).trans (if_pos hnoted)
    simp [hlocal, hglobal, hnoted]
  · have hlocal : DR7.get (newDr7 dr6 dr7) (.L n) = DR7.get dr7 (.L n) :=
      (get_newDr7 dr6 dr7 (.L n)).trans (if_neg hnoted)
    have hglobal : DR7.get (newDr7 dr6 dr7) (.G n) = DR7.get dr7 (.G n) :=
      (get_newDr7 dr6 dr7 (.G n)).trans (if_neg hnoted)
    simp [hlocal, hglobal, Bool.eq_false_iff.mpr hnoted]

lemma find?_and_some {p q : Fin 4 → Bool} {l : List (Fin 4)} {n : Fin 4}
    (h : l.find? (fun n => p n && q n) = some n) : p n = true ∧ q n = true := by
  have hn := List.find?_some h
  exact Bool.and_eq_true_iff.mp hn

/-- What is reported was hit and armed. -/
lemma reported (dr6 dr7 : Word) (h : drHit dr6 dr7 ≠ 9) :
    ∃ n : Fin 4, drHit dr6 dr7 = n ∧ noted dr6 n = true ∧ armed dr7 n = true := by
  rw [drHit_eq] at h ⊢
  cases hl : List.find? (fun n => noted dr6 n && locallyArmed dr7 n) [3, 2, 1, 0] with
  | some n =>
    obtain ⟨hnoted, harmed⟩ := find?_and_some hl
    exact ⟨n, rfl, hnoted, by rw [armed, harmed, Bool.true_or]⟩
  | none =>
    rw [hl] at h
    cases hg : List.find? (fun n => noted dr6 n && globallyArmed dr7 n) [3, 2, 1, 0] with
    | some n =>
      obtain ⟨hnoted, harmed⟩ := find?_and_some hg
      exact ⟨n, rfl, hnoted, by rw [armed, harmed, Bool.or_true]⟩
    | none =>
      rw [hg] at h
      exact absurd rfl h

/-- For all values of DR6 and DR7: the breakpoint that is reported is the highest one that was
hit and is armed locally, or else the highest one that was hit and is armed globally, and 9 if
there is none. Just the enable bits of the breakpoints that were hit, and the conditions of
those that were armed, are zero after; every other field of DR7 is as it was. -/
theorem runChecks_spec (dr6 dr7 : Word) :
    drHit dr6 dr7 =
      ((([3, 2, 1, 0] : List (Fin 4)).find? fun n => noted dr6 n && locallyArmed dr7 n).or
        (([3, 2, 1, 0] : List (Fin 4)).find? fun n => noted dr6 n && globallyArmed dr7 n)).elim
        9 Fin.val ∧
    ∀ f, DR7.get (newDr7 dr6 dr7) f = if cleared dr6 dr7 f then 0 else DR7.get dr7 f :=
  ⟨drHit_eq dr6 dr7, get_newDr7 dr6 dr7⟩

/-- A debug trap with what the hardware notes in DR6, or a load of DR7 by whoever sets the
breakpoints. -/
inductive Event
  | trap (dr6 : Word)
  | load (dr7 : Word)

def dr7After (dr7 : Word) : List Event → Word
  | [] => dr7
  | .trap dr6 :: es => dr7After (newDr7 dr6 dr7) es
  | .load dr7' :: es => dr7After dr7' es

def reports (dr7 : Word) : List Event → List ℕ
  | [] => []
  | .trap dr6 :: es => drHit dr6 dr7 :: reports (newDr7 dr6 dr7) es
  | .load dr7' :: es => reports dr7' es

def Event.arms (n : Fin 4) : Event → Bool
  | .trap _ => false
  | .load dr7 => armed dr7 n

/-- The trap that reports a breakpoint disarms it. -/
lemma count_step (dr6 dr7 : Word) (n : Fin 4) :
    [drHit dr6 dr7].count n.val + (armed (newDr7 dr6 dr7) n).toNat ≤ (armed dr7 n).toNat := by
  rw [armed_newDr7]
  by_cases hhit : drHit dr6 dr7 = n.val
  · obtain ⟨k, hk, hnoted, harmed⟩ := reported dr6 dr7 (by omega)
    have hkn : k = n := Fin.ext (by omega)
    subst hkn
    rw [hhit, hnoted, harmed, List.count_singleton_self]
    decide
  · have hcount : [drHit dr6 dr7].count n.val = 0 :=
      List.count_eq_zero.mpr fun hmem => hhit (List.mem_singleton.mp hmem).symm
    rw [hcount]
    cases armed dr7 n <;> cases noted dr6 n <;> decide

/-- For every run of debug traps and loads of DR7: a breakpoint is reported at most as often
as it was armed, by the state at the beginning or by a load, and if it is armed at the end
there was one more arming than reports. In particular it is reported once at most between two
loads. -/
theorem reports_le_armings (dr7 : Word) (es : List Event) (n : Fin 4) :
    (reports dr7 es).count n.val + (armed (dr7After dr7 es) n).toNat ≤
      (armed dr7 n).toNat + es.countP (Event.arms n) := by
  induction es generalizing dr7 with
  | nil => simp [reports, dr7After]
  | cons e es ih =>
    cases e with
    | trap dr6 =>
      have hstep := count_step dr6 dr7 n
      have hrest := ih (newDr7 dr6 dr7)
      have hcount : (drHit dr6 dr7 :: reports (newDr7 dr6 dr7) es).count n.val =
          (reports (newDr7 dr6 dr7) es).count n.val + [drHit dr6 dr7].count n.val := by
        rw [← List.singleton_append, List.count_append, Nat.add_comm]
      have harms : (Event.trap dr6 :: es).countP (Event.arms n) = es.countP (Event.arms n) :=
        List.countP_cons_of_neg Bool.false_ne_true
      rw [reports, dr7After, hcount, harms]
      omega
    | load dr7' =>
      have hrest := ih dr7'
      have harms : (Event.load dr7' :: es).countP (Event.arms n) =
          es.countP (Event.arms n) + (armed dr7' n).toNat := by
        rw [List.countP_cons]
        show _ + (if armed dr7' n = true then 1 else 0) = _
        cases armed dr7' n <;> rfl
      rw [reports, dr7After, harms]
      omega

structure DebugRegs where
  dr6 : Word
  dr7 : Word
  cr3 : Word

/-- `struct rs_struct`. -/
structure RsStruct where
  ptR : PtRegs
  drHit : Word
  dr7 : Word
  cr3 : Word

def rsAt (mem : Mem) (p : Word) : RsStruct where
  ptR := ptRegsAt mem p
  drHit := read64 mem (p + 168#64)
  dr7 := read64 mem (p + 176#64)
  cr3 := read64 mem (p + 184#64)

/-- The last word of the page that the program counter is on. -/
def scratchpadCell (hdlPg : Word) : Word := hdlPg - hdlPg % 4096#64 + (4096#64 - 8#64)

/-- `struct pt_regs`, word by word. -/
def ptRegsWords (mem : Mem) (p : Word) : List Word :=
  (List.range 21).map fun i => read64 mem (p + BitVec.ofNat 64 (8 * i))

/-- `debug`, `cnt`, `read_addr_msg` and `addr_msg` are behind the scratchpad's three records. -/
def bumpCnt (sp : Word) (mem : Mem) : Mem :=
  if mem (sp + 576#64) = 1#8 then storeByte mem (sp + 577#64) (mem (sp + 577#64) + 1#8) else mem

def readAddrMsg (sp si : Word) (mem : Mem) : Mem :=
  if mem (sp + 578#64) ≠ 0#8 then moveBytes 96 si (sp + 579#64) mem else mem

/-- The record goes to the first of the three; `si` is at 104 in `pt_regs`. -/
def dbCEntry (d : DebugRegs) (hdlPg : Word) : CFun := fun m =>
  let sp := read64 m.mem (scratchpadCell hdlPg)
  let mem := write64 m.mem (sp + 168#64) (BitVec.ofNat 64 (drHit d.dr6 d.dr7))
  let mem := write64 mem (sp + 176#64) (newDr7 d.dr6 d.dr7)
  let mem := storeWords mem sp (ptRegsWords mem m.regs.rdi)
  let mem := write64 mem (sp + 184#64) d.cr3
  let mem := bumpCnt sp mem
  { m with mem := readAddrMsg sp (read64 mem (m.regs.rdi + 104#64)) mem }

/-- The function takes DR7 out of the hardware at its beginning and puts this one back. -/
def DebugRegs.after (d : DebugRegs) : DebugRegs := { d with dr7 := newDr7 d.dr6 d.dr7 }

variable {mem mem' : Mem} {p q sp b : Word}

lemma ptRegsAt_congr (h : ∀ i < 21, read64 mem (p + BitVec.ofNat 64 (8 * i)) =
    read64 mem' (q + BitVec.ofNat 64 (8 * i))) : ptRegsAt mem p = ptRegsAt mem' q := by
  have hfirst := h 0 (by omega)
  rw [Nat.mul_zero, BitVec.add_zero, BitVec.add_zero] at hfirst
  simp only [ptRegsAt, savedAt, frameAt, BitVec.add_assoc, BitVec.reduceAdd, PtRegs.mk.injEq,
    Saved.mk.injEq, HwFrame.mk.injEq]
  exact ⟨⟨hfirst, h 1 (by omega), h 2 (by omega), h 3 (by omega), h 4 (by omega), h 5 (by omega),
    h 6 (by omega), h 7 (by omega), h 8 (by omega), h 9 (by omega), h 10 (by omega),
    h 11 (by omega), h 12 (by omega), h 13 (by omega), h 14 (by omega)⟩, h 15 (by omega),
    h 16 (by omega), h 17 (by omega), h 18 (by omega), h 19 (by omega), h 20 (by omega)⟩

/-- The four stores are one run of words. -/
lemma record_eq (mem : Mem) (sp hit dr7 cr3 : Word) (ws : List Word) (hlen : ws.length = 21) :
    write64 (storeWords (write64 (write64 mem (sp + 168#64) hit) (sp + 176#64) dr7) sp ws)
        (sp + 184#64) cr3 =
      storeWords mem sp (ws ++ [hit] ++ [dr7] ++ [cr3]) := by
  have hcomm : write64 (write64 mem (sp + 168#64) hit) (sp + 176#64) dr7 =
      write64 (write64 mem (sp + 176#64) dr7) (sp + 168#64) hit :=
    write64_comm (by bv_omega) (by bv_omega)
  have hhit := storeWords_write64_end (m := write64 mem (sp + 176#64) dr7) (a := sp)
    (by omega : 8 * (ws.length + 1) < 2 ^ 64) hit
  have hdr7 := storeWords_write64_end (m := mem) (a := sp)
    (by simp [hlen] : 8 * ((ws ++ [hit]).length + 1) < 2 ^ 64) dr7
  have hcr3 := write64_storeWords_end (m := mem) (a := sp)
    (by simp [hlen] : 8 * ((ws ++ [hit] ++ [dr7]).length + 1) < 2 ^ 64) cr3
  simp only [List.length_append, List.length_singleton, hlen] at hhit hdr7 hcr3
  rw [hcomm]
  exact (congrArg (fun m => write64 m (sp + 184#64) cr3) (hhit.trans hdr7)).trans hcr3

lemma rsAt_record (mem : Mem) (sp hit dr7 cr3 p : Word) :
    rsAt (storeWords mem sp (ptRegsWords mem' p ++ [hit] ++ [dr7] ++ [cr3])) sp =
      ⟨ptRegsAt mem' p, hit, dr7, cr3⟩ := by
  have hlen : (ptRegsWords mem' p ++ [hit] ++ [dr7] ++ [cr3]).length = 24 := by
    simp [ptRegsWords]
  have hword (i : ℕ) (hi : i < 24) :
      read64 (storeWords mem sp (ptRegsWords mem' p ++ [hit] ++ [dr7] ++ [cr3]))
        (sp + BitVec.ofNat 64 (8 * i)) =
      (ptRegsWords mem' p ++ [hit] ++ [dr7] ++ [cr3]).get ⟨i, by omega⟩ :=
    read64_storeWords (by omega) (by omega)
  rw [rsAt, RsStruct.mk.injEq]
  refine ⟨ptRegsAt_congr fun i hi => ?_, hword 21 (by omega), hword 22 (by omega),
    hword 23 (by omega)⟩
  rw [hword i (by omega)]
  simp [ptRegsWords, hi]

variable {ra : Word} {m : Machine}

/-- A trap handler whose function keeps its stack pointer and its return address. -/
lemma exec_trapHandler (targ : CFun) (ra : Word) (m : Machine)
    (hrsp : (targ (entered ra trapHandler m)).regs.rsp = (entered ra trapHandler m).regs.rsp)
    (hra : read64 (targ (entered ra trapHandler m)).mem (entered ra trapHandler m).regs.rsp = ra) :
    ∃ exit, exec targ ra trapHandler m = .iretq exit ∧
      exit.mem = (targ (entered ra trapHandler m)).mem ∧ exit.regs.rsp = m.regs.rsp ∧
      savedOf exit.regs = (ptRegsAt (targ (entered ra trapHandler m)).mem
        (entered ra trapHandler m).regs.rdi).saved := by
  let t : Machine := m.pushWord 0xbadbad#64
  have ht : t.regs.rsp + 8#64 = m.regs.rsp := BitVec.sub_add_cancel m.regs.rsp 8#64
  have hcalled := called_entered ra (popRegs ++ [dropFakeError, .iretq]) t
  have hexec := exec_call_eq targ ra (popRegs ++ [dropFakeError, .iretq]) t
  have hentered : entered ra trapHandler m =
      entered ra (pushRegs ++ getPtRegPtr :: .call :: (popRegs ++ [dropFakeError, .iretq])) t := rfl
  rw [hentered] at hrsp hra ⊢
  generalize entered ra (pushRegs ++ getPtRegPtr :: .call ::
    (popRegs ++ [dropFakeError, .iretq])) t = called at hrsp hra hcalled hexec ⊢
  simp only [hrsp, if_pos hra] at hexec
  obtain ⟨back, hback, hrestored⟩ : ∃ back, exec targ ra trapHandler m =
      exec targ ra [dropFakeError, .iretq] back ∧ Restored targ t called back := by
    have hrestored := restored_popAll hcalled hrsp
    rw [hrsp] at hrestored
    exact ⟨_, hexec.trans (exec_pops popOrder [dropFakeError, .iretq] _), hrestored⟩
  refine ⟨_, hback, hrestored.mem, ?_, hrestored.saved⟩
  show back.regs.rsp + 8#64 = m.regs.rsp
  rw [hrestored.rsp, ht]

/-- What the function of a trap handler is given. -/
lemma ptRegsAt_entered (ra : Word) (m : Machine) :
    ptRegsAt (entered ra trapHandler m).mem (entered ra trapHandler m).regs.rdi =
      ⟨savedOf m.regs, 0xbadbad#64, frameAt m.mem m.regs.rsp⟩ := by
  obtain ⟨_, -, hpreserves⟩ := trapHandler_spec (convention_setOrigAx id) ra m
  exact hpreserves.given

/-- The stack pointer and the pointer that the function is given, and what has been stored
by then: the fake error code, the registers and the return address. -/
structure Stacked (ra : Word) (m called : Machine) : Prop where
  rsp : called.regs.rsp = m.regs.rsp - 136#64
  rdi : called.regs.rdi = m.regs.rsp - 128#64
  returnAddress : read64 called.mem called.regs.rsp = ra
  frame : ∀ b, 136 ≤ (b - (m.regs.rsp - 136#64)).toNat → called.mem b = m.mem b

lemma stacked_entered (ra : Word) (m : Machine) : Stacked ra m (entered ra trapHandler m) := by
  let t : Machine := m.pushWord 0xbadbad#64
  have ht : t.regs.rsp = m.regs.rsp - 8#64 := rfl
  have hcalled : Called ra t (entered ra trapHandler m) :=
    called_entered ra (popRegs ++ [dropFakeError, .iretq]) t
  generalize entered ra trapHandler m = called at hcalled
  have hrsp : called.regs.rsp = m.regs.rsp - 136#64 := by
    have hup := hcalled.rsp
    rw [ht] at hup
    bv_omega
  refine ⟨hrsp, ?_, ?_, fun b hb => ?_⟩
  · rw [hcalled.pointer, hrsp]
    bv_omega
  · rw [hcalled.mem, read64_storeWords_cons]
  · have hbelow : t.mem b = m.mem b := write64_of_ge (by bv_omega)
    rw [hcalled.mem, storeWords_of_ge, hbelow]
    rw [hrsp]
    simpa [savedWords] using (show 128 ≤ (b - (m.regs.rsp - 136#64)).toNat by omega)

variable {d : DebugRegs} {hdlPg : Word}

/-- The bytes of the scratchpad that the function may store to. -/
def Recorded (sp b : Word) : Prop :=
  (b - sp).toNat < 192 ∨ b = sp + 577#64 ∨ (b - (sp + 579#64)).toNat < 96

lemma Recorded.lt (h : Recorded sp b) : (b - sp).toNat < 675 := by
  rcases h with h | rfl | h <;> bv_omega

/-- Two ranges without a common byte. -/
lemma apart_symm {a b : Word} {n k j : ℕ} (h : ∀ i < n, k ≤ (a + BitVec.ofNat 64 i - b).toNat)
    (hj : j < k) (hk : k < 2 ^ 64) : n ≤ (b + BitVec.ofNat 64 j - a).toNat := by
  by_contra hlt
  have hback := h (b + BitVec.ofNat 64 j - a).toNat (by omega)
  rw [BitVec.ofNat_toNat, BitVec.setWidth_eq] at hback
  have heq : a + (b + BitVec.ofNat 64 j - a) - b = BitVec.ofNat 64 j := by ring
  rw [heq, BitVec.toNat_ofNat, Nat.mod_eq_of_lt (by omega)] at hback
  omega

lemma bumpCnt_of_ne (h : b ≠ sp + 577#64) : bumpCnt sp mem b = mem b := by
  unfold bumpCnt
  split
  · exact storeByte_of_ne h
  · rfl

lemma bumpCnt_cnt (sp : Word) (mem : Mem) : bumpCnt sp mem (sp + 577#64) =
    if mem (sp + 576#64) = 1#8 then mem (sp + 577#64) + 1#8 else mem (sp + 577#64) := by
  unfold bumpCnt
  split
  · exact storeByte_self _ _ _
  · rfl

lemma readAddrMsg_of_ge {si : Word} (h : 96 ≤ (b - (sp + 579#64)).toNat) :
    readAddrMsg sp si mem b = mem b := by
  unfold readAddrMsg
  split
  · exact moveBytes_of_ge (by omega) h
  · rfl

/-- The record, before the counter and the message. -/
def recorded (d : DebugRegs) (sp : Word) (m : Machine) : Mem :=
  storeWords m.mem sp
    (ptRegsWords (write64 (write64 m.mem (sp + 168#64) (BitVec.ofNat 64 (drHit d.dr6 d.dr7)))
      (sp + 176#64) (newDr7 d.dr6 d.dr7)) m.regs.rdi ++
      [BitVec.ofNat 64 (drHit d.dr6 d.dr7)] ++ [newDr7 d.dr6 d.dr7] ++ [d.cr3])

lemma recorded_of_ge (h : 192 ≤ (b - sp).toNat) : recorded d sp m b = m.mem b :=
  storeWords_of_ge (by simpa [ptRegsWords] using h)

lemma dbCEntry_regs (d : DebugRegs) (hdlPg : Word) (m : Machine) :
    (dbCEntry d hdlPg m).regs = m.regs := rfl

lemma dbCEntry_mem (hsp : read64 m.mem (scratchpadCell hdlPg) = sp) :
    (dbCEntry d hdlPg m).mem =
      readAddrMsg sp (read64 (bumpCnt sp (recorded d sp m)) (m.regs.rdi + 104#64))
        (bumpCnt sp (recorded d sp m)) := by
  have hlen : ∀ mem, (ptRegsWords mem m.regs.rdi).length = 21 := fun _ => by simp [ptRegsWords]
  simp only [dbCEntry, hsp, recorded]
  rw [record_eq _ _ _ _ _ _ (hlen _)]

lemma dbCEntry_of_not_recorded (hsp : read64 m.mem (scratchpadCell hdlPg) = sp)
    (h : ¬ Recorded sp b) : (dbCEntry d hdlPg m).mem b = m.mem b := by
  rw [Recorded, not_or, not_or] at h
  rw [dbCEntry_mem hsp, readAddrMsg_of_ge (by omega), bumpCnt_of_ne h.2.1,
    recorded_of_ge (by omega)]

/-- Nothing that the function is given lies on the scratchpad. -/
structure Placed (hdlPg : Word) (m : Machine) (sp : Word) : Prop where
  pointer : read64 m.mem (scratchpadCell hdlPg) = sp
  cell : ∀ j < 8, 136 ≤ (scratchpadCell hdlPg + BitVec.ofNat 64 j - (m.regs.rsp - 136#64)).toNat
  stack : ∀ i < 675, 176 ≤ (sp + BitVec.ofNat 64 i - (m.regs.rsp - 136#64)).toNat
  message : m.mem (sp + 578#64) ≠ 0#8 → ∀ i < 96,
    136 ≤ (m.regs.rsi + BitVec.ofNat 64 i - (m.regs.rsp - 136#64)).toNat ∧
      675 ≤ (m.regs.rsi + BitVec.ofNat 64 i - sp).toNat

/-- What a debug trap leaves on the scratchpad and elsewhere. -/
structure Trapped (d : DebugRegs) (sp : Word) (m exit : Machine) : Prop where
  regs : exit.regs = m.regs
  frame : frameAt exit.mem m.regs.rsp = frameAt m.mem m.regs.rsp
  record : rsAt exit.mem sp = ⟨⟨savedOf m.regs, 0xbadbad#64, frameAt m.mem m.regs.rsp⟩,
    BitVec.ofNat 64 (drHit d.dr6 d.dr7), newDr7 d.dr6 d.dr7, d.cr3⟩
  cnt : exit.mem (sp + 577#64) =
    if m.mem (sp + 576#64) = 1#8 then m.mem (sp + 577#64) + 1#8 else m.mem (sp + 577#64)
  message : ∀ i < 96, exit.mem (sp + 579#64 + BitVec.ofNat 64 i) =
    if m.mem (sp + 578#64) ≠ 0#8 then m.mem (m.regs.rsi + BitVec.ofNat 64 i)
    else m.mem (sp + 579#64 + BitVec.ofNat 64 i)
  others : ∀ b, ¬ Recorded sp b → 136 ≤ (b - (m.regs.rsp - 136#64)).toNat → exit.mem b = m.mem b

section
variable {called : Machine} (h : Placed hdlPg m sp) (hst : Stacked ra m called)
  (hgiven : ptRegsAt called.mem called.regs.rdi =
    ⟨savedOf m.regs, 0xbadbad#64, frameAt m.mem m.regs.rsp⟩)
include h

/-- The function does not store to the words that it was given. -/
lemma stack_not_recorded {k : ℕ} (hk : k < 176) :
    ¬ Recorded sp (m.regs.rsp - 136#64 + BitVec.ofNat 64 k) := fun hrec => by
  have hfar := apart_symm h.stack hk (by omega)
  have hnear := hrec.lt
  omega

include hst

lemma pointer_called : read64 called.mem (scratchpadCell hdlPg) = sp := by
  rw [← h.pointer]
  exact read64_congr fun j hj => hst.frame _ (h.cell j hj)

lemma scratchpad_called {i : ℕ} (hi : i < 675) :
    called.mem (sp + BitVec.ofNat 64 i) = m.mem (sp + BitVec.ofNat 64 i) := by
  have hfar := h.stack i hi
  exact hst.frame _ (by omega)

/-- A function that stores to the scratchpad only leaves `pt_regs` as it is. -/
lemma ptRegsAt_of_not_recorded {mem : Mem} (hmem : ∀ b, ¬ Recorded sp b → mem b = called.mem b) :
    ptRegsAt mem called.regs.rdi = ptRegsAt called.mem called.regs.rdi := by
  apply ptRegsAt_congr
  intro i hi
  apply read64_congr
  intro j hj
  have haddr : called.regs.rdi + BitVec.ofNat 64 (8 * i) + BitVec.ofNat 64 j =
      m.regs.rsp - 136#64 + BitVec.ofNat 64 (8 + 8 * i + j) := by
    rw [hst.rdi]
    bv_omega
  rw [haddr]
  exact hmem _ (stack_not_recorded h (by omega))

lemma returnAddress_dbCEntry : read64 (dbCEntry d hdlPg called).mem called.regs.rsp = ra := by
  rw [← hst.returnAddress]
  apply read64_congr
  intro j hj
  rw [hst.rsp]
  exact dbCEntry_of_not_recorded (pointer_called h hst) (stack_not_recorded h (by omega))

lemma cnt_dbCEntry : (dbCEntry d hdlPg called).mem (sp + 577#64) =
    if m.mem (sp + 576#64) = 1#8 then m.mem (sp + 577#64) + 1#8 else m.mem (sp + 577#64) := by
  have hdebug : recorded d sp called (sp + 576#64) = m.mem (sp + 576#64) :=
    (recorded_of_ge (by bv_omega)).trans (scratchpad_called h hst (i := 576) (by omega))
  have hcnt : recorded d sp called (sp + 577#64) = m.mem (sp + 577#64) :=
    (recorded_of_ge (by bv_omega)).trans (scratchpad_called h hst (i := 577) (by omega))
  rw [dbCEntry_mem (pointer_called h hst), readAddrMsg_of_ge (by bv_omega), bumpCnt_cnt, hdebug,
    hcnt]

include hgiven

lemma ptRegsAt_dbCEntry : ptRegsAt (dbCEntry d hdlPg called).mem called.regs.rdi =
    ⟨savedOf m.regs, 0xbadbad#64, frameAt m.mem m.regs.rsp⟩ := by
  rw [← hgiven]
  exact ptRegsAt_of_not_recorded h hst fun b hb =>
    dbCEntry_of_not_recorded (pointer_called h hst) hb

lemma rsAt_dbCEntry : rsAt (dbCEntry d hdlPg called).mem sp =
    ⟨⟨savedOf m.regs, 0xbadbad#64, frameAt m.mem m.regs.rsp⟩,
      BitVec.ofNat 64 (drHit d.dr6 d.dr7), newDr7 d.dr6 d.dr7, d.cr3⟩ := by
  have hword : ∀ i < 24, read64 (dbCEntry d hdlPg called).mem (sp + BitVec.ofNat 64 (8 * i)) =
      read64 (recorded d sp called) (sp + BitVec.ofNat 64 (8 * i)) := by
    intro i hi
    apply read64_congr
    intro j hj
    rw [dbCEntry_mem (pointer_called h hst), readAddrMsg_of_ge (by bv_omega),
      bumpCnt_of_ne (by bv_omega)]
  have hrecorded : rsAt (dbCEntry d hdlPg called).mem sp = rsAt (recorded d sp called) sp := by
    rw [rsAt, rsAt, RsStruct.mk.injEq]
    exact ⟨ptRegsAt_congr fun i hi => hword i (by omega), hword 21 (by omega),
      hword 22 (by omega), hword 23 (by omega)⟩
  rw [hrecorded, recorded, rsAt_record, ← hgiven, RsStruct.mk.injEq]
  refine ⟨ptRegsAt_of_not_recorded h hst fun b hb => ?_, rfl, rfl, rfl⟩
  rw [Recorded, not_or] at hb
  rw [write64_of_ge (by bv_omega), write64_of_ge (by bv_omega)]

lemma message_dbCEntry {i : ℕ} (hi : i < 96) :
    (dbCEntry d hdlPg called).mem (sp + 579#64 + BitVec.ofNat 64 i) =
      if m.mem (sp + 578#64) ≠ 0#8 then m.mem (m.regs.rsi + BitVec.ofNat 64 i)
      else m.mem (sp + 579#64 + BitVec.ofNat 64 i) := by
  have hoff (b : Word) (hb : 192 ≤ (b - sp).toNat) (hne : b ≠ sp + 577#64) :
      bumpCnt sp (recorded d sp called) b = called.mem b :=
    (bumpCnt_of_ne hne).trans (recorded_of_ge hb)
  have hflag : bumpCnt sp (recorded d sp called) (sp + 578#64) = m.mem (sp + 578#64) :=
    (hoff _ (by bv_omega) (by bv_omega)).trans (scratchpad_called h hst (i := 578) (by omega))
  -- `%rsi` is read from the frame, which is not on the scratchpad
  have hsi : read64 (bumpCnt sp (recorded d sp called)) (called.regs.rdi + 104#64) =
      m.regs.rsi := by
    have hframe : ptRegsAt (bumpCnt sp (recorded d sp called)) called.regs.rdi =
        ptRegsAt called.mem called.regs.rdi := by
      refine ptRegsAt_of_not_recorded h hst fun b hb => ?_
      rw [Recorded, not_or, not_or] at hb
      exact hoff b (by omega) hb.2.1
    rw [hgiven] at hframe
    exact congrArg (fun r => r.saved.si) hframe
  rw [dbCEntry_mem (pointer_called h hst), hsi, readAddrMsg, hflag]
  by_cases hread : m.mem (sp + 578#64) ≠ 0#8
  · have hsource := h.message hread
    rw [if_pos hread, if_pos hread, moveBytes_of_lt (by omega) hi fun j hj => ?_]
    · have hfar := (hsource i hi).2
      rw [hoff _ (by omega) fun he => ?_]
      · exact hst.frame _ (hsource i hi).1
      · rw [he] at hfar
        bv_omega
    · have hfar := (hsource j hj).2
      bv_omega
  · rw [if_neg hread, if_neg hread, hoff _ (by bv_omega) (by bv_omega), BitVec.add_assoc,
      ← BitVec.ofNat_add]
    exact scratchpad_called h hst (by omega)

end

/-- Breakpoint 2 was hit while the first two were armed too, globally. -/
def demoRegs : DebugRegs := ⟨0xffff0ff4, 0x2a, 0x1aa000⟩

def demoTrap : Machine :=
  { demoMachine with
    mem := storeWords (fun _ => 0) 0xffffffffc0000ff8 [0xffffffffc0010000] }

/-- The program counter is set back onto the `int3`, and the byte that it replaced, `0x0f`, is
put back. `none`: the function waits for an `int3` to appear there. -/
def bpCEntry (m : Machine) : Option Machine :=
  let ip := read64 m.mem (m.regs.rdi + 128#64) - 1#64
  let mem := write64 m.mem (m.regs.rdi + 128#64) ip
  if mem ip ≠ 0xcc#8 then none else some { m with mem := storeByte mem ip 0x0f#8 }

lemma ptRegsAt_ip (mem' : Mem) {v : Word}
    (h : ∀ i < 21, i ≠ 16 → read64 mem (p + BitVec.ofNat 64 (8 * i)) =
      read64 mem' (p + BitVec.ofNat 64 (8 * i)))
    (hip : read64 mem (p + 128#64) = v) :
    ptRegsAt mem p =
      { ptRegsAt mem' p with frame := { (ptRegsAt mem' p).frame with ip := v } } := by
  have hfirst := h 0 (by omega) (by omega)
  rw [Nat.mul_zero, BitVec.add_zero] at hfirst
  simp only [ptRegsAt, savedAt, frameAt, BitVec.add_assoc, BitVec.reduceAdd, PtRegs.mk.injEq,
    Saved.mk.injEq, HwFrame.mk.injEq]
  refine ⟨⟨hfirst, ?_, ?_, ?_, ?_, ?_, ?_, ?_, ?_, ?_, ?_, ?_, ?_, ?_, ?_⟩, ?_, hip, ?_, ?_, ?_, ?_⟩
  · exact h 1 (by omega) (by omega)
  · exact h 2 (by omega) (by omega)
  · exact h 3 (by omega) (by omega)
  · exact h 4 (by omega) (by omega)
  · exact h 5 (by omega) (by omega)
  · exact h 6 (by omega) (by omega)
  · exact h 7 (by omega) (by omega)
  · exact h 8 (by omega) (by omega)
  · exact h 9 (by omega) (by omega)
  · exact h 10 (by omega) (by omega)
  · exact h 11 (by omega) (by omega)
  · exact h 12 (by omega) (by omega)
  · exact h 13 (by omega) (by omega)
  · exact h 14 (by omega) (by omega)
  · exact h 15 (by omega) (by omega)
  · exact h 17 (by omega) (by omega)
  · exact h 18 (by omega) (by omega)
  · exact h 19 (by omega) (by omega)
  · exact h 20 (by omega) (by omega)

/-- The memory that the function leaves, seen from the interrupted program: `a` is the address
of the `int3`. -/
structure Resumed (m called : Machine) (a : Word) (mem : Mem) : Prop where
  ptRegs : ptRegsAt mem called.regs.rdi =
    ⟨savedOf m.regs, 0xbadbad#64, { frameAt m.mem m.regs.rsp with ip := a }⟩
  returnAddress : read64 mem called.regs.rsp = read64 called.mem called.regs.rsp
  restored : mem a = 0x0f#8
  others : ∀ b, b ≠ a → 176 ≤ (b - (m.regs.rsp - 136#64)).toNat → mem b = m.mem b

/-- Entered for a trap whose program counter is `a + 1`, the function returns just if there is
an `int3` at `a`. -/
lemma bpCEntry_called {called : Machine} {a : Word} (hst : Stacked ra m called)
    (hgiven : ptRegsAt called.mem called.regs.rdi =
      ⟨savedOf m.regs, 0xbadbad#64, frameAt m.mem m.regs.rsp⟩)
    (hip : (frameAt m.mem m.regs.rsp).ip = a + 1#64)
    (hfar : 176 ≤ (a - (m.regs.rsp - 136#64)).toNat) :
    bpCEntry called =
      (if m.mem a ≠ 0xcc#8 then none
        else some { called with
          mem := storeByte (write64 called.mem (called.regs.rdi + 128#64) a) a 0x0f#8 }) ∧
    Resumed m called a (storeByte (write64 called.mem (called.regs.rdi + 128#64) a) a 0x0f#8) := by
  have hread : read64 called.mem (called.regs.rdi + 128#64) - 1#64 = a := by
    have hframe : read64 called.mem (called.regs.rdi + 128#64) = a + 1#64 :=
      (congrArg (fun r => r.frame.ip) hgiven).trans hip
    rw [hframe]
    bv_omega
  have hrdi := hst.rdi
  have hoff : write64 called.mem (called.regs.rdi + 128#64) a a = m.mem a := by
    rw [write64_of_ge (by bv_omega)]
    exact hst.frame a (by omega)
  -- a word of the stack, or one next to the program counter
  have hword {n : ℕ} (hn : n + 8 ≤ 136 ∨ 144 ≤ n ∧ n + 8 ≤ 176) :
      read64 (storeByte (write64 called.mem (called.regs.rdi + 128#64) a) a 0x0f#8)
        (m.regs.rsp - 136#64 + BitVec.ofNat 64 n) =
      read64 called.mem (m.regs.rsp - 136#64 + BitVec.ofNat 64 n) := by
    apply read64_congr
    intro j hj
    rw [storeByte_of_ne (by bv_omega), write64_of_ge (by bv_omega)]
  have hself : read64 (storeByte (write64 called.mem (called.regs.rdi + 128#64) a) a 0x0f#8)
      (called.regs.rdi + 128#64) = a := by
    have hbelow : read64 (storeByte (write64 called.mem (called.regs.rdi + 128#64) a) a 0x0f#8)
        (called.regs.rdi + 128#64) =
        read64 (write64 called.mem (called.regs.rdi + 128#64) a) (called.regs.rdi + 128#64) :=
      read64_congr fun j hj => storeByte_of_ne (by bv_omega)
    exact hbelow.trans (read64_storeWords_cons _ _ _ [])
  refine ⟨?_, ?_, ?_, storeByte_self _ _ _, fun b hb hfar' => ?_⟩
  · simp only [bpCEntry, hread, hoff]
  · refine (ptRegsAt_ip called.mem (fun i hi hne => ?_) hself).trans ?_
    · have haddr : called.regs.rdi + BitVec.ofNat 64 (8 * i) =
          m.regs.rsp - 136#64 + BitVec.ofNat 64 (8 + 8 * i) := by
        rw [hrdi]
        bv_omega
      rw [haddr]
      exact hword (by omega)
    · rw [hgiven]
  · have hbottom := hword (n := 0) (by omega)
    rwa [BitVec.add_zero, ← hst.rsp] at hbottom
  · rw [storeByte_of_ne hb, write64_of_ge (by bv_omega)]
    exact hst.frame b (by omega)

/-- For every machine that has trapped at an address away from its stack: the function returns
just if there is an `int3` at that address, and waits for ever otherwise. If it returns, the
handler goes back to the address with the registers and the rest of the frame as they were,
the byte there is `0x0f`, and no other byte has changed but those of the stack below the
frame. -/
theorem int3_trap (ra a : Word) (m : Machine)
    (hip : (frameAt m.mem m.regs.rsp).ip = a + 1#64)
    (hfar : 176 ≤ (a - (m.regs.rsp - 136#64)).toNat) :
    ((bpCEntry (entered ra trapHandler m)).isSome ↔ m.mem a = 0xcc#8) ∧
    (m.mem a = 0xcc#8 →
      ∃ exit, exec (fun m => (bpCEntry m).getD m) ra trapHandler m = .iretq exit ∧
        exit.regs = m.regs ∧
        frameAt exit.mem m.regs.rsp = { frameAt m.mem m.regs.rsp with ip := a } ∧
        exit.mem a = 0x0f#8 ∧
        ∀ b, b ≠ a → 176 ≤ (b - (m.regs.rsp - 136#64)).toNat → exit.mem b = m.mem b) := by
  have hst := stacked_entered ra m
  have hgiven := ptRegsAt_entered ra m
  have hexit := exec_trapHandler (fun m => (bpCEntry m).getD m) ra m
  generalize entered ra trapHandler m = called at hst hgiven hexit ⊢
  obtain ⟨hbp, hresumed⟩ := bpCEntry_called hst hgiven hip hfar
  rw [hbp] at hexit ⊢
  refine ⟨?_, fun hcc => ?_⟩
  · by_cases hcc : m.mem a = 0xcc#8
    · simp [hcc]
    · simp [hcc]
  · rw [if_neg (not_not.mpr hcc)] at hexit
    obtain ⟨exit, hexec, hmem, hrsp, hsaved⟩ :=
      hexit rfl (hresumed.returnAddress.trans hst.returnAddress)
    simp only [Option.getD_some] at hmem hsaved
    rw [hresumed.ptRegs] at hsaved
    have haddr : m.regs.rsp = called.regs.rdi + 128#64 := by
      rw [hst.rdi, BitVec.sub_add_cancel]
    refine ⟨exit, hexec, regs_eq_of_savedOf hsaved hrsp, ?_, ?_, fun b hb hfar' => ?_⟩
    · rw [hmem]
      nth_rewrite 1 [haddr]
      exact congrArg PtRegs.frame hresumed.ptRegs
    · rw [hmem]
      exact hresumed.restored
    · rw [hmem]
      exact hresumed.others b hb hfar'

def demoInt3 : Machine :=
  { demoMachine with
    mem := storeByte (storeWords (fun _ => 0) 0xfffffe0000002fd0 [0xffffffff810fbfe1])
      0xffffffff810fbfe0 0xcc }

theorem int3_trap_demo :
    ∃ exit, exec (fun m => (bpCEntry m).getD m) 0xffffffffc0000117#64 trapHandler demoInt3 =
        .iretq exit ∧ exit.mem 0xffffffff810fbfe0#64 = 0x0f#8 := by
  obtain ⟨-, hreturns⟩ := int3_trap 0xffffffffc0000117#64 0xffffffff810fbfe0#64 demoInt3
    (by decide +kernel) (by decide +kernel)
  obtain ⟨exit, hexec, -, -, hbyte, -⟩ := hreturns (by decide +kernel)
  exact ⟨exit, hexec, hbyte⟩

end SymbiOS.DebugTrap
