import SymbiOS.KldLayout
import SymbiOS.GrowArray
import SymbiOS.CLib

/-!
# Reading the symbols of an object

`elf_read_syms` of `kld/elf.c` collects the symbols of every symbol table of a file.
libelf is a parameter: it gives the section headers, the symbols of a section and the
strings of a string table, or NULL. Nothing of this is checked. A division by zero, a
symbol that was not read, a name that is NULL and a capacity beyond `int` end the
program: such a call gives `none`. So does a call of the generator that has libelf
read behind a buffer.
-/
namespace SymbiOS.Kld
open SymbiOS.Elf SymbiOS.CLib

def SHT_SYMTAB : BitVec 32 := 2

def SHT_DYNSYM : BitVec 32 := 11

def SHN_UNDEF : BitVec 16 := 0

structure Shdr where
  shType : BitVec 32
  shSize : BitVec 64
  shLink : BitVec 32
  shEntsize : BitVec 64

/-- A section: its header, and the symbols that libelf finds in its data. -/
structure Scn where
  shdr : Shdr
  data : Option (List Sym)

/-- An object that passed `elf_begin` and `elf_kind`. -/
structure ElfObject where
  scns : List Scn
  strptr : BitVec 32 → BitVec 32 → Option CString

def gelfGetsym (data : Option (List Sym)) (i : ℕ) : Option Sym := data.bind fun syms => syms[i]?

def seInit (f : ElfObject) (shdr : Shdr) (sym : Sym) : Option SymbolEntry :=
  (f.strptr shdr.shLink sym.stName).map fun name =>
    ⟨name.bytes, name.zero_not_mem, if sym.stShndx = SHN_UNDEF then 0 else sym.stValue, 0,
      .global, .abs⟩

/-- `ents` with `ei` and `emax`, and the sum of the lengths of the names. -/
structure ReadState where
  ents : GrowArray SymbolEntry
  nmstrlen : ℕ

def ReadState.push (st : ReadState) (e : SymbolEntry) : Option ReadState :=
  (st.ents.push (2 ^ 31) e).map fun ents => ⟨ents, st.nmstrlen + (e.name.length + 1)⟩

def Sym.IsEmpty (sym : Sym) : Prop := sym.stName = 0 ∧ sym.stValue = 0

instance (sym : Sym) : Decidable sym.IsEmpty := inferInstanceAs (Decidable (_ ∧ _))

def readSym (f : ElfObject) (scn : Scn) (st : ReadState) (i : ℕ) : Option ReadState := do
  let sym ← gelfGetsym scn.data i
  if sym.IsEmpty then some st
  else
    let e ← seInit f scn.shdr sym
    st.push e

/-- The quotient as an `int`; below zero the loop does not run. -/
def Shdr.count (shdr : Shdr) : ℕ := ((shdr.shSize / shdr.shEntsize).setWidth 32).toInt.toNat

def Scn.HoldsSyms (scn : Scn) : Prop :=
  scn.shdr.shType = SHT_SYMTAB ∨ scn.shdr.shType = SHT_DYNSYM

instance (scn : Scn) : Decidable scn.HoldsSyms := inferInstanceAs (Decidable (_ ∨ _))

def readScn (f : ElfObject) (st : ReadState) (scn : Scn) : Option ReadState :=
  if scn.HoldsSyms then
    if scn.shdr.shEntsize = 0 then none
    else (List.range scn.shdr.count).foldlM (readSym f scn) st
  else some st

/-- The result, with the entries and the length that it stores for the caller. -/
structure ReadSyms where
  rc : ℤ
  entries : List SymbolEntry
  nmstrlen : Option ℕ

/-- Without an object the first checks failed. -/
def elfReadSyms : Option ElfObject → Option ReadSyms
  | none => some ⟨-1, [], none⟩
  | some f =>
      (f.scns.foldlM (readScn f) ⟨.empty, 0⟩).map fun st =>
        ⟨0, st.ents.items, some st.nmstrlen⟩

/-- What a symbol contributes: nothing where it is empty. -/
def symAt (f : ElfObject) (scn : Scn) (i : ℕ) : Option (List SymbolEntry) := do
  let sym ← gelfGetsym scn.data i
  if sym.IsEmpty then some [] else (seInit f scn.shdr sym).map fun e => [e]

/-- The first symbols of a section can all be read, and have names. -/
def Readable (f : ElfObject) (count : Shdr → ℕ) (scn : Scn) : Prop :=
  scn.HoldsSyms → scn.shdr.shEntsize ≠ 0 ∧ ∀ i < count scn.shdr, (symAt f scn i).isSome

/-- The non-empty ones of the first symbols of a section. -/
def scnSymbols (f : ElfObject) (count : Shdr → ℕ) (scn : Scn) : List SymbolEntry :=
  if scn.HoldsSyms then
    (List.range (count scn.shdr)).flatMap fun i => (symAt f scn i).getD []
  else []

def objSymbols (f : ElfObject) (count : Shdr → ℕ) : List SymbolEntry :=
  f.scns.flatMap (scnSymbols f count)

/-- The number of symbols that a header announces. -/
def Shdr.quotient (shdr : Shdr) : ℕ := (shdr.shSize / shdr.shEntsize).toNat

section Loops

variable {σ α β : Type*} {push : σ → β → Option σ} {step : σ → α → Option σ}
  {P : α → Prop} {items : α → List β}

/-- A loop whose steps push some items each pushes all of them. -/
theorem foldlM_of_good (h : ∀ st a, P a → step st a = (items a).foldlM push st)
    {as : List α} (hgood : ∀ a ∈ as, P a) (st : σ) :
    as.foldlM step st = (as.flatMap items).foldlM push st := by
  induction as generalizing st with
  | nil => rfl
  | cons a as ih =>
    have hrest := ih fun b hb => hgood b (List.mem_cons_of_mem a hb)
    rw [List.foldlM_cons, h st a (hgood a List.mem_cons_self), List.flatMap_cons,
      List.foldlM_append]
    simp only [hrest]

/-- A step that ends the program ends the loop, unless it ended before. -/
theorem foldlM_of_not_good (h : ∀ st a, ¬ P a → step st a = none) {as : List α} {a : α}
    (ha : a ∈ as) (hnot : ¬ P a) (st : σ) : as.foldlM step st = none := by
  induction as generalizing st with
  | nil => cases ha
  | cons b as ih =>
    rw [List.foldlM_cons]
    rcases List.mem_cons.mp ha with rfl | ha
    · rw [h st a hnot]
      rfl
    · cases hstep : step st b with
      | none => rfl
      | some st' => exact ih ha st'

end Loops

variable {f : ElfObject} {scn : Scn}

theorem readSym_eq (st : ReadState) (i : ℕ) :
    readSym f scn st i = (symAt f scn i).bind fun l => l.foldlM ReadState.push st := by
  unfold readSym symAt
  cases hsym : gelfGetsym scn.data i with
  | none => rfl
  | some sym =>
    by_cases hempty : sym.IsEmpty
    · simp [hempty]
    · simp only [Option.bind_eq_bind, Option.bind_some, if_neg hempty]
      cases hname : seInit f scn.shdr sym with
      | none => rfl
      | some e => simp

/-- A section that can be read contributes its symbols. -/
theorem readScn_of_readable (h : Readable f Shdr.count scn) (st : ReadState) :
    readScn f st scn = (scnSymbols f Shdr.count scn).foldlM ReadState.push st := by
  unfold readScn scnSymbols
  by_cases hholds : scn.HoldsSyms
  · obtain ⟨hent, hsome⟩ := h hholds
    rw [if_pos hholds, if_neg hent, if_pos hholds]
    apply foldlM_of_good (P := fun i => (symAt f scn i).isSome)
    · intro st i hi
      obtain ⟨l, hl⟩ := Option.isSome_iff_exists.mp hi
      rw [readSym_eq, hl]
      rfl
    · intro i hi
      exact hsome i (List.mem_range.mp hi)
  · rw [if_neg hholds, if_neg hholds]
    rfl

/-- A section that cannot be read ends the program. -/
theorem readScn_of_not_readable (h : ¬ Readable f Shdr.count scn) (st : ReadState) :
    readScn f st scn = none := by
  have hholds : scn.HoldsSyms := by
    by_contra hnot
    exact h fun hholds => absurd hholds hnot
  unfold readScn
  rw [if_pos hholds]
  by_cases hent : scn.shdr.shEntsize = 0
  · rw [if_pos hent]
  · rw [if_neg hent]
    have hmissing : ∃ i < scn.shdr.count, ¬ (symAt f scn i).isSome := by
      by_contra hall
      push Not at hall
      exact h fun _ => ⟨hent, hall⟩
    obtain ⟨i, hi, hnone⟩ := hmissing
    apply foldlM_of_not_good (P := fun i => (symAt f scn i).isSome) _
      (List.mem_range.mpr hi) hnone
    intro st j hj
    rw [readSym_eq, Option.not_isSome_iff_eq_none.mp hj]
    rfl

/-- The bytes of all names with their terminators. -/
def nameBytes (entries : List SymbolEntry) : ℕ := (entries.map fun e => e.name.length + 1).sum

theorem foldlM_push (l : List SymbolEntry) (st : ReadState) :
    l.foldlM ReadState.push st =
      (st.ents.pushAll (2 ^ 31) l).map fun ents => ⟨ents, st.nmstrlen + nameBytes l⟩ := by
  induction l generalizing st with
  | nil => simp [GrowArray.pushAll, nameBytes]
  | cons e l ih =>
    rw [List.foldlM_cons, GrowArray.pushAll, List.foldlM_cons, ReadState.push]
    cases hpush : st.ents.push (2 ^ 31) e with
    | none => rfl
    | some ents =>
      simp only [Option.map_some, Option.bind_eq_bind, Option.bind_some, ih]
      simp [GrowArray.pushAll, nameBytes, Nat.add_assoc]

/-- The array takes `2 ^ 30` entries. -/
theorem pushAll_empty (l : List SymbolEntry) :
    (l.length ≤ 2 ^ 30 → ∃ cap, GrowArray.empty.pushAll (2 ^ 31) l = some ⟨l, cap⟩) ∧
    (2 ^ 30 < l.length → GrowArray.empty.pushAll (2 ^ 31) l = none) := by
  have h := (GrowArray.grown_empty (α := SymbolEntry) 20).pushAll_eq l
  have hmax : 1024 * 2 ^ 20 = 2 ^ 30 := by decide
  have hlimit : 1024 * 2 ^ (20 + 1) = 2 ^ 31 := by decide
  rw [hmax, hlimit] at h
  simp only [GrowArray.empty, List.length_nil, Nat.zero_add, List.nil_append] at h ⊢
  refine ⟨fun hle => ?_, h.2⟩
  obtain ⟨cap, hcap, -⟩ := h.1 hle
  exact ⟨cap, hcap⟩

/-- What the call does: it goes through exactly where every section can be read and no
more than `2 ^ 30` symbols come together. -/
theorem elfReadSyms_eq (f : ElfObject) :
    ((∀ scn ∈ f.scns, Readable f Shdr.count scn) → (objSymbols f Shdr.count).length ≤ 2 ^ 30 →
      elfReadSyms (some f) =
        some ⟨0, objSymbols f Shdr.count, some (nameBytes (objSymbols f Shdr.count))⟩) ∧
    (¬ ((∀ scn ∈ f.scns, Readable f Shdr.count scn) ∧
      (objSymbols f Shdr.count).length ≤ 2 ^ 30) → elfReadSyms (some f) = none) := by
  obtain ⟨hsome, hnone⟩ := pushAll_empty (objSymbols f Shdr.count)
  have hloop : (∀ scn ∈ f.scns, Readable f Shdr.count scn) →
      f.scns.foldlM (readScn f) ⟨.empty, 0⟩ =
        (objSymbols f Shdr.count).foldlM ReadState.push ⟨.empty, 0⟩ :=
    fun hread => foldlM_of_good (fun st scn hscn => readScn_of_readable hscn st) hread _
  constructor
  · intro hread hlen
    obtain ⟨cap, hcap⟩ := hsome hlen
    simp only [elfReadSyms, hloop hread, foldlM_push, hcap, Option.map_some, Nat.zero_add]
  · intro hnot
    by_cases hread : ∀ scn ∈ f.scns, Readable f Shdr.count scn
    · have hlen : 2 ^ 30 < (objSymbols f Shdr.count).length := by
        by_contra hle
        exact hnot ⟨hread, Nat.le_of_not_lt hle⟩
      simp only [elfReadSyms, hloop hread, foldlM_push, hnone hlen, Option.map_none]
    · push Not at hread
      obtain ⟨scn, hmem, hscn⟩ := hread
      have hfail : f.scns.foldlM (readScn f) ⟨.empty, 0⟩ = none :=
        foldlM_of_not_good (P := Readable f Shdr.count)
          (fun st scn hscn => readScn_of_not_readable hscn st) hmem hscn _
      simp only [elfReadSyms, hfail, Option.map_none]

/-- The call fails with a negative code, or all symbols that the headers announce can be
read, and it returns the non-empty ones. -/
def ReadsCleanly (f : ElfObject) : Prop :=
  ∃ r, elfReadSyms (some f) = some r ∧
    (r.rc < 0 ∨ (∀ scn ∈ f.scns, Readable f Shdr.quotient scn) ∧
      r.entries = objSymbols f Shdr.quotient)

/-- A symbol that is read and, unless it is empty, has a name. -/
def Usable (f : ElfObject) (scn : Scn) (i : ℕ) : Prop :=
  ∃ sym, gelfGetsym scn.data i = some sym ∧
    (sym.IsEmpty ∨ (f.strptr scn.shdr.shLink sym.stName).isSome)

/-- A section of symbols with a size for its entries, whose symbols are all usable, and
empty from the number on that an `int` keeps of theirs. -/
structure Sound (f : ElfObject) (scn : Scn) : Prop where
  entsize : scn.shdr.shEntsize ≠ 0
  usable : ∀ i < scn.shdr.quotient, Usable f scn i
  counted : ∀ i, scn.shdr.count ≤ i → i < scn.shdr.quotient →
    ∃ sym, gelfGetsym scn.data i = some sym ∧ sym.IsEmpty

theorem count_le_quotient (shdr : Shdr) : shdr.count ≤ shdr.quotient := by
  unfold Shdr.count Shdr.quotient
  rw [BitVec.toInt_eq_toNat_cond]
  have hle : ((shdr.shSize / shdr.shEntsize).setWidth 32).toNat ≤
      (shdr.shSize / shdr.shEntsize).toNat := by
    rw [BitVec.toNat_setWidth]
    exact Nat.mod_le _ _
  split_ifs
  · rw [Int.toNat_natCast]
    exact hle
  · have hlt := ((shdr.shSize / shdr.shEntsize).setWidth 32).isLt
    omega

theorem isSome_symAt_iff (i : ℕ) : (symAt f scn i).isSome ↔ Usable f scn i := by
  unfold symAt Usable
  cases hsym : gelfGetsym scn.data i with
  | none => simp
  | some sym =>
    by_cases hempty : sym.IsEmpty
    · simp [hempty]
    · simp [hempty, seInit]

/-- A symbol that contributes nothing is empty. -/
theorem symAt_eq_nil_iff (i : ℕ) :
    symAt f scn i = some [] ↔ ∃ sym, gelfGetsym scn.data i = some sym ∧ sym.IsEmpty := by
  unfold symAt
  cases hsym : gelfGetsym scn.data i with
  | none => simp
  | some sym =>
    by_cases hempty : sym.IsEmpty
    · simp [hempty]
    · simp [hempty]

/-- The announced symbols are those that are counted and those behind them. -/
theorem scnSymbols_quotient (hholds : scn.HoldsSyms) :
    scnSymbols f Shdr.quotient scn = scnSymbols f Shdr.count scn ++
      (List.range' scn.shdr.count (scn.shdr.quotient - scn.shdr.count)).flatMap
        fun i => (symAt f scn i).getD [] := by
  have hle := count_le_quotient scn.shdr
  have hrange : List.range scn.shdr.quotient = List.range scn.shdr.count ++
      List.range' scn.shdr.count (scn.shdr.quotient - scn.shdr.count) := by
    have happend := @List.range'_append_1 0 scn.shdr.count (scn.shdr.quotient - scn.shdr.count)
    rw [Nat.zero_add, Nat.add_sub_cancel' hle] at happend
    rw [List.range_eq_range', List.range_eq_range', happend]
  simp only [scnSymbols, if_pos hholds, hrange, List.flatMap_append]

theorem length_flatMap_le {α β : Type*} {g h : α → List β} {as : List α}
    (hle : ∀ a ∈ as, (g a).length ≤ (h a).length) :
    (as.flatMap g).length ≤ (as.flatMap h).length := by
  induction as with
  | nil => exact Nat.le_refl 0
  | cons a as ih =>
    have hfirst := hle a List.mem_cons_self
    have hrest := ih fun b hb => hle b (List.mem_cons_of_mem a hb)
    simp only [List.flatMap_cons, List.length_append]
    omega

/-- Lists that are each a beginning of another, and together as long, are the others. -/
theorem flatMap_eq_of_length {α β : Type*} {g h : α → List β} {as : List α}
    (hpre : ∀ a ∈ as, g a <+: h a) (hlen : (as.flatMap h).length ≤ (as.flatMap g).length) :
    ∀ a ∈ as, g a = h a := by
  induction as with
  | nil => exact fun a ha => absurd ha List.not_mem_nil
  | cons a as ih =>
    have hfirst := (hpre a List.mem_cons_self).length_le
    have hrest := length_flatMap_le fun b hb => (hpre b (List.mem_cons_of_mem a hb)).length_le
    simp only [List.flatMap_cons, List.length_append] at hlen
    intro b hb
    rcases List.mem_cons.mp hb with rfl | hb
    · exact (hpre b List.mem_cons_self).eq_of_length (by omega)
    · exact ih (fun c hc => hpre c (List.mem_cons_of_mem a hc)) (by omega) b hb

/-- What is counted of a sound section is all of it. -/
theorem Sound.scnSymbols_eq (h : scn.HoldsSyms → Sound f scn) :
    scnSymbols f Shdr.quotient scn = scnSymbols f Shdr.count scn := by
  by_cases hholds : scn.HoldsSyms
  · have hrest : (List.range' scn.shdr.count (scn.shdr.quotient - scn.shdr.count)).flatMap
        (fun i => (symAt f scn i).getD []) = [] := by
      apply List.flatMap_eq_nil_iff.mpr
      intro i hi
      have hle := count_le_quotient scn.shdr
      rw [List.mem_range'_1] at hi
      rw [(symAt_eq_nil_iff i).mpr ((h hholds).counted i hi.1 (by omega))]
      rfl
    rw [scnSymbols_quotient hholds, hrest, List.append_nil]
  · simp only [scnSymbols, if_neg hholds]

/-- Where what is counted is all, the symbols behind are empty. -/
theorem sound_of_scnSymbols_eq (hread : Readable f Shdr.quotient scn)
    (heq : scnSymbols f Shdr.count scn = scnSymbols f Shdr.quotient scn) (hholds : scn.HoldsSyms) :
    Sound f scn := by
  obtain ⟨hent, hsome⟩ := hread hholds
  refine ⟨hent, fun i hi => (isSome_symAt_iff i).mp (hsome i hi), fun i hle hlt => ?_⟩
  rw [scnSymbols_quotient hholds, List.self_eq_append_right] at heq
  have hmem : i ∈ List.range' scn.shdr.count (scn.shdr.quotient - scn.shdr.count) := by
    rw [List.mem_range'_1]
    omega
  have hnil := List.flatMap_eq_nil_iff.mp heq i hmem
  obtain ⟨l, hl⟩ := Option.isSome_iff_exists.mp (hsome i hlt)
  rw [hl, Option.getD_some] at hnil
  rw [← symAt_eq_nil_iff, hl, hnil]

/-- Exactly the sound objects with at most `2 ^ 30` symbols are read as they should be; no
others are refused. -/
theorem readsCleanly_iff (f : ElfObject) :
    ReadsCleanly f ↔ (∀ scn ∈ f.scns, scn.HoldsSyms → Sound f scn) ∧
      (objSymbols f Shdr.quotient).length ≤ 2 ^ 30 := by
  obtain ⟨hsome, hnone⟩ := elfReadSyms_eq f
  constructor
  · rintro ⟨r, hr, hclean⟩
    have hread : (∀ scn ∈ f.scns, Readable f Shdr.count scn) ∧
        (objSymbols f Shdr.count).length ≤ 2 ^ 30 := by
      by_contra hnot
      rw [hnone hnot] at hr
      cases hr
    rw [hsome hread.1 hread.2, Option.some.injEq] at hr
    subst hr
    -- the result is never negative
    obtain ⟨hall, heq⟩ := hclean.resolve_left (Int.lt_irrefl 0)
    have hpre : ∀ scn ∈ f.scns, scnSymbols f Shdr.count scn <+: scnSymbols f Shdr.quotient scn := by
      intro scn _
      by_cases hholds : scn.HoldsSyms
      · rw [scnSymbols_quotient hholds]
        exact List.prefix_append _ _
      · simp only [scnSymbols, if_neg hholds, List.prefix_refl]
    have heach := flatMap_eq_of_length hpre (Nat.le_of_eq (congrArg List.length heq).symm)
    refine ⟨fun scn hmem => sound_of_scnSymbols_eq (hall scn hmem) (heach scn hmem), ?_⟩
    rw [← heq]
    exact hread.2
  · rintro ⟨hsound, hlen⟩
    have heq : objSymbols f Shdr.count = objSymbols f Shdr.quotient := by
      apply List.flatMap_congr
      intro scn hmem
      exact (Sound.scnSymbols_eq (hsound scn hmem)).symm
    have hall : ∀ scn ∈ f.scns, Readable f Shdr.quotient scn := by
      intro scn hmem hholds
      have h := hsound scn hmem hholds
      exact ⟨h.entsize, fun i hi => (isSome_symAt_iff i).mpr (h.usable i hi)⟩
    have hread : ∀ scn ∈ f.scns, Readable f Shdr.count scn := by
      intro scn hmem hholds
      obtain ⟨hent, hi⟩ := hall scn hmem hholds
      exact ⟨hent, fun i hlt => hi i (Nat.lt_of_lt_of_le hlt (count_le_quotient scn.shdr))⟩
    refine ⟨_, hsome hread (by rw [heq]; exact hlen), .inr ⟨hall, heq⟩⟩

/-- One symbol table, whose header has no size for its entries. -/
def noEntsize : ElfObject := ⟨[⟨⟨SHT_SYMTAB, 24, 0, 0⟩, some []⟩], fun _ _ => none⟩

/-- One symbol whose name is outside the string table. -/
def noName : ElfObject :=
  ⟨[⟨⟨SHT_SYMTAB, 24, 0, 24⟩, some [⟨1, 0, 0, 0, 0⟩]⟩], fun _ _ => none⟩

/-- The first divides by zero, and the second copies a name that is NULL. -/
theorem not_readsCleanly :
    (elfReadSyms (some noEntsize) = none ∧ ¬ ReadsCleanly noEntsize) ∧
    (elfReadSyms (some noName) = none ∧ ¬ ReadsCleanly noName) := by
  have hzero : elfReadSyms (some noEntsize) = none := rfl
  have hname : elfReadSyms (some noName) = none := rfl
  refine ⟨⟨hzero, ?_⟩, hname, ?_⟩
  · rintro ⟨r, hr, -⟩
    rw [hzero] at hr
    cases hr
  · rintro ⟨r, hr, -⟩
    rw [hname] at hr
    cases hr

theorem zero_not_mem_strAt (bytes : List UInt8) (off : ℕ) : 0 ∉ strAt bytes off := by
  intro hmem
  have h := List.mem_takeWhile_imp hmem
  simp at h

/-- The string of a table that holds the offset. -/
def strIn (st : StrTab) (off : BitVec 32) : Option CString :=
  if off.toNat < st.top then some ⟨strAt st.buf off.toNat, zero_not_mem_strAt _ _⟩ else none

/-- The types of the sections that a generated library has. -/
def shType : Section → BitVec 32
  | .shstrtab | .strtab | .dynstr => 3
  | .symtab => SHT_SYMTAB
  | .dynsym => SHT_DYNSYM
  | .hash => 5
  | .dynamic => 6

/-- The indices of `.strtab`, `.dynstr` and `.dynsym`. -/
def shLink : Section → BitVec 32
  | .symtab => 2
  | .dynsym => 3
  | .hash => 5
  | _ => 0

def shEntsize : Section → BitVec 64
  | .symtab | .dynsym => BitVec.ofNat 64 symEntsize
  | _ => 0

/-- A section of the library as libelf gives it back. -/
def generatedScn (es : Entries) (s : Section) : Scn :=
  ⟨⟨shType s, BitVec.ofNat 64 (sectionSize es s), shLink s, shEntsize s⟩,
    if s = .symtab ∨ s = .dynsym then some (symTable es) else none⟩

/-- The library that `elf_generate_elf_mmap` writes, opened again: string tables are the
sections 1, 2 and 3. -/
def generated (es : Entries) : ElfObject where
  scns := sectionOrder.map (generatedScn es)
  strptr link off :=
    if link = 1 then strIn shStrtab off
    else if link = 2 ∨ link = 3 then strIn (symStrtab es).1 off
    else none

/-- `elf_generate_elf_mmap` with the symbols of the file it writes. libelf copies as many
bytes as it is told, and fails where the buffer has less. -/
def elfGenerateElfMmap (es : Entries) : Option ElfObject :=
  if ∀ s ∈ sectionOrder, sectionSize es s ≤ bufferSize es s then some (generated es) else none

/-- What is read back of an entry. -/
def readEntry (e : SymbolEntry) : SymbolEntry := ⟨e.name, e.zero_not_mem, e.addr, 0, .global, .abs⟩

/-- Names come after what the table held before them. -/
theorem top_le_addNames (st : StrTab) (es : List SymbolEntry) :
    ∀ off ∈ (addNames st es).2, st.top ≤ off := by
  induction es generalizing st with
  | nil => exact fun off hoff => absurd hoff List.not_mem_nil
  | cons e es ih =>
    intro off hoff
    rw [addNames_cons_snd] at hoff
    rcases List.mem_cons.mp hoff with rfl | hoff
    · exact Nat.le_refl _
    · have hle := ih _ off hoff
      rw [addStr_top] at hle
      omega

/-- The symbol after the first for each entry: it has an offset that is not 0, and leads
to the name. -/
theorem symTable_succ {es : Entries} (hnm : namesSize es < 2 ^ 32 - 1) {i : ℕ} {e : SymbolEntry}
    (he : es.list[i]? = some e) :
    ∃ sym, (symTable es)[i + 1]? = some sym ∧ ¬ sym.IsEmpty ∧ sym.stShndx = SHN_ABS ∧
      sym.stValue = e.addr ∧ sym.stName.toNat < (symStrtab es).1.top ∧
      strAt (symStrtab es).1.buf sym.stName.toNat = e.name := by
  obtain ⟨off, hoff, hstr, hlt⟩ := strAt_symStrtab he
  have hpos : 1 ≤ off :=
    top_le_addNames (addStr ⟨[]⟩ []).1 es.list off (List.mem_of_getElem? hoff)
  have htop := symStrtab_top es
  have hword : (BitVec.ofNat 32 off).toNat = off := by
    rw [BitVec.toNat_ofNat]
    apply Nat.mod_eq_of_lt
    omega
  refine ⟨⟨BitVec.ofNat 32 off, symInfo e, SHN_ABS, e.addr, e.size⟩, ?_, ?_, rfl, rfl, ?_, ?_⟩
  · simp [symTable, List.getElem?_zipWith, he, hoff]
  · rintro ⟨hname, -⟩
    have hzero : (BitVec.ofNat 32 off).toNat = 0 := congrArg BitVec.toNat hname
    rw [hword] at hzero
    omega
  · simp only [hword]
    exact hlt
  · simp only [hword]
    exact hstr

/-- The two symbol tables of the library, linked to the names. -/
theorem symAt_generated {es : Entries} (hnm : namesSize es < 2 ^ 32 - 1) {s : Section}
    (hs : s = .symtab ∨ s = .dynsym) :
    symAt (generated es) (generatedScn es s) 0 = some [] ∧
    ∀ i e, es.list[i]? = some e →
      symAt (generated es) (generatedScn es s) (i + 1) = some [readEntry e] := by
  have hdata : (generatedScn es s).data = some (symTable es) := if_pos hs
  have hlink : ∀ off, (generated es).strptr (generatedScn es s).shdr.shLink off =
      strIn (symStrtab es).1 off := by
    intro off
    rcases hs with rfl | rfl <;> rfl
  constructor
  · simp [symAt, gelfGetsym, hdata, symTable, Sym.IsEmpty]
  · intro i e he
    obtain ⟨sym, hsym, hne, hshndx, hvalue, hlt, hstr⟩ := symTable_succ hnm he
    have hundef : ¬ sym.stShndx = SHN_UNDEF := by
      rw [hshndx]
      decide
    simp only [symAt, gelfGetsym, hdata, Option.bind_eq_bind, Option.bind_some, hsym, if_neg hne,
      seInit, hlink, strIn, if_pos hlt, Option.map_some, if_neg hundef, hvalue]
    simp only [hstr, readEntry]

theorem flatMap_range_eq_map {α β : Type*} {l : List α} {h : ℕ → List β} {r : α → β}
    (hh : ∀ i a, l[i]? = some a → h i = [r a]) : (List.range l.length).flatMap h = l.map r := by
  induction l generalizing h with
  | nil => rfl
  | cons a l ih =>
    have hfirst := hh 0 a rfl
    have hrest := ih (h := fun i => h (i + 1)) fun i b hb => hh (i + 1) b (by simpa using hb)
    rw [List.length_cons, List.range_succ_eq_map, List.flatMap_cons, hfirst, List.flatMap_map,
      List.map_cons, hrest]
    rfl

/-- The header announces the null symbol and one for each entry. -/
theorem quotient_generated {es : Entries} (hcount : es.count + 1 < 2 ^ 31) {s : Section}
    (hs : s = .symtab ∨ s = .dynsym) : (generatedScn es s).shdr.quotient = es.count + 1 := by
  have hsize := sectionSize_symbols hs hcount
  have hent : shEntsize s = BitVec.ofNat 64 24 := by
    rcases hs with rfl | rfl <;> rfl
  have hfits : (es.count + 1) * 24 < 2 ^ 64 := by omega
  simp only [Shdr.quotient, generatedScn, hsize, hent, BitVec.toNat_udiv, BitVec.toNat_ofNat]
  rw [Nat.mod_eq_of_lt hfits]
  exact Nat.mul_div_cancel _ (by decide)

/-- An `int` holds it. -/
theorem count_generated {es : Entries} (hcount : es.count + 1 < 2 ^ 31) {s : Section}
    (hs : s = .symtab ∨ s = .dynsym) : (generatedScn es s).shdr.count = es.count + 1 := by
  have hquotient := quotient_generated hcount hs
  unfold Shdr.quotient at hquotient
  unfold Shdr.count
  rw [BitVec.toInt_eq_toNat_cond, BitVec.toNat_setWidth, hquotient]
  split_ifs <;> omega

theorem holdsSyms_generated_iff (es : Entries) (s : Section) :
    (generatedScn es s).HoldsSyms ↔ s = .symtab ∨ s = .dynsym := by
  cases s <;> simp [generatedScn, Scn.HoldsSyms, shType, SHT_SYMTAB, SHT_DYNSYM]

/-- What is counted of a table is all of it. -/
theorem scnSymbols_generated {es : Entries} (hnm : namesSize es < 2 ^ 32 - 1)
    (hcount : es.count + 1 < 2 ^ 31) {s : Section} (hs : s = .symtab ∨ s = .dynsym) :
    scnSymbols (generated es) Shdr.count (generatedScn es s) = es.list.map readEntry := by
  obtain ⟨hnull, hentry⟩ := symAt_generated hnm hs
  rw [scnSymbols, if_pos ((holdsSyms_generated_iff es s).mpr hs), count_generated hcount hs,
    List.range_succ_eq_map, List.flatMap_cons, hnull, List.flatMap_map]
  apply flatMap_range_eq_map
  intro i e he
  simp [hentry i e he]

theorem objSymbols_generated {es : Entries} (hnm : namesSize es < 2 ^ 32 - 1)
    (hcount : es.count + 1 < 2 ^ 31) :
    objSymbols (generated es) Shdr.count = es.list.map readEntry ++ es.list.map readEntry := by
  have hother : ∀ s, ¬ (s = .symtab ∨ s = .dynsym) →
      scnSymbols (generated es) Shdr.count (generatedScn es s) = [] :=
    fun s hs => if_neg (mt (holdsSyms_generated_iff es s).mp hs)
  have hscns : (generated es).scns = sectionOrder.map (generatedScn es) := rfl
  rw [objSymbols, hscns, sectionOrder]
  simp only [List.map_cons, List.map_nil, List.flatMap_cons, List.flatMap_nil, List.append_nil,
    hother .shstrtab (by simp), hother .strtab (by simp), hother .dynstr (by simp),
    hother .hash (by simp), hother .dynamic (by simp), List.nil_append,
    scnSymbols_generated hnm hcount (.inl rfl), scnSymbols_generated hnm hcount (.inr rfl)]

/-- Every symbol of the library can be read. -/
theorem readable_generated {es : Entries} (hnm : namesSize es < 2 ^ 32 - 1)
    (hcount : es.count + 1 < 2 ^ 31) :
    ∀ scn ∈ (generated es).scns, Readable (generated es) Shdr.count scn := by
  intro scn hmem hholds
  obtain ⟨s, -, rfl⟩ := List.mem_map.mp hmem
  have hs := (holdsSyms_generated_iff es s).mp hholds
  obtain ⟨hnull, hentry⟩ := symAt_generated hnm hs
  refine ⟨?_, fun i hi => ?_⟩
  · rcases hs with rfl | rfl <;> simp [generatedScn, shEntsize, symEntsize]
  · cases i with
    | zero => rw [hnull]; rfl
    | succ i =>
      rw [count_generated hcount hs] at hi
      have hlt : i < es.list.length := Nat.lt_of_succ_lt_succ hi
      rw [hentry i _ (List.getElem?_eq_getElem hlt)]
      rfl

theorem nameBytes_readEntry (l : List SymbolEntry) :
    nameBytes (l.map readEntry ++ l.map readEntry) = 2 * nameBytes l := by
  simp only [nameBytes, List.map_append, List.sum_append, List.map_map]
  have hsame : (fun e : SymbolEntry => e.name.length + 1) ∘ readEntry =
      fun e => e.name.length + 1 := rfl
  rw [hsame]
  omega

/-- Both symbol tables of the library are read as long as the array takes them. -/
theorem elfReadSyms_generated {es : Entries} (hnm : namesSize es < 2 ^ 32 - 1)
    (hcount : es.count + 1 < 2 ^ 31) :
    (es.count ≤ 2 ^ 29 → elfReadSyms (some (generated es)) =
      some ⟨0, es.list.map readEntry ++ es.list.map readEntry, some (2 * namesSize es)⟩) ∧
    (2 ^ 29 < es.count → elfReadSyms (some (generated es)) = none) := by
  obtain ⟨hsome, hnone⟩ := elfReadSyms_eq (generated es)
  have hlen : (es.list.map readEntry ++ es.list.map readEntry).length = 2 * es.count := by
    rw [List.length_append, List.length_map, ← Nat.two_mul]
    rfl
  rw [objSymbols_generated hnm hcount, hlen, nameBytes_readEntry] at hsome
  rw [objSymbols_generated hnm hcount, hlen] at hnone
  constructor
  · intro hle
    exact hsome (readable_generated hnm hcount) (by omega)
  · intro hlt
    apply hnone
    rintro ⟨-, hle⟩
    omega

/-- The sizes that libelf is told are those of the buffers, as long as an `int` holds the
size of the hash table. -/
theorem sectionSize_le_bufferSize {es : Entries} (hcount : es.count ≤ 2 ^ 29 - 4) (s : Section) :
    sectionSize es s ≤ bufferSize es s := by
  have hsymbols (hs : s = .symtab ∨ s = .dynsym) :
      sectionSize es s ≤ (symTable es).length * symEntsize := by
    rw [sectionSize_symbols hs (by omega), symTable_length, symEntsize]
  cases s with
  | shstrtab | strtab | dynstr | dynamic => exact Nat.le_refl _
  | symtab => exact hsymbols (.inl rfl)
  | dynsym => exact hsymbols (.inr rfl)
  | hash =>
    have hhash : (es.count + 3) * 4 < 2 ^ 31 := by omega
    exact (sectionSize_hash hhash).le

theorem elfGenerateElfMmap_eq {es : Entries} (hcount : es.count ≤ 2 ^ 29 - 4) :
    elfGenerateElfMmap es = some (generated es) :=
  if_pos fun s _ => sectionSize_le_bufferSize hcount s

/-- Beyond that the size of the hash table is huge, or there are more symbols than the
reader's array takes; and those of the symbol tables are, where the `int` does not even
count the symbols. -/
theorem count_of_sizes {es : Entries} (h : ∀ s ∈ sectionOrder, sectionSize es s ≤ bufferSize es s) :
    (es.count ≤ 2 ^ 29 - 4 ∨ 2 ^ 29 < es.count) ∧ es.count + 1 < 2 ^ 31 := by
  have hint : es.count < 2 ^ 31 := es.length_lt
  constructor
  · by_contra hbetween
    rw [not_or] at hbetween
    have hhash := h .hash (by simp [sectionOrder])
    rw [sectionSize, bufferSize, hBuf_length, intToSize_of_ge (by omega) (by omega)] at hhash
    omega
  · by_contra hlast
    have hsymtab := h .symtab (by simp [sectionOrder])
    rw [sectionSize, bufferSize, symTable_length, intToSize_of_ge (by omega) (by omega),
      symEntsize] at hsymtab
    omega

def nameAddr (e : SymbolEntry) : List UInt8 × BitVec 64 := (e.name, e.addr)

/-- A library is generated, and the list comes back twice, with twice the length of its
names. -/
def ReadsBack (es : Entries) : Prop :=
  ∃ f, elfGenerateElfMmap es = some f ∧ ∃ r, elfReadSyms (some f) = some r ∧ r.rc = 0 ∧
    r.entries.map nameAddr = es.list.map nameAddr ++ es.list.map nameAddr ∧
    r.nmstrlen = some (2 * namesSize es)

/-- The symbols are read back exactly as long as the size of the hash table is an `int`. -/
theorem readsBack_iff (es : Entries) (hnm : namesSize es < 2 ^ 32 - 1) :
    ReadsBack es ↔ es.count ≤ 2 ^ 29 - 4 := by
  constructor
  · rintro ⟨f, hf, r, hr, -⟩
    by_contra hnot
    rw [elfGenerateElfMmap, Option.ite_none_right_eq_some] at hf
    obtain ⟨hsizes, hf⟩ := hf
    obtain ⟨hcount, hint⟩ := count_of_sizes hsizes
    obtain rfl := Option.some.inj hf
    rw [(elfReadSyms_generated hnm hint).2 (hcount.resolve_left hnot)] at hr
    cases hr
  · intro hle
    have hread := (elfReadSyms_generated hnm (by omega)).1 (by omega : es.count ≤ 2 ^ 29)
    refine ⟨_, elfGenerateElfMmap_eq hle, _, hread, rfl, ?_, rfl⟩
    simp only [List.map_append, List.map_map]
    rfl

/-- A function, a weak variable without a name at address 0, and the function again. -/
def threeSymbols : Entries :=
  ⟨[⟨[102], zero_not_mem_f, 0x1000, 0, .global, .func⟩, ⟨[], List.not_mem_nil, 0, 8, .weak, .data⟩,
    ⟨[102], zero_not_mem_f, 0x2000, 0, .global, .func⟩], by decide⟩

theorem readsBack_threeSymbols : ReadsBack threeSymbols :=
  (readsBack_iff threeSymbols (by decide)).mpr (by decide)

/-- Symbols without names. -/
def nameless (n : ℕ) (hn : n < 2 ^ 31) : Entries :=
  ⟨List.replicate n ⟨[], List.not_mem_nil, 0, 0, .global, .func⟩, by rwa [List.length_replicate]⟩

theorem nameless_count (n : ℕ) (hn : n < 2 ^ 31) : (nameless n hn).count = n :=
  List.length_replicate

theorem namesSize_nameless (n : ℕ) (hn : n < 2 ^ 31) : namesSize (nameless n hn) = n := by
  unfold namesSize nameless
  rw [List.map_replicate, List.sum_replicate_nat]
  exact Nat.mul_one n

/-- No library comes of `2 ^ 29 - 3` symbols without names, although their names are
short enough: the size of the hash table overflows. -/
theorem nameless_not_read_back :
    namesSize (nameless (2 ^ 29 - 3) (by decide)) < 2 ^ 32 - 1 ∧
    ¬ ReadsBack (nameless (2 ^ 29 - 3) (by decide)) := by
  constructor
  · rw [namesSize_nameless]
    decide
  · rintro ⟨f, hf, -⟩
    rw [elfGenerateElfMmap, Option.ite_none_right_eq_some] at hf
    obtain ⟨hcount, -⟩ := count_of_sizes hf.1
    rw [nameless_count] at hcount
    omega

end SymbiOS.Kld
