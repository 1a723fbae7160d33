import SymbiOS.CLib
import SymbiOS.GuardedRun
import SymbiOS.Elf.Tables
import Mathlib.Data.List.Nodup

/-!
# What kld sets up before it starts

`GBLSInit` of `kld/main.c` takes the kernel-object specifications of the command
line apart, registers a binary object for each, and sets the mount point of the
file system with `fsInit` of `kld/fs.c`.
-/
namespace SymbiOS.Kld
open SymbiOS.CLib SymbiOS.GuardedRun SymbiOS.Elf

def PATH_MAX : ℕ := 4096

def KLDOPTS_DFLT : List UInt8 := ascii "EXCLUSIVE"

def comma : UInt8 := 44

/-- A base name of more than three bytes loses its `.ko`. -/
def modnmfromfnm (fnm : List UInt8) : List UInt8 :=
  let base := basename fnm
  let i := base.length
  if 3 < i ∧ base[i - 3]? = some 46 ∧ base[i - 2]? = some 107 ∧ base[i - 1]? = some 111 then
    strAt (base.set (i - 3) 0) 0
  else base

/-- The locals of the scan: the copy of the specification, in which commas become
NULs, the commas so far, and where the second and the third field start. -/
structure Scan where
  tmp : List UInt8
  commas : ℕ
  n : ℕ
  o : ℕ

/-- The loop of `parsekospec` from index `i`; a third comma ends it without a result. -/
def scanCommas : ℕ → ℕ → Scan → Option Scan
  | 0, _, s => some s
  | fuel + 1, i, s =>
      if s.tmp.getD i 0 = 0 then some s
      else if s.tmp.getD i 0 = comma then
        let tmp := s.tmp.set i 0
        match s.commas with
        | 0 => scanCommas fuel (i + 1) ⟨tmp, 1, i + 1, s.o⟩
        | 1 => scanCommas fuel (i + 1) ⟨tmp, 2, s.n, i + 1⟩
        | _ => none
      else scanCommas fuel (i + 1) s

structure KoSpec where
  fnm : List UInt8
  modnm : List UInt8
  kldopts : List UInt8
  deriving DecidableEq

/-- The `switch` after the loop. -/
def Scan.spec (s : Scan) : KoSpec :=
  let f := strAt s.tmp 0
  let n := strAt s.tmp s.n
  let o := strAt s.tmp s.o
  match s.commas with
  | 0 => ⟨f, modnmfromfnm f, KLDOPTS_DFLT⟩
  | 1 => ⟨f, if n = [] then modnmfromfnm f else n, KLDOPTS_DFLT⟩
  | _ => ⟨f, if n = [] then modnmfromfnm f else n, if o = [] then KLDOPTS_DFLT else o⟩

/-- `none` is the result -1. -/
def parsekospec (kospec : List UInt8) : Option KoSpec :=
  let tmp := kospec ++ [0]
  (scanCommas tmp.length 0 ⟨tmp, 0, 0, 0⟩).map Scan.spec

/-- The base name without a trailing `.ko`, where something is left of it. -/
def dfltModnm (fnm : List UInt8) : List UInt8 :=
  let base := basename fnm
  if 3 < base.length ∧ ascii ".ko" <:+ base then base.take (base.length - 3) else base

/-- A field that is present and not empty, or the default. -/
def fieldOr (field : Option (List UInt8)) (dflt : List UInt8) : List UInt8 :=
  match field with
  | some (c :: cs) => c :: cs
  | _ => dflt

theorem ascii_ko : ascii ".ko" = [46, 107, 111] := by decide

/-- A loop over a field reads it to its end and changes nothing. -/
theorem scanCommas_word {word : List UInt8} (hzero : 0 ∉ word) (hcomma : comma ∉ word)
    (before rest : List UInt8) (fuel commas n o : ℕ) :
    scanCommas (word.length + fuel) before.length ⟨before ++ word ++ rest, commas, n, o⟩ =
      scanCommas fuel (before ++ word).length ⟨before ++ word ++ rest, commas, n, o⟩ := by
  induction word generalizing before with
  | nil => simp
  | cons c word ih =>
    obtain ⟨hc0, hzero⟩ := not_or.mp (mt List.mem_cons.mpr hzero)
    obtain ⟨hcc, hcomma⟩ := not_or.mp (mt List.mem_cons.mpr hcomma)
    have hat : (before ++ c :: word ++ rest).getD before.length 0 = c := by simp
    have hfuel : (c :: word).length + fuel = (word.length + fuel) + 1 := by
      simp only [List.length_cons]
      omega
    have hstep := ih hzero hcomma (before ++ [c])
    rw [hfuel, scanCommas]
    simp only [hat, if_neg (Ne.symm hc0), if_neg (Ne.symm hcc)]
    simpa using hstep

/-- The scan where `before` is behind it and `text` ahead. -/
def scanFrom (before text : List UInt8) (commas n o : ℕ) : Option Scan :=
  scanCommas (text ++ [0]).length before.length ⟨before ++ text ++ [0], commas, n, o⟩

/-- The last field, up to the NUL. -/
theorem scanFrom_last {word : List UInt8} (hzero : 0 ∉ word) (hcomma : comma ∉ word)
    (before : List UInt8) (commas n o : ℕ) :
    scanFrom before word commas n o = some ⟨before ++ word ++ [0], commas, n, o⟩ := by
  unfold scanFrom
  rw [List.length_append, scanCommas_word hzero hcomma]
  simp [scanCommas]

/-- A field up to the comma after it. -/
theorem scanFrom_field {word : List UInt8} (hzero : 0 ∉ word) (hcomma : comma ∉ word)
    (before rest : List UInt8) (commas n o : ℕ) :
    scanFrom before (word ++ comma :: rest) commas n o =
      match commas with
      | 0 => scanFrom (before ++ word ++ [0]) rest 1 (before ++ word ++ [0]).length o
      | 1 => scanFrom (before ++ word ++ [0]) rest 2 n (before ++ word ++ [0]).length
      | _ => none := by
  have hne : comma ≠ 0 := by decide
  have hat : (before ++ word ++ comma :: (rest ++ [0])).getD (before ++ word).length 0 = comma := by
    simp
  have hset : (before ++ word ++ comma :: (rest ++ [0])).set (before ++ word).length 0 =
      before ++ word ++ [0] ++ rest ++ [0] := by
    simp
  have hlen : (word ++ comma :: rest ++ [0]).length = word.length + ((rest ++ [0]).length + 1) := by
    simp
  have htext : before ++ (word ++ comma :: rest) ++ [0] =
      before ++ word ++ comma :: (rest ++ [0]) := by
    simp
  rw [scanFrom, hlen, htext, scanCommas_word hzero hcomma, scanCommas]
  simp only [hat, if_neg hne, if_pos, hset]
  rcases commas with _ | _ | commas
  all_goals simp [scanFrom, Nat.add_assoc]

theorem strAt_field {buf : List UInt8} {off : ℕ} (before after : List UInt8) {s : List UInt8}
    (hs : 0 ∉ s) (hbuf : buf = before ++ s ++ 0 :: after) (hoff : off = before.length) :
    strAt buf off = s := by
  rw [hbuf, hoff]
  exact strAt_append before s after hs

theorem parsekospec_eq (kospec : List UInt8) :
    parsekospec kospec = (scanFrom [] kospec 0 0 0).map Scan.spec := rfl

theorem parsekospec_no_comma {file : List UInt8} (hf : 0 ∉ file) (hfc : comma ∉ file) :
    parsekospec file = some ⟨file, modnmfromfnm file, KLDOPTS_DFLT⟩ := by
  have hfile : strAt (file ++ [0]) 0 = file := strAt_append [] file [] hf
  rw [parsekospec_eq, scanFrom_last hf hfc]
  simp [Scan.spec, hfile]

theorem parsekospec_one_comma {file mod : List UInt8} (hf : 0 ∉ file) (hfc : comma ∉ file)
    (hm : 0 ∉ mod) (hmc : comma ∉ mod) :
    parsekospec (file ++ comma :: mod) =
      some ⟨file, if mod = [] then modnmfromfnm file else mod, KLDOPTS_DFLT⟩ := by
  have hfile : strAt (file ++ 0 :: (mod ++ [0])) 0 = file := strAt_append [] file _ hf
  have hmod : strAt (file ++ 0 :: (mod ++ [0])) (file.length + 1) = mod :=
    strAt_field (file ++ [0]) [] hm (by simp) (by simp)
  rw [parsekospec_eq, scanFrom_field hf hfc]
  simp only [scanFrom_last hm hmc]
  simp [Scan.spec, hfile, hmod]

theorem parsekospec_two_commas {file mod opts : List UInt8} (hf : 0 ∉ file) (hfc : comma ∉ file)
    (hm : 0 ∉ mod) (hmc : comma ∉ mod) (ho : 0 ∉ opts) (hoc : comma ∉ opts) :
    parsekospec (file ++ comma :: (mod ++ comma :: opts)) =
      some ⟨file, if mod = [] then modnmfromfnm file else mod,
        if opts = [] then KLDOPTS_DFLT else opts⟩ := by
  have hfile : strAt (file ++ 0 :: (mod ++ 0 :: (opts ++ [0]))) 0 = file :=
    strAt_append [] file _ hf
  have hmod : strAt (file ++ 0 :: (mod ++ 0 :: (opts ++ [0]))) (file.length + 1) = mod :=
    strAt_field (file ++ [0]) (opts ++ [0]) hm (by simp) (by simp)
  have hopts : strAt (file ++ 0 :: (mod ++ 0 :: (opts ++ [0])))
      (file.length + (mod.length + 1 + 1)) = opts :=
    strAt_field (file ++ [0] ++ mod ++ [0]) [] ho (by simp) (by simp)
  rw [parsekospec_eq, scanFrom_field hf hfc]
  simp only [scanFrom_field hm hmc, scanFrom_last ho hoc]
  simp [Scan.spec, hfile, hmod, hopts]

theorem parsekospec_three_commas {file mod opts : List UInt8} (hf : 0 ∉ file)
    (hfc : comma ∉ file) (hm : 0 ∉ mod) (hmc : comma ∉ mod) (ho : 0 ∉ opts) (hoc : comma ∉ opts)
    (rest : List UInt8) :
    parsekospec (file ++ comma :: (mod ++ comma :: (opts ++ comma :: rest))) = none := by
  rw [parsekospec_eq, scanFrom_field hf hfc]
  simp only [scanFrom_field hm hmc, scanFrom_field ho hoc]
  rfl

theorem zero_not_mem_basename {path : List UInt8} (h : 0 ∉ path) : 0 ∉ basename path := by
  simp only [basename]
  split_ifs
  · decide
  · decide
  · intro hmem
    have htrimmed := (List.rtakeWhile_suffix _ _).subset hmem
    exact h ((List.rdropWhile_prefix _ _).subset htrimmed)

/-- Taking the `.ko` off by its three bytes, as the code does, or as a suffix. -/
theorem modnmfromfnm_eq {fnm : List UInt8} (hzero : 0 ∉ fnm) :
    modnmfromfnm fnm = dfltModnm fnm := by
  have hbase : 0 ∉ basename fnm := zero_not_mem_basename hzero
  unfold modnmfromfnm dfltModnm
  generalize basename fnm = base at hbase ⊢
  by_cases hlen : 3 < base.length
  · obtain ⟨front, last, rfl, hlast⟩ :
        ∃ front last, base = front ++ last ∧ last.length = 3 :=
      ⟨_, _, (List.take_append_drop (base.length - 3) base).symm, by simp; omega⟩
    obtain ⟨a, b, c, rfl⟩ := List.length_eq_three.mp hlast
    have hfront : strAt (front ++ [0, b, c]) 0 = front :=
      strAt_append [] front _ fun hmem => hbase (List.mem_append_left _ hmem)
    have hsuffix : ascii ".ko" <:+ front ++ [a, b, c] ↔ a = 46 ∧ b = 107 ∧ c = 111 := by
      rw [List.suffix_iff_eq_drop]
      simp [ascii_ko, eq_comm]
    simp only [hsuffix, hlen, true_and]
    simp [hfront]
  · simp [hlen]

/-- A text of comma-free fields, up to the third comma. -/
theorem fields_cases (text : List UInt8) :
    comma ∉ text ∨
    (∃ file mod, text = file ++ comma :: mod ∧ comma ∉ file ∧ comma ∉ mod) ∨
    (∃ file mod opts, text = file ++ comma :: (mod ++ comma :: opts) ∧ comma ∉ file ∧
      comma ∉ mod ∧ comma ∉ opts) ∨
    (∃ file mod opts rest, text = file ++ comma :: (mod ++ comma :: (opts ++ comma :: rest)) ∧
      comma ∉ file ∧ comma ∉ mod ∧ comma ∉ opts) := by
  by_cases h₁ : comma ∈ text
  · obtain ⟨file, text₁, rfl, hfile⟩ := List.eq_append_cons_of_mem h₁
    by_cases h₂ : comma ∈ text₁
    · obtain ⟨mod, text₂, rfl, hmod⟩ := List.eq_append_cons_of_mem h₂
      by_cases h₃ : comma ∈ text₂
      · obtain ⟨opts, rest, rfl, hopts⟩ := List.eq_append_cons_of_mem h₃
        exact .inr (.inr (.inr ⟨file, mod, opts, rest, rfl, hfile, hmod, hopts⟩))
      · exact .inr (.inr (.inl ⟨file, mod, text₂, rfl, hfile, hmod, h₃⟩))
    · exact .inr (.inl ⟨file, text₁, rfl, hfile, h₂⟩)
  · exact .inl h₁

@[simp] theorem fieldOr_none (dflt : List UInt8) : fieldOr none dflt = dflt := rfl

@[simp] theorem fieldOr_some (field dflt : List UInt8) :
    fieldOr (some field) dflt = if field = [] then dflt else field := by
  cases field <;> rfl

theorem takeWhile_ne_comma {file : List UInt8} (hfc : comma ∉ file) (rest : List UInt8) :
    (file ++ comma :: rest).takeWhile (· != comma) = file := by
  have hne : ∀ c ∈ file, (c != comma) = true := by
    intro c hc
    simpa using ne_of_mem_of_not_mem hc hfc
  rw [List.takeWhile_append_of_pos hne]
  simp

/-- What the scan in place makes of a specification: at most two commas, the file
before the first, and the other fields with their defaults. -/
theorem parsekospec_grammar (kospec : CString) :
    ((parsekospec kospec.bytes).isSome ↔ kospec.bytes.count comma ≤ 2) ∧
    ∀ spec, parsekospec kospec.bytes = some spec →
      spec.fnm = kospec.bytes.takeWhile (· != comma) ∧
      spec.modnm = fieldOr (kospec.bytes.splitOn comma)[1]? (dfltModnm spec.fnm) ∧
      spec.kldopts = fieldOr (kospec.bytes.splitOn comma)[2]? KLDOPTS_DFLT := by
  obtain ⟨text, hzero⟩ := kospec
  simp only
  rcases fields_cases text with hfc | ⟨file, mod, rfl, hfc, hmc⟩ |
    ⟨file, mod, opts, rfl, hfc, hmc, hoc⟩ | ⟨file, mod, opts, rest, rfl, hfc, hmc, hoc⟩
  · have htake : text.takeWhile (· != comma) = text :=
      List.takeWhile_eq_self_iff.mpr fun c hc => by simpa using ne_of_mem_of_not_mem hc hfc
    rw [parsekospec_no_comma hzero hfc, modnmfromfnm_eq hzero, htake,
      List.splitOn_eq_singleton hfc, List.count_eq_zero_of_not_mem hfc]
    simp
  · simp only [List.mem_append, List.mem_cons, not_or] at hzero
    obtain ⟨hf, -, hm⟩ := hzero
    rw [parsekospec_one_comma hf hfc hm hmc, modnmfromfnm_eq hf, takeWhile_ne_comma hfc,
      List.splitOn_append_cons_self_of_not_mem hfc, List.splitOn_eq_singleton hmc]
    simp [List.count_eq_zero_of_not_mem, hfc, hmc]
  · simp only [List.mem_append, List.mem_cons, not_or] at hzero
    obtain ⟨hf, -, hm, -, ho⟩ := hzero
    rw [parsekospec_two_commas hf hfc hm hmc ho hoc, modnmfromfnm_eq hf, takeWhile_ne_comma hfc,
      List.splitOn_append_cons_self_of_not_mem hfc, List.splitOn_append_cons_self_of_not_mem hmc,
      List.splitOn_eq_singleton hoc]
    simp [List.count_eq_zero_of_not_mem, hfc, hmc, hoc]
  · simp only [List.mem_append, List.mem_cons, not_or] at hzero
    obtain ⟨hf, -, hm, -, ho, -⟩ := hzero
    rw [parsekospec_three_commas hf hfc hm hmc ho hoc]
    simp
    omega

/-- What the system answers: the directories that are searched, which paths open for
reading and for writing, and the canonical path of a file. -/
structure Host where
  dirs : List (List UInt8)
  readable : List UInt8 → Bool
  realpath : List UInt8 → Option (List UInt8)
  writable : List UInt8 → Bool

structure Bo where
  kofnm : List UInt8
  sofnm : List UInt8
  modnm : List UInt8
  kldopts : List UInt8
  deriving DecidableEq

/-- The registered objects, in the order of the hash table's list, and the contents
of the files. -/
structure Gbls where
  bos : List Bo
  files : List UInt8 → Option (List UInt8)

/-- The first directory with the file. Where `realpath` gives NULL, `openso` refuses. -/
def openko (host : Host) (kofnm : List UInt8) : Option (List UInt8) :=
  let paths := host.dirs.map fun dir => (snprintf PATH_MAX (dir ++ [slash] ++ kofnm)).2
  (paths.find? host.readable).bind host.realpath

def soPath (kofnm modnm : List UInt8) : List UInt8 :=
  (snprintf PATH_MAX (dirname kofnm ++ ascii "/lib" ++ modnm ++ ascii ".so")).2

/-- The path and the files after `open` with `O_CREAT | O_TRUNC`. -/
def openso (host : Host) (files : List UInt8 → Option (List UInt8)) (kofnm modnm : List UInt8) :
    Option (List UInt8 × (List UInt8 → Option (List UInt8))) :=
  let fullpath := soPath kofnm modnm
  if host.writable fullpath then some (fullpath, Function.update files fullpath (some []))
  else none

def addbo (host : Host) (g : Gbls) (kospec : List UInt8) : ℤ × Gbls :=
  match parsekospec kospec with
  | none => (-1, g)
  | some spec =>
      match openko host spec.fnm with
      | none => (-1, g)
      | some kofullpath =>
          match openso host g.files kofullpath spec.modnm with
          | none => (-1, g)
          | some (sofullpath, files) =>
              if kofullpath ∈ g.bos.map Bo.kofnm then (-1, ⟨g.bos, files⟩)
              else (0, ⟨g.bos ++ [⟨kofullpath, sofullpath, spec.modnm, spec.kldopts⟩], files⟩)

/-- The loop of `GBLSInit` over the specifications, which a negative result ends. -/
structure InitState where
  gbls : Gbls
  rc : ℤ

def initStep (host : Host) (s : InitState) (kospec : List UInt8) : InitState :=
  if s.rc < 0 then s
  else
    let r := addbo host s.gbls kospec
    ⟨r.2, r.1⟩

/-- The state after some specifications. -/
def initRun (host : Host) (files : List UInt8 → Option (List UInt8))
    (kospecs : List (List UInt8)) : InitState :=
  runFrom (initStep host) ⟨⟨[], files⟩, 0⟩ kospecs

def NamesRegistered (host : Host) (g : Gbls) (kospec : List UInt8) : Prop :=
  ∃ spec kofullpath, parsekospec kospec = some spec ∧ openko host spec.fnm = some kofullpath ∧
    kofullpath ∈ g.bos.map Bo.kofnm

/-- The library of the specification opens and is that of a registered object. -/
def SharesLibrary (host : Host) (g : Gbls) (kospec : List UInt8) : Prop :=
  ∃ spec kofullpath, parsekospec kospec = some spec ∧ openko host spec.fnm = some kofullpath ∧
    host.writable (soPath kofullpath spec.modnm) = true ∧
    soPath kofullpath spec.modnm ∈ g.bos.map Bo.sofnm

/-- Distinct paths after every specification, and a kernel object that comes again is
passed over: nothing changes, and the loop goes on. -/
structure NoCollisions (host : Host) (files : List UInt8 → Option (List UInt8))
    (kospecs : List (List UInt8)) : Prop where
  distinct : ∀ pre, pre <+: kospecs →
    ((initRun host files pre).gbls.bos.map Bo.kofnm).Nodup ∧
    ((initRun host files pre).gbls.bos.map Bo.sofnm).Nodup
  ignored : ∀ pre kospec, pre ++ [kospec] <+: kospecs → 0 ≤ (initRun host files pre).rc →
    NamesRegistered host (initRun host files pre).gbls kospec →
    addbo host (initRun host files pre).gbls kospec = (0, (initRun host files pre).gbls)

/-- What one call does: it refuses with the objects as they were, also where the
kernel object is there already, or it registers the two paths. -/
theorem addbo_cases (host : Host) (g : Gbls) (kospec : List UInt8) :
    ((addbo host g kospec).1 = -1 ∧ (addbo host g kospec).2.bos = g.bos) ∨
    ∃ spec kofullpath, parsekospec kospec = some spec ∧
      openko host spec.fnm = some kofullpath ∧
      host.writable (soPath kofullpath spec.modnm) = true ∧
      kofullpath ∉ g.bos.map Bo.kofnm ∧
      (addbo host g kospec).1 = 0 ∧
      (addbo host g kospec).2.bos =
        g.bos ++ [⟨kofullpath, soPath kofullpath spec.modnm, spec.modnm, spec.kldopts⟩] := by
  unfold addbo
  cases hspec : parsekospec kospec with
  | none => exact .inl ⟨rfl, rfl⟩
  | some spec =>
    cases hko : openko host spec.fnm with
    | none => simp [hko]
    | some kofullpath =>
      by_cases hso : host.writable (soPath kofullpath spec.modnm) = true
      · by_cases hmem : kofullpath ∈ g.bos.map Bo.kofnm
        · exact .inl (by simp only [hko, openso, if_pos hso, if_pos hmem, and_self])
        · refine .inr ⟨spec, kofullpath, rfl, hko, hso, hmem, ?_⟩
          simp only [hko, openso, if_pos hso, if_neg hmem, and_self]
      · exact .inl (by simp [hko, openso, if_neg hso])

/-- A kernel object that comes again makes the call fail. -/
theorem addbo_of_namesRegistered {host : Host} {g : Gbls} {kospec : List UInt8}
    (h : NamesRegistered host g kospec) : (addbo host g kospec).1 = -1 := by
  obtain ⟨spec, kofullpath, hspec, hko, hmem⟩ := h
  rcases addbo_cases host g kospec with ⟨hrc, -⟩ | ⟨spec', ko', hspec', hko', -, hnot, -⟩
  · exact hrc
  · obtain rfl : spec = spec' := Option.some.inj (hspec.symm.trans hspec')
    obtain rfl : kofullpath = ko' := Option.some.inj (hko.symm.trans hko')
    exact absurd hmem hnot

def DistinctPaths (s : InitState) : Prop :=
  (s.gbls.bos.map Bo.kofnm).Nodup ∧ (s.gbls.bos.map Bo.sofnm).Nodup

/-- What the registration needs of a specification that is reached. -/
def FreshSpec (host : Host) (s : InitState) (kospec : List UInt8) : Prop :=
  0 ≤ s.rc → ¬ NamesRegistered host s.gbls kospec ∧ ¬ SharesLibrary host s.gbls kospec

theorem nodup_map_concat {f : Bo → List UInt8} {bos : List Bo} {bo : Bo}
    (h : (bos.map f).Nodup) : ((bos ++ [bo]).map f).Nodup ↔ f bo ∉ bos.map f := by
  rw [List.map_append, List.map_singleton, List.nodup_append]
  simp only [h, List.nodup_singleton, true_and, List.mem_singleton]
  constructor
  · intro hne hmem
    exact hne _ hmem _ rfl rfl
  · rintro hnot a ha b rfl rfl
    exact hnot ha

theorem initStep_of_neg {host : Host} {s : InitState} (h : s.rc < 0) (kospec : List UInt8) :
    initStep host s kospec = s := if_pos h

theorem initStep_of_nonneg {host : Host} {s : InitState} (h : 0 ≤ s.rc) (kospec : List UInt8) :
    initStep host s kospec = ⟨(addbo host s.gbls kospec).2, (addbo host s.gbls kospec).1⟩ :=
  if_neg (Int.not_lt.mpr h)

/-- One specification keeps the paths distinct. -/
theorem distinctPaths_initStep {host : Host} {s : InitState} {kospec : List UInt8}
    (hs : DistinctPaths s) (hfresh : FreshSpec host s kospec) :
    DistinctPaths (initStep host s kospec) := by
  rcases Int.lt_or_le s.rc 0 with hneg | hrun
  · rwa [initStep_of_neg hneg]
  · obtain ⟨-, hshare⟩ := hfresh hrun
    rw [initStep_of_nonneg hrun]
    unfold DistinctPaths
    rcases addbo_cases host s.gbls kospec with
      ⟨-, hbos⟩ | ⟨spec, ko, hspec, hko, hso, hnot, -, hbos⟩
    · simp only [hbos]
      exact hs
    · simp only [hbos, nodup_map_concat hs.1, nodup_map_concat hs.2]
      exact ⟨hnot, fun hmem => hshare ⟨spec, ko, hspec, hko, hso, hmem⟩⟩

/-- A library that is shared makes two registered paths equal. -/
theorem not_distinctPaths_initStep {host : Host} {s : InitState} {kospec : List UInt8}
    (hs : DistinctPaths s) (hrun : 0 ≤ s.rc) (hko : ¬ NamesRegistered host s.gbls kospec)
    (hshare : SharesLibrary host s.gbls kospec) : ¬ DistinctPaths (initStep host s kospec) := by
  obtain ⟨spec, ko, hspec, hopen, hso, hmem⟩ := hshare
  have hnew : ko ∉ s.gbls.bos.map Bo.kofnm := fun h => hko ⟨spec, ko, hspec, hopen, h⟩
  rw [initStep_of_nonneg hrun]
  unfold DistinctPaths
  simp only [addbo, hspec, hopen, openso, if_pos hso, if_neg hnew]
  rw [nodup_map_concat hs.2]
  exact fun h => h.2 hmem

/-- Registered objects do not collide exactly where every specification that is
reached names a new kernel object and a library of its own. -/
theorem noCollisions_iff (host : Host) (files : List UInt8 → Option (List UInt8))
    (kospecs : List (List UInt8)) :
    NoCollisions host files kospecs ↔
      Guarded (initStep host) (FreshSpec host) ⟨⟨[], files⟩, 0⟩ kospecs := by
  constructor
  · intro h
    rw [guarded_iff_forall_step]
    intro pre kospec hpre hrun
    have hko : ¬ NamesRegistered host (initRun host files pre).gbls kospec := by
      intro hnames
      have hzero : (addbo host (initRun host files pre).gbls kospec).1 = 0 := by
        rw [h.ignored pre kospec hpre hrun hnames]
      rw [addbo_of_namesRegistered hnames] at hzero
      exact absurd hzero (by decide)
    refine ⟨hko, fun hshare => ?_⟩
    have hbefore := h.distinct pre ((List.prefix_append pre [kospec]).trans hpre)
    have hafter := h.distinct (pre ++ [kospec]) hpre
    rw [initRun, runFrom_append] at hafter
    exact not_distinctPaths_initStep hbefore hrun hko hshare hafter
  · intro h
    constructor
    · intro pre hpre
      exact h.invariant_prefix (fun _ _ => distinctPaths_initStep) ⟨List.nodup_nil, List.nodup_nil⟩
        hpre
    · intro pre kospec hpre hrun hnames
      exact absurd hnames (guarded_iff_forall_step.mp h pre kospec hpre hrun).1

/-- Every path opens and is its own canonical path. -/
def openHost : Host := ⟨[ascii "/d"], fun _ => true, some, fun _ => true⟩

/-- Two modules of one name in one directory share a library, and a kernel object that
comes again ends the loop, so that the object after it is not registered. -/
theorem not_noCollisions :
    ¬ NoCollisions openHost (fun _ => none) [ascii "a.ko,m", ascii "b.ko,m"] ∧
    ¬ NoCollisions openHost (fun _ => none) [ascii "a.ko", ascii "a.ko", ascii "b.ko"] := by
  constructor
  · intro h
    have hso := (h.distinct _ (List.prefix_refl _)).2
    exact absurd hso (by decide)
  · intro h
    have hnames : NamesRegistered openHost
        (initRun openHost (fun _ => none) [ascii "a.ko"]).gbls (ascii "a.ko") :=
      ⟨⟨ascii "a.ko", ascii "a", KLDOPTS_DFLT⟩, ascii "/d/a.ko", by decide, by decide, by decide⟩
    have hzero := congrArg Prod.fst (h.ignored [ascii "a.ko"] (ascii "a.ko") (by simp)
      (by decide) hnames)
    rw [addbo_of_namesRegistered hnames] at hzero
    exact absurd hzero (by decide)

/-- The fields of `fs_t` that do not start as zero, and the mount point. -/
structure FsObj where
  mntpt : Option (List UInt8)
  fuseFd : ℤ
  deriving DecidableEq

/-- `dir/name`, or the name alone. -/
def mountPath (dir : Option (List UInt8)) (fsname : List UInt8) : List UInt8 :=
  match dir with
  | some dir => dir ++ [slash] ++ fsname
  | none => fsname

/-- Whether the path fits, and what the buffer of `n` bytes holds then. -/
def fsMountPoint (n : ℕ) (dir : Option (List UInt8)) (fsname : List UInt8) : Bool × List UInt8 :=
  let r := snprintf n (mountPath dir fsname)
  if r.1 < 0 ∨ n ≤ r.1 then (false, r.2) else (true, r.2)

/-- `sizeof` of a pointer. -/
def sizeofPtr : ℕ := 8

/-- `none` is the exit. The object is reset first, whether or not it was zeroed before. -/
def fsInit (initmntpt : Bool) (mntptdir : Option (List UInt8)) (fsname : List UInt8) :
    Option FsObj :=
  let this : FsObj := ⟨none, -1⟩
  if initmntpt then
    let tmp := fsMountPoint sizeofPtr mntptdir fsname
    if tmp.1 then some { this with mntpt := some tmp.2 } else none
  else some this

/-- The mount point is set where the path fits a pointer. -/
theorem fsInit_eq (mntptdir : Option (List UInt8)) (fsname : List UInt8) :
    fsInit true mntptdir fsname =
      if (mountPath mntptdir fsname).length < 8 then
        some ⟨some (mountPath mntptdir fsname), -1⟩
      else none := by
  have hfits := snprintf_fits_iff (show 8 ≤ INT_MAX by decide) (mountPath mntptdir fsname)
  have hbad : (snprintf 8 (mountPath mntptdir fsname)).1 < 0 ∨
      ((8 : ℕ) : ℤ) ≤ (snprintf 8 (mountPath mntptdir fsname)).1 ↔
      ¬ (mountPath mntptdir fsname).length < 8 := by
    rw [← hfits]
    omega
  simp only [fsInit, fsMountPoint, sizeofPtr, if_true, hbad]
  by_cases hlen : (mountPath mntptdir fsname).length < 8
  · simp [hlen, snprintf_stored hlen]
  · simp [hlen]

/-- The mount point is right for every path below `PATH_MAX` exactly where none lies
between the size of a pointer and that limit. -/
theorem fsInit_mntpt_iff (mntptdir : Option (List UInt8)) (fsname : List UInt8) :
    (((mountPath mntptdir fsname).length < PATH_MAX →
        ∃ fs, fsInit true mntptdir fsname = some fs ∧
          fs.mntpt = some (mountPath mntptdir fsname)) ∧
      (fsInit true mntptdir fsname = none → PATH_MAX ≤ (mountPath mntptdir fsname).length)) ↔
    (mountPath mntptdir fsname).length < 8 ∨ PATH_MAX ≤ (mountPath mntptdir fsname).length := by
  rw [fsInit_eq]
  by_cases hlen : (mountPath mntptdir fsname).length < 8
  · simp [hlen]
  · simp [hlen]

/-- A short path in a directory makes `kld` exit. -/
theorem fsInit_exits :
    (mountPath (some (ascii "/tmp")) (ascii "libk")).length < PATH_MAX ∧
    fsInit true (some (ascii "/tmp")) (ascii "libk") = none := by
  decide

end SymbiOS.Kld
