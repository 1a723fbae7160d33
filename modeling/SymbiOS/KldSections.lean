import SymbiOS.Ledger
import Mathlib.Data.Finset.Lattice.Fold
import Mathlib.Data.Finset.Option
import Mathlib.Order.Lattice.Nat

/-!
# The sections of an executable

`elf_open_secdata` and `elf_close_secdata` of `kld/elf.c`: a section is looked up by its
name, and its data stay with a handle of libelf and a descriptor until they are closed.
The system and libelf are parameters.
-/
namespace SymbiOS.Kld

/-- What kld acquires: memory, file descriptors, handles of libelf, mappings and streams. -/
inductive Kind where
  | block
  | fd
  | elf
  | map
  | file
  deriving Repr, DecidableEq

abbrev Resource := Kind × ℕ

/-- The names that the system gives. -/
structure Supply where
  pick : Kind → Finset Resource → ℕ
  fresh : ∀ kind held, (kind, pick kind held) ∉ held

def Supply.namer (sup : Supply) (kind : Kind) : Namer Resource :=
  ⟨fun held => (kind, sup.pick kind held), sup.fresh kind⟩

def Supply.new (sup : Supply) (kind : Kind) : Use Resource Resource := Use.acquire (sup.namer kind)

/-- The smallest number that is larger than all in use. -/
def counting : Supply where
  pick _ held := held.sup Prod.snd + 1
  fresh kind held hmem := by
    have hle := Finset.le_sup (f := Prod.snd) hmem
    omega

/-- A section: the name in its header, unless the header cannot be read, and its data. -/
structure SecScn where
  shName : Option (BitVec 32)
  data : Option (List UInt8)

structure Image where
  shstrndx : Option ℕ
  scns : List SecScn
  strptr : ℕ → BitVec 32 → Option (List UInt8)

/-- What the calls answer: `elf_version`, `open` and `elf_begin`. -/
structure ElfHost where
  version : Bool
  opens : Bool
  image : Option Image

structure SectionData where
  data : Option (List UInt8)
  elf : Option Resource
  fd : Option Resource
  deriving DecidableEq

namespace SectionData

def closed : SectionData := ⟨none, none, none⟩

def owned (sd : SectionData) : List Resource := sd.elf.toList ++ sd.fd.toList

end SectionData

/-- The loop over the sections: the data of the first one with the name, or the result. -/
def findScn (name : BitVec 32 → Option (List UInt8)) (scnm : List UInt8) :
    List SecScn → Except ℤ (List UInt8)
  | [] => .error (-2)
  | scn :: scns =>
      match scn.shName with
      | none => .error (-3)
      | some shName =>
          if name shName = some scnm then
            match scn.data with
            | none => .error (-3)
            | some data => .ok data
          else findScn name scnm scns

def Image.find (img : Image) (scnm : List UInt8) : Except ℤ (List UInt8) :=
  match img.shstrndx with
  | none => .error (-3)
  | some shstrndx => findScn (img.strptr shstrndx) scnm img.scns

/-- The descriptor is one that the caller has, or `none` for -1; then the file is opened. -/
def elfOpenSecdata (sup : Supply) (host : ElfHost) (sd : SectionData)
    (path scnm : Option (List UInt8)) (fd : Option Resource) : Use Resource (ℤ × SectionData) :=
  match path, scnm with
  | some _, some scnm =>
      if host.version then do
        let sfd ←
          match fd with
          | some fd => pure (some fd)
          | none => if host.opens then some <$> sup.new .fd else pure none
        match sfd with
        | none => return (-1, .closed)
        | some sfd =>
            let opened := if fd = none then [sfd] else []
            match host.image with
            | none =>
                Use.releaseAll opened
                return (-1, .closed)
            | some img =>
                let elf ← sup.new .elf
                match img.find scnm with
                | .ok data => return (0, ⟨some data, some elf, some sfd⟩)
                | .error rc =>
                    Use.release elf
                    Use.releaseAll opened
                    return (rc, .closed)
      else return (-1, .closed)
  | _, _ => return (-1, sd)

def elfCloseSecdata (sd : SectionData) : Use Resource SectionData := do
  Use.releaseAll sd.elf.toList
  Use.releaseAll sd.fd.toList
  return .closed

/-- The section comes behind sections with other names, whose headers can all be read. -/
def FirstNamed (name : BitVec 32 → Option (List UInt8)) (scnm : List UInt8) (scns : List SecScn)
    (data : List UInt8) : Prop :=
  ∃ pre scn post, scns = pre ++ scn :: post ∧
    (∀ s ∈ pre, ∃ n, s.shName = some n ∧ name n ≠ some scnm) ∧
    (∃ n, scn.shName = some n ∧ name n = some scnm) ∧ scn.data = some data

theorem firstNamed_cons_iff {name : BitVec 32 → Option (List UInt8)} {scnm : List UInt8}
    {scn : SecScn} {scns : List SecScn} {data : List UInt8} :
    FirstNamed name scnm (scn :: scns) data ↔
      ((∃ n, scn.shName = some n ∧ name n = some scnm) ∧ scn.data = some data) ∨
      (∃ n, scn.shName = some n ∧ name n ≠ some scnm) ∧ FirstNamed name scnm scns data := by
  constructor
  · rintro ⟨pre, s, post, heq, hpre, hname, hdata⟩
    cases pre with
    | nil =>
      obtain ⟨rfl, -⟩ := List.cons.inj heq
      exact .inl ⟨hname, hdata⟩
    | cons p pre =>
      obtain ⟨rfl, hrest⟩ := List.cons.inj heq
      exact .inr ⟨hpre scn List.mem_cons_self,
        pre, s, post, hrest, fun t ht => hpre t (List.mem_cons_of_mem scn ht), hname, hdata⟩
  · rintro (⟨hname, hdata⟩ | ⟨hother, pre, s, post, rfl, hpre, hname, hdata⟩)
    · exact ⟨[], scn, scns, rfl, by simp, hname, hdata⟩
    · exact ⟨scn :: pre, s, post, rfl, List.forall_mem_cons.mpr ⟨hother, hpre⟩, hname, hdata⟩

theorem findScn_cases (name : BitVec 32 → Option (List UInt8)) (scnm : List UInt8)
    (scns : List SecScn) :
    (∃ data, findScn name scnm scns = .ok data ∧ FirstNamed name scnm scns data) ∨
    ∃ rc < 0, findScn name scnm scns = .error rc ∧ ∀ data, ¬ FirstNamed name scnm scns data := by
  induction scns with
  | nil =>
    refine .inr ⟨-2, by decide, rfl, ?_⟩
    rintro data ⟨pre, scn, post, heq, -⟩
    simp at heq
  | cons scn scns ih =>
    simp only [firstNamed_cons_iff, findScn]
    cases hhdr : scn.shName with
    | none => exact .inr ⟨-3, by decide, rfl, by simp⟩
    | some n =>
      by_cases hn : name n = some scnm
      · cases hdata : scn.data with
        | none => exact .inr ⟨-3, by decide, by simp [hn], by simp [hn]⟩
        | some data => exact .inl ⟨data, by simp [hn], by simp [hn]⟩
      · simpa [hn] using ih

theorem FirstNamed.unique {name : BitVec 32 → Option (List UInt8)} {scnm : List UInt8}
    {scns : List SecScn} {data data' : List UInt8} (h : FirstNamed name scnm scns data)
    (h' : FirstNamed name scnm scns data') : data = data' := by
  induction scns with
  | nil =>
    obtain ⟨pre, scn, post, heq, -⟩ := h
    simp at heq
  | cons scn scns ih =>
    rw [firstNamed_cons_iff] at h h'
    rcases h with ⟨⟨n, hn, hname⟩, hdata⟩ | ⟨⟨n, hn, hname⟩, hrest⟩
    · rcases h' with ⟨-, hdata'⟩ | ⟨⟨n', hn', hname'⟩, -⟩
      · exact Option.some.inj (hdata.symm.trans hdata')
      · obtain rfl := Option.some.inj (hn.symm.trans hn')
        exact absurd hname hname'
    · rcases h' with ⟨⟨n', hn', hname'⟩, -⟩ | ⟨-, hrest'⟩
      · obtain rfl := Option.some.inj (hn.symm.trans hn')
        exact absurd hname' hname
      · exact ih hrest hrest'

/-- The answers with which a section is found. -/
def ElfHost.Finds (host : ElfHost) (path scnm : Option (List UInt8)) (fd : Option Resource)
    (data : List UInt8) : Prop :=
  path.isSome ∧ host.version = true ∧ (fd = none → host.opens = true) ∧
    ∃ nm img shstrndx, scnm = some nm ∧ host.image = some img ∧ img.shstrndx = some shstrndx ∧
      FirstNamed (img.strptr shstrndx) nm img.scns data

theorem ElfHost.Finds.unique {host : ElfHost} {path scnm : Option (List UInt8)}
    {fd : Option Resource} {data data' : List UInt8} (h : host.Finds path scnm fd data)
    (h' : host.Finds path scnm fd data') : data = data' := by
  obtain ⟨-, -, -, nm, img, shstrndx, hnm, himg, hstr, hfirst⟩ := h
  obtain ⟨-, -, -, nm', img', shstrndx', hnm', himg', hstr', hfirst'⟩ := h'
  obtain rfl := Option.some.inj (hnm.symm.trans hnm')
  obtain rfl := Option.some.inj (himg.symm.trans himg')
  obtain rfl := Option.some.inj (hstr.symm.trans hstr')
  exact hfirst.unique hfirst'

variable {own : Multiset Resource}

theorem spec_new (sup : Supply) (kind : Kind) :
    Use.Spec own (sup.new kind) fun r o => o = {r} + own := Use.spec_acquire _

/-- A result: found with a handle and the descriptor, or refused with what there was. -/
def Opened (host : ElfHost) (sd : SectionData) (path scnm : Option (List UInt8))
    (fd : Option Resource) (r : ℤ × SectionData) (o : Multiset Resource) : Prop :=
  (∃ data elf sfd, r = (0, ⟨some data, some elf, some sfd⟩) ∧ (∀ f ∈ fd, sfd = f) ∧
    o = ({elf} : Multiset Resource) + {sfd} ∧ host.Finds path scnm fd data) ∨
  r.1 < 0 ∧ (r.2 = .closed ∨ r.2 = sd) ∧ o = (fd.toList : Multiset Resource) ∧
    ∀ data, ¬ host.Finds path scnm fd data

/-- What is left to do with a descriptor; `opened` are those that the call has opened. -/
theorem spec_afterOpen (sup : Supply) (host : ElfHost) (sd : SectionData) {path : List UInt8}
    {scnm : List UInt8} (fd : Option Resource) (hversion : host.version = true)
    (hopens : fd = none → host.opens = true) (sfd : Resource) (hsfd : ∀ f ∈ fd, sfd = f) :
    Use.Spec {sfd}
      (match host.image with
        | none => do
            Use.releaseAll (if fd = none then [sfd] else [])
            return (-1, SectionData.closed)
        | some img => do
            let elf ← sup.new .elf
            match img.find scnm with
            | .ok data => return (0, ⟨some data, some elf, some sfd⟩)
            | .error rc =>
                Use.release elf
                Use.releaseAll (if fd = none then [sfd] else [])
                return (rc, SectionData.closed) : Use Resource (ℤ × SectionData))
      (Opened host sd (some path) (some scnm) fd) := by
  have hclose : Use.Spec {sfd} (Use.releaseAll (if fd = none then [sfd] else []))
      fun _ o => o = (fd.toList : Multiset Resource) := by
    cases fd with
    | none => exact Use.spec_releaseAll_of 0 [sfd] rfl
    | some f =>
      obtain rfl := hsfd f rfl
      exact Use.spec_releaseAll_of {sfd} [] rfl
  cases himage : host.image with
  | none =>
    apply hclose.bind
    rintro - o rfl
    apply Use.spec_pure
    refine .inr ⟨by decide, .inl rfl, rfl, ?_⟩
    rintro data ⟨-, -, -, nm, img, -, -, himg, -⟩
    rw [himage] at himg
    cases himg
  | some img =>
    apply (spec_new sup .elf).bind
    rintro elf o rfl
    have hfind : (∃ data, img.find scnm = .ok data ∧
          host.Finds (some path) (some scnm) fd data) ∨
        ∃ rc < 0, img.find scnm = .error rc ∧
          ∀ data, ¬ host.Finds (some path) (some scnm) fd data := by
      unfold Image.find
      cases hstr : img.shstrndx with
      | none =>
        refine .inr ⟨-3, by decide, rfl, ?_⟩
        rintro data ⟨-, -, -, nm, img', shstrndx, -, himg, hsome, -⟩
        obtain rfl := Option.some.inj (himage.symm.trans himg)
        rw [hstr] at hsome
        cases hsome
      | some shstrndx =>
        rcases findScn_cases (img.strptr shstrndx) scnm img.scns with
          ⟨data, hok, hfirst⟩ | ⟨rc, hneg, herror, hnone⟩
        · exact .inl ⟨data, hok, rfl, hversion, hopens, scnm, img, shstrndx, rfl, himage, hstr,
            hfirst⟩
        · refine .inr ⟨rc, hneg, herror, ?_⟩
          rintro data ⟨-, -, -, nm, img', shstrndx', hnm, himg, hsome, hfirst⟩
          obtain rfl := Option.some.inj (himage.symm.trans himg)
          obtain rfl := Option.some.inj (hstr.symm.trans hsome)
          obtain rfl := Option.some.inj hnm
          exact hnone data hfirst
    rcases hfind with ⟨data, hok, hfinds⟩ | ⟨rc, hneg, herror, hnone⟩
    · simp only [hok]
      exact Use.spec_pure (.inl ⟨data, elf, sfd, rfl, hsfd, rfl, hfinds⟩)
    · simp only [herror]
      apply (Use.spec_release elf).bind
      rintro - o rfl
      apply hclose.bind
      rintro - o rfl
      exact Use.spec_pure (.inr ⟨hneg, .inl rfl, rfl, hnone⟩)

theorem spec_elfOpenSecdata (sup : Supply) (host : ElfHost) (sd : SectionData)
    (path scnm : Option (List UInt8)) (fd : Option Resource) :
    Use.Spec (fd.toList : Multiset Resource) (elfOpenSecdata sup host sd path scnm fd)
      (Opened host sd path scnm fd) := by
  unfold elfOpenSecdata
  cases path with
  | none => exact Use.spec_pure (.inr ⟨Int.negSucc_lt_zero 0, .inr rfl, rfl, by simp [ElfHost.Finds]⟩)
  | some path =>
    cases scnm with
    | none => exact Use.spec_pure (.inr ⟨Int.negSucc_lt_zero 0, .inr rfl, rfl, by simp [ElfHost.Finds]⟩)
    | some scnm =>
      dsimp only
      by_cases hversion : host.version = true
      · rw [if_pos hversion]
        cases fd with
        | some f =>
          exact spec_afterOpen sup host sd (some f) hversion (by simp) f (by simp)
        | none =>
          by_cases hopens : host.opens = true
          · have hnew : Use.Spec 0 (some <$> sup.new .fd)
                fun r o => ∃ sfd, r = some sfd ∧ o = ({sfd} : Multiset Resource) :=
              (spec_new sup .fd).bind fun r o ho => Use.spec_pure ⟨r, rfl, ho⟩
            simp only [if_pos hopens]
            apply Use.Spec.bind hnew
            rintro _ _ ⟨sfd, rfl, rfl⟩
            exact spec_afterOpen sup host sd none hversion (fun _ => hopens) sfd (by simp)
          · simp only [if_neg hopens]
            apply Use.spec_pure
            refine .inr ⟨by decide, .inl rfl, rfl, ?_⟩
            rintro data ⟨-, -, hopen, -⟩
            exact hopens (hopen rfl)
      · rw [if_neg hversion]
        refine Use.spec_pure (.inr ⟨by decide, .inl rfl, rfl, ?_⟩)
        rintro data ⟨-, hv, -⟩
        exact hversion hv

theorem spec_elfCloseSecdata (sd : SectionData) :
    Use.Spec ((sd.owned : Multiset Resource) + own) (elfCloseSecdata sd)
      fun sd' o => sd' = .closed ∧ o = own := by
  unfold elfCloseSecdata SectionData.owned
  rw [← Multiset.coe_add, add_assoc]
  apply (Use.spec_releaseAll sd.elf.toList).bind
  rintro - o rfl
  apply (Use.spec_releaseAll sd.fd.toList).bind
  rintro - o rfl
  exact Use.spec_pure ⟨rfl, rfl⟩

/-- Whatever the system answers, the call finds the first section with the name or changes
nothing. To close is possible once and again. It gives back what was opened, and a
descriptor of the caller too: it is lost where the section was found, and only there. -/
theorem secdata_balanced (sup : Supply) (host : ElfHost) (path scnm : Option (List UInt8))
    (fd : Option Resource) (held : Finset Resource) (hfd : ∀ f ∈ fd, f ∈ held) :
    ∃ rc sd held₁ held₂, elfOpenSecdata sup host .closed path scnm fd held = some ((rc, sd), held₁) ∧
      (rc = 0 ↔ ∃ data, host.Finds path scnm fd data) ∧
      (∀ data, host.Finds path scnm fd data → sd.data = some data) ∧
      elfCloseSecdata sd held₁ = some (.closed, held₂) ∧
      elfCloseSecdata .closed held₂ = some (.closed, held₂) ∧
      (rc = 0 → held₂ = held \ fd.toFinset) ∧ (rc ≠ 0 → held₁ = held ∧ held₂ = held) := by
  -- the caller's descriptor is owned, and all else that is held is the frame
  have hsplit : held.val = (fd.toList : Multiset Resource) + (held \ fd.toFinset).val := by
    cases fd with
    | none => simp
    | some f =>
      rw [Option.toFinset_some, Finset.sdiff_singleton_eq_erase, Finset.erase_val, Option.toList_some,
        Multiset.coe_singleton, Multiset.singleton_add, Multiset.cons_erase (hfd f rfl)]
  obtain ⟨⟨rc, sd⟩, held₁, o, hopen, hheld₁, hpost⟩ :=
    spec_elfOpenSecdata sup host .closed path scnm fd _ held hsplit
  have hagain : ∀ held₂, elfCloseSecdata .closed held₂ = some (.closed, held₂) := fun _ => rfl
  rcases hpost with ⟨data, elf, sfd, heq, hsfd, rfl, hfinds⟩ | ⟨hneg, hsd, rfl, hnone⟩
  · obtain ⟨rfl, rfl⟩ := Prod.mk.inj heq
    have hspec (sd : SectionData) : Use.Spec ((sd.owned : Multiset Resource) + 0)
        (elfCloseSecdata sd) fun sd' o => sd' = .closed ∧ o = 0 := spec_elfCloseSecdata sd
    obtain ⟨_, held₂, _, hclose, hheld₂, rfl, rfl⟩ :=
      hspec ⟨some data, some elf, some sfd⟩ (held \ fd.toFinset) held₁ (by rw [hheld₁]; rfl)
    refine ⟨0, _, held₁, held₂, hopen, iff_of_true rfl ⟨data, hfinds⟩, ?_, hclose, hagain _, ?_,
      fun hne => absurd rfl hne⟩
    · intro data' hfinds'
      exact congrArg some (hfinds.unique hfinds')
    · rintro -
      rw [zero_add] at hheld₂
      exact Finset.val_inj.mp hheld₂
  · have hclosed : sd = .closed := hsd.elim id id
    subst hclosed
    have hne : rc ≠ 0 := Int.ne_of_lt hneg
    have hsame : held₁ = held := Finset.val_inj.mp (hheld₁.trans hsplit.symm)
    refine ⟨rc, .closed, held₁, held₁, hopen, iff_of_false hne ?_, ?_, hagain _, hagain _,
      fun heq => absurd heq hne, fun _ => ⟨hsame, hsame⟩⟩
    · rintro ⟨data, hfinds⟩
      exact hnone data hfinds
    · exact fun data hfinds => absurd hfinds (hnone data)

/-- A nameless section and the section `K`, whose data are two bytes. -/
def twoSections : ElfHost :=
  ⟨true, true, some ⟨some 1, [⟨some 0, none⟩, ⟨some 1, some [1, 2]⟩],
    fun _ n => if n = 1 then some [75] else some []⟩⟩

theorem twoSections_finds (path : List UInt8) (fd : Option Resource) :
    twoSections.Finds (some path) (some [75]) fd [1, 2] := by
  refine ⟨rfl, rfl, fun _ => rfl, [75], _, 1, rfl, rfl, rfl, ?_⟩
  exact ⟨[⟨some 0, none⟩], ⟨some 1, some [1, 2]⟩, [], rfl, by simp, ⟨1, rfl, rfl⟩, rfl⟩

/-- The section is found in a descriptor of the caller, which is gone at the end. -/
theorem secdata_balanced_two_sections :
    ∃ sd held₁,
      elfOpenSecdata counting twoSections .closed (some [97]) (some [75]) (some (.fd, 3))
        {(.fd, 3)} = some ((0, sd), held₁) ∧
      sd.data = some [1, 2] ∧ elfCloseSecdata sd held₁ = some (.closed, ∅) := by
  have hfinds := twoSections_finds [97] (some (.fd, 3))
  obtain ⟨rc, sd, held₁, held₂, hopen, hrc, hdata, hclose, -, hheld, -⟩ :=
    secdata_balanced counting twoSections (some [97]) (some [75]) (some (.fd, 3)) {(.fd, 3)}
      (by simp)
  obtain rfl := hrc.mpr ⟨_, hfinds⟩
  refine ⟨sd, held₁, hopen, hdata _ hfinds, ?_⟩
  rw [hclose, hheld rfl]
  rfl

end SymbiOS.Kld
