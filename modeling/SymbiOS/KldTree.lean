import SymbiOS.KldInodes

/-!
# The directory tree in the inode table

Items in the heap, inodes in use and entries of directories describe one tree: each item
belongs to the inode it names, and hangs in the one directory it names. A removal of an
item that has no entries keeps this, although it leaves the file pointer of the freed
inode behind. What a removal changes is said once, for a list of items that are gone.
-/
namespace SymbiOS.Kld
open SymbiOS.FreeList

variable {Name : Type}

def FileData.without (gone : List ℕ) : FileData Name → FileData Name
  | .directory a b => .directory (a.filter (· ∉ gone)) (b.filter (· ∉ gone))
  | data => data

/-- The item once the items of a list are gone from its two tables. -/
def File.without (gone : List ℕ) (f : File Name) : File Name :=
  { f with data := f.data.without gone }

lemma FileData.without_eq_directory {gone : List ℕ} {data : FileData Name} {a b : List ℕ}
    (h : data.without gone = .directory a b) :
    ∃ a' b', data = .directory a' b' ∧ a = a'.filter (· ∉ gone) ∧ b = b'.filter (· ∉ gone) := by
  cases data with
  | directory a' b' =>
    simp only [FileData.without, FileData.directory.injEq] at h
    exact ⟨a', b', rfl, h.1.symm, h.2.symm⟩
  | regular => cases h
  | symlink target => cases h

/-- Where none of them was an entry nothing changes. -/
lemma File.without_eq_self {gone : List ℕ} {f : File Name}
    (h : ∀ a b, f.data = .directory a b → ∀ c ∈ gone, c ∉ a ∧ c ∉ b) : f.without gone = f := by
  obtain ⟨name, ino, dir, data⟩ := f
  cases data with
  | directory a b =>
    have ha : a.filter (· ∉ gone) = a := by
      apply List.filter_eq_self.mpr
      intro c hc
      rw [decide_eq_true_eq]
      exact fun hgone => (h a b rfl c hgone).1 hc
    have hb : b.filter (· ∉ gone) = b := by
      apply List.filter_eq_self.mpr
      intro c hc
      rw [decide_eq_true_eq]
      exact fun hgone => (h a b rfl c hgone).2 hc
    simp only [File.without, FileData.without, ha, hb]
  | regular => rfl
  | symlink target => rfl

lemma File.without_cons (c : ℕ) (gone : List ℕ) (f : File Name) :
    (f.without [c]).without gone = f.without (c :: gone) := by
  obtain ⟨name, ino, dir, data⟩ := f
  cases data with
  | directory a b =>
    simp only [File.without, FileData.without, List.filter_filter, List.mem_cons,
      List.not_mem_nil, or_false, not_or, Bool.decide_and, Bool.and_comm]
  | regular => rfl
  | symlink target => rfl

lemma filter_notMem_singleton {a : List ℕ} (h : a.Nodup) (c : ℕ) :
    a.filter (· ∉ [c]) = a.erase c := by
  rw [h.erase_eq_filter]
  apply List.filter_congr
  intro x _
  by_cases hx : x = c <;> simp [hx]

namespace Fs

variable {s s' : Fs Name}

/-- The part of the consistency of the table that removals keep. -/
structure Table (s : Fs Name) : Prop where
  linked : ∃ free, Links s.next s.inoFreelist free ∧ free.Nodup ∧
    (∀ i, i ∈ free ↔ i < s.inoNum ∧ i ∉ s.allocated) ∧ s.inoNumfree = free.length
  inside : ∀ i ∈ s.allocated, i < s.inoNum
  unlinked : ∀ i ∈ s.allocated, s.next i = none

lemma Inv.table (h : s.Inv) : s.Table := by
  obtain ⟨free, hlinks, hnodup, hmem, hnum, -⟩ := h.consistent
  exact ⟨⟨free, hlinks, hnodup, hmem, hnum⟩, h.inside, h.unlinked⟩

lemma Table.of_sameTable (h : s.Table) (hsame : SameTable s s') : s'.Table := by
  constructor
  · rw [hsame.next, hsame.inoNum, hsame.inoFreelist, hsame.inoNumfree, hsame.allocated]
    exact h.linked
  · rw [hsame.inoNum, hsame.allocated]
    exact h.inside
  · rw [hsame.next, hsame.allocated]
    exact h.unlinked

/-- The free inodes and those in use make up the table. -/
lemma Table.numfree_add_card (h : s.Table) : s.inoNumfree + s.allocated.card = s.inoNum := by
  obtain ⟨free, -, hnodup, hmem, hnum⟩ := h.linked
  have hset : free.toFinset = Finset.range s.inoNum \ s.allocated := by
    ext i
    rw [List.mem_toFinset, hmem, Finset.mem_sdiff, Finset.mem_range]
  have hsub : s.allocated ⊆ Finset.range s.inoNum :=
    fun i hi => Finset.mem_range.mpr (h.inside i hi)
  have hcard := Finset.card_sdiff_add_card_eq_card hsub
  rw [← hset, List.toFinset_card_of_nodup hnodup, Finset.card_range] at hcard
  rw [hnum]
  exact_mod_cast hcard

/-- The state that `inofree` leaves. -/
def putBack (s : Fs Name) (ino : ℕ) : Fs Name :=
  { s with
    inoTable := Function.update s.inoTable ino { s.inoTable ino with next := s.inoFreelist }
    inoFreelist := some ino
    inoNumfree := s.inoNumfree + 1
    allocated := s.allocated.erase ino }

lemma Table.inofree_eq (h : s.Table) {ino : ℕ} (hin : ino ∈ s.allocated) :
    s.inofree ino = some (s.putBack ino) := by
  unfold inofree
  rw [if_neg (not_le.mpr (h.inside ino hin)), if_neg (not_not.mpr (h.unlinked ino hin))]
  rfl

lemma next_putBack (s : Fs Name) (ino : ℕ) :
    (s.putBack ino).next = Function.update s.next ino s.inoFreelist := by
  funext j
  by_cases h : j = ino
  · subst h; simp [Fs.next, putBack]
  · simp [Fs.next, putBack, h]

lemma file_putBack (s : Fs Name) (ino : ℕ) : (s.putBack ino).file = s.file := by
  funext j
  by_cases h : j = ino
  · subst h; simp [Fs.file, putBack]
  · simp [Fs.file, putBack, h]

/-- The inode becomes the head of the list. -/
lemma Table.putBack (h : s.Table) {ino : ℕ} (hin : ino ∈ s.allocated) : (s.putBack ino).Table := by
  constructor
  · obtain ⟨free, hlinks, hnodup, hmem, hnum⟩ := h.linked
    have hnot : ino ∉ free := fun hfree => ((hmem ino).mp hfree).2 hin
    refine ⟨ino :: free, ⟨rfl, ?_⟩, List.nodup_cons.mpr ⟨hnot, hnodup⟩, fun j => ?_, ?_⟩
    · rw [next_putBack, Function.update_self]
      exact hlinks.update hnot s.inoFreelist
    · show j ∈ ino :: free ↔ j < s.inoNum ∧ j ∉ s.allocated.erase ino
      rw [List.mem_cons, hmem, Finset.mem_erase]
      by_cases hj : j = ino
      · subst hj
        simp [h.inside j hin]
      · simp [hj]
    · show s.inoNumfree + 1 = _
      rw [hnum, List.length_cons]
      push_cast
      rfl
  · intro j hj
    exact h.inside j (Finset.mem_of_mem_erase hj)
  · intro j hj
    rw [next_putBack, Function.update_of_ne (Finset.ne_of_mem_erase hj)]
    exact h.unlinked j (Finset.mem_of_mem_erase hj)

/-- Inode 0 stands for nothing. Every other inode in use belongs to one item, every item
hangs in the directory it names, which is older than the item, and a directory has exactly
those items as entries, the same in both tables. -/
structure Tree (s : Fs Name) : Prop extends Table s where
  reserved : INVALID_INO ∈ s.allocated ∧ s.file INVALID_INO = none
  own : ∀ id f, s.files id = some f →
    f.ino ∈ s.allocated ∧ f.ino ≠ INVALID_INO ∧ s.file f.ino = some id
  used : ∀ i ∈ s.allocated, i ≠ INVALID_INO → ∃ id f, s.files id = some f ∧ f.ino = i
  root : ∀ id f, s.files id = some f → f.ino = ROOT_INO →
    f.dir = INVALID_INO ∧ ∃ a b, f.data = .directory a b
  parent : ∀ id f, s.files id = some f → f.ino ≠ ROOT_INO → f.dir < f.ino ∧
    ∃ p d a b, s.files p = some d ∧ d.ino = f.dir ∧ d.data = .directory a b ∧ id ∈ a
  entries : ∀ p d a b, s.files p = some d → d.data = .directory a b →
    b = a ∧ a.Nodup ∧ ∀ c ∈ a, ∃ f, s.files c = some f ∧ f.dir = d.ino
  names : ∀ p d a b, s.files p = some d → d.data = .directory a b → ∀ c ∈ a, ∀ c' ∈ a,
    ∀ f f', s.files c = some f → s.files c' = some f' → f.name = f'.name → c = c'

namespace Tree

variable {item p : ℕ} {f d : File Name} {a b : List ℕ}

/-- Items are told apart by their inodes. -/
lemma eq_of_ino (h : s.Tree) {id : ℕ} {g : File Name} (hf : s.files item = some f)
    (hg : s.files id = some g) (hino : f.ino = g.ino) : item = id := by
  have hitem := (h.own item f hf).2.2
  have hid := (h.own id g hg).2.2
  rw [hino, hid, Option.some.injEq] at hitem
  exact hitem.symm

lemma dir_lt (h : s.Tree) (hf : s.files item = some f) : f.dir < f.ino := by
  by_cases hroot : f.ino = ROOT_INO
  · rw [(h.root item f hf hroot).1, hroot]
    decide
  · exact (h.parent item f hf hroot).1

/-- An entry of a directory hangs in it and in no other. -/
lemma entry (h : s.Tree) (hf : s.files item = some f) (hd : s.files p = some d)
    (hdata : d.data = .directory a b) (hmem : item ∈ a) : f.dir = d.ino ∧ f.ino ≠ ROOT_INO := by
  obtain ⟨g, hg, hdir⟩ := (h.entries p d a b hd hdata).2.2 item hmem
  rw [hf, Option.some.injEq] at hg
  subst hg
  refine ⟨hdir, fun hroot => ?_⟩
  rw [(h.root item f hf hroot).1] at hdir
  exact (h.own p d hd).2.1 hdir.symm

lemma directoryOf_eq (h : s.Tree) (hd : s.files p = some d) (hdata : d.data = .directory a b) :
    s.directoryOf d.ino = some (p, d, a, b) := by
  obtain ⟨hin, -, hfile⟩ := h.own p d hd
  unfold directoryOf
  rw [if_neg (not_le.mpr (h.inside d.ino hin)), if_neg (not_not.mpr (h.unlinked d.ino hin))]
  simp [hfile, hd, hdata]

end Tree

/-- A search that only one element answers. -/
lemma find?_eq_some_of_unique {l : List ℕ} {q : ℕ → Bool} {c : ℕ} (hmem : c ∈ l)
    (hc : q c = true) (hunique : ∀ x ∈ l, q x = true → x = c) : l.find? q = some c := by
  cases hfind : l.find? q with
  | none => exact absurd hc (List.find?_eq_none.mp hfind c hmem)
  | some x =>
    rw [hunique x (List.mem_of_find?_eq_some hfind) (List.find?_some hfind)]

/-- The inode of none of these items. -/
def InodeOfNone (s : Fs Name) (gone : List ℕ) (i : ℕ) : Prop :=
  ∀ id ∈ gone, ∀ f, s.files id = some f → f.ino ≠ i

lemma inodeOfNone_singleton {item : ℕ} {f : File Name} (hf : s.files item = some f) (i : ℕ) :
    s.InodeOfNone [item] i ↔ i ≠ f.ino := by
  constructor
  · intro hi
    exact (hi item (List.mem_singleton_self item) f hf).symm
  · intro hi id hid g hg
    rw [List.mem_singleton.mp hid, hf, Option.some.injEq] at hg
    rw [← hg]
    exact hi.symm

/-- The items of the list are gone, from the heap and from the directories that are left,
and their inodes are free; nothing else has changed. -/
structure Pruned (s : Fs Name) (gone : List ℕ) (s' : Fs Name) : Prop where
  files : ∀ id, s'.files id = if id ∈ gone then none else (s.files id).map (·.without gone)
  inoTable : ∀ i, s.InodeOfNone gone i → s'.inoTable i = s.inoTable i
  file : s'.file = s.file
  inoNum : s'.inoNum = s.inoNum
  inoNumfree : s'.inoNumfree = s.inoNumfree + gone.length
  allocated : ∀ i, i ∈ s'.allocated ↔ i ∈ s.allocated ∧ s.InodeOfNone gone i

namespace Pruned

variable {gone : List ℕ} {id item : ℕ} {f g : File Name}

/-- An item that is left comes from one that was there. -/
lemma of_files (h : Pruned s gone s') (hg : s'.files id = some g) :
    id ∉ gone ∧ ∃ f, s.files id = some f ∧ g = f.without gone := by
  rw [h.files] at hg
  split at hg
  · cases hg
  · rename_i hnot
    obtain ⟨f, hf, hfg⟩ := Option.map_eq_some_iff.mp hg
    exact ⟨hnot, f, hf, hfg.symm⟩

lemma files_of_notMem (h : Pruned s gone s') (hf : s.files id = some f) (hid : id ∉ gone) :
    s'.files id = some (f.without gone) := by
  rw [h.files, if_neg hid, hf]
  rfl

/-- Pruning one item and then others. -/
lemma cons {s'' : Fs Name} (h : Pruned s [item] s') (h' : Pruned s' gone s'') :
    Pruned s (item :: gone) s'' := by
  have hnone : ∀ i, s.InodeOfNone (item :: gone) i ↔
      s.InodeOfNone [item] i ∧ s'.InodeOfNone gone i := by
    intro i
    constructor
    · intro hi
      refine ⟨fun id hid => hi id ?_, fun id hid g hg => ?_⟩
      · rw [List.mem_singleton.mp hid]
        exact List.mem_cons_self
      · obtain ⟨-, f, hf, rfl⟩ := h.of_files hg
        exact hi id (List.mem_cons_of_mem item hid) f hf
    · rintro ⟨hone, hrest⟩ id hid f hf
      by_cases hitem : id = item
      · exact hone id (by rw [hitem]; exact List.mem_singleton_self item) f hf
      · have hgone : id ∈ gone := (List.mem_cons.mp hid).resolve_left hitem
        have hkept := h.files_of_notMem hf (by simpa using hitem)
        exact hrest id hgone (f.without [item]) hkept
  constructor
  · intro id
    rw [h'.files, h.files]
    by_cases hgone : id ∈ gone
    · rw [if_pos hgone, if_pos (List.mem_cons_of_mem item hgone)]
    · rw [if_neg hgone]
      by_cases hitem : id = item
      · subst hitem
        simp
      · have hnot : id ∉ item :: gone := by simp [hitem, hgone]
        rw [if_neg (by simpa using hitem), if_neg hnot, Option.map_map]
        congr 1
        funext f
        exact f.without_cons item gone
  · intro i hi
    obtain ⟨hone, hrest⟩ := (hnone i).mp hi
    rw [h'.inoTable i hrest, h.inoTable i hone]
  · rw [h'.file, h.file]
  · rw [h'.inoNum, h.inoNum]
  · rw [h'.inoNumfree, h.inoNumfree]
    simp only [List.length_cons, List.length_nil]
    omega
  · intro i
    rw [h'.allocated, h.allocated, hnone, and_assoc]

end Pruned

/-- What is left keeps its own inode. -/
lemma Tree.own_pruned (h : s.Tree) {item : ℕ} {f : File Name} (hf : s.files item = some f)
    (hp : Pruned s [item] s') {id : ℕ} {g : File Name} (hg : s'.files id = some g) :
    g.ino ∈ s'.allocated ∧ g.ino ≠ INVALID_INO ∧ s'.file g.ino = some id := by
  obtain ⟨hid, g₀, hg₀, rfl⟩ := hp.of_files hg
  obtain ⟨hin, hne, hfile⟩ := h.own id g₀ hg₀
  rw [hp.allocated, inodeOfNone_singleton hf, hp.file]
  refine ⟨⟨hin, fun hino => hid ?_⟩, hne, hfile⟩
  rw [h.eq_of_ino hg₀ hf hino]
  exact List.mem_singleton_self item

/-- The item that is gone had no entries, so the directory of what is left is still there,
with its entry. -/
lemma Tree.parent_pruned (h : s.Tree) {item : ℕ} (hleaf : ¬ s.Refused item)
    (hp : Pruned s [item] s') {id : ℕ} {g : File Name} (hg : s'.files id = some g)
    (hroot : g.ino ≠ ROOT_INO) :
    g.dir < g.ino ∧ ∃ p d a b, s'.files p = some d ∧ d.ino = g.dir ∧ d.data = .directory a b ∧
      id ∈ a := by
  obtain ⟨hid, g₀, hg₀, rfl⟩ := hp.of_files hg
  obtain ⟨hlt, p, d, a, b, hd, hino, hdata, hmem⟩ := h.parent id g₀ hg₀ hroot
  have hpitem : p ≠ item := by
    rintro rfl
    exact hleaf ⟨d, a, b, hd, hdata, List.ne_nil_of_mem hmem⟩
  refine ⟨hlt, p, _, a.filter (· ∉ [item]), b.filter (· ∉ [item]),
    hp.files_of_notMem hd (by simpa using hpitem), hino, ?_, ?_⟩
  · simp only [File.without, hdata, FileData.without]
  · rw [List.mem_filter, decide_eq_true_eq]
    exact ⟨hmem, hid⟩

/-- Without an item that has no entries itself, a tree is a tree. -/
lemma Tree.pruned (h : s.Tree) {item : ℕ} {f : File Name} (hf : s.files item = some f)
    (hleaf : ¬ s.Refused item) (hp : Pruned s [item] s') (htable : s'.Table) : s'.Tree := by
  have hnone : ∀ i, s.InodeOfNone [item] i ↔ i ≠ f.ino := fun i => inodeOfNone_singleton hf i
  have hkept : ∀ {id : ℕ} {g : File Name}, s.files id = some g → id ≠ item →
      s'.files id = some (g.without [item]) :=
    fun hg hid => hp.files_of_notMem hg (by simpa using hid)
  constructor
  · exact htable
  · rw [hp.allocated, hnone, hp.file]
    exact ⟨⟨h.reserved.1, (h.own item f hf).2.1.symm⟩, h.reserved.2⟩
  · intro id g hg
    exact h.own_pruned hf hp hg
  · intro i hi hne
    rw [hp.allocated, hnone] at hi
    obtain ⟨id, g, hg, hino⟩ := h.used i hi.1 hne
    have hid : id ≠ item := by
      rintro rfl
      rw [hf, Option.some.injEq] at hg
      exact hi.2 (by rw [← hino, hg])
    exact ⟨id, _, hkept hg hid, hino⟩
  · intro id g hg hroot
    obtain ⟨-, g₀, hg₀, rfl⟩ := hp.of_files hg
    obtain ⟨hdir, a, b, hdata⟩ := h.root id g₀ hg₀ hroot
    refine ⟨hdir, a.filter (· ∉ [item]), b.filter (· ∉ [item]), ?_⟩
    simp only [File.without, hdata, FileData.without]
  · intro id g hg hroot
    exact h.parent_pruned hleaf hp hg hroot
  · intro p d a b hd hdata
    obtain ⟨-, d₀, hd₀, rfl⟩ := hp.of_files hd
    obtain ⟨a', b', hdata', rfl, rfl⟩ := FileData.without_eq_directory hdata
    obtain ⟨rfl, hnodup, hall⟩ := h.entries p d₀ a' b' hd₀ hdata'
    refine ⟨rfl, hnodup.filter _, fun c hc => ?_⟩
    obtain ⟨hc, hne⟩ := List.mem_filter.mp hc
    obtain ⟨g, hg, hdir⟩ := hall c hc
    exact ⟨_, hkept hg (by simpa using hne), hdir⟩
  · intro p d a b hd hdata c hc c' hc' g g' hg hg' hname
    obtain ⟨-, d₀, hd₀, rfl⟩ := hp.of_files hd
    obtain ⟨a', b', hdata', rfl, rfl⟩ := FileData.without_eq_directory hdata
    obtain ⟨-, g₀, hg₀, rfl⟩ := hp.of_files hg
    obtain ⟨-, g₁, hg₁, rfl⟩ := hp.of_files hg'
    exact h.names p d₀ a' b' hd₀ hdata' c (List.mem_filter.mp hc).1 c' (List.mem_filter.mp hc').1
      g₀ g₁ hg₀ hg₁ hname

/-- `p` is a directory whose only entry, in both tables, is `c`. -/
def OnlyEntry (s : Fs Name) (p c : ℕ) : Prop :=
  ∃ d f, s.files p = some d ∧ s.files c = some f ∧ f.dir = d.ino ∧ d.data = .directory [c] [c]

/-- An item whose inode goes back, where the directories have lost it already. -/
lemma pruned_putBack {t : Fs Name} {item : ℕ} {f : File Name} (hsame : SameTable s t)
    (hf : s.files item = some f)
    (hfiles : ∀ id, id ≠ item → t.files id = (s.files id).map (·.without [item])) :
    Pruned s [item] ((t.putBack f.ino).setFile item none) := by
  constructor
  · intro id
    show Function.update t.files item none id = _
    by_cases hid : id = item
    · subst hid
      simp
    · rw [Function.update_of_ne hid, if_neg (by simpa using hid)]
      exact hfiles id hid
  · intro i hi
    show Function.update t.inoTable f.ino _ i = _
    have hne : i ≠ f.ino := (inodeOfNone_singleton hf i).mp hi
    rw [Function.update_of_ne hne, hsame.inoTable]
  · show (t.putBack f.ino).file = s.file
    rw [file_putBack, hsame.file]
  · exact hsame.inoNum
  · show t.inoNumfree + 1 = _
    rw [hsame.inoNumfree]
    rfl
  · intro i
    show i ∈ t.allocated.erase f.ino ↔ _
    rw [hsame.allocated, Finset.mem_erase, and_comm, inodeOfNone_singleton hf]

section Remove

variable {item p : ℕ} {f d : File Name} {a : List ℕ}

lemma Tree.findIno_eq (h : s.Tree) (hf : s.files item = some f) (hd : s.files p = some d)
    (hdata : d.data = .directory a a) (hmem : item ∈ a) : s.findIno a f.ino = some item := by
  apply find?_eq_some_of_unique hmem
  · simp [hf]
  · intro c hc hino
    obtain ⟨g, hg, -⟩ := (h.entries p d a a hd hdata).2.2 c hc
    rw [hg, Option.any_some, beq_iff_eq] at hino
    exact h.eq_of_ino hg hf hino

/-- The directory that has lost the item from its tables. -/
def dropEntry (s : Fs Name) (p : ℕ) (d : File Name) (a : List ℕ) (item : ℕ) : Fs Name :=
  s.setFile p (some { d with data := .directory (a.erase item) (a.erase item) })

lemma Tree.files_dropEntry (h : s.Tree) (hf : s.files item = some f) (hd : s.files p = some d)
    (hdata : d.data = .directory a a) (hmem : item ∈ a) {id : ℕ} :
    (s.dropEntry p d a item).files id = (s.files id).map (·.without [item]) := by
  show Function.update s.files p _ id = _
  have hnodup := (h.entries p d a a hd hdata).2.1
  by_cases hid : id = p
  · subst hid
    rw [Function.update_self, hd, Option.map_some, File.without, hdata]
    simp only [FileData.without, filter_notMem_singleton hnodup]
  · rw [Function.update_of_ne hid]
    cases hg : s.files id with
    | none => rfl
    | some g =>
      -- another directory does not have the item as an entry
      rw [Option.map_some, File.without_eq_self]
      intro a' b' hdata' c hc
      rw [List.mem_singleton.mp hc]
      have hsame := (h.entries id g a' b' hg hdata').1
      have hnot : item ∉ a' := by
        intro hmem'
        have hino := (h.entry hf hg hdata' hmem').1.symm.trans (h.entry hf hd hdata hmem).1
        exact hid (h.eq_of_ino hg hd hino)
      exact ⟨hnot, hsame ▸ hnot⟩

variable [DecidableEq Name]

lemma Tree.findName_eq (h : s.Tree) (hf : s.files item = some f) (hd : s.files p = some d)
    (hdata : d.data = .directory a a) (hmem : item ∈ a) : s.findName a f.name = some item := by
  apply find?_eq_some_of_unique hmem
  · simp [hf]
  · intro c hc hname
    obtain ⟨g, hg, -⟩ := (h.entries p d a a hd hdata).2.2 c hc
    rw [hg, Option.any_some, beq_iff_eq] at hname
    exact h.names p d a a hd hdata c hc item hmem g f hg hf hname

/-- All assertions on the containing directory hold. -/
lemma Tree.detach_eq (h : s.Tree) (hf : s.files item = some f) (hd : s.files p = some d)
    (hdata : d.data = .directory a a) (hmem : item ∈ a) :
    s.detach item f = some ((((s.dropEntry p d a item).putBack f.ino).setFile item none),
      if (a.erase item).length = 0 then some p else none) := by
  have hdir := (h.entry hf hd hdata hmem).1
  have hlen : ¬ (a.length ≠ a.length ∨ a.length = 0) := by
    have hpos := List.length_pos_of_mem hmem
    omega
  have htable : (s.dropEntry p d a item).Table := h.toTable.of_sameTable (sameTable_setFile s p _)
  have hfree : (s.dropEntry p d a item).inofree f.ino =
      some ((s.dropEntry p d a item).putBack f.ino) := htable.inofree_eq (h.own item f hf).1
  unfold detach
  simp only [hdir, h.directoryOf_eq hd hdata, Option.bind_eq_bind, Option.bind_some]
  rw [if_neg hlen, if_neg (not_not.mpr (h.findIno_eq hf hd hdata hmem)),
    if_neg (not_not.mpr (h.findName_eq hf hd hdata hmem)), if_neg (not_not.mpr rfl)]
  unfold release
  rw [← dropEntry]
  simp only [hfree, Option.bind_eq_bind, Option.bind_some]

omit [DecidableEq Name] in
/-- The directory that the removal empties. -/
lemma Tree.emptied_iff (h : s.Tree) (hf : s.files item = some f) (hd : s.files p = some d)
    (hdata : d.data = .directory a a) (hmem : item ∈ a) (q : ℕ) :
    (if (a.erase item).length = 0 then some p else none) = some q ↔ s.OnlyEntry q item := by
  have hdir := (h.entry hf hd hdata hmem).1
  constructor
  · intro hq
    split at hq
    · rename_i hlast
      cases hq
      have hpos := List.length_pos_of_mem hmem
      rw [List.length_erase_of_mem hmem] at hlast
      have hlen : a.length = 1 := by omega
      obtain ⟨c, rfl⟩ := List.length_eq_one_iff.mp hlen
      rw [List.mem_singleton] at hmem
      subst hmem
      exact ⟨d, f, hd, hf, hdir, hdata⟩
    · cases hq
  · rintro ⟨d', f', hd', hf', hdir', hdata'⟩
    rw [hf, Option.some.injEq] at hf'
    have hino : d.ino = d'.ino := by rw [← hdir, ← hdir', hf']
    have hpq : p = q := h.eq_of_ino hd hd' hino
    subst hpq
    rw [hd, Option.some.injEq] at hd'
    rw [← hd', hdata, FileData.directory.injEq] at hdata'
    rw [hdata'.1, if_pos (by simp)]

omit [DecidableEq Name] in
/-- What is not refused has no entries. -/
lemma Tree.data_of_leaf (h : s.Tree) (hf : s.files item = some f) (hleaf : ¬ s.Refused item)
    {b : List ℕ} (hdata : f.data = .directory a b) : f.data = .directory [] [] := by
  have hempty : a = [] := by
    by_contra hne
    exact hleaf ⟨f, a, b, hf, hdata, hne⟩
  rw [hdata, (h.entries item f a b hf hdata).1, hempty]

/-- The empty root goes without a directory that loses it. -/
lemma Tree.removeOne_root (h : s.Tree) (hf : s.files item = some f) (hleaf : ¬ s.Refused item)
    (hroot : f.ino = ROOT_INO) :
    s.removeOne item = some ((s.putBack f.ino).setFile item none, true, none) := by
  obtain ⟨hdir, a, b, hdata⟩ := h.root item f hf hroot
  have hfree := h.toTable.inofree_eq (h.own item f hf).1
  unfold Fs.removeOne
  simp only [hf, Option.bind_eq_bind, Option.bind_some, h.data_of_leaf hf hleaf hdata]
  rw [if_neg (not_not.mpr rfl), if_neg (not_not.mpr List.length_nil), if_neg (not_not.mpr hroot),
    if_neg (not_not.mpr hdir)]
  unfold release
  simp only [hfree, Option.bind_eq_bind, Option.bind_some, Option.map_some]

lemma Tree.removeOne_entry (h : s.Tree) (hf : s.files item = some f) (hleaf : ¬ s.Refused item)
    (hd : s.files p = some d) (hdata : d.data = .directory a a) (hmem : item ∈ a) :
    s.removeOne item = some (((s.dropEntry p d a item).putBack f.ino).setFile item none, true,
      if (a.erase item).length = 0 then some p else none) := by
  obtain ⟨hdir, hroot⟩ := h.entry hf hd hdata hmem
  have hinvalid : f.dir ≠ INVALID_INO := hdir ▸ (h.own p d hd).2.1
  have hdetach := h.detach_eq hf hd hdata hmem
  unfold Fs.removeOne
  simp only [hf, Option.bind_eq_bind, Option.bind_some]
  cases hdataf : f.data with
  | directory a' b' =>
    have hnil := h.data_of_leaf hf hleaf hdataf
    rw [hdataf, FileData.directory.injEq] at hnil
    simp only [hnil.1, hnil.2]
    rw [if_neg (not_not.mpr rfl), if_neg (not_not.mpr List.length_nil), if_pos hroot, hdetach]
    rfl
  | regular | symlink =>
    simp only [or_iff_left hinvalid, if_neg hroot, hdetach, Option.map_some]

/-- A removal that is not refused: all assertions hold, the item alone is gone, and the
directory is reported whose only entry it was. -/
lemma Tree.removeOne (h : s.Tree) (hf : s.files item = some f) (hleaf : ¬ s.Refused item) :
    ∃ s' emptied, s.removeOne item = some (s', true, emptied) ∧ s'.Tree ∧ Pruned s [item] s' ∧
      ∀ p, emptied = some p ↔ s.OnlyEntry p item := by
  have hin := (h.own item f hf).1
  by_cases hroot : f.ino = ROOT_INO
  · have hself : ∀ id, id ≠ item → s.files id = (s.files id).map (·.without [item]) := by
      intro id _
      cases hg : s.files id with
      | none => rfl
      | some g =>
        -- the root is nowhere an entry
        rw [Option.map_some, File.without_eq_self]
        intro a b hdata c hc
        rw [List.mem_singleton.mp hc]
        have hsame := (h.entries id g a b hg hdata).1
        have hnot : item ∉ a := fun hmem => (h.entry hf hg hdata hmem).2 hroot
        exact ⟨hnot, hsame ▸ hnot⟩
    have hpruned := pruned_putBack ⟨rfl, rfl, rfl, rfl, rfl⟩ hf hself
    have htable : ((s.putBack f.ino).setFile item none).Table :=
      (h.toTable.putBack hin).of_sameTable (sameTable_setFile _ item none)
    refine ⟨_, none, h.removeOne_root hf hleaf hroot, h.pruned hf hleaf hpruned htable, hpruned,
      fun p => ?_⟩
    apply iff_of_false (by simp)
    rintro ⟨d, f', hd, hf', hdir, -⟩
    rw [hf, Option.some.injEq] at hf'
    rw [← hf', (h.root item f hf hroot).1] at hdir
    exact (h.own p d hd).2.1 hdir.symm
  · obtain ⟨-, p, d, a, b, hd, -, hdata, hmem⟩ := h.parent item f hf hroot
    rw [(h.entries p d a b hd hdata).1] at hdata
    have hsame : SameTable s (s.dropEntry p d a item) := sameTable_setFile s p _
    have hpruned := pruned_putBack hsame hf fun id _ => h.files_dropEntry hf hd hdata hmem
    have htable : (((s.dropEntry p d a item).putBack f.ino).setFile item none).Table :=
      ((h.toTable.of_sameTable hsame).putBack hin).of_sameTable (sameTable_setFile _ item none)
    exact ⟨_, _, h.removeOne_entry hf hleaf hd hdata hmem, h.pruned hf hleaf hpruned htable,
      hpruned, h.emptied_iff hf hd hdata hmem⟩

end Remove

end Fs

end SymbiOS.Kld
