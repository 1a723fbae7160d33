import SymbiOS.KldPurge

/-!
# The teardown of the file system

The scan in `fsCleanup` calls `fsRemoveitem` once for every inode that has a file. A
directory that still has entries is refused there and goes later, with the last of them,
behind the scan; its file pointer is not looked at again.
-/
namespace SymbiOS.Kld
open SymbiOS.FreeList SymbiOS.GuardedRun

variable {Name : Type}

/-- `removed` counts calls. `log` is a ghost: the items that were removed. -/
structure Cleanup (Name : Type) where
  fs : Fs Name
  removed : ℕ
  log : List ℕ

/-- The table is freed and its fields are cleared. -/
def Fs.freeTable (s : Fs Name) : Fs Name :=
  { s with
    inoTable := fun _ => ⟨none, none⟩
    inoNum := 0
    inoFreelist := none
    inoNumfree := 0 }

section Code

variable [DecidableEq Name]

/-- One round of the scan. -/
def Cleanup.scanStep (c : Cleanup Name) (i : ℕ) : Option (Cleanup Name) :=
  match c.fs.file i with
  | none => some c
  | some file =>
      if c.fs.next i ≠ none then none
      else do
        let (s, _) ← Fs.fsRemoveitem true c.fs.allocated.card c.fs file
        some ⟨s, c.removed + 1,
          c.log ++ Fs.removedItems true c.fs.allocated.card c.fs file⟩

/-- The rounds for the inodes below `n`. -/
def Cleanup.scan : ℕ → Cleanup Name → Option (Cleanup Name)
  | 0, c => some c
  | n + 1, c => do
      let c ← Cleanup.scan n c
      c.scanStep n

/-- `mntpt` and `mkdir` say whether there is a mount point and whether it was made. Only
then is there anything to take down. -/
def Fs.fsCleanup (mntpt mkdir : Bool) (s : Fs Name) : Option (Cleanup Name) :=
  if ¬ (mntpt ∧ mkdir) then some ⟨s, 0, []⟩
  else if s.inoNum = 0 then some ⟨s, 0, []⟩
  else do
    let allocated : ℤ := s.inoNum - s.inoNumfree
    let c ← Cleanup.scan s.inoNum ⟨s, 0, []⟩
    let s ← c.fs.inofree INVALID_INO
    let removed := c.removed + 1
    if (removed : ℤ) ≠ allocated then none
    else if (s.inoNum : ℤ) ≠ s.inoNumfree then none
    else some ⟨s.freeTable, removed, c.log⟩

end Code

namespace Fs

variable {s s' : Fs Name}

/-- As long as nothing is removed, every file pointer leads to the item with that inode. -/
lemma Built.item_of_file (h : s.Built) {i id : ℕ} (hlt : i < s.inoNum)
    (hfile : s.file i = some id) : ∃ f, s.files id = some f ∧ f.ino = i := by
  have hin : i ∈ s.allocated := by
    by_contra hnot
    obtain ⟨free, -, -, hmem, -, hnone⟩ := h.inv.consistent
    rw [hnone i ((hmem i).mpr ⟨hlt, hnot⟩)] at hfile
    cases hfile
  have hne : i ≠ INVALID_INO := by
    rintro rfl
    rw [h.tree.reserved.2] at hfile
    cases hfile
  obtain ⟨id', f, hf, hino⟩ := h.tree.used i hin hne
  have hptr := (h.tree.own id' f hf).2.2
  rw [hino, hfile, Option.some.injEq] at hptr
  subst hptr
  exact ⟨f, hf, hino⟩

/-- The number of file pointers, and inode 0. -/
lemma Built.card_files (h : s.Built) :
    ((Finset.range s.inoNum).filter fun i => s.file i ≠ none).card + 1 = s.allocated.card := by
  have hset : (Finset.range s.inoNum).filter (fun i => s.file i ≠ none) =
      s.allocated.erase INVALID_INO := by
    ext i
    rw [Finset.mem_filter, Finset.mem_range, Finset.mem_erase]
    constructor
    · rintro ⟨hlt, hfile⟩
      obtain ⟨id, hid⟩ := Option.ne_none_iff_exists'.mp hfile
      obtain ⟨f, hf, rfl⟩ := h.item_of_file hlt hid
      obtain ⟨hin, hne, -⟩ := h.tree.own id f hf
      exact ⟨hne, hin⟩
    · rintro ⟨hne, hin⟩
      obtain ⟨id, f, hf, rfl⟩ := h.tree.used i hin hne
      rw [(h.tree.own id f hf).2.2]
      exact ⟨h.inv.inside f.ino hin, Option.some_ne_none id⟩
  rw [hset, Finset.card_erase_add_one h.tree.reserved.1]

lemma Tree.balanced (h : s.Tree) : Balanced s.files := by
  intro id f a b hf hdata
  rw [(h.entries id f a b hf hdata).1]

lemma removedItems_of_refused [DecidableEq Name] (hbal : Balanced s.files) {item : ℕ}
    (h : s.Refused item) (purge : Bool) (fuel : ℕ) : removedItems purge fuel s item = [] := by
  have hone := removeOne_of_refused hbal h
  cases fuel with
  | zero => simp [removedItems, hone]
  | succ fuel => simp [removedItems, hone]

/-- A directory that was not empty and is not purged is not empty. -/
lemma Purges.refused {item id : ℕ} {chain : List ℕ} (hpurge : s.Purges item chain) (h : s.Tree)
    (hp : Pruned s chain s') (hrefused : s.Refused id) (hid : id ∉ chain) : s'.Refused id := by
  obtain ⟨d, a, b, hd, hdata, hne⟩ := hrefused
  obtain ⟨rfl, -, hall⟩ := h.entries id d a b hd hdata
  refine ⟨d.without chain, b.filter (· ∉ chain), b.filter (· ∉ chain), hp.files_of_notMem hd hid,
    by simp only [File.without, hdata, FileData.without], fun hnil => ?_⟩
  -- otherwise all its entries are the end of the chain
  have hgone : ∀ c ∈ b, c ∈ chain := by
    intro c hc
    have hout := List.filter_eq_nil_iff.mp hnil c hc
    simpa using hout
  have hlast : ∀ c ∈ b, chain.getLast? = some c ∧ ¬ s.OnlyEntry id c :=
    fun c hc => hpurge.entry_of_notMem h hd hdata hid (hgone c hc) hc
  obtain ⟨c, rest, rfl⟩ := List.exists_cons_of_ne_nil hne
  obtain ⟨hend, honly⟩ := hlast c List.mem_cons_self
  have hrest : rest = [] := by
    apply List.eq_nil_iff_forall_not_mem.mpr
    intro c' hc'
    have hsame := (hlast c' (List.mem_cons_of_mem c hc')).1.symm.trans hend
    rw [Option.some.injEq] at hsame
    have hnodup := (h.entries id d _ _ hd hdata).2.1
    exact (List.nodup_cons.mp hnodup).1 (hsame ▸ hc')
  subst hrest
  obtain ⟨f, hf, hdir⟩ := hall c List.mem_cons_self
  exact honly ⟨d, f, hd, hf, hdir, hdata⟩

/-- A tree in which every item has entries has none. -/
lemma Tree.files_eq_none (h : s.Tree) (hrefused : ∀ id, s.files id ≠ none → s.Refused id) (id : ℕ) :
    s.files id = none := by
  -- from an item to an entry the inode grows, and it is bounded by the table
  have hbound : ∀ n id f, s.files id = some f → s.inoNum ≤ f.ino + n → False := by
    intro n
    induction n with
    | zero =>
      intro id f hf hle
      have hlt := h.inside f.ino (h.own id f hf).1
      omega
    | succ n ih =>
      intro id f hf hle
      obtain ⟨f', a, b, hf', hdata, hne⟩ := hrefused id (by rw [hf]; exact Option.some_ne_none f)
      rw [hf, Option.some.injEq] at hf'
      subst hf'
      obtain ⟨c, hc⟩ := List.exists_mem_of_ne_nil a hne
      obtain ⟨g, hg, hdir⟩ := (h.entries id f a b hf hdata).2.2 c hc
      have hlt := h.dir_lt hg
      exact ih c g hg (by omega)
  by_contra hsome
  obtain ⟨f, hf⟩ := Option.ne_none_iff_exists'.mp hsome
  exact hbound s.inoNum id f hf (by omega)

end Fs

/-- Before the round for inode `n`, in a teardown that started from `s`: ahead of the scan
all items are still there, behind it are only directories with entries, and the log has
the items that are gone. -/
structure Scanned (s : Fs Name) (n : ℕ) (c : Cleanup Name) : Prop where
  tree : c.fs.Tree
  file : c.fs.file = s.file
  inoNum : c.fs.inoNum = s.inoNum
  ahead : ∀ id f, s.files id = some f → n ≤ f.ino → ∃ g, c.fs.files id = some g ∧ g.ino = f.ino
  behind : ∀ id g, c.fs.files id = some g → g.ino < n → c.fs.Refused id
  nodup : c.log.Nodup
  log : ∀ id, id ∈ c.log ↔ s.files id ≠ none ∧ c.fs.files id = none
  items : ∀ id, s.files id = none → c.fs.files id = none
  removed : c.removed = ((Finset.range n).filter fun i => s.file i ≠ none).card

namespace Scanned

variable {s : Fs Name} {n : ℕ} {c : Cleanup Name}

lemma start (h : s.Built) : Scanned s 0 ⟨s, 0, []⟩ := by
  refine ⟨h.tree, rfl, rfl, ?_, ?_, List.nodup_nil, ?_, fun _ hid => hid, rfl⟩
  · intro id f hf _
    exact ⟨f, hf, rfl⟩
  · intro id g _ hlt
    omega
  · intro id
    simp

/-- A round with a call is counted. -/
lemma removed_succ (hc : Scanned s n c) {id : ℕ} {g : File Name} (hg : c.fs.files id = some g)
    (hino : g.ino = n) :
    c.removed + 1 = ((Finset.range (n + 1)).filter fun i => s.file i ≠ none).card := by
  have hfile := (hc.tree.own id g hg).2.2
  rw [hc.file, hino] at hfile
  have hsome : s.file n ≠ none := by
    rw [hfile]
    exact Option.some_ne_none id
  rw [hc.removed, Finset.range_add_one, Finset.filter_insert, if_pos hsome,
    Finset.card_insert_of_notMem (by simp)]

/-- An inode without a file is passed over. -/
lemma skip (hc : Scanned s n c) (hfile : s.file n = none) : Scanned s (n + 1) c := by
  refine ⟨hc.tree, hc.file, hc.inoNum, ?_, ?_, hc.nodup, hc.log, hc.items, ?_⟩
  · intro id f hf hle
    exact hc.ahead id f hf (by omega)
  · intro id g hg hlt
    have hne : g.ino ≠ n := by
      rintro rfl
      have hptr := (hc.tree.own id g hg).2.2
      rw [hc.file, hfile] at hptr
      cases hptr
    exact hc.behind id g hg (by omega)
  · rw [hc.removed, Finset.range_add_one, Finset.filter_insert, if_neg (not_not.mpr hfile)]

/-- A directory with entries is counted and stays. -/
lemma refuse (hc : Scanned s n c) {id : ℕ} {g : File Name} (hg : c.fs.files id = some g)
    (hino : g.ino = n) (hrefused : c.fs.Refused id) :
    Scanned s (n + 1) { c with removed := c.removed + 1 } := by
  refine ⟨hc.tree, hc.file, hc.inoNum, ?_, ?_, hc.nodup, hc.log, hc.items, ?_⟩
  · intro id' f hf hle
    exact hc.ahead id' f hf (by omega)
  · intro id' g' hg' hlt
    by_cases hsame : g'.ino = n
    · rw [hc.tree.eq_of_ino hg' hg (hsame.trans hino.symm)]
      exact hrefused
    · exact hc.behind id' g' hg' (by omega)
  · exact hc.removed_succ hg hino

/-- Any other item goes, with the directories that this empties. -/
lemma remove (hc : Scanned s n c) {id : ℕ} {g : File Name} (hg : c.fs.files id = some g)
    (hino : g.ino = n) {chain : List ℕ} {s' : Fs Name} (hpurge : c.fs.Purges id chain)
    (hp : c.fs.Pruned chain s') (htree : s'.Tree) :
    Scanned s (n + 1) ⟨s', c.removed + 1, c.log ++ chain⟩ := by
  have hchain := hpurge.ino_le hc.tree hg
  have hthere : ∀ id' ∈ chain, c.fs.files id' ≠ none := by
    intro id' hid'
    obtain ⟨f, hf, -⟩ := hchain id' hid'
    rw [hf]
    exact Option.some_ne_none f
  refine ⟨htree, hp.file.trans hc.file, hp.inoNum.trans hc.inoNum, ?_, ?_, ?_, ?_, ?_, ?_⟩
  · intro id' f hf hle
    obtain ⟨f', hf', hsame⟩ := hc.ahead id' f hf (by omega)
    have hnot : id' ∉ chain := by
      intro hid'
      obtain ⟨f'', hf'', hle'⟩ := hchain id' hid'
      rw [hf', Option.some.injEq] at hf''
      subst hf''
      omega
    exact ⟨f'.without chain, hp.files_of_notMem hf' hnot, hsame⟩
  · intro id' g' hg' hlt
    obtain ⟨hnot, g₀, hg₀, rfl⟩ := hp.of_files hg'
    have hne : g₀.ino ≠ n := by
      intro hsame
      rw [hc.tree.eq_of_ino hg₀ hg (hsame.trans hino.symm)] at hnot
      exact hnot hpurge.head_mem
    have hlt' : g₀.ino < n + 1 := hlt
    exact hpurge.refused hc.tree hp (hc.behind id' g₀ hg₀ (by omega)) hnot
  · apply List.nodup_append.mpr
    refine ⟨hc.nodup, hpurge.nodup hc.tree, ?_⟩
    rintro x hx y hy rfl
    exact hthere x hy ((hc.log x).mp hx).2
  · intro id'
    rw [List.mem_append, hc.log, hp.files]
    by_cases hid' : id' ∈ chain
    · have hs : s.files id' ≠ none := fun hnone => hthere id' hid' (hc.items id' hnone)
      simp [hid', hs]
    · simp [hid']
  · intro id' hnone
    rw [hp.files, hc.items id' hnone]
    simp
  · exact hc.removed_succ hg hino

variable [DecidableEq Name]

/-- One round: no assertion fails. -/
lemma step (hc : Scanned s n c) (h : s.Built) (hn : n < s.inoNum) :
    ∃ c', c.scanStep n = some c' ∧ Scanned s (n + 1) c' := by
  cases hfile : s.file n with
  | none =>
    refine ⟨c, ?_, hc.skip hfile⟩
    simp only [Cleanup.scanStep, hc.file, hfile]
  | some id =>
    obtain ⟨f, hf, hino⟩ := h.item_of_file hn hfile
    obtain ⟨g, hg, hsame⟩ := hc.ahead id f hf hino.ge
    rw [hino] at hsame
    have hnext : c.fs.next n = none := by
      apply hc.tree.unlinked
      rw [← hsame]
      exact (hc.tree.own id g hg).1
    by_cases hrefused : c.fs.Refused id
    · have hcall := Fs.fsRemoveitem_of_refused hc.tree.balanced hrefused true c.fs.allocated.card
      have hitems := Fs.removedItems_of_refused hc.tree.balanced hrefused true c.fs.allocated.card
      refine ⟨_, ?_, hc.refuse hg hsame hrefused⟩
      simp only [Cleanup.scanStep, hc.file, hfile, hnext, hcall, hitems, ne_eq, not_true_eq_false,
        if_false, Option.bind_eq_bind, Option.bind_some, List.append_nil]
    · obtain ⟨s', hcall, htree, hchain, hp⟩ :=
        hc.tree.fsRemoveitem hg hrefused true (Nat.le_succ c.fs.allocated.card)
      refine ⟨_, ?_, hc.remove hg hsame hchain hp htree⟩
      simp only [Cleanup.scanStep, hc.file, hfile, hnext, hcall, ne_eq, not_true_eq_false,
        if_false, Option.bind_eq_bind, Option.bind_some]

/-- All rounds. -/
lemma scan (h : s.Built) : ∀ n ≤ s.inoNum,
    ∃ c, Cleanup.scan n ⟨s, 0, []⟩ = some c ∧ Scanned s n c := by
  intro n
  induction n with
  | zero => exact fun _ => ⟨_, rfl, start h⟩
  | succ n ih =>
    intro hn
    obtain ⟨c, hscan, hc⟩ := ih (by omega)
    obtain ⟨c', hstep, hc'⟩ := hc.step h hn
    refine ⟨c', ?_, hc'⟩
    simp only [Cleanup.scan, hscan, Option.bind_eq_bind, Option.bind_some, hstep]

omit [DecidableEq Name] in
/-- Behind the last inode nothing is left. -/
lemma files_eq_none (hc : Scanned s s.inoNum c) (id : ℕ) : c.fs.files id = none := by
  apply hc.tree.files_eq_none
  intro id' hid'
  obtain ⟨g, hg⟩ := Option.ne_none_iff_exists'.mp hid'
  apply hc.behind id' g hg
  rw [← hc.inoNum]
  exact hc.tree.inside g.ino (hc.tree.own id' g hg).1

omit [DecidableEq Name] in
lemma allocated_eq (hc : Scanned s s.inoNum c) : c.fs.allocated = {INVALID_INO} := by
  apply Finset.eq_singleton_iff_unique_mem.mpr
  refine ⟨hc.tree.reserved.1, fun i hi => ?_⟩
  by_contra hne
  obtain ⟨id, f, hf, -⟩ := hc.tree.used i hi hne
  rw [hc.files_eq_none id] at hf
  cases hf

end Scanned

/-- The two assertions at the end hold as well. -/
lemma Fs.Built.fsCleanup [DecidableEq Name] {s : Fs Name} (h : s.Built) :
    ∃ c, s.fsCleanup true true = some c ∧ c.log.Nodup ∧ (∀ id, id ∈ c.log ↔ s.files id ≠ none) ∧
      ∀ id, c.fs.files id = none := by
  obtain ⟨c, hscan, hc⟩ := Scanned.scan h s.inoNum le_rfl
  have hfree := hc.tree.toTable.inofree_eq hc.tree.reserved.1
  have hcard := h.card_files
  have hbefore := h.inv.table.numfree_add_card
  have hafter := hc.tree.toTable.numfree_add_card
  rw [hc.allocated_eq, Finset.card_singleton] at hafter
  have hcount : ((c.removed + 1 : ℕ) : ℤ) = s.inoNum - s.inoNumfree := by
    rw [hc.removed, hcard]
    omega
  have hall : ((c.fs.putBack INVALID_INO).inoNum : ℤ) = (c.fs.putBack INVALID_INO).inoNumfree := by
    show (c.fs.inoNum : ℤ) = c.fs.inoNumfree + 1
    omega
  refine ⟨⟨(c.fs.putBack INVALID_INO).freeTable, c.removed + 1, c.log⟩, ?_, hc.nodup,
    fun id => ?_, hc.files_eq_none⟩
  · unfold Fs.fsCleanup
    rw [if_neg (by decide), if_neg h.inv.made]
    simp only [hscan, hfree, Option.bind_eq_bind, Option.bind_some]
    rw [if_neg (not_not.mpr hcount), if_neg (not_not.mpr hall)]
  · rw [hc.log, hc.files_eq_none id]
    simp

variable [DecidableEq Name]

/-- After any run of allowed create calls from the setup the teardown meets no failing
assertion, and removes every item exactly once. -/
theorem fsCleanup_complete (dot : Name) (calls : List (FsCall Name))
    (h : Guarded fsStep CreateAllowed (Fs.fsCreate dot) calls) :
    ∃ s, runFrom fsStep (Fs.fsCreate dot) calls = some s ∧
      ∃ c, s.fsCleanup true true = some c ∧ c.log.Nodup ∧
        (∀ id, id ∈ c.log ↔ s.files id ≠ none) ∧ ∀ id, c.fs.files id = none := by
  obtain ⟨s, hs, hbuilt⟩ := built_of_creates h
  exact ⟨s, hs, hbuilt.fsCleanup⟩

/-- A directory with a file in it and a second file in the root. The scan is refused at
the root and at the directory, and both go behind it. -/
theorem fsCleanup_complete_two_files :
    ∃ s, runFrom fsStep (Fs.fsCreate 0)
        [.createdir 1 5, .createfile 2 6 none, .createfile 1 7 none] = some s ∧
      ∃ c, s.fsCleanup true true = some c ∧ c.log.Nodup ∧ 0 ∈ c.log ∧ 1 ∈ c.log ∧
        (∀ id, id ∈ c.log ↔ s.files id ≠ none) ∧ ∀ id, c.fs.files id = none := by
  have hrun := fsCleanup_complete 0 [.createdir 1 5, .createfile 2 6 none, .createfile 1 7 none]
    ⟨⟨trivial, ?_⟩, ⟨trivial, ?_⟩, ⟨trivial, ?_⟩, trivial⟩
  · obtain ⟨s, hs, c, hc, hnodup, hlog, hnone⟩ := hrun
    refine ⟨s, hs, c, hc, hnodup, (hlog 0).mpr ?_, (hlog 1).mpr ?_, hlog, hnone⟩
    · cases hs
      exact Option.some_ne_none _
    · cases hs
      exact Option.some_ne_none _
  · intro s hs
    cases hs
    exact ⟨by decide, by decide, by decide, _, _, _, _, rfl, rfl, rfl, rfl⟩
  · intro s hs
    cases hs
    exact ⟨by decide, by decide, by decide, _, _, _, _, rfl, rfl, rfl, rfl⟩
  · intro s hs
    cases hs
    exact ⟨by decide, by decide, by decide, _, _, _, _, rfl, rfl, rfl, rfl⟩

end SymbiOS.Kld
