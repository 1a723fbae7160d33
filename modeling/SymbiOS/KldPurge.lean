import SymbiOS.KldGrow

/-!
# Purging the directories that become empty

A removal with the purge climbs from the item to the directories above it, as long as
each had the one below as its only entry. The chain it leaves is described in the tree
before the call.
-/
namespace SymbiOS.Kld
open SymbiOS.FreeList SymbiOS.GuardedRun

variable {Name : Type}

namespace Fs

variable {s s' : Fs Name}

/-- From `c` upwards through every directory that had the one before as its only entry,
to the first that is not such a directory's only entry. -/
inductive Purges (s : Fs Name) : ℕ → List ℕ → Prop
  | stop {c : ℕ} : (∀ p, ¬ s.OnlyEntry p c) → Purges s c [c]
  | climb {c p : ℕ} {chain : List ℕ} : s.OnlyEntry p c → Purges s p chain →
      Purges s c (c :: chain)

namespace Purges

variable {c id item : ℕ} {chain : List ℕ} {f g : File Name}

lemma head_mem (hpurge : s.Purges c chain) : c ∈ chain := by
  cases hpurge with
  | stop => exact List.mem_singleton_self c
  | climb => exact List.mem_cons_self

/-- The chain climbs, and inodes become smaller on the way. -/
lemma ino_le (hpurge : s.Purges c chain) (h : s.Tree) (hf : s.files c = some f) :
    ∀ id ∈ chain, ∃ g, s.files id = some g ∧ g.ino ≤ f.ino := by
  induction hpurge generalizing f with
  | stop =>
    intro id hid
    rw [List.mem_singleton.mp hid]
    exact ⟨f, hf, le_rfl⟩
  | @climb c p chain honly _ ih =>
    obtain ⟨d, f', hd, hf', hdir, -⟩ := honly
    rw [hf, Option.some.injEq] at hf'
    subst hf'
    have hlt := h.dir_lt hf
    intro id hid
    rcases List.mem_cons.mp hid with rfl | hid
    · exact ⟨f, hf, le_rfl⟩
    · obtain ⟨g, hg, hle⟩ := ih hd id hid
      exact ⟨g, hg, by omega⟩

/-- No item is removed twice. -/
lemma nodup (hpurge : s.Purges c chain) (h : s.Tree) : chain.Nodup := by
  induction hpurge with
  | stop => exact List.nodup_singleton _
  | @climb c p chain honly hrest ih =>
    obtain ⟨d, f, hd, hf, hdir, -⟩ := honly
    have hlt := h.dir_lt hf
    apply List.nodup_cons.mpr
    refine ⟨fun hmem => ?_, ih⟩
    obtain ⟨g, hg, hle⟩ := hrest.ino_le h hd c hmem
    rw [hf, Option.some.injEq] at hg
    subst hg
    omega

/-- A directory that is left had at most the end of the chain as an entry, and then not
as its only one. -/
lemma entry_of_notMem (hpurge : s.Purges item chain) (h : s.Tree) {a b : List ℕ}
    (hf : s.files id = some f) (hdata : f.data = .directory a b) (hid : id ∉ chain)
    (hc : c ∈ chain) (hmem : c ∈ a) : chain.getLast? = some c ∧ ¬ s.OnlyEntry id c := by
  induction hpurge with
  | stop hstop =>
    rw [List.mem_singleton.mp hc]
    exact ⟨rfl, hstop id⟩
  | @climb c' p chain honly hrest ih =>
    have hnot : id ∉ chain := fun hmem => hid (List.mem_cons_of_mem c' hmem)
    rcases List.mem_cons.mp hc with rfl | hc
    · -- the directory of the first item is next on the chain
      obtain ⟨d, g, hd, hg, hdir, -⟩ := honly
      have hino := (h.entry hg hf hdata hmem).1
      have hsame : id = p := h.eq_of_ino hf hd (by rw [← hino, hdir])
      exact absurd (hsame ▸ hrest.head_mem) hnot
    · rw [List.getLast?_cons_of_ne_nil (List.ne_nil_of_mem hrest.head_mem)]
      exact ih hnot hc

/-- The chain ends at its oldest item. -/
lemma last_le (hpurge : s.Purges c chain) (h : s.Tree) {last : ℕ}
    (hlast : chain.getLast? = some last) (hg : s.files last = some g) (hid : id ∈ chain)
    (hf : s.files id = some f) : g.ino ≤ f.ino := by
  induction hpurge generalizing id f with
  | stop =>
    rw [List.getLast?_singleton, Option.some.injEq] at hlast
    rw [List.mem_singleton.mp hid, hlast, hg, Option.some.injEq] at hf
    exact hf ▸ le_rfl
  | @climb c p chain honly hrest ih =>
    rw [List.getLast?_cons_of_ne_nil (List.ne_nil_of_mem hrest.head_mem)] at hlast
    rcases List.mem_cons.mp hid with rfl | hid
    · obtain ⟨d, f', hd, hf', hdir, -⟩ := honly
      rw [hf, Option.some.injEq] at hf'
      subst hf'
      have hlt := h.dir_lt hf
      have hle := ih hlast hrest.head_mem hd
      omega
    · exact ih hlast hid hf

end Purges

/-- The items that a call on a leaf is to remove. -/
def Chain (s : Fs Name) (purgeemptydir : Bool) (item : ℕ) (chain : List ℕ) : Prop :=
  if purgeemptydir then s.Purges item chain else chain = [item]

namespace Chain

variable {purge : Bool} {c id item last : ℕ} {chain : List ℕ} {f g : File Name}

lemma last_le (hchain : s.Chain purge item chain) (h : s.Tree) (hlast : chain.getLast? = some last)
    (hg : s.files last = some g) (hid : id ∈ chain) (hf : s.files id = some f) : g.ino ≤ f.ino := by
  cases purge with
  | true => exact Purges.last_le hchain h hlast hg hid hf
  | false =>
    rw [show chain = [item] from hchain] at hlast hid
    rw [List.getLast?_singleton, Option.some.injEq] at hlast
    rw [List.mem_singleton.mp hid, hlast, hg, Option.some.injEq] at hf
    exact hf ▸ le_rfl

/-- A directory that is left had at most the last item as an entry. -/
lemma last_of_entry (hchain : s.Chain purge item chain) (h : s.Tree) {a b : List ℕ}
    (hf : s.files id = some f) (hdata : f.data = .directory a b) (hid : id ∉ chain)
    (hc : c ∈ chain) (hmem : c ∈ a) : chain.getLast? = some c := by
  cases purge with
  | true => exact (Purges.entry_of_notMem hchain h hf hdata hid hc hmem).1
  | false =>
    rw [show chain = [item] from hchain] at hc ⊢
    rw [List.mem_singleton.mp hc]
    rfl

end Chain

/-- These items are gone and their inodes free; other inodes are as before. -/
structure Released (s : Fs Name) (chain : List ℕ) (s' : Fs Name) : Prop where
  gone : ∀ id ∈ chain, s'.files id = none
  freed : ∀ id ∈ chain, ∀ f, s.files id = some f → f.ino ∉ s'.allocated
  kept : ∀ i, s.InodeOfNone chain i →
    s'.inoTable i = s.inoTable i ∧ (i ∈ s'.allocated ↔ i ∈ s.allocated)
  inoNumfree : s'.inoNumfree = s.inoNumfree + chain.length

/-- The directory that holds the last of these items. -/
def HoldsLast (s : Fs Name) (chain : List ℕ) (id last : ℕ) : Prop :=
  ∃ d f, s.files id = some d ∧ s.files last = some f ∧ chain.getLast? = some last ∧ f.dir = d.ino

/-- Besides, the directory that held the last item has lost it from both tables, and no
other item has changed. -/
structure RemovedOnly (s : Fs Name) (chain : List ℕ) (s' : Fs Name) : Prop extends
    Released s chain s' where
  directory : ∀ id last d a b, s.HoldsLast chain id last → s.files id = some d →
    d.data = .directory a b →
      s'.files id = some { d with data := .directory (a.erase last) (b.erase last) }
  other : ∀ id ∉ chain, (∀ last, ¬ s.HoldsLast chain id last) → s'.files id = s.files id

/-- Besides, no other item has changed at all. -/
structure OthersUnchanged (s : Fs Name) (chain : List ℕ) (s' : Fs Name) : Prop extends
    Released s chain s' where
  other : ∀ id ∉ chain, s'.files id = s.files id

lemma Pruned.released {chain : List ℕ} (hp : Pruned s chain s') : Released s chain s' := by
  constructor
  · intro id hid
    rw [hp.files, if_pos hid]
  · intro id hid f hf hin
    exact ((hp.allocated f.ino).mp hin).2 id hid f hf rfl
  · intro i hi
    refine ⟨hp.inoTable i hi, ?_⟩
    rw [hp.allocated]
    exact and_iff_left hi
  · exact hp.inoNumfree

/-- On a chain, losing all its items is losing the last one. -/
lemma Pruned.removedOnly {purge : Bool} {item : ℕ} {chain : List ℕ} (hp : Pruned s chain s')
    (h : s.Tree) (hchain : s.Chain purge item chain) : RemovedOnly s chain s' := by
  refine ⟨hp.released, ?_, ?_⟩
  · rintro id last d a b ⟨d', f, hd', hf, hlast, hdir⟩ hd hdata
    rw [hd, Option.some.injEq] at hd'
    subst hd'
    have hlt := h.dir_lt hf
    have hid : id ∉ chain := by
      intro hid
      have hle := hchain.last_le h hlast hf hid hd
      omega
    obtain ⟨rfl, hnodup, -⟩ := h.entries id d a b hd hdata
    have hfilter : b.filter (· ∉ chain) = b.erase last := by
      rw [← filter_notMem_singleton hnodup]
      apply List.filter_congr
      intro c hc
      have hiff : c ∈ chain ↔ c ∈ [last] := by
        rw [List.mem_singleton]
        constructor
        · intro hmem
          have hend := hchain.last_of_entry h hd hdata hid hmem hc
          exact Option.some.inj (hend.symm.trans hlast)
        · rintro rfl
          exact List.mem_of_getLast? hlast
      rw [decide_eq_decide, hiff]
    rw [hp.files_of_notMem hd hid, File.without, hdata]
    simp only [FileData.without, hfilter]
  · intro id hid hholds
    cases hf : s.files id with
    | none => rw [hp.files, if_neg hid, hf, Option.map_none]
    | some f =>
      rw [hp.files_of_notMem hf hid, File.without_eq_self]
      intro a b hdata c hc
      have hnot : c ∉ a := by
        intro hmem
        obtain ⟨g, hg, hdir⟩ := (h.entries id f a b hf hdata).2.2 c hmem
        exact hholds c ⟨f, g, hf, hg, hchain.last_of_entry h hf hdata hid hc hmem, hdir⟩
      have hsame := (h.entries id f a b hf hdata).1
      exact ⟨hnot, hsame ▸ hnot⟩

section Remove

variable {item : ℕ} {f : File Name}

/-- Above the item, a removal changes nobody's only entry. -/
lemma Tree.onlyEntry_iff (h : s.Tree) (hf : s.files item = some f) (hleaf : ¬ s.Refused item)
    (hp : Pruned s [item] s') {c q : ℕ} {g : File Name} (hg : s.files c = some g)
    (hle : g.ino ≤ f.dir) : s'.OnlyEntry q c ↔ s.OnlyEntry q c := by
  have hlt := h.dir_lt hf
  have hc : c ≠ item := by
    rintro rfl
    rw [hf, Option.some.injEq] at hg
    rw [← hg] at hle
    omega
  constructor
  · rintro ⟨d', g', hd', hg', hdir, hdata'⟩
    obtain ⟨-, d, hd, rfl⟩ := hp.of_files hd'
    obtain ⟨-, g₀, hg₀, rfl⟩ := hp.of_files hg'
    rw [hg, Option.some.injEq] at hg₀
    subst hg₀
    obtain ⟨a, b, hdata, ha, -⟩ := FileData.without_eq_directory hdata'
    -- the item hangs in a younger directory than this one
    have hnot : item ∉ a := by
      intro hmem
      have hino : f.dir = d.ino := (h.entry hf hd hdata hmem).1
      have hyoung := h.dir_lt hg
      have hsame : g.dir = d.ino := hdir
      omega
    have hself : a.filter (· ∉ [item]) = a := by
      apply List.filter_eq_self.mpr
      intro x hx
      rw [decide_eq_true_eq, List.mem_singleton]
      exact fun hxi => hnot (hxi ▸ hx)
    rw [hself] at ha
    rw [(h.entries q d a b hd hdata).1, ← ha] at hdata
    exact ⟨d, g, hd, hg, hdir, hdata⟩
  · rintro ⟨d, g', hd, hg', hdir, hdata⟩
    rw [hg, Option.some.injEq] at hg'
    subst hg'
    have hq : q ≠ item := by
      rintro rfl
      exact hleaf ⟨d, [c], [c], hd, hdata, List.cons_ne_nil c []⟩
    refine ⟨d.without [item], g.without [item], hp.files_of_notMem hd (by simpa using hq),
      hp.files_of_notMem hg (by simpa using hc), hdir, ?_⟩
    simp only [File.without, hdata, FileData.without]
    simp [hc]

/-- So the rest of the chain is there before the removal. -/
lemma Purges.of_pruned {c : ℕ} {g : File Name} {chain : List ℕ} (hpurge : s'.Purges c chain)
    (h : s.Tree) (hf : s.files item = some f) (hleaf : ¬ s.Refused item)
    (hp : Pruned s [item] s') (hg : s.files c = some g) (hle : g.ino ≤ f.dir) :
    s.Purges c chain := by
  induction hpurge generalizing g with
  | stop hstop =>
    apply Purges.stop
    intro p honly
    exact hstop p ((h.onlyEntry_iff hf hleaf hp hg hle).mpr honly)
  | @climb c p chain honly _ ih =>
    have hiff := h.onlyEntry_iff hf hleaf hp (q := p) hg hle
    obtain ⟨d, g', hd, hg', hdir, -⟩ := hiff.mp honly
    rw [hg, Option.some.injEq] at hg'
    subst hg'
    have hlt := h.dir_lt hg
    exact Purges.climb (hiff.mp honly) (ih hd (by omega))

/-- The directory whose only entry is gone is a leaf now. -/
lemma Tree.emptied_leaf (h : s.Tree) (hf : s.files item = some f) (hp : Pruned s [item] s')
    {p : ℕ} (honly : s.OnlyEntry p item) :
    ∃ d, s.files p = some d ∧ f.dir = d.ino ∧ s'.files p = some (d.without [item]) ∧
      ¬ s'.Refused p := by
  obtain ⟨d, f', hd, hf', hdir, hdata⟩ := honly
  rw [hf, Option.some.injEq] at hf'
  subst hf'
  have hlt := h.dir_lt hf
  have hpitem : p ≠ item := by
    rintro rfl
    rw [hf, Option.some.injEq] at hd
    rw [← hd] at hdir
    omega
  have hd' := hp.files_of_notMem hd (by simpa using hpitem)
  refine ⟨d, hd, hdir, hd', ?_⟩
  rintro ⟨e, a, b, he, hdata', hne⟩
  rw [hd', Option.some.injEq] at he
  rw [← he] at hdata'
  simp only [File.without, hdata, FileData.without, FileData.directory.injEq] at hdata'
  apply hne
  rw [← hdata'.1]
  simp

/-- Inode 0 and that of an item are in use. -/
lemma Tree.one_lt_card (h : s.Tree) (hf : s.files item = some f) : 1 < s.allocated.card := by
  obtain ⟨hin, hne, -⟩ := h.own item f hf
  exact Finset.one_lt_card.mpr ⟨f.ino, hin, INVALID_INO, h.reserved.1, hne⟩

/-- A removal frees one inode for each item. -/
lemma Pruned.card {gone : List ℕ} (hp : Pruned s gone s') (h : s.Table) (h' : s'.Table) :
    s'.allocated.card + gone.length = s.allocated.card := by
  have hbefore := h.numfree_add_card
  have hafter := h'.numfree_add_card
  rw [hp.inoNum, hp.inoNumfree] at hafter
  omega

variable [DecidableEq Name]

/-- The items that a call removes, in their order. -/
def removedItems (purgeemptydir : Bool) : ℕ → Fs Name → ℕ → List ℕ
  | 0, s, item =>
      match s.removeOne item with
      | some (_, true, _) => [item]
      | _ => []
  | fuel + 1, s, item =>
      match s.removeOne item with
      | some (s, true, some dir) =>
          item :: if purgeemptydir then removedItems purgeemptydir fuel s dir else []
      | some (_, true, none) => [item]
      | _ => []

/-- A call on a leaf: no assertion fails, and the chain is gone. -/
lemma Tree.fsRemoveitem (h : s.Tree) (hf : s.files item = some f) (hleaf : ¬ s.Refused item)
    (purge : Bool) {fuel : ℕ} (hfuel : s.allocated.card ≤ fuel + 1) :
    ∃ s', fsRemoveitem purge fuel s item = some (s', true) ∧ s'.Tree ∧
      s.Chain purge item (removedItems purge fuel s item) ∧
      Pruned s (removedItems purge fuel s item) s' := by
  induction fuel generalizing s item f with
  | zero =>
    have hcard := h.one_lt_card hf
    omega
  | succ fuel ih =>
    obtain ⟨s₁, emptied, hone, htree, hp, hempty⟩ := h.removeOne hf hleaf
    cases emptied with
    | none =>
      -- no directory had it as its only entry
      have hitems : removedItems purge (fuel + 1) s item = [item] := by
        simp only [removedItems, hone]
      have hstop : ∀ p, ¬ s.OnlyEntry p item := by
        intro p honly
        cases (hempty p).mpr honly
      rw [hitems]
      refine ⟨s₁, ?_, htree, ?_, hp⟩
      · simp only [Fs.fsRemoveitem, hone, Option.bind_eq_bind, Option.bind_some]
      · cases purge with
        | false => exact rfl
        | true => exact Purges.stop hstop
    | some p =>
      have honly := (hempty p).mp rfl
      cases purge with
      | false =>
        have hitems : removedItems false (fuel + 1) s item = [item] := by
          simp [removedItems, hone]
        rw [hitems]
        refine ⟨s₁, ?_, htree, rfl, hp⟩
        simp [Fs.fsRemoveitem, hone]
      | true =>
        obtain ⟨d, hd, hdir, hd₁, hleaf₁⟩ := h.emptied_leaf hf hp honly
        have hcard := hp.card h.toTable htree.toTable
        rw [List.length_singleton] at hcard
        obtain ⟨s₂, hrest, htree₂, hchain, hp₂⟩ := ih htree hd₁ hleaf₁ (by omega)
        have hitems : removedItems true (fuel + 1) s item =
            item :: removedItems true fuel s₁ p := by
          simp [removedItems, hone]
        rw [hitems]
        refine ⟨s₂, ?_, htree₂, ?_, hp.cons hp₂⟩
        · simp [Fs.fsRemoveitem, hone, hrest]
        · exact Purges.climb ((hempty p).mp rfl)
            (Purges.of_pruned hchain h hf hleaf hp hd hdir.ge)

/-- What a call does. A directory that is not empty is refused and nothing changes; else
the chain is removed, and `frame` says what becomes of the rest. -/
def RemovesChain (frame : Fs Name → List ℕ → Fs Name → Prop) (purgeemptydir : Bool) (fuel : ℕ)
    (s : Fs Name) (item : ℕ) : Prop :=
  (s.Refused item → fsRemoveitem purgeemptydir fuel s item = some (s, false)) ∧
  (¬ s.Refused item → ∃ s', fsRemoveitem purgeemptydir fuel s item = some (s', true) ∧
    s.Chain purgeemptydir item (removedItems purgeemptydir fuel s item) ∧
    frame s (removedItems purgeemptydir fuel s item) s')

end Remove

end Fs

variable [DecidableEq Name]

/-- In every tree that create calls build, every call removes exactly the chain, and only
the directory of the last item on it changes, which loses that entry. -/
theorem fsRemoveitem_removes_chain (dot : Name) (calls : List (FsCall Name))
    (h : Guarded fsStep CreateAllowed (Fs.fsCreate dot) calls) :
    ∃ s, runFrom fsStep (Fs.fsCreate dot) calls = some s ∧
      ∀ item, s.files item ≠ none → ∀ purgeemptydir fuel, s.allocated.card ≤ fuel →
        Fs.RemovesChain Fs.RemovedOnly purgeemptydir fuel s item := by
  obtain ⟨s, hs, hbuilt⟩ := built_of_creates h
  refine ⟨s, hs, fun item hitem purge fuel hfuel => ⟨fun hrefused => ?_, fun hleaf => ?_⟩⟩
  · exact Fs.fsRemoveitem_of_refused hbuilt.inv.balanced hrefused purge fuel
  · obtain ⟨f, hf⟩ := Option.ne_none_iff_exists'.mp hitem
    have hfuel' : s.allocated.card ≤ fuel + 1 := Nat.le_succ_of_le hfuel
    obtain ⟨s', hremove, -, hchain, hp⟩ := hbuilt.tree.fsRemoveitem hf hleaf purge hfuel'
    exact ⟨s', hremove, hchain, hp.removedOnly hbuilt.tree hchain⟩

/-- A directory with one file in it: with the purge all three items go. -/
theorem fsRemoveitem_removes_up_to_root :
    ∃ s, runFrom fsStep (Fs.fsCreate 0) [.createdir 1 5, .createfile 2 6 none] = some s ∧
      Fs.RemovesChain Fs.RemovedOnly true s.allocated.card s 2 ∧
      Fs.removedItems true s.allocated.card s 2 = [2, 1, 0] := by
  have hrun := fsRemoveitem_removes_chain 0 [.createdir 1 5, .createfile 2 6 none] ⟨?_, ?_, trivial⟩
  · obtain ⟨s, hs, hall⟩ := hrun
    refine ⟨s, hs, hall 2 ?_ true s.allocated.card le_rfl, ?_⟩
    · cases hs
      exact Option.some_ne_none _
    · cases hs
      rfl
  · refine ⟨trivial, fun s hs => ?_⟩
    cases hs
    exact ⟨by decide, by decide, by decide, _, _, _, _, rfl, rfl, rfl, rfl⟩
  · refine ⟨trivial, fun s hs => ?_⟩
    cases hs
    exact ⟨by decide, by decide, by decide, _, _, _, _, rfl, rfl, rfl, rfl⟩

/-- Two files in the root: when one is removed, the tables of the root change. -/
theorem fsRemoveitem_changes_directory :
    Guarded fsStep CreateAllowed (Fs.fsCreate 0) [.createfile 1 7 none, .createfile 1 8 none] ∧
    ∃ s, runFrom fsStep (Fs.fsCreate 0) [.createfile 1 7 none, .createfile 1 8 none] = some s ∧
      s.files 1 ≠ none ∧ ¬ Fs.RemovesChain Fs.OthersUnchanged false s.allocated.card s 1 := by
  refine ⟨⟨⟨trivial, fun s hs => ?_⟩, ⟨trivial, fun s hs => ?_⟩, trivial⟩, _, rfl, ?_, ?_⟩
  · cases hs
    exact ⟨by decide, by decide, by decide, _, _, _, _, rfl, rfl, rfl, rfl⟩
  · cases hs
    exact ⟨by decide, by decide, by decide, _, _, _, _, rfl, rfl, rfl, rfl⟩
  · exact Option.some_ne_none _
  · rintro ⟨-, hremoves⟩
    have hleaf := hremoves ?_
    · obtain ⟨s', hs', -, hframe⟩ := hleaf
      have hroot := hframe.other 0 (by decide)
      cases hs'
      cases hroot
    · rintro ⟨f, a, b, hf, hdata, -⟩
      cases hf
      cases hdata

end SymbiOS.Kld
