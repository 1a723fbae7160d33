import SymbiOS.KldRequests

/-!
# Creating a name that exists

`dir_add` refuses an inode or a name that a directory has already, but `fsCreatedir`
and `fsCreatefile` do not look at its answer: they return a new item that no directory
lists. As long as no call names an existing entry, every item is listed where it
belongs, also through removals.
-/
namespace SymbiOS.Kld
open SymbiOS.GuardedRun

variable {Name : Type}

/-- The call creates in a directory; only the setup creates one that is in none. -/
def FsCall.InDirectory : FsCall Name → Prop
  | .createdir parentino _ => parentino ≠ INVALID_INO
  | _ => True

namespace Fs

variable [DecidableEq Name] {s s' : Fs Name}

/-- The inode is a directory that has an entry of this name. -/
def HasName (s : Fs Name) (dirino : ℕ) (name : Name) : Prop :=
  ∃ id d a b, s.directoryOf dirino = some (id, d, a, b) ∧ s.findName b name ≠ none

/-- The call creates a name that its directory has. -/
def NamesExisting (s : Fs Name) : FsCall Name → Prop
  | .createdir parentino name => s.HasName parentino name
  | .createfile dirino name _ => s.HasName dirino name
  | .removeitem _ _ => False

/-- What a create call hands to its caller. The pointer comes from `malloc`; NULL would
be `none`. -/
def createResult (s : Fs Name) : FsCall Name → Option (Fs Name × Option ℕ)
  | .createdir parentino name => (s.fsCreatedir parentino name).map fun r => (r.1, some r.2)
  | .createfile dirino name symlink =>
      (s.fsCreatefile dirino name symlink).map fun r => (r.1, some r.2)
  | .removeitem _ _ => none

/-- NULL is returned, with the table, the free list and the directories as they were. -/
def FailsCleanly (s : Fs Name) (call : FsCall Name) : Prop :=
  ∃ s', s.createResult call = some (s', none) ∧ SameTable s s' ∧ s'.directoryOf = s.directoryOf

/-- Every inode in use, except 0 and the root, is found under its own name and number in
both tables of its parent directory. -/
def AllListed (s : Fs Name) : Prop :=
  ∀ i ∈ s.allocated, i ≠ INVALID_INO → i ≠ ROOT_INO →
    ∃ id f p d a b, s.file i = some id ∧ s.files id = some f ∧ f.ino = i ∧
      s.directoryOf f.dir = some (p, d, a, b) ∧
      s.findIno a i = some id ∧ s.findName b f.name = some id

/-- No create call returns NULL. -/
lemma not_failsCleanly (s : Fs Name) (call : FsCall Name) : ¬ s.FailsCleanly call := by
  rintro ⟨s', hs', -⟩
  cases call with
  | createdir | createfile =>
    obtain ⟨r, -, hr⟩ := Option.map_eq_some_iff.mp hs'
    cases hr
  | removeitem => cases hs'

lemma Tree.allListed (h : s.Tree) : s.AllListed := by
  intro i hi hne hroot
  obtain ⟨id, f, hf, rfl⟩ := h.used i hi hne
  obtain ⟨-, p, d, a, b, hd, hino, hdata, hmem⟩ := h.parent id f hf hroot
  obtain rfl := (h.entries p d a b hd hdata).1
  refine ⟨id, f, p, d, b, b, (h.own id f hf).2.2, hf, rfl, ?_, ?_, ?_⟩
  · rw [← hino]
    exact h.directoryOf_eq hd hdata
  · exact h.findIno_eq hf hd hdata hmem
  · exact h.findName_eq hf hd hdata hmem

/-- The next inode to be handed out still points to a file. -/
def HeadStale (s : Fs Name) : Prop := ∃ i, s.inoFreelist = some i ∧ s.file i ≠ none

/-- A removal keeps the tree, and leaves a stale inode at the head of the list. -/
lemma Tree.removeOne_step (h : s.Tree) {item : ℕ} {r : Fs Name × Bool × Option ℕ}
    (hr : s.removeOne item = some r) : r.1.Tree ∧ (r.1 = s ∨ r.1.HeadStale) := by
  rcases removeOne_cases hr with ⟨-, rfl⟩ | ⟨hleaf, f, hf, -⟩
  · exact ⟨h, .inl rfl⟩
  · obtain ⟨s', emptied, hs', htree, -⟩ := h.removeOne hf hleaf
    obtain rfl : r = (s', true, emptied) := Option.some.inj (hr.symm.trans hs')
    refine ⟨htree, ?_⟩
    rcases removal_of_removeOne h.reserved.2 hr with hsame | ⟨g, hg, hremoval⟩
    · exact .inl hsame
    · refine .inr ⟨g.ino, hremoval.table.inoFreelist, ?_⟩
      rw [hremoval.table.file, file_putBack, (h.own item g hg).2.2]
      simp

lemma Tree.fsRemoveitem_step (h : s.Tree) {purge : Bool} {fuel item : ℕ} {r : Fs Name × Bool}
    (hr : Fs.fsRemoveitem purge fuel s item = some r) :
    r.1.Tree ∧ (r.1 = s ∨ r.1.HeadStale) := by
  apply fsRemoveitem_invariant (P := fun t => t.Tree ∧ (t = s ∨ t.HeadStale)) _ hr ⟨h, .inl rfl⟩
  intro t item q ⟨htree, ht⟩ hq
  obtain ⟨htree', hsame | hstale⟩ := htree.removeOne_step hq
  · rw [hsame]
    exact ⟨htree, ht⟩
  · exact ⟨htree', .inr hstale⟩

omit [DecidableEq Name] in
lemma Tree.made (h : s.Tree) : s.inoNum ≠ 0 := by
  have hlt := h.inside INVALID_INO h.reserved.1
  omega

omit [DecidableEq Name] in
/-- Free inodes point to nothing, so an inode with a file is in use. -/
lemma Inv.mem_allocated (h : s.Inv) {i id : ℕ} (hi : i < s.inoNum) (hfile : s.file i = some id) :
    i ∈ s.allocated := by
  obtain ⟨free, -, -, hmem, -, hnull⟩ := h.consistent
  by_contra hnot
  have hnone := hnull i ((hmem i).mpr ⟨hi, hnot⟩)
  rw [hfile] at hnone
  cases hnone

/-- A new name that is really created met all conditions of the call. -/
lemma Inv.allowed_of_createIn (h : s.Inv) {i dirino : ℕ} {name : Name} {data : FileData Name}
    {r : Fs Name × ℕ} (hpos : 0 < s.inoNumfree) (hdir : dirino ≠ INVALID_INO)
    (hnew : ¬ s.HasName dirino name)
    (hr : (s.takeFree i).createIn i dirino name data = some r) :
    s.allocated.card < s.inoNum ∧ s.LiveDir dirino name := by
  have hcard := h.table.numfree_add_card
  obtain ⟨id, d, a, b, hdirectory, -⟩ := createIn_inv hr
  obtain ⟨hlt, -, hfile, hd, hdata⟩ := directoryOf_inv hdirectory
  rw [file_takeFree] at hfile
  have hin := h.mem_allocated hlt hfile
  have hsame : s.directoryOf dirino = some (id, d, a, b) := h.directoryOf_eq hin hfile hd hdata
  refine ⟨by omega, hdir, hin, id, d, a, b, hfile, hd, hdata, ?_⟩
  by_contra hname
  exact hnew ⟨id, d, a, b, hsame, hname⟩

/-- What keeps every item listed: nothing has been removed yet, or nothing can be created
any more. -/
def Listed (s : Fs Name) : Prop := s.Built ∨ s.Tree ∧ s.HeadStale

omit [DecidableEq Name] in
lemma Listed.tree (h : s.Listed) : s.Tree := by
  rcases h with hbuilt | ⟨htree, -⟩
  · exact hbuilt.tree
  · exact htree

omit [DecidableEq Name] in
/-- While the head of the list points to nothing, nothing has been removed yet. -/
lemma Listed.built (h : s.Listed) {i : ℕ} (hi : s.inoFreelist = some i) (hfile : s.file i = none) :
    s.Built := by
  rcases h with hbuilt | ⟨-, j, hj, hstale⟩
  · exact hbuilt
  · obtain rfl : i = j := Option.some.inj (hi.symm.trans hj)
    exact absurd hfile hstale

/-- One call that names no existing entry. -/
lemma Listed.step (h : s.Listed) {call : FsCall Name} (hdir : call.InDirectory)
    (hnew : ¬ s.NamesExisting call) (hs : s.step call = some s') : s'.Listed := by
  cases call with
  | createdir parentino name =>
    have hs' := hs
    obtain ⟨r, hr, rfl⟩ := Option.map_eq_some_iff.mp hs
    obtain ⟨ino, hhead, hfile, hpos, ⟨hroot, -⟩ | ⟨-, hr⟩⟩ := fsCreatedir_inv h.tree.made hr
    · exact absurd hroot hdir
    · have hbuilt := h.built hhead hfile
      have hcreates : (FsCall.createdir parentino name).Creates := trivial
      have hallowed := hbuilt.inv.allowed_of_createIn hpos hdir hnew hr
      obtain ⟨s₁, hs₁, hbuilt₁⟩ := hbuilt.step hcreates hallowed
      obtain rfl := Option.some.inj (hs'.symm.trans hs₁)
      exact .inl hbuilt₁
  | createfile dirino name symlink =>
    have hs' := hs
    obtain ⟨r, hr, rfl⟩ := Option.map_eq_some_iff.mp hs
    obtain ⟨ino, hhead, hfile, hpos, hroot, hr⟩ := fsCreatefile_inv h.tree.made hr
    have hbuilt := h.built hhead hfile
    have hcreates : (FsCall.createfile dirino name symlink).Creates := trivial
    have hallowed := hbuilt.inv.allowed_of_createIn hpos hroot hnew hr
    obtain ⟨s₁, hs₁, hbuilt₁⟩ := hbuilt.step hcreates hallowed
    obtain rfl := Option.some.inj (hs'.symm.trans hs₁)
    exact .inl hbuilt₁
  | removeitem item purge =>
    obtain ⟨r, hr, rfl⟩ := Option.map_eq_some_iff.mp hs
    obtain ⟨htree, hsame | hstale⟩ := h.tree.fsRemoveitem_step hr
    · rw [hsame]
      exact h
    · exact .inr ⟨htree, hstale⟩

end Fs

section Runs

variable [DecidableEq Name]

/-- The next call creates no name that is there already. -/
def NewNames (st : Option (Fs Name)) (call : FsCall Name) : Prop :=
  ∀ s, st = some s → ¬ s.NamesExisting call

/-- A create call for an existing name fails cleanly, wherever it stands in the run, and
every item is listed in every state on the way. -/
structure ExistingRefused (dot : Name) (calls : List (FsCall Name)) : Prop where
  refused : ∀ before call, before ++ [call] <+: calls → ∀ s,
    runFrom fsStep (Fs.fsCreate dot) before = some s → s.NamesExisting call → s.FailsCleanly call
  listed : ∀ before, before <+: calls → ∀ s,
    runFrom fsStep (Fs.fsCreate dot) before = some s → s.AllListed

/-- Existing names are refused as they should be, and all items are listed, exactly where
no call of the run creates a name that its directory has. -/
theorem existingRefused_iff (dot : Name) (calls : List (FsCall Name))
    (hdir : ∀ call ∈ calls, call.InDirectory) :
    ExistingRefused dot calls ↔ Guarded fsStep NewNames (Fs.fsCreate dot) calls := by
  constructor
  · intro h
    rw [guarded_iff_forall_step]
    intro before call hpre s hs hnames
    exact s.not_failsCleanly call (h.refused before call hpre s hs hnames)
  · intro h
    constructor
    · intro before call hpre s hs hnames
      exact absurd hnames (guarded_iff_forall_step.mp h before call hpre s hs)
    · intro before hpre s hs
      have hguarded : Guarded fsStep (fun st call => NewNames st call ∧ call.InDirectory)
          (Fs.fsCreate dot) calls := by
        rw [guarded_iff_forall_step]
        intro pre call hpre
        have hmem : call ∈ calls := hpre.subset (by simp)
        exact ⟨guarded_iff_forall_step.mp h pre call hpre, hdir call hmem⟩
      have hlisted : ∀ t, runFrom fsStep (Fs.fsCreate dot) before = some t → t.Listed := by
        apply hguarded.invariant_prefix (I := fun st => ∀ t, st = some t → t.Listed) _ _ hpre
        · rintro st call hst ⟨hnew, hin⟩ t ht
          obtain ⟨s₁, hs₁, hstep⟩ := Option.bind_eq_some_iff.mp ht
          exact (hst s₁ hs₁).step hin (hnew s₁ hs₁) hstep
        · intro t ht
          rw [Fs.fsCreate_eq, Option.some.injEq] at ht
          rw [← ht]
          exact .inl (Fs.built_created dot)
      exact (hlisted s hs).tree.allListed

/-- Two files of different names in the root, and one of them removed. -/
theorem existingRefused_two_files :
    ExistingRefused 0 [.createfile 1 7 none, .createfile 1 8 none, .removeitem 2 false] := by
  apply (existingRefused_iff 0 [.createfile 1 7 none, .createfile 1 8 none, .removeitem 2 false]
    (by simp [FsCall.InDirectory])).mpr
  refine ⟨fun s hs => ?_, fun s hs => ?_, fun s hs => ?_, trivial⟩
  · cases hs
    rintro ⟨id, d, a, b, hdir, hname⟩
    cases hdir
    exact hname rfl
  · cases hs
    rintro ⟨id, d, a, b, hdir, hname⟩
    cases hdir
    exact hname rfl
  · exact id

/-- The second of two files of one name is returned, and is listed nowhere. -/
theorem existing_name_accepted :
    ¬ ExistingRefused 0 [.createfile 1 7 none, .createfile 1 7 none] ∧
    ∃ s, runFrom fsStep (Fs.fsCreate 0) [.createfile 1 7 none, .createfile 1 7 none] = some s ∧
      ¬ s.AllListed := by
  constructor
  · intro h
    have hnames : ∀ s, runFrom fsStep (Fs.fsCreate 0) [.createfile 1 7 none] = some s →
        s.NamesExisting (.createfile 1 7 none) := by
      intro s hs
      cases hs
      exact ⟨_, _, _, _, rfl, by decide⟩
    exact Fs.not_failsCleanly _ _
      (h.refused [.createfile 1 7 none] (.createfile 1 7 none) (List.prefix_refl _) _ rfl
        (hnames _ rfl))
  · refine ⟨_, rfl, fun hlisted => ?_⟩
    obtain ⟨id, f, p, d, a, b, hfile, hf, -, hdir, hino, -⟩ :=
      hlisted 3 (by decide) (by decide) (by decide)
    cases hfile
    cases hf
    cases hdir
    cases hino

end Runs

end SymbiOS.Kld
