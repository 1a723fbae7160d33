import SymbiOS.KldRequests

/-!
# The two indexes of a directory

A directory keeps its items in one table by inode and in another by name. `dir_add` looks
the item up in both before it enters it in both, and `fsRemoveitem` takes it out of both.
The two tables hold the same items in every state that calls reach, so the assertions that
compare their sizes decide nothing.
-/
namespace SymbiOS.Kld
open SymbiOS.GuardedRun

variable {Name : Type}

namespace Fs

/-- Two tables of one directory: the same live items, each of them once, and no two of
them with one inode or one name. -/
structure SameItems (s : Fs Name) (inoFiles nmFiles : List ℕ) : Prop where
  same : ∀ x, x ∈ inoFiles ↔ x ∈ nmFiles
  nodup : inoFiles.Nodup ∧ nmFiles.Nodup
  live : ∀ x ∈ inoFiles, ∃ f, s.files x = some f
  unique : ∀ x ∈ inoFiles, ∀ y ∈ inoFiles, ∀ f g, s.files x = some f → s.files y = some g →
    f.ino = g.ino ∨ f.name = g.name → x = y

/-- The tables of every directory that has not been freed. -/
def IndexesAgree (s : Fs Name) : Prop :=
  ∀ p d a b, s.files p = some d → d.data = .directory a b → s.SameItems a b

section Uncounted

variable [DecidableEq Name]

/-- `detach` without the assertions that the tables are equally large. -/
def detachUncounted (s : Fs Name) (item : ℕ) (f : File Name) : Option (Fs Name × Option ℕ) := do
  let (id, d, inoFiles, nmFiles) ← s.directoryOf f.dir
  if inoFiles.length = 0 then none
  else if s.findIno inoFiles f.ino ≠ some item then none
  else if s.findName nmFiles f.name ≠ some item then none
  else
    let s ← (s.setFile id (some { d with
      data := .directory (inoFiles.erase item) (nmFiles.erase item) })).release item f
    some (s, if (inoFiles.erase item).length = 0 then some id else none)

/-- `removeOne` without them. -/
def removeOneUncounted (s : Fs Name) (item : ℕ) : Option (Fs Name × Bool × Option ℕ) := do
  let f ← s.files item
  match f.data with
  | .directory inoFiles _ =>
      if inoFiles.length ≠ 0 then some (s, false, none)
      else if f.ino ≠ ROOT_INO then (s.detachUncounted item f).map fun r => (r.1, true, r.2)
      else if f.dir ≠ INVALID_INO then none
      else (s.release item f).map fun s => (s, true, none)
  | _ =>
      if f.ino = ROOT_INO ∨ f.dir = INVALID_INO then none
      else (s.detachUncounted item f).map fun r => (r.1, true, r.2)

/-- `fsRemoveitem` without them. -/
def fsRemoveitemUncounted (purgeemptydir : Bool) : ℕ → Fs Name → ℕ → Option (Fs Name × Bool)
  | 0, s, item => (s.removeOneUncounted item).map fun r => (r.1, r.2.1)
  | fuel + 1, s, item => do
      let (s, removed, emptied) ← s.removeOneUncounted item
      match emptied with
      | none => some (s, removed)
      | some dir =>
          if purgeemptydir then
            (fsRemoveitemUncounted purgeemptydir fuel s dir).map fun r => (r.1, removed)
          else some (s, removed)

end Uncounted

/-- No two items of a table have one name. -/
def NamesDiffer (s : Fs Name) (table : List ℕ) : Prop :=
  ∀ x ∈ table, ∀ y ∈ table, ∀ f g, s.files x = some f → s.files y = some g →
    f.name = g.name → x = y

/-- What every call keeps: both tables are filled and emptied alike. -/
structure Indexed (s : Fs Name) : Prop extends Heap s where
  alike : ∀ p d a b, s.files p = some d → d.data = .directory a b → a = b
  names : ∀ p d a b, s.files p = some d → d.data = .directory a b → s.NamesDiffer b

variable {s s' : Fs Name}

lemma Indexed.indexesAgree (h : s.Indexed) : s.IndexesAgree := by
  intro p d a b hd hda
  obtain rfl := h.alike p d a b hd hda
  obtain ⟨hnodup, hall⟩ := h.entries p d a a hd hda
  refine ⟨fun x => Iff.rfl, ⟨hnodup, hnodup⟩, fun x hx => ?_, fun x hx y hy f g hf hg hsame => ?_⟩
  · obtain ⟨f, hf, -⟩ := hall x hx
    exact ⟨f, hf⟩
  · rcases hsame with hino | hname
    · have hptr := (h.own x f hf).2
      rw [hino, (h.own y g hg).2, Option.some.injEq] at hptr
      exact hptr.symm
    · exact h.names p d a a hd hda x hx y hy f g hf hg hname

/-- What a creation does to the tables: those of a new directory are alike, and a directory
that lists the new item had none of its name. -/
structure Entered (s s' : Fs Name) : Prop where
  new : ∀ f a b, s'.files s.nextFile = some f → f.data = .directory a b → a = b
  unused : ∀ p d a b f, s.files p = some d → d.data = .directory a b →
    s'.files s.nextFile = some f →
    s'.files p = s.files p ∨ ∀ x ∈ b, ∀ g, s.files x = some g → g.name ≠ f.name

/-- An item other than the new one had its name before. -/
lemma Creation.name_eq {ino dirino id : ℕ} {g : File Name} (hc : Creation s ino dirino s')
    (hid : id ≠ s.nextFile) (hg : s'.files id = some g) :
    ∃ f, s.files id = some f ∧ f.name = g.name := by
  rcases hc.old id hid with hsame | ⟨-, d, a, b, hd, -, hnew⟩
  · exact ⟨g, hsame ▸ hg, rfl⟩
  · rw [hg, Option.some.injEq] at hnew
    exact ⟨d, hd, by rw [hnew]⟩

/-- Entries are older than the item that is created next. -/
lemma Heap.entry_ne_nextFile (h : s.Heap) {p x : ℕ} {d : File Name} {a b : List ℕ}
    (hd : s.files p = some d) (hda : d.data = .directory a b) (hx : x ∈ a) :
    x ≠ s.nextFile := by
  obtain ⟨f, hf, -⟩ := (h.entries p d a b hd hda).2 x hx
  exact (h.lt_nextFile hf).ne

lemma NamesDiffer.creation {ino dirino : ℕ} {b : List ℕ} (h : s.NamesDiffer b)
    (hc : Creation s ino dirino s') (hold : ∀ x ∈ b, x ≠ s.nextFile) : s'.NamesDiffer b := by
  intro x hx y hy f g hf hg hname
  obtain ⟨f₀, hf₀, hfname⟩ := hc.name_eq (hold x hx) hf
  obtain ⟨g₀, hg₀, hgname⟩ := hc.name_eq (hold y hy) hg
  exact h x hx y hy f₀ g₀ hf₀ hg₀ (by rw [hfname, hgname, hname])

/-- The new item has a name that no entry had. -/
lemma NamesDiffer.cons {ino dirino : ℕ} {b : List ℕ} {f : File Name} (h : s.NamesDiffer b)
    (hc : Creation s ino dirino s') (hold : ∀ x ∈ b, x ≠ s.nextFile)
    (hnew : s'.files s.nextFile = some f)
    (hunused : ∀ x ∈ b, ∀ g, s.files x = some g → g.name ≠ f.name) :
    s'.NamesDiffer (s.nextFile :: b) := by
  have hother : ∀ y ∈ b, ∀ g, s'.files y = some g → g.name ≠ f.name := by
    intro y hy g hg
    obtain ⟨g₀, hg₀, hname⟩ := hc.name_eq (hold y hy) hg
    rw [← hname]
    exact hunused y hy g₀ hg₀
  intro x hx y hy e g he hg hname
  rcases List.mem_cons.mp hx with rfl | hx
  · obtain rfl : f = e := Option.some.inj (hnew.symm.trans he)
    rcases List.mem_cons.mp hy with rfl | hy
    · rfl
    · exact absurd hname.symm (hother y hy g hg)
  · rcases List.mem_cons.mp hy with rfl | hy
    · obtain rfl : f = g := Option.some.inj (hnew.symm.trans hg)
      exact absurd hname (hother x hx e he)
    · exact h.creation hc hold x hx y hy e g he hg hname

/-- The directories after a creation. -/
lemma Indexed.tables_creation (h : s.Indexed) {ino dirino : ℕ} (hc : Creation s ino dirino s')
    (he : Entered s s') {p : ℕ} {d : File Name} {a b : List ℕ} (hd : s'.files p = some d)
    (hda : d.data = .directory a b) : a = b ∧ s'.NamesDiffer b := by
  obtain ⟨name, data, hnew, hempty⟩ := hc.new
  by_cases hp : p = s.nextFile
  · subst hp
    obtain rfl := he.new d a b hd hda
    rw [hnew, Option.some.injEq] at hd
    have ha : a = [] := hempty a a (by rw [← hda, ← hd])
    subst ha
    exact ⟨rfl, fun x hx => absurd hx List.not_mem_nil⟩
  · rcases hc.old p hp with hsame | ⟨-, e, a₀, b₀, hold, hea, hlisted⟩
    · rw [hsame] at hd
      obtain rfl := h.alike p d a b hd hda
      have hne : ∀ x ∈ a, x ≠ s.nextFile := fun x hx => h.entry_ne_nextFile hd hda hx
      exact ⟨rfl, (h.names p d a a hd hda).creation hc hne⟩
    · obtain rfl := h.alike p e a₀ b₀ hold hea
      have hne : ∀ x ∈ a₀, x ≠ s.nextFile := fun x hx => h.entry_ne_nextFile hold hea hx
      rw [hlisted, Option.some.injEq] at hd
      rw [← hd, FileData.directory.injEq] at hda
      obtain ⟨rfl, rfl⟩ := hda
      refine ⟨rfl, (h.names p e a₀ a₀ hold hea).cons hc hne hnew ?_⟩
      rcases he.unused p e a₀ a₀ _ hold hea hnew with hsame | hunused
      · -- a directory that lists the new item is not as it was
        rw [hlisted, hold, Option.some.injEq] at hsame
        rw [← hsame, FileData.directory.injEq] at hea
        exact absurd hea.1 (List.cons_ne_self _ _)
      · exact hunused

lemma Indexed.creation (h : s.Indexed) {ino dirino : ℕ} (hc : Creation s ino dirino s')
    (he : Entered s s') : s'.Indexed := by
  constructor
  · exact h.toHeap.creation hc
  · intro p d a b hd hda
    exact (h.tables_creation hc he hd hda).1
  · intro p d a b hd hda
    exact (h.tables_creation hc he hd hda).2

section Calls

variable [DecidableEq Name]

/-- `dir_add` changes nothing where the directory has the name. -/
lemma dirAdd_unused (s : Fs Name) (id : ℕ) (d : File Name) (a b : List ℕ) (item : ℕ)
    (f : File Name) : s.dirAdd id d a b item f = s ∨
      ∀ x ∈ b, ∀ g, s.files x = some g → g.name ≠ f.name := by
  unfold dirAdd
  split_ifs with hino hname
  · exact .inl rfl
  · exact .inl rfl
  · right
    intro x hx g hg heq
    rw [Bool.not_eq_true, Option.isSome_eq_false_iff, Option.isNone_iff_eq_none, findName,
      List.find?_eq_none] at hname
    have hno := hname x hx
    simp [hg, heq] at hno

lemma entered_of_createIn {ino dirino : ℕ} {name : Name} {data : FileData Name}
    {r : Fs Name × ℕ} (hfresh : s.files s.nextFile = none)
    (hdata : ∀ a b, data = .directory a b → a = b)
    (h : (s.takeFree ino).createIn ino dirino name data = some r) : Entered s r.1 := by
  let item : File Name := ⟨name, ino, dirino, data⟩
  let t : Fs Name := ((s.takeFree ino).newFile item).1
  obtain ⟨q, e, a₁, b₁, hdir, hr⟩ := createIn_inv h
  obtain ⟨-, -, -, he, hea⟩ := directoryOf_inv hdir
  obtain ⟨-, -, hfiles⟩ := dirAdd_spec t q e a₁ b₁ s.nextFile item
  have hne : ∀ x g, s.files x = some g → x ≠ s.nextFile := by
    intro x g hg hx
    rw [hx, hfresh] at hg
    cases hg
  have hnew : r.1.files s.nextFile = some item := by
    rw [hr]
    rcases hfiles s.nextFile with hsame | ⟨hq, -⟩
    · exact hsame.trans (files_newFile_self (s.takeFree ino) item)
    · exact absurd hq.symm (hne q e he)
  refine ⟨fun f a b hf hfa => ?_, fun p d a b f hd hda hf => ?_⟩
  · obtain rfl : item = f := Option.some.inj (hnew.symm.trans hf)
    exact hdata a b hfa
  · obtain rfl : item = f := Option.some.inj (hnew.symm.trans hf)
    have hkept : t.files p = s.files p := files_newFile (s.takeFree ino) item (hne p d hd)
    rw [hr]
    rcases dirAdd_unused t q e a₁ b₁ s.nextFile item with hsame | hunused
    · left
      show (t.dirAdd q e a₁ b₁ s.nextFile item).files p = s.files p
      rw [hsame, hkept]
    · rcases hfiles p with hsame | ⟨rfl, -⟩
      · exact .inl (hsame.trans hkept)
      · right
        obtain rfl : d = e := Option.some.inj (hd.symm.trans he)
        rw [hda, FileData.directory.injEq] at hea
        intro x hx g hg
        apply hunused x (hea.2 ▸ hx) g
        exact (files_newFile (s.takeFree ino) item (hne x g hg)).trans hg

omit [DecidableEq Name] in
lemma entered_of_newFile {ino dirino : ℕ} {name : Name} {data : FileData Name}
    (hfresh : s.files s.nextFile = none) (hdata : ∀ a b, data = .directory a b → a = b) :
    Entered s
      ((((s.takeFree ino).newFile ⟨name, ino, dirino, data⟩).1).setFileOf ino s.nextFile) := by
  constructor
  · intro f a b hf hfa
    obtain rfl := Option.some.inj ((files_newFile_self (s.takeFree ino) _).symm.trans hf)
    exact hdata a b hfa
  · intro p d a b f hd hda hf
    left
    apply files_newFile (s.takeFree ino)
    intro hp
    rw [show p = s.nextFile from hp, hfresh] at hd
    cases hd

lemma Indexed.fsCreatedir (h : s.Indexed) {parentino : ℕ} {name : Name} {r : Fs Name × ℕ}
    (hr : s.fsCreatedir parentino name = some r) : r.1.Indexed := by
  have hdata : ∀ a b, FileData.directory [] [] = (.directory a b : FileData Name) → a = b := by
    intro a b hab
    obtain ⟨rfl, rfl⟩ := empty_of_directory_nil hab
    rfl
  obtain ⟨ino, hc⟩ := creation_of_fsCreatedir h.made h.fresh hr
  apply h.creation hc
  obtain ⟨ino', -, -, -, ⟨-, hnew⟩ | ⟨-, hin⟩⟩ := fsCreatedir_inv h.made hr
  · rw [hnew]
    exact entered_of_newFile h.fresh hdata
  · exact entered_of_createIn h.fresh hdata hin

lemma Indexed.fsCreatefile (h : s.Indexed) {dirino : ℕ} {name : Name} {symlink : Option Name}
    {r : Fs Name × ℕ} (hr : s.fsCreatefile dirino name symlink = some r) : r.1.Indexed := by
  obtain ⟨ino, hc⟩ := creation_of_fsCreatefile h.made h.fresh hr
  apply h.creation hc
  obtain ⟨ino', -, -, -, -, hin⟩ := fsCreatefile_inv h.made hr
  apply entered_of_createIn h.fresh _ hin
  intro a b hab
  exact absurd hab (newData_ne_directory symlink a b)

end Calls

@[simp] lemma drop_name (item : ℕ) (f : File Name) : (f.drop item).name = f.name := by
  unfold File.drop
  split <;> rfl

lemma Removal.name_eq {item id : ℕ} {f g : File Name} (hr : Removal s item f s')
    (hg : s'.files id = some g) : ∃ g₀, s.files id = some g₀ ∧ g₀.name = g.name := by
  obtain ⟨-, g₀, hg₀, ⟨-, rfl⟩ | ⟨-, rfl⟩⟩ := hr.old_of_new hg
  · exact ⟨g₀, hg₀, (drop_name item g₀).symm⟩
  · exact ⟨g, hg₀, rfl⟩

/-- A table that is left with some of its items. -/
lemma NamesDiffer.removal {item : ℕ} {f : File Name} {b b' : List ℕ} (h : s.NamesDiffer b)
    (hr : Removal s item f s') (hsub : b' ⊆ b) : s'.NamesDiffer b' := by
  intro x hx y hy g₁ g₂ hg₁ hg₂ hname
  obtain ⟨f₁, hf₁, hname₁⟩ := hr.name_eq hg₁
  obtain ⟨f₂, hf₂, hname₂⟩ := hr.name_eq hg₂
  exact h x (hsub hx) y (hsub hy) f₁ f₂ hf₁ hf₂ (by rw [hname₁, hname₂, hname])

/-- The directories after a removal. -/
lemma Indexed.tables_removal (h : s.Indexed) {item : ℕ} {f : File Name}
    (hr : Removal s item f s') {p : ℕ} {d : File Name} {a b : List ℕ}
    (hd : s'.files p = some d) (hda : d.data = .directory a b) : a = b ∧ s'.NamesDiffer b := by
  obtain ⟨-, e, he, ⟨-, rfl⟩ | ⟨-, rfl⟩⟩ := hr.old_of_new hd
  · cases hea : e.data with
    | directory a₀ b₀ =>
      obtain rfl := h.alike p e a₀ b₀ he hea
      simp only [File.drop, hea, FileData.directory.injEq] at hda
      obtain ⟨rfl, rfl⟩ := hda
      exact ⟨rfl, (h.names p e a₀ a₀ he hea).removal hr List.erase_subset⟩
    | regular => simp [File.drop, hea] at hda
    | symlink target => simp [File.drop, hea] at hda
  · exact ⟨h.alike p d a b he hda,
      (h.names p d a b he hda).removal hr (List.Subset.refl b)⟩

lemma Indexed.removal (h : s.Indexed) {item : ℕ} {f : File Name} (hf : s.files item = some f)
    (hr : Removal s item f s') : s'.Indexed := by
  constructor
  · exact h.toHeap.removal hf hr
  · intro p d a b hd hda
    exact (h.tables_removal hr hd hda).1
  · intro p d a b hd hda
    exact (h.tables_removal hr hd hda).2

variable [DecidableEq Name]

lemma Indexed.removeOne (h : s.Indexed) {item : ℕ} {r : Fs Name × Bool × Option ℕ}
    (hr : s.removeOne item = some r) : r.1.Indexed := by
  rcases removal_of_removeOne h.reserved.2 hr with hsame | ⟨f, hf, hremoval⟩
  · rw [hsame]
    exact h
  · exact h.removal hf hremoval

lemma Indexed.detach_eq (h : s.Indexed) (item : ℕ) (f : File Name) :
    s.detach item f = s.detachUncounted item f := by
  unfold detach detachUncounted
  cases hdir : s.directoryOf f.dir with
  | none => rfl
  | some q =>
    obtain ⟨p, d, a, b⟩ := q
    obtain ⟨-, -, -, hd, hda⟩ := directoryOf_inv hdir
    obtain rfl := h.alike p d a b hd hda
    simp only [Option.bind_eq_bind, Option.bind_some, ne_eq, not_true_eq_false, false_or,
      if_false]

lemma Indexed.removeOne_eq (h : s.Indexed) (item : ℕ) :
    s.removeOne item = s.removeOneUncounted item := by
  unfold Fs.removeOne removeOneUncounted
  cases hf : s.files item with
  | none => rfl
  | some f =>
    simp only [Option.bind_eq_bind, Option.bind_some]
    cases hda : f.data with
    | directory a b =>
      obtain rfl := h.alike item f a b hf hda
      simp only [ne_eq, not_true_eq_false, if_false, h.detach_eq item f]
    | regular | symlink => simp only [h.detach_eq item f]

/-- In every purge, at every level. -/
lemma Indexed.fsRemoveitem_eq (h : s.Indexed) (purge : Bool) (fuel item : ℕ) :
    fsRemoveitem purge fuel s item = fsRemoveitemUncounted purge fuel s item := by
  induction fuel generalizing s item with
  | zero => rw [fsRemoveitem, fsRemoveitemUncounted, h.removeOne_eq item]
  | succ fuel ih =>
    rw [fsRemoveitem, fsRemoveitemUncounted, ← h.removeOne_eq item]
    cases hq : s.removeOne item with
    | none => rfl
    | some q =>
      obtain ⟨t, removed, emptied⟩ := q
      simp only [Option.bind_eq_bind, Option.bind_some]
      cases emptied with
      | none => rfl
      | some dir => simp only [ih (h.removeOne hq) dir]

/-- Any call, whatever its arguments, also one that `dir_add` refuses. -/
lemma Indexed.step (h : s.Indexed) {call : FsCall Name} (hs : s.step call = some s') :
    s'.Indexed := by
  cases call with
  | createdir parentino name =>
    obtain ⟨r, hr, rfl⟩ := Option.map_eq_some_iff.mp hs
    exact h.fsCreatedir hr
  | createfile dirino name symlink =>
    obtain ⟨r, hr, rfl⟩ := Option.map_eq_some_iff.mp hs
    exact h.fsCreatefile hr
  | removeitem item purge =>
    obtain ⟨r, hr, rfl⟩ := Option.map_eq_some_iff.mp hs
    exact fsRemoveitem_invariant (fun _ _ _ ht hq => ht.removeOne hq) hr h

omit [DecidableEq Name] in
lemma indexed_created (dot : Name) : (created dot).Indexed := by
  refine ⟨heap_created dot, fun p d a b hd hda => ?_, fun p d a b hd hda => ?_⟩
  · exact ((tree_created dot).entries p d a b hd hda).1.symm
  · obtain ⟨-, rfl⟩ := files_created hd
    obtain ⟨-, rfl⟩ := empty_of_directory_nil hda
    exact fun x hx => absurd hx List.not_mem_nil

end Fs

section Runs

variable [DecidableEq Name]

/-- In every state that creations and removals reach without a failed assertion, the two
tables of every directory agree, and the next removal does what it would do without the
assertions on their sizes. -/
theorem indexes_agree (dot : Name) (calls : List (FsCall Name)) (s : Fs Name)
    (h : runFrom fsStep (Fs.fsCreate dot) calls = some s) :
    s.IndexesAgree ∧ ∀ purgeemptydir fuel item,
      Fs.fsRemoveitem purgeemptydir fuel s item =
        Fs.fsRemoveitemUncounted purgeemptydir fuel s item := by
  have hindexed : s.Indexed :=
    run_invariant (Fs.indexed_created dot) (fun _ _ _ hs hcall => hs.step hcall) h
  constructor
  · exact hindexed.indexesAgree
  · exact hindexed.fsRemoveitem_eq

/-- Two files of one name, of which the second is refused, and a third file that is
removed. -/
theorem indexes_agree_after_refusal :
    ∃ s, runFrom fsStep (Fs.fsCreate 0)
        [.createfile 1 7 none, .createfile 1 7 none, .createfile 1 8 none, .removeitem 3 true] =
          some s ∧
      s.IndexesAgree ∧ ∀ purgeemptydir fuel item,
        Fs.fsRemoveitem purgeemptydir fuel s item =
          Fs.fsRemoveitemUncounted purgeemptydir fuel s item :=
  ⟨_, rfl, indexes_agree 0
    [.createfile 1 7 none, .createfile 1 7 none, .createfile 1 8 none, .removeitem 3 true] _ rfl⟩

end Runs

end SymbiOS.Kld
