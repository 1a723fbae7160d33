import SymbiOS.KldGrow

/-!
# Requests on the inode table

The call backs of `fs.c` that FUSE invokes with an inode number. They tell a free
inode by its `next` field. What a file answers with comes from its operations,
which are a parameter. As in the table itself, a failing assertion and a pointer
that leads nowhere end the program: such a request gives `none`.
-/
namespace SymbiOS.Kld
open SymbiOS.FreeList SymbiOS.GuardedRun

variable {Name Stat : Type}

inductive Errno where
  | ENOENT
  deriving Repr, DecidableEq

inductive Reply (Stat : Type) where
  | err (errno : Errno)
  | entry (ino : ℕ) (attr : Stat)
  | attr (stat : Stat)
  | buf (bytes : List UInt8)

/-- The operations of a file that the requests below call. `readdir` may be NULL;
it ends the program, or returns `false`, or replies with some bytes. -/
structure FileOps (Name Stat : Type) where
  stat : Fs Name → File Name → Stat
  readdir : Option (Fs Name → File Name → ℕ → ℕ → Option (Option (List UInt8)))

namespace Fs

def fuseGetattr (ops : File Name → FileOps Name Stat) (s : Fs Name) (ino : ℕ) :
    Option (Reply Stat) :=
  if s.inoNum ≤ ino then none
  else if s.next ino ≠ none then some (.err .ENOENT)
  else do
    let id ← s.file ino
    let f ← s.files id
    some (.attr ((ops f).stat s f))

def fuseLookup [DecidableEq Name] (ops : File Name → FileOps Name Stat) (s : Fs Name)
    (dirino : ℕ) (name : Name) : Option (Reply Stat) :=
  if s.inoNum ≤ dirino then none
  else if s.next dirino ≠ none then some (.err .ENOENT)
  else do
    let did ← s.file dirino
    let d ← s.files did
    match d.data with
    | .directory _ nmFiles =>
        match s.findName nmFiles name with
        | none => some (.err .ENOENT)
        | some id => do
            let f ← s.files id
            some (.entry f.ino ((ops f).stat s f))
    | _ => some (.err .ENOENT)

def fuseReaddir (ops : File Name → FileOps Name Stat) (s : Fs Name) (dirino size off : ℕ) :
    Option (Reply Stat) :=
  if s.inoNum ≤ dirino then none
  else if s.next dirino ≠ none then some (.err .ENOENT)
  else do
    let did ← s.file dirino
    let d ← s.files did
    match d.data with
    | .directory _ _ => do
        let readdir ← (ops d).readdir
        let replied ← readdir s d size off
        match replied with
        | some bytes => some (.buf bytes)
        | none => some (.err .ENOENT)
    | _ => some (.err .ENOENT)

/-- Items own their inodes, a file pointer that leads to an item leads to the item of its
inode, and the entries of a directory are items of it. That pointers are fresh belongs to
the model. -/
structure Heap (s : Fs Name) : Prop extends Table s where
  made : s.inoNum ≠ 0
  reserved : INVALID_INO ∈ s.allocated ∧ s.file INVALID_INO = none
  own : ∀ id f, s.files id = some f → f.ino ∈ s.allocated ∧ s.file f.ino = some id
  pointers : ∀ i id f, s.file i = some id → s.files id = some f → f.ino = i
  bounded : ∀ i id, s.file i = some id → id < s.nextFile
  entries : ∀ p d a b, s.files p = some d → d.data = .directory a b →
    a.Nodup ∧ ∀ c ∈ a, ∃ f, s.files c = some f ∧ f.dir = d.ino

variable {s s' : Fs Name}

/-- An item is created: the head of the free list is its inode, and its directory may list
it. -/
structure Creation (s : Fs Name) (ino dirino : ℕ) (s' : Fs Name) : Prop where
  head : s.inoFreelist = some ino
  table : SameTable ((s.takeFree ino).setFileOf ino s.nextFile) s'
  nextFile : s'.nextFile = s.nextFile + 1
  new : ∃ name data, s'.files s.nextFile = some ⟨name, ino, dirino, data⟩ ∧
    ∀ a b, data = .directory a b → a = []
  old : ∀ id, id ≠ s.nextFile → s'.files id = s.files id ∨
    s.file dirino = some id ∧ ∃ d a b, s.files id = some d ∧ d.data = .directory a b ∧
      s'.files id = some { d with data := .directory (s.nextFile :: a) (s.nextFile :: b) }

end Fs

/-- A directory once an item is out of its two tables. -/
def File.drop (item : ℕ) (f : File Name) : File Name :=
  match f.data with
  | .directory a b => { f with data := .directory (a.erase item) (b.erase item) }
  | _ => f

namespace Fs

variable {s s' : Fs Name}

/-- An item is removed, its inode is put back, and its directory lists it no more. -/
structure Removal (s : Fs Name) (item : ℕ) (f : File Name) (s' : Fs Name) : Prop where
  table : SameTable (s.putBack f.ino) s'
  nextFile : s'.nextFile = s.nextFile
  files : ∀ id, s'.files id = if id = item then none
    else if s.file f.dir = some id then (s.files id).map (·.drop item) else s.files id

lemma inoalloc_inv (hmade : s.inoNum ≠ 0) {r : Fs Name × ℕ} (h : s.inoalloc = some r) :
    ∃ i, s.inoFreelist = some i ∧ s.file i = none ∧ 0 < s.inoNumfree ∧ r = (s.takeFree i, i) := by
  simp only [inoalloc, if_neg hmade] at h
  cases hi : s.inoFreelist with
  | none => simp [hi] at h
  | some i =>
    simp only [hi] at h
    split_ifs at h with hlt hnum hfile
    exact ⟨i, rfl, not_not.mp hfile, by omega, (Option.some.inj h).symm⟩

lemma directoryOf_inv {ino id : ℕ} {d : File Name} {a b : List ℕ}
    (h : s.directoryOf ino = some (id, d, a, b)) :
    ino < s.inoNum ∧ s.next ino = none ∧ s.file ino = some id ∧ s.files id = some d ∧
      d.data = .directory a b := by
  unfold directoryOf at h
  split_ifs at h with hlt hnext
  simp only [Option.bind_eq_bind, Option.bind_eq_some_iff] at h
  obtain ⟨id', hid, d', hd, h⟩ := h
  cases hdata : d'.data with
  | directory a' b' =>
    simp only [hdata, Option.some.injEq, Prod.mk.injEq] at h
    obtain ⟨rfl, rfl, rfl, rfl⟩ := h
    exact ⟨not_le.mp hlt, not_not.mp hnext, hid, hd, hdata⟩
  | regular => simp [hdata] at h
  | symlink target => simp [hdata] at h

variable [DecidableEq Name]

/-- What `dir_add` may change is the directory. -/
lemma dirAdd_spec (s : Fs Name) (id : ℕ) (d : File Name) (a b : List ℕ) (item : ℕ)
    (f : File Name) :
    SameTable s (s.dirAdd id d a b item f) ∧
    (s.dirAdd id d a b item f).nextFile = s.nextFile ∧
    ∀ x, (s.dirAdd id d a b item f).files x = s.files x ∨
      x = id ∧ (s.dirAdd id d a b item f).files x =
        some { d with data := .directory (item :: a) (item :: b) } := by
  unfold dirAdd
  split_ifs
  · exact ⟨⟨rfl, rfl, rfl, rfl, rfl⟩, rfl, fun x => .inl rfl⟩
  · exact ⟨⟨rfl, rfl, rfl, rfl, rfl⟩, rfl, fun x => .inl rfl⟩
  · refine ⟨sameTable_setFile s id _, rfl, fun x => ?_⟩
    by_cases hx : x = id
    · exact .inr ⟨hx, by rw [hx]; exact Function.update_self id _ s.files⟩
    · exact .inl (Function.update_of_ne hx _ _)

omit [DecidableEq Name] in
lemma SameTable.setFileOf (h : SameTable s s') (i id : ℕ) :
    SameTable (s.setFileOf i id) (s'.setFileOf i id) := by
  obtain ⟨htable, hnum, hhead, hfree, halloc⟩ := h
  exact ⟨by simp only [Fs.setFileOf, htable], hnum, hhead, hfree, halloc⟩

omit [DecidableEq Name] in
lemma files_newFile_self (s : Fs Name) (f : File Name) :
    (s.newFile f).1.files s.nextFile = some f := by
  simp [newFile]

omit [DecidableEq Name] in
lemma files_newFile (s : Fs Name) (f : File Name) {id : ℕ} (hid : id ≠ s.nextFile) :
    (s.newFile f).1.files id = s.files id :=
  Function.update_of_ne hid _ _

/-- A create call in a directory: the directory behind the inode, and the state left. -/
lemma createIn_inv {ino dirino : ℕ} {name : Name} {data : FileData Name} {r : Fs Name × ℕ}
    (h : s.createIn ino dirino name data = some r) :
    ∃ p d a b, s.directoryOf dirino = some (p, d, a, b) ∧
      r.1 = ((s.newFile ⟨name, ino, dirino, data⟩).1.dirAdd p d a b s.nextFile
        ⟨name, ino, dirino, data⟩).setFileOf ino s.nextFile := by
  simp only [createIn, Option.bind_eq_bind, Option.bind_eq_some_iff] at h
  obtain ⟨⟨p, d, a, b⟩, hdir, h⟩ := h
  obtain rfl := Option.some.inj h
  exact ⟨p, d, a, b, hdir, rfl⟩

/-- A directory is created in no directory, or in the one that the caller names. -/
lemma fsCreatedir_inv (hmade : s.inoNum ≠ 0) {parentino : ℕ} {name : Name} {r : Fs Name × ℕ}
    (h : s.fsCreatedir parentino name = some r) :
    ∃ ino, s.inoFreelist = some ino ∧ s.file ino = none ∧ 0 < s.inoNumfree ∧
      (parentino = INVALID_INO ∧
        r.1 = (((s.takeFree ino).newFile ⟨name, ino, parentino, .directory [] []⟩).1).setFileOf
          ino s.nextFile ∨
      parentino ≠ INVALID_INO ∧
        (s.takeFree ino).createIn ino parentino name (.directory [] []) = some r) := by
  simp only [fsCreatedir, Option.bind_eq_bind, Option.bind_eq_some_iff] at h
  obtain ⟨q, hq, h⟩ := h
  obtain ⟨ino, hhead, hfile, hpos, rfl⟩ := inoalloc_inv hmade hq
  refine ⟨ino, hhead, hfile, hpos, ?_⟩
  split_ifs at h with hclear hroot
  · obtain rfl := Option.some.inj h
    exact .inl ⟨hroot, rfl⟩
  · exact .inr ⟨hroot, h⟩

lemma fsCreatefile_inv (hmade : s.inoNum ≠ 0) {dirino : ℕ} {name : Name} {symlink : Option Name}
    {r : Fs Name × ℕ} (h : s.fsCreatefile dirino name symlink = some r) :
    ∃ ino, s.inoFreelist = some ino ∧ s.file ino = none ∧ 0 < s.inoNumfree ∧
      dirino ≠ INVALID_INO ∧
      (s.takeFree ino).createIn ino dirino name (newData symlink) = some r := by
  simp only [fsCreatefile, Option.bind_eq_bind, Option.bind_eq_some_iff] at h
  obtain ⟨q, hq, h⟩ := h
  obtain ⟨ino, hhead, hfile, hpos, rfl⟩ := inoalloc_inv hmade hq
  split_ifs at h with hclear hroot
  exact ⟨ino, hhead, hfile, hpos, hroot, h⟩

lemma creation_of_createIn {ino dirino : ℕ} {name : Name} {data : FileData Name}
    {r : Fs Name × ℕ} (hhead : s.inoFreelist = some ino) (hfresh : s.files s.nextFile = none)
    (hdata : ∀ a b, data = .directory a b → a = [])
    (h : (s.takeFree ino).createIn ino dirino name data = some r) :
    Creation s ino dirino r.1 := by
  obtain ⟨p, d, a, b, hdir, hr⟩ := createIn_inv h
  obtain ⟨-, -, hp, hd, hda⟩ := directoryOf_inv hdir
  rw [file_takeFree] at hp
  rw [hr]
  obtain ⟨hsame, hnext, hfiles⟩ :=
    dirAdd_spec ((s.takeFree ino).newFile ⟨name, ino, dirino, data⟩).1 p d a b s.nextFile
      ⟨name, ino, dirino, data⟩
  have hne : s.nextFile ≠ p := by
    intro he
    have hsome : s.files s.nextFile = some d := he ▸ hd
    rw [hfresh] at hsome
    cases hsome
  refine ⟨hhead, ((sameTable_newFile _ _).trans hsame).setFileOf ino s.nextFile, hnext,
    ⟨name, data, ?_, hdata⟩, fun id hid => ?_⟩
  · rcases hfiles s.nextFile with hold | ⟨he, -⟩
    · exact hold.trans (files_newFile_self (s.takeFree ino) _)
    · exact absurd he hne
  · rcases hfiles id with hold | ⟨rfl, hnew⟩
    · exact .inl (hold.trans (files_newFile (s.takeFree ino) _ hid))
    · exact .inr ⟨hp, d, a, b, hd, hda, hnew⟩

omit [DecidableEq Name] in
/-- A directory without a parent is a new item like the others. -/
lemma creation_of_newFile {ino dirino : ℕ} {name : Name} {data : FileData Name}
    (hhead : s.inoFreelist = some ino) (hdata : ∀ a b, data = .directory a b → a = []) :
    Creation s ino dirino
      ((((s.takeFree ino).newFile ⟨name, ino, dirino, data⟩).1).setFileOf ino s.nextFile) := by
  refine ⟨hhead, (sameTable_newFile _ _).setFileOf ino s.nextFile, rfl, ⟨name, data, ?_, hdata⟩,
    fun id hid => .inl ?_⟩
  · exact files_newFile_self (s.takeFree ino) _
  · exact files_newFile (s.takeFree ino) _ hid

omit [DecidableEq Name] in
/-- What is created is no directory, or an empty one. -/
lemma empty_of_directory_nil {a b : List ℕ}
    (h : FileData.directory [] [] = (.directory a b : FileData Name)) : a = [] ∧ b = [] := by
  rw [FileData.directory.injEq] at h
  exact ⟨h.1.symm, h.2.symm⟩

omit [DecidableEq Name] in
lemma newData_ne_directory (symlink : Option Name) (a b : List ℕ) :
    newData symlink ≠ .directory a b := by
  cases symlink <;> simp [newData]

lemma creation_of_fsCreatedir (hmade : s.inoNum ≠ 0) (hfresh : s.files s.nextFile = none)
    {parentino : ℕ} {name : Name} {r : Fs Name × ℕ}
    (h : s.fsCreatedir parentino name = some r) : ∃ ino, Creation s ino parentino r.1 := by
  have hdata : ∀ a b, FileData.directory [] [] = (.directory a b : FileData Name) → a = [] :=
    fun a b hab => (empty_of_directory_nil hab).1
  obtain ⟨ino, hhead, -, -, ⟨-, hr⟩ | ⟨-, hr⟩⟩ := fsCreatedir_inv hmade h
  · rw [hr]
    exact ⟨ino, creation_of_newFile hhead hdata⟩
  · exact ⟨ino, creation_of_createIn hhead hfresh hdata hr⟩

lemma creation_of_fsCreatefile (hmade : s.inoNum ≠ 0) (hfresh : s.files s.nextFile = none)
    {dirino : ℕ} {name : Name} {symlink : Option Name} {r : Fs Name × ℕ}
    (h : s.fsCreatefile dirino name symlink = some r) : ∃ ino, Creation s ino dirino r.1 := by
  obtain ⟨ino, hhead, -, -, -, hr⟩ := fsCreatefile_inv hmade h
  have hdata : ∀ a b, newData symlink = .directory a b → a = [] :=
    fun a b hab => absurd hab (newData_ne_directory symlink a b)
  exact ⟨ino, creation_of_createIn hhead hfresh hdata hr⟩

omit [DecidableEq Name] in
lemma inofree_inv {ino : ℕ} (h : s.inofree ino = some s') : s' = s.putBack ino := by
  unfold inofree at h
  split_ifs at h
  exact (Option.some.inj h).symm

omit [DecidableEq Name] in
lemma release_inv {item : ℕ} {f : File Name} (h : s.release item f = some s') :
    s' = (s.putBack f.ino).setFile item none := by
  simp only [release, Option.bind_eq_bind, Option.bind_eq_some_iff, Option.some.injEq] at h
  obtain ⟨s₁, hfree, rfl⟩ := h
  rw [inofree_inv hfree]

omit [DecidableEq Name] in
/-- The root hangs in no directory. -/
lemma removal_of_release (hreserved : s.file INVALID_INO = none) {item : ℕ} {f : File Name}
    (hroot : f.dir = INVALID_INO) (h : s.release item f = some s') : Removal s item f s' := by
  rw [release_inv h]
  refine ⟨sameTable_setFile _ _ _, rfl, fun id => ?_⟩
  rw [hroot, hreserved]
  by_cases hid : id = item
  · simp [hid, setFile]
  · simp [hid, setFile, putBack]

lemma removal_of_detach {item : ℕ} {f : File Name} {r : Fs Name × Option ℕ}
    (h : s.detach item f = some r) : Removal s item f r.1 := by
  simp only [detach, Option.bind_eq_bind, Option.bind_eq_some_iff] at h
  obtain ⟨⟨p, d, a, b⟩, hdir, h⟩ := h
  obtain ⟨-, -, hp, hd, hda⟩ := directoryOf_inv hdir
  -- the assertions on the containing directory
  obtain ⟨s₁, hrel, hr⟩ : ∃ s₁, (s.setFile p (some { d with
      data := .directory (a.erase item) (b.erase item) })).release item f = some s₁ ∧
      r.1 = s₁ := by
    split_ifs at h
    all_goals
      simp only [Option.bind_eq_some_iff, Option.some.injEq] at h
      obtain ⟨s₁, hrel, rfl⟩ := h
      exact ⟨s₁, hrel, rfl⟩
  rw [hr, release_inv hrel]
  refine ⟨⟨rfl, rfl, rfl, rfl, rfl⟩, rfl, fun id => ?_⟩
  simp only [hp, Option.some.injEq]
  by_cases hid : id = item
  · simp [hid, setFile]
  · by_cases hidp : p = id
    · subst hidp
      simp [hid, setFile, putBack, hd, File.drop, hda]
    · simp [hid, hidp, Ne.symm hidp, setFile, putBack]

/-- One removal: refused, or the inode of the item is put back. -/
lemma removal_of_removeOne (hreserved : s.file INVALID_INO = none) {item : ℕ}
    {r : Fs Name × Bool × Option ℕ} (h : s.removeOne item = some r) :
    r.1 = s ∨ ∃ f, s.files item = some f ∧ Removal s item f r.1 := by
  simp only [removeOne, Option.bind_eq_bind, Option.bind_eq_some_iff] at h
  obtain ⟨f, hf, h⟩ := h
  cases hd : f.data with
  | directory a b =>
    simp only [hd] at h
    split_ifs at h with hlen hempty hroot hdir
    · obtain rfl := Option.some.inj h
      exact .inl rfl
    · obtain ⟨q, hq, rfl⟩ := Option.map_eq_some_iff.mp h
      exact .inr ⟨f, hf, removal_of_detach hq⟩
    · obtain ⟨s₁, hs₁, rfl⟩ := Option.map_eq_some_iff.mp h
      exact .inr ⟨f, hf, removal_of_release hreserved (not_not.mp hdir) hs₁⟩
  | regular | symlink =>
    simp only [hd] at h
    split_ifs at h
    obtain ⟨q, hq, rfl⟩ := Option.map_eq_some_iff.mp h
    exact .inr ⟨f, hf, removal_of_detach hq⟩

omit [DecidableEq Name] in
/-- The head of the list is taken off it. -/
lemma Table.takeFree (h : s.Table) {i : ℕ} (hi : s.inoFreelist = some i) :
    i ∉ s.allocated ∧ (s.takeFree i).Table := by
  obtain ⟨free, hlinks, hnodup, hmem, hnum⟩ := h.linked
  obtain ⟨rest, rfl, hrest⟩ := linked_takeFree hi hlinks hnodup hmem hnum
  obtain ⟨hlt, hnot⟩ := (hmem i).mp List.mem_cons_self
  exact ⟨hnot, ⟨rest, hrest⟩, inside_takeFree hlt h.inside, unlinked_takeFree hnot h.unlinked⟩

omit [DecidableEq Name] in
/-- A file pointer is no part of it. -/
lemma Table.setFileOf (h : s.Table) (i id : ℕ) : (s.setFileOf i id).Table := by
  constructor
  · rw [next_setFileOf]
    exact h.linked
  · exact h.inside
  · rw [next_setFileOf]
    exact h.unlinked

omit [DecidableEq Name] in
lemma Heap.lt_nextFile (h : s.Heap) {id : ℕ} {f : File Name} (hf : s.files id = some f) :
    id < s.nextFile :=
  h.bounded f.ino id (h.own id f hf).2

omit [DecidableEq Name] in
lemma Heap.fresh (h : s.Heap) : s.files s.nextFile = none := by
  cases hf : s.files s.nextFile with
  | none => rfl
  | some f => exact absurd (h.lt_nextFile hf) (lt_irrefl _)

omit [DecidableEq Name] in
/-- An item other than the new one was there, with the same inode and directory. -/
lemma Creation.old_of_new {ino dirino id : ℕ} {g : File Name} (hc : Creation s ino dirino s')
    (hid : id ≠ s.nextFile) (hg : s'.files id = some g) :
    ∃ f, s.files id = some f ∧ f.ino = g.ino ∧ f.dir = g.dir := by
  rcases hc.old id hid with hsame | ⟨-, d, a, b, hd, -, hnew⟩
  · exact ⟨g, hsame ▸ hg, rfl, rfl⟩
  · rw [hg, Option.some.injEq] at hnew
    exact ⟨d, hd, by rw [hnew], by rw [hnew]⟩

omit [DecidableEq Name] in
/-- An item that was there is there, in the same directory. -/
lemma Creation.new_of_old {ino dirino id : ℕ} {f : File Name} (hc : Creation s ino dirino s')
    (hid : id ≠ s.nextFile) (hf : s.files id = some f) :
    ∃ g, s'.files id = some g ∧ g.dir = f.dir := by
  rcases hc.old id hid with hsame | ⟨-, d, a, b, hd, -, hnew⟩
  · exact ⟨f, hsame.trans hf, rfl⟩
  · rw [hf, Option.some.injEq] at hd
    exact ⟨_, hnew, by rw [hd]⟩

omit [DecidableEq Name] in
/-- The directories after a creation. -/
lemma Heap.entries_creation (h : s.Heap) {ino dirino : ℕ} (hc : Creation s ino dirino s') {p : ℕ}
    {d : File Name} {a b : List ℕ} (hd : s'.files p = some d) (hda : d.data = .directory a b) :
    a.Nodup ∧ ∀ c ∈ a, ∃ f, s'.files c = some f ∧ f.dir = d.ino := by
  have hkept : ∀ c f, s.files c = some f → ∃ g, s'.files c = some g ∧ g.dir = f.dir :=
    fun c f hf => hc.new_of_old (h.lt_nextFile hf).ne hf
  by_cases hp : p = s.nextFile
  · obtain ⟨name, data, hnew, hempty⟩ := hc.new
    rw [hp, hnew, Option.some.injEq] at hd
    have ha := hempty a b (by rw [← hda, ← hd])
    simp [ha]
  · rcases hc.old p hp with hsame | ⟨hptr, e, a₀, b₀, he, hea, hnew⟩
    · obtain ⟨hnodup, hall⟩ := h.entries p d a b (hsame ▸ hd) hda
      refine ⟨hnodup, fun c hmem => ?_⟩
      obtain ⟨f, hf, hdir⟩ := hall c hmem
      obtain ⟨g, hg, hgdir⟩ := hkept c f hf
      exact ⟨g, hg, hgdir.trans hdir⟩
    · rw [hnew, Option.some.injEq] at hd
      obtain ⟨hnodup, hall⟩ := h.entries p e a₀ b₀ he hea
      have hino : e.ino = d.ino := by rw [← hd]
      have ha : a = s.nextFile :: a₀ := by
        rw [← hd, FileData.directory.injEq] at hda
        exact hda.1.symm
      have hnot : s.nextFile ∉ a₀ := by
        intro hmem
        obtain ⟨f, hf, -⟩ := hall _ hmem
        exact absurd (h.lt_nextFile hf) (lt_irrefl _)
      rw [ha]
      refine ⟨List.nodup_cons.mpr ⟨hnot, hnodup⟩, fun c hmem => ?_⟩
      rcases List.mem_cons.mp hmem with rfl | hmem
      · obtain ⟨name, data, hfile, -⟩ := hc.new
        exact ⟨_, hfile, (h.pointers dirino p e hptr he).symm.trans hino⟩
      · obtain ⟨f, hf, hdir⟩ := hall c hmem
        obtain ⟨g, hg, hgdir⟩ := hkept c f hf
        exact ⟨g, hg, (hgdir.trans hdir).trans hino⟩

omit [DecidableEq Name] in
lemma Creation.file_eq {ino dirino : ℕ} (hc : Creation s ino dirino s') :
    s'.file = Function.update s.file ino (some s.nextFile) := by
  rw [hc.table.file, file_setFileOf, file_takeFree]

omit [DecidableEq Name] in
lemma Creation.allocated_eq {ino dirino : ℕ} (hc : Creation s ino dirino s') :
    s'.allocated = insert ino s.allocated :=
  hc.table.allocated

omit [DecidableEq Name] in
lemma Heap.own_creation (h : s.Heap) {ino dirino : ℕ} (hc : Creation s ino dirino s')
    (hne : ∀ i ∈ s.allocated, i ≠ ino) {id : ℕ} {g : File Name} (hg : s'.files id = some g) :
    g.ino ∈ s'.allocated ∧ s'.file g.ino = some id := by
  rw [hc.file_eq, hc.allocated_eq]
  by_cases hid : id = s.nextFile
  · subst hid
    obtain ⟨name, data, hnew, -⟩ := hc.new
    rw [hnew, Option.some.injEq] at hg
    rw [← hg, Function.update_self]
    exact ⟨Finset.mem_insert_self ino _, rfl⟩
  · obtain ⟨f, hf, hino, -⟩ := hc.old_of_new hid hg
    obtain ⟨hin, hptr⟩ := h.own id f hf
    rw [hino] at hin hptr
    rw [Function.update_of_ne (hne _ hin)]
    exact ⟨Finset.mem_insert_of_mem hin, hptr⟩

omit [DecidableEq Name] in
/-- A pointer is the new one, or it was there. -/
lemma Heap.pointer_creation (h : s.Heap) {ino dirino : ℕ} (hc : Creation s ino dirino s')
    {i id : ℕ} (hi : s'.file i = some id) :
    i = ino ∧ id = s.nextFile ∨ s.file i = some id ∧ id < s.nextFile := by
  rw [hc.file_eq] at hi
  by_cases hne : i = ino
  · rw [hne, Function.update_self, Option.some.injEq] at hi
    exact .inl ⟨hne, hi.symm⟩
  · rw [Function.update_of_ne hne] at hi
    exact .inr ⟨hi, h.bounded i id hi⟩

omit [DecidableEq Name] in
lemma Heap.creation (h : s.Heap) {ino dirino : ℕ} (hc : Creation s ino dirino s') : s'.Heap := by
  obtain ⟨hnot, htable⟩ := h.toTable.takeFree hc.head
  have hne : ∀ i ∈ s.allocated, i ≠ ino := fun i hi he => hnot (he ▸ hi)
  constructor
  · exact (htable.setFileOf ino s.nextFile).of_sameTable hc.table
  · rw [hc.table.inoNum]
    exact h.made
  · rw [hc.allocated_eq, hc.file_eq, Function.update_of_ne (hne _ h.reserved.1)]
    exact ⟨Finset.mem_insert_of_mem h.reserved.1, h.reserved.2⟩
  · intro id g hg
    exact h.own_creation hc hne hg
  · intro i id g hi hg
    rcases h.pointer_creation hc hi with ⟨rfl, rfl⟩ | ⟨hold, hlt⟩
    · obtain ⟨name, data, hnew, -⟩ := hc.new
      rw [hnew, Option.some.injEq] at hg
      rw [← hg]
    · obtain ⟨f, hf, hino, -⟩ := hc.old_of_new hlt.ne hg
      rw [← hino]
      exact h.pointers i id f hold hf
  · intro i id hi
    rw [hc.nextFile]
    rcases h.pointer_creation hc hi with ⟨-, rfl⟩ | ⟨-, hlt⟩
    · omega
    · omega
  · intro p d a b hd hda
    exact h.entries_creation hc hd hda

omit [DecidableEq Name] in
@[simp] lemma drop_ino (item : ℕ) (f : File Name) : (f.drop item).ino = f.ino := by
  unfold File.drop
  split <;> rfl

omit [DecidableEq Name] in
@[simp] lemma drop_dir (item : ℕ) (f : File Name) : (f.drop item).dir = f.dir := by
  unfold File.drop
  split <;> rfl

omit [DecidableEq Name] in
/-- An item that is left was there; the directory has lost the entry. -/
lemma Removal.old_of_new {item id : ℕ} {f g : File Name} (hr : Removal s item f s')
    (hg : s'.files id = some g) :
    id ≠ item ∧ ∃ g₀, s.files id = some g₀ ∧
      (s.file f.dir = some id ∧ g = g₀.drop item ∨ s.file f.dir ≠ some id ∧ g = g₀) := by
  rw [hr.files] at hg
  split_ifs at hg with hid hdir
  · obtain ⟨g₀, hg₀, rfl⟩ := Option.map_eq_some_iff.mp hg
    exact ⟨hid, g₀, hg₀, .inl ⟨hdir, rfl⟩⟩
  · exact ⟨hid, g, hg, .inr ⟨hdir, rfl⟩⟩

omit [DecidableEq Name] in
lemma Removal.new_of_old {item id : ℕ} {f g₀ : File Name} (hr : Removal s item f s')
    (hid : id ≠ item) (hg₀ : s.files id = some g₀) :
    ∃ g, s'.files id = some g ∧ g.dir = g₀.dir := by
  rw [hr.files, if_neg hid]
  split_ifs
  · exact ⟨_, by rw [hg₀]; rfl, drop_dir item g₀⟩
  · exact ⟨g₀, hg₀, rfl⟩

omit [DecidableEq Name] in
/-- The directories after a removal: the item was an entry of its own directory only. -/
lemma Heap.entries_removal (h : s.Heap) {item : ℕ} {f : File Name} (hf : s.files item = some f)
    (hr : Removal s item f s') {p : ℕ} {d : File Name} {a b : List ℕ}
    (hd : s'.files p = some d) (hda : d.data = .directory a b) :
    a.Nodup ∧ ∀ c ∈ a, ∃ g, s'.files c = some g ∧ g.dir = d.ino := by
  obtain ⟨-, e, he, ⟨hptr, rfl⟩ | ⟨hptr, rfl⟩⟩ := hr.old_of_new hd
  · cases hea : e.data with
    | directory a₀ b₀ =>
      obtain ⟨hnodup, hall⟩ := h.entries p e a₀ b₀ he hea
      have ha : a = a₀.erase item := by
        simp only [File.drop, hea, FileData.directory.injEq] at hda
        exact hda.1.symm
      rw [ha]
      refine ⟨hnodup.erase item, fun c hmem => ?_⟩
      obtain ⟨hne, hmem⟩ := hnodup.mem_erase_iff.mp hmem
      obtain ⟨g₀, hg₀, hdir⟩ := hall c hmem
      obtain ⟨g, hg, hgdir⟩ := hr.new_of_old hne hg₀
      exact ⟨g, hg, by rw [hgdir, hdir, drop_ino]⟩
    | regular => simp [File.drop, hea] at hda
    | symlink target => simp [File.drop, hea] at hda
  · obtain ⟨hnodup, hall⟩ := h.entries p d a b he hda
    refine ⟨hnodup, fun c hmem => ?_⟩
    obtain ⟨g₀, hg₀, hdir⟩ := hall c hmem
    have hne : c ≠ item := by
      rintro rfl
      rw [hf, Option.some.injEq] at hg₀
      rw [hg₀, hdir] at hptr
      exact hptr (h.own p d he).2
    obtain ⟨g, hg, hgdir⟩ := hr.new_of_old hne hg₀
    exact ⟨g, hg, hgdir.trans hdir⟩

omit [DecidableEq Name] in
lemma Heap.removal (h : s.Heap) {item : ℕ} {f : File Name} (hf : s.files item = some f)
    (hr : Removal s item f s') : s'.Heap := by
  obtain ⟨hin, hptr⟩ := h.own item f hf
  have hfile : s'.file = s.file := by rw [hr.table.file, file_putBack]
  have halloc : s'.allocated = s.allocated.erase f.ino := hr.table.allocated
  have hold : ∀ id g, s'.files id = some g → id ≠ item ∧
      ∃ g₀, s.files id = some g₀ ∧ g₀.ino = g.ino := by
    intro id g hg
    obtain ⟨hid, g₀, hg₀, ⟨-, rfl⟩ | ⟨-, rfl⟩⟩ := hr.old_of_new hg
    · exact ⟨hid, g₀, hg₀, (drop_ino item g₀).symm⟩
    · exact ⟨hid, g, hg₀, rfl⟩
  constructor
  · exact (h.toTable.putBack hin).of_sameTable hr.table
  · rw [hr.table.inoNum]
    exact h.made
  · rw [halloc, hfile]
    refine ⟨Finset.mem_erase.mpr ⟨fun he => ?_, h.reserved.1⟩, h.reserved.2⟩
    have hnone := h.reserved.2
    rw [he, hptr] at hnone
    cases hnone
  · intro id g hg
    obtain ⟨hid, g₀, hg₀, hino⟩ := hold id g hg
    obtain ⟨hgin, hgptr⟩ := h.own id g₀ hg₀
    rw [hfile, halloc, ← hino]
    refine ⟨Finset.mem_erase.mpr ⟨fun he => ?_, hgin⟩, hgptr⟩
    -- an item with the inode put back would be the item that is gone
    rw [he, hptr, Option.some.injEq] at hgptr
    exact hid hgptr.symm
  · intro i id g hi hg
    rw [hfile] at hi
    obtain ⟨-, g₀, hg₀, hino⟩ := hold id g hg
    rw [← hino]
    exact h.pointers i id g₀ hi hg₀
  · intro i id hi
    rw [hfile] at hi
    rw [hr.nextFile]
    exact h.bounded i id hi
  · intro p d a b hd hda
    exact h.entries_removal hf hr hd hda

lemma Heap.removeOne (h : s.Heap) {item : ℕ} {r : Fs Name × Bool × Option ℕ}
    (hr : s.removeOne item = some r) : r.1.Heap := by
  rcases removal_of_removeOne h.reserved.2 hr with hsame | ⟨f, hf, hremoval⟩
  · rw [hsame]
    exact h
  · exact h.removal hf hremoval

lemma Heap.fsRemoveitem (h : s.Heap) {purge : Bool} {fuel item : ℕ} {r : Fs Name × Bool}
    (hr : Fs.fsRemoveitem purge fuel s item = some r) : r.1.Heap :=
  fsRemoveitem_invariant (fun _ _ _ hs hq => hs.removeOne hq) hr h

/-- Any call, whatever its arguments. -/
lemma Heap.step (h : s.Heap) {call : FsCall Name} (hs : s.step call = some s') : s'.Heap := by
  cases call with
  | createdir parentino name =>
    obtain ⟨r, hr, rfl⟩ := Option.map_eq_some_iff.mp hs
    obtain ⟨ino, hc⟩ := creation_of_fsCreatedir h.made h.fresh hr
    exact h.creation hc
  | createfile dirino name symlink =>
    obtain ⟨r, hr, rfl⟩ := Option.map_eq_some_iff.mp hs
    obtain ⟨ino, hc⟩ := creation_of_fsCreatefile h.made h.fresh hr
    exact h.creation hc
  | removeitem item purge =>
    obtain ⟨r, hr, rfl⟩ := Option.map_eq_some_iff.mp hs
    exact h.fsRemoveitem hr

omit [DecidableEq Name] in
/-- After the setup only the root's descriptor points to a file. -/
lemma file_created {dot : Name} {i id : ℕ} (h : (created dot).file i = some id) :
    i = ROOT_INO ∧ id = 0 := by
  unfold created at h
  rw [file_setFileOf] at h
  by_cases hi : i = 1
  · subst hi
    rw [Function.update_self, Option.some.injEq] at h
    exact ⟨rfl, h.symm⟩
  · rw [Function.update_of_ne hi] at h
    change (((empty : Fs Name).initInotable.takeFree 0).takeFree 1).file i = some id at h
    rw [file_takeFree, file_takeFree] at h
    cases h

omit [DecidableEq Name] in
lemma heap_created (dot : Name) : (created dot).Heap := by
  have htree := tree_created dot
  refine ⟨htree.toTable, (inv_created dot).made, htree.reserved, fun id f hf => ?_,
    fun i id f hi hf => ?_, fun i id hi => ?_, fun p d a b hd hda => ?_⟩
  · exact ⟨(htree.own id f hf).1, (htree.own id f hf).2.2⟩
  · obtain ⟨-, rfl⟩ := files_created hf
    exact (file_created hi).1.symm
  · obtain ⟨-, rfl⟩ := file_created hi
    exact Nat.one_pos
  · exact (htree.entries p d a b hd hda).2

end Fs

/-- What the setup establishes and every call keeps holds in every state that calls
reach. -/
lemma run_invariant [DecidableEq Name] {I : Fs Name → Prop} {dot : Name}
    (hinit : I (Fs.created dot))
    (hstep : ∀ s s' call, I s → s.step call = some s' → I s') {calls : List (FsCall Name)}
    {s : Fs Name} (h : runFrom fsStep (Fs.fsCreate dot) calls = some s) : I s := by
  induction calls using List.reverseRecOn generalizing s with
  | nil =>
    rw [runFrom_nil, Fs.fsCreate_eq, Option.some.injEq] at h
    rw [← h]
    exact hinit
  | append_singleton calls call ih =>
    rw [runFrom_append] at h
    obtain ⟨s₁, hs₁, hcall⟩ := Option.bind_eq_some_iff.mp h
    exact hstep s₁ s call (ih hs₁) hcall

/-- Every state that calls reach, with whatever arguments. -/
lemma heap_of_run [DecidableEq Name] {dot : Name} {calls : List (FsCall Name)} {s : Fs Name}
    (h : runFrom fsStep (Fs.fsCreate dot) calls = some s) : s.Heap :=
  run_invariant (Fs.heap_created dot) (fun _ _ _ hs hcall => hs.step hcall) h

/-- No file and no directory has this inode. -/
def Fs.NamesNone (s : Fs Name) (i : ℕ) : Prop := ∀ id f, s.files id = some f → f.ino ≠ i

/-- The inode is on the free list, and another one comes after it. -/
def Fs.FreeBeforeLast (s : Fs Name) (i : ℕ) : Prop :=
  ∃ front j back, Links s.next s.inoFreelist (front ++ i :: j :: back)

namespace Fs

variable {s : Fs Name} {i : ℕ}

/-- An inode with a link is on the list, and is not the last of it. -/
lemma Table.next_ne_none_iff (h : s.Table) (hi : i < s.inoNum) :
    s.next i ≠ none ↔ s.FreeBeforeLast i := by
  obtain ⟨free, hlinks, -, hmem, -⟩ := h.linked
  constructor
  · intro hnext
    have hfree : i ∈ free := (hmem i).mpr ⟨hi, fun halloc => hnext (h.unlinked i halloc)⟩
    obtain ⟨front, j, back, rfl⟩ := (hlinks.next_ne_none_iff hfree).mp hnext
    exact ⟨front, j, back, hlinks⟩
  · rintro ⟨front, j, back, hl⟩
    exact (hl.next_ne_none_iff (by simp)).mpr ⟨front, j, back, rfl⟩

/-- The pointer of an inode without a file is null or stale. -/
lemma Heap.no_file (h : s.Heap) (hnone : s.NamesNone i) :
    s.file i = none ∨ ∃ id, s.file i = some id ∧ s.files id = none := by
  cases hfile : s.file i with
  | none => exact .inl rfl
  | some id =>
    refine .inr ⟨id, rfl, ?_⟩
    cases hf : s.files id with
    | none => rfl
    | some f => exact absurd (h.pointers i id f hfile hf) (hnone id f hf)

variable [DecidableEq Name] (ops : File Name → FileOps Name Stat)

/-- The replies to the three requests. -/
def AnswersEnoent (s : Fs Name) (i : ℕ) : Prop :=
  (∀ name, s.fuseLookup ops i name = some (.err .ENOENT)) ∧
  s.fuseGetattr ops i = some (.err .ENOENT) ∧
  ∀ size off, s.fuseReaddir ops i size off = some (.err .ENOENT)

end Fs

/-- After any calls, the three requests answer `ENOENT` for an inode without a file exactly
where the inode is on the free list and not the last of it. -/
theorem requests_enoent_iff [DecidableEq Name] (ops : File Name → FileOps Name Stat) (dot : Name)
    (calls : List (FsCall Name)) (s : Fs Name) (i : ℕ)
    (h : runFrom fsStep (Fs.fsCreate dot) calls = some s) (hi : i < s.inoNum)
    (hnone : s.NamesNone i) : s.AnswersEnoent ops i ↔ s.FreeBeforeLast i := by
  have hheap := heap_of_run h
  rw [← hheap.toTable.next_ne_none_iff hi]
  have hlt : ¬ s.inoNum ≤ i := not_le.mpr hi
  constructor
  · rintro ⟨-, hattr, -⟩ hnext
    -- without a link the request follows the file pointer
    simp only [Fs.fuseGetattr, if_neg hlt, hnext] at hattr
    rcases hheap.no_file hnone with hfile | ⟨id, hfile, hfiles⟩
    · simp [hfile] at hattr
    · simp [hfile, hfiles] at hattr
  · intro hnext
    refine ⟨fun name => ?_, ?_, fun size off => ?_⟩
    · rw [Fs.fuseLookup, if_neg hlt, if_pos hnext]
    · rw [Fs.fuseGetattr, if_neg hlt, if_pos hnext]
    · rw [Fs.fuseReaddir, if_neg hlt, if_pos hnext]

/-- Files without operations of their own. -/
def noOps : File ℕ → FileOps ℕ Unit := fun _ => ⟨fun _ _ => (), none⟩

lemma namesNone_created {dot : Name} {i : ℕ} (hi : i ≠ ROOT_INO) :
    (Fs.created dot).NamesNone i := by
  intro id f hf
  obtain ⟨-, rfl⟩ := Fs.files_created hf
  exact hi.symm

/-- A directory with two files, of which the first is removed. -/
def afterRemoval : List (FsCall ℕ) :=
  [.createdir 1 5, .createfile 2 6 none, .createfile 2 7 none, .removeitem 2 true]

/-- The inode of the removed file is free again. -/
theorem requests_enoent_removed :
    ∃ s, runFrom fsStep (Fs.fsCreate 0) afterRemoval = some s ∧ s.AnswersEnoent noOps 3 := by
  refine ⟨_, rfl, ?_⟩
  set s : Fs ℕ := _
  have hrun : runFrom fsStep (Fs.fsCreate 0) afterRemoval = some s := rfl
  have hheap := heap_of_run hrun
  have hlt : 3 < s.inoNum := by decide
  have hnone : s.NamesNone 3 := by
    intro id f hf hino
    have hfile := (hheap.own id f hf).2
    rw [hino] at hfile
    -- the pointer is stale
    obtain rfl : 2 = id := Option.some.inj hfile
    cases hf
  have hfree : s.FreeBeforeLast 3 := (hheap.toTable.next_ne_none_iff hlt).mp (by decide)
  exact (requests_enoent_iff noOps 0 afterRemoval s 3 hrun hlt hnone).mpr hfree

/-- In a new file system the reserved inode and the last free one name no file, and the
requests on them end the program. -/
theorem requests_end_program :
    runFrom fsStep (Fs.fsCreate 0) [] = some (Fs.created 0) ∧
    ∀ i ∈ [0, 255], i < (Fs.created 0).inoNum ∧ (Fs.created 0).NamesNone i ∧
      (Fs.created 0).fuseLookup noOps i 7 = none ∧ (Fs.created 0).fuseGetattr noOps i = none ∧
      (Fs.created 0).fuseReaddir noOps i 4096 0 = none := by
  refine ⟨Fs.fsCreate_eq 0, fun i hi => ?_⟩
  have hcases : i = 0 ∨ i = 255 := by simpa using hi
  rcases hcases with rfl | rfl
  · exact ⟨by decide, namesNone_created (by decide), rfl, rfl, rfl⟩
  · exact ⟨by decide, namesNone_created (by decide), rfl, rfl, rfl⟩

end SymbiOS.Kld
