import SymbiOS.KldTree

/-!
# The directory tree over runs of create calls

As long as nothing is removed, inodes are handed out in their order, so a new item is
younger than the directory it is put in. Every state that create calls reach from the
setup is a tree.
-/
namespace SymbiOS.Kld
open SymbiOS.FreeList SymbiOS.GuardedRun

variable {Name : Type}

namespace Fs

variable {s s' : Fs Name}

/-- A new item at `id` in the directory `d` at `p`, whose entries were those of `a`. -/
structure Grown (s : Fs Name) (p : ℕ) (d : File Name) (a : List ℕ) (id : ℕ) (f : File Name)
    (s' : Fs Name) : Prop where
  files : s'.files = Function.update (Function.update s.files id (some f)) p
    (some { d with data := .directory (id :: a) (id :: a) })
  file : s'.file = Function.update s.file f.ino (some id)
  allocated : s'.allocated = insert f.ino s.allocated

/-- What must hold of the new item where it is put. -/
structure NewIn (s : Fs Name) (p : ℕ) (d : File Name) (a : List ℕ) (id : ℕ) (f : File Name) :
    Prop where
  fresh : s.files id = none
  holder : s.files p = some d
  data : d.data = .directory a a
  dir : f.dir = d.ino
  ino : f.ino ∉ s.allocated
  young : d.ino < f.ino
  notRoot : f.ino ≠ ROOT_INO
  name : ∀ c ∈ a, ∀ g, s.files c = some g → g.name ≠ f.name
  noEntries : ∀ a b, f.data = .directory a b → a = [] ∧ b = []

namespace Grown

variable {p id c : ℕ} {d f g : File Name} {a : List ℕ}

lemma files_new (hg : Grown s p d a id f s') (hnew : NewIn s p d a id f) :
    s'.files id = some f := by
  have hne : id ≠ p := by
    rintro rfl
    have hholder := hnew.holder
    rw [hnew.fresh] at hholder
    cases hholder
  rw [hg.files, Function.update_of_ne hne, Function.update_self]

lemma files_holder (hg : Grown s p d a id f s') :
    s'.files p = some { d with data := .directory (id :: a) (id :: a) } := by
  rw [hg.files, Function.update_self]

/-- An item from before is still there, and only its tables may have changed. -/
lemma files_old (hg : Grown s p d a id f s') (hnew : NewIn s p d a id f)
    (hc : s.files c = some g) : ∃ g', s'.files c = some g' ∧ g'.name = g.name ∧ g'.ino = g.ino ∧
      g'.dir = g.dir := by
  by_cases hp : c = p
  · subst hp
    have hholder := hnew.holder
    rw [hc, Option.some.injEq] at hholder
    subst hholder
    exact ⟨_, hg.files_holder, rfl, rfl, rfl⟩
  · have hne : c ≠ id := by
      rintro rfl
      rw [hnew.fresh] at hc
      cases hc
    refine ⟨g, ?_, rfl, rfl, rfl⟩
    rw [hg.files, Function.update_of_ne hp, Function.update_of_ne hne]
    exact hc

/-- Where an item comes from. -/
lemma of_files (hg : Grown s p d a id f s') (hnew : NewIn s p d a id f)
    (hc : s'.files c = some g) : (c = id ∧ g = f) ∨
      (c = p ∧ g = { d with data := .directory (id :: a) (id :: a) }) ∨
      (c ≠ p ∧ s.files c = some g) := by
  by_cases hp : c = p
  · subst hp
    rw [hg.files_holder, Option.some.injEq] at hc
    exact Or.inr (Or.inl ⟨rfl, hc.symm⟩)
  · by_cases hid : c = id
    · subst hid
      rw [hg.files_new hnew, Option.some.injEq] at hc
      exact Or.inl ⟨rfl, hc.symm⟩
    · rw [hg.files, Function.update_of_ne hp, Function.update_of_ne hid] at hc
      exact Or.inr (Or.inr ⟨hp, hc⟩)

/-- It is the new one, or it was there with the same name, inode and directory. -/
lemma origin (hg : Grown s p d a id f s') (hnew : NewIn s p d a id f)
    (hc : s'.files c = some g) : (c = id ∧ g = f) ∨ ∃ g₀, s.files c = some g₀ ∧
      g.name = g₀.name ∧ g.ino = g₀.ino ∧ g.dir = g₀.dir := by
  rcases hg.of_files hnew hc with hf | ⟨rfl, rfl⟩ | ⟨-, hold⟩
  · exact Or.inl hf
  · exact Or.inr ⟨d, hnew.holder, rfl, rfl, rfl⟩
  · exact Or.inr ⟨g, hold, rfl, rfl, rfl⟩

end Grown

namespace Tree

variable {p q id : ℕ} {d e f : File Name} {a l m : List ℕ}

/-- The entries from before are other items than the new one. -/
lemma entry_ne_new (h : s.Tree) (hnew : NewIn s p d a id f) (hq : s.files q = some e)
    (hdata : e.data = .directory l m) {c : ℕ} (hc : c ∈ l) : c ≠ id := by
  rintro rfl
  obtain ⟨g, hg, -⟩ := (h.entries q e l m hq hdata).2.2 c hc
  rw [hnew.fresh] at hg
  cases hg

lemma grown_parent (h : s.Tree) (hnew : NewIn s p d a id f) (hg : Grown s p d a id f s')
    {c : ℕ} {g : File Name} (hc : s'.files c = some g) (hroot : g.ino ≠ ROOT_INO) :
    g.dir < g.ino ∧ ∃ q e l m, s'.files q = some e ∧ e.ino = g.dir ∧ e.data = .directory l m ∧
      c ∈ l := by
  rcases hg.origin hnew hc with ⟨rfl, rfl⟩ | ⟨g₀, hold, -, hino, hdir⟩
  · rw [hnew.dir]
    exact ⟨hnew.young, p, _, c :: a, c :: a, hg.files_holder, rfl, rfl, List.mem_cons_self⟩
  · rw [hino] at hroot
    rw [hino, hdir]
    obtain ⟨hlt, q, e, l, m, hq, heino, hdata, hmem⟩ := h.parent c g₀ hold hroot
    refine ⟨hlt, ?_⟩
    by_cases hqp : q = p
    · subst hqp
      have hholder := hnew.holder
      rw [hq, Option.some.injEq] at hholder
      subst hholder
      rw [hnew.data, FileData.directory.injEq] at hdata
      exact ⟨q, _, id :: a, id :: a, hg.files_holder, heino, rfl,
        List.mem_cons_of_mem id (hdata.1 ▸ hmem)⟩
    · have hqid : q ≠ id := by
        rintro rfl
        rw [hnew.fresh] at hq
        cases hq
      refine ⟨q, e, l, m, ?_, heino, hdata, hmem⟩
      rw [hg.files, Function.update_of_ne hqp, Function.update_of_ne hqid]
      exact hq

lemma grown_entries (h : s.Tree) (hnew : NewIn s p d a id f) (hg : Grown s p d a id f s')
    (hq : s'.files q = some e) (hdata : e.data = .directory l m) :
    m = l ∧ l.Nodup ∧ ∀ c ∈ l, ∃ g, s'.files c = some g ∧ g.dir = e.ino := by
  have hkeep : ∀ {c i : ℕ}, (∃ g, s.files c = some g ∧ g.dir = i) →
      ∃ g, s'.files c = some g ∧ g.dir = i := by
    rintro c i ⟨g, hc, hdir⟩
    obtain ⟨g', hg', -, -, hsame⟩ := hg.files_old hnew hc
    exact ⟨g', hg', hsame.trans hdir⟩
  rcases hg.of_files hnew hq with ⟨-, rfl⟩ | ⟨rfl, rfl⟩ | ⟨-, hold⟩
  · obtain ⟨rfl, rfl⟩ := hnew.noEntries l m hdata
    exact ⟨rfl, List.nodup_nil, fun c hc => absurd hc List.not_mem_nil⟩
  · obtain ⟨-, hnodup, hall⟩ := h.entries q d a a hnew.holder hnew.data
    rw [FileData.directory.injEq] at hdata
    obtain ⟨rfl, rfl⟩ := hdata
    have hout : id ∉ a := fun hmem => h.entry_ne_new hnew hnew.holder hnew.data hmem rfl
    refine ⟨rfl, List.nodup_cons.mpr ⟨hout, hnodup⟩, fun c hc => ?_⟩
    rcases List.mem_cons.mp hc with rfl | hc
    · exact ⟨f, hg.files_new hnew, hnew.dir⟩
    · exact hkeep (hall c hc)
  · obtain ⟨hsame, hnodup, hall⟩ := h.entries q e l m hold hdata
    exact ⟨hsame, hnodup, fun c hc => hkeep (hall c hc)⟩

lemma grown_names (h : s.Tree) (hnew : NewIn s p d a id f) (hg : Grown s p d a id f s')
    (hq : s'.files q = some e) (hdata : e.data = .directory l m) {c c' : ℕ} {g g' : File Name}
    (hc : c ∈ l) (hc' : c' ∈ l) (hcg : s'.files c = some g) (hcg' : s'.files c' = some g')
    (hname : g.name = g'.name) : c = c' := by
  -- entries from before keep their names
  have hold : ∀ {q₀ x : ℕ} {e₀ y : File Name} {l m : List ℕ}, s.files q₀ = some e₀ →
      e₀.data = .directory l m → x ∈ l → s'.files x = some y →
        ∃ y₀, s.files x = some y₀ ∧ y.name = y₀.name := by
    intro q₀ x e₀ y l m hq₀ hdata₀ hx hy
    rcases hg.origin hnew hy with ⟨hxid, -⟩ | ⟨y₀, hold, hsame, -, -⟩
    · exact absurd hxid (h.entry_ne_new hnew hq₀ hdata₀ hx)
    · exact ⟨y₀, hold, hsame⟩
  have hpair : ∀ {q₀ : ℕ} {e₀ : File Name} {l m : List ℕ}, s.files q₀ = some e₀ →
      e₀.data = .directory l m → c ∈ l → c' ∈ l → c = c' := by
    intro q₀ e₀ l m hq₀ hdata₀ hx hx'
    obtain ⟨g₀, hg₀, hsame⟩ := hold hq₀ hdata₀ hx hcg
    obtain ⟨g₀', hg₀', hsame'⟩ := hold hq₀ hdata₀ hx' hcg'
    rw [hsame, hsame'] at hname
    exact h.names q₀ e₀ l m hq₀ hdata₀ c hx c' hx' g₀ g₀' hg₀ hg₀' hname
  have hother : ∀ {x : ℕ} {y : File Name}, x ∈ a → s'.files x = some y → y.name ≠ f.name := by
    intro x y hx hy
    obtain ⟨y₀, hy₀, hsame⟩ := hold hnew.holder hnew.data hx hy
    rw [hsame]
    exact hnew.name x hx y₀ hy₀
  have hf := hg.files_new hnew
  rcases hg.of_files hnew hq with ⟨-, rfl⟩ | ⟨rfl, rfl⟩ | ⟨-, hq₀⟩
  · rw [(hnew.noEntries l m hdata).1] at hc
    cases hc
  · rw [FileData.directory.injEq] at hdata
    rw [← hdata.1] at hc hc'
    rcases List.mem_cons.mp hc with rfl | hx
    · rcases List.mem_cons.mp hc' with rfl | hx'
      · rfl
      · rw [hf, Option.some.injEq] at hcg
        exact absurd (hcg ▸ hname.symm) (hother hx' hcg')
    · rcases List.mem_cons.mp hc' with rfl | hx'
      · rw [hf, Option.some.injEq] at hcg'
        exact absurd (hcg' ▸ hname) (hother hx hcg)
      · exact hpair hnew.holder hnew.data hx hx'
  · exact hpair hq₀ hdata hc hc'

/-- With a new item in one of its directories, a tree is a tree. -/
lemma grown (h : s.Tree) (hnew : NewIn s p d a id f) (hg : Grown s p d a id f s')
    (htable : s'.Table) : s'.Tree := by
  have hinvalid : f.ino ≠ INVALID_INO := fun hino => hnew.ino (hino ▸ h.reserved.1)
  have hself : s'.file f.ino = some id := by rw [hg.file, Function.update_self]
  have hfile : ∀ {i : ℕ}, i ∈ s.allocated → s'.file i = s.file i := by
    intro i hi
    have hne : i ≠ f.ino := fun he => hnew.ino (he ▸ hi)
    rw [hg.file, Function.update_of_ne hne]
  constructor
  · exact htable
  · rw [hg.allocated, hfile h.reserved.1]
    exact ⟨Finset.mem_insert_of_mem h.reserved.1, h.reserved.2⟩
  · intro c g hc
    rw [hg.allocated]
    rcases hg.origin hnew hc with ⟨rfl, rfl⟩ | ⟨g₀, hold, -, hino, -⟩
    · exact ⟨Finset.mem_insert_self g.ino s.allocated, hinvalid, hself⟩
    · obtain ⟨hin, hne, hptr⟩ := h.own c g₀ hold
      rw [hino, hfile hin]
      exact ⟨Finset.mem_insert_of_mem hin, hne, hptr⟩
  · intro i hi hne
    rw [hg.allocated] at hi
    rcases Finset.mem_insert.mp hi with rfl | hi
    · exact ⟨id, f, hg.files_new hnew, rfl⟩
    · obtain ⟨c, g₀, hc, hino⟩ := h.used i hi hne
      obtain ⟨g, hg', -, hsame, -⟩ := hg.files_old hnew hc
      exact ⟨c, g, hg', hsame.trans hino⟩
  · intro c g hc hroot
    rcases hg.of_files hnew hc with ⟨-, rfl⟩ | ⟨rfl, rfl⟩ | ⟨-, hold⟩
    · exact absurd hroot hnew.notRoot
    · exact ⟨(h.root c d hnew.holder hroot).1, id :: a, id :: a, rfl⟩
    · exact h.root c g hold hroot
  · intro c g hc hroot
    exact h.grown_parent hnew hg hc hroot
  · intro q e l m hq hdata
    exact h.grown_entries hnew hg hq hdata
  · intro q e l m hq hdata c hc c' hc' g g' hcg hcg' hname
    exact h.grown_names hnew hg hq hdata hc hc' hcg hcg' hname

end Tree

end Fs

/-- The call does not remove anything. -/
def FsCall.Creates : FsCall Name → Prop
  | .removeitem _ _ => False
  | _ => True

namespace Fs

variable {s : Fs Name}

/-- The inodes in use are those below `m`, and the free ones are linked upwards from it. -/
structure InOrder (s : Fs Name) (m : ℕ) : Prop where
  allocated : s.allocated = Finset.range m
  head : s.inoFreelist = if m < s.inoNum then some m else none
  next : ∀ i, m ≤ i → i < s.inoNum → s.next i = if i + 1 < s.inoNum then some (i + 1) else none

/-- What holds as long as nothing is removed. -/
structure Built (s : Fs Name) : Prop where
  inv : s.Inv
  tree : s.Tree
  inOrder : ∃ m, s.InOrder m
  fresh : ∀ id, s.nextFile ≤ id → s.files id = none

variable [DecidableEq Name]

/-- The new item is neither in the directory by inode nor by name. -/
lemma Tree.dirAdd_eq (h : s.Tree) {p id : ℕ} {d f : File Name} {a : List ℕ}
    (hnew : NewIn s p d a id f) {t : Fs Name}
    (hfiles : t.files = Function.update s.files id (some f)) :
    t.dirAdd p d a a id f =
      t.setFile p (some { d with data := .directory (id :: a) (id :: a) }) := by
  have hentry : ∀ c ∈ a, ∃ g, t.files c = some g ∧ g.ino ≠ f.ino ∧ g.name ≠ f.name := by
    intro c hc
    obtain ⟨g, hg, -⟩ := (h.entries p d a a hnew.holder hnew.data).2.2 c hc
    have hne := h.entry_ne_new hnew hnew.holder hnew.data hc
    refine ⟨g, ?_, fun hino => ?_, hnew.name c hc g hg⟩
    · rw [hfiles, Function.update_of_ne hne]
      exact hg
    · exact hnew.ino (hino ▸ (h.own c g hg).1)
  have hino : t.findIno a f.ino = none := by
    apply List.find?_eq_none.mpr
    intro c hc
    obtain ⟨g, hg, hne, -⟩ := hentry c hc
    simp [hg, hne]
  have hname : t.findName a f.name = none := by
    apply List.find?_eq_none.mpr
    intro c hc
    obtain ⟨g, hg, -, hne⟩ := hentry c hc
    simp [hg, hne]
  unfold dirAdd
  rw [hino, hname]
  rfl

/-- A live directory is an item of the tree. -/
lemma Tree.of_liveDir (h : s.Tree) {ino : ℕ} {name : Name} (hdir : s.LiveDir ino name) :
    ∃ p d a, s.file ino = some p ∧ s.files p = some d ∧ d.data = .directory a a ∧ d.ino = ino ∧
      s.findName a name = none := by
  obtain ⟨hne, hin, p, d, a, b, hfile, hd, hdata, hname⟩ := hdir
  obtain ⟨q, e, hq, hino⟩ := h.used ino hin hne
  have hptr := (h.own q e hq).2.2
  rw [hino, hfile, Option.some.injEq] at hptr
  subst hptr
  rw [hd, Option.some.injEq] at hq
  subst hq
  have hsame := (h.entries p d a b hd hdata).1
  subst hsame
  exact ⟨p, d, b, hfile, hd, hdata, hino, hname⟩

omit [DecidableEq Name] in
lemma InOrder.freelist_eq {m : ℕ} (h : s.InOrder m) (hroom : s.allocated.card < s.inoNum) :
    s.inoFreelist = some m := by
  rw [h.allocated, Finset.card_range] at hroom
  rw [h.head, if_pos hroom]

/-- An item with the next inode may be put in any directory that lacks its name. -/
lemma Built.newIn (h : s.Built) {m p ino : ℕ} (hm : s.InOrder m) {d : File Name} {a : List ℕ}
    (hd : s.files p = some d) (hda : d.data = .directory a a) (hino : d.ino = ino) {name : Name}
    (hname : s.findName a name = none) {data : FileData Name}
    (hdata : ∀ a b, data = .directory a b → a = [] ∧ b = []) :
    NewIn s p d a s.nextFile ⟨name, m, ino, data⟩ := by
  obtain ⟨hin, hne, -⟩ := h.tree.own p d hd
  rw [hm.allocated, Finset.mem_range] at hin
  have hpos : 0 < d.ino := Nat.pos_of_ne_zero hne
  have hnot : m ≠ ROOT_INO := by
    unfold ROOT_INO
    omega
  refine ⟨h.fresh s.nextFile le_rfl, hd, hda, hino.symm, ?_, hin, hnot, ?_, hdata⟩
  · rw [hm.allocated]
    exact Finset.notMem_range_self
  · intro c hc g hg hsame
    have hmiss := List.find?_eq_none.mp hname c hc
    simp [hg, hsame] at hmiss

omit [DecidableEq Name] in
lemma file_setFileOf (s : Fs Name) (i id : ℕ) :
    (s.setFileOf i id).file = Function.update s.file i (some id) := by
  funext j
  by_cases h : j = i
  · subst h; simp [Fs.file, setFileOf]
  · simp [Fs.file, setFileOf, h]

/-- The state after an item with the next inode is put in a directory. -/
def placed (s : Fs Name) (p : ℕ) (d : File Name) (a : List ℕ) (f : File Name) : Fs Name :=
  (((s.takeFree f.ino).newFile f).1.setFile p (some { d with
    data := .directory (s.nextFile :: a) (s.nextFile :: a) })).setFileOf f.ino s.nextFile

omit [DecidableEq Name] in
lemma grown_placed (s : Fs Name) (p : ℕ) (d : File Name) (a : List ℕ) (f : File Name) :
    Grown s p d a s.nextFile f (s.placed p d a f) := by
  constructor
  · rfl
  · unfold placed
    rw [file_setFileOf]
    show Function.update (s.takeFree f.ino).file f.ino _ = _
    rw [file_takeFree]
  · rfl

omit [DecidableEq Name] in
lemma next_placed (s : Fs Name) (p : ℕ) (d : File Name) (a : List ℕ) (f : File Name) :
    (s.placed p d a f).next = Function.update s.next f.ino none := by
  unfold placed
  rw [next_setFileOf]
  exact next_takeFree s f.ino

omit [DecidableEq Name] in
/-- The next inode is the one after it. -/
lemma InOrder.placed {f : File Name} (h : s.InOrder f.ino) (hlt : f.ino < s.inoNum) (p : ℕ)
    (d : File Name) (a : List ℕ) : (s.placed p d a f).InOrder (f.ino + 1) := by
  constructor
  · show insert f.ino s.allocated = _
    rw [h.allocated, Finset.range_add_one]
  · show s.next f.ino = if f.ino + 1 < s.inoNum then some (f.ino + 1) else none
    exact h.next f.ino le_rfl hlt
  · intro i hle hi
    have hlast : i < s.inoNum := hi
    rw [next_placed, Function.update_of_ne (by omega)]
    exact h.next i (by omega) hlast

/-- What both create calls do with the next inode. -/
lemma Built.createIn (h : s.Built) (hroom : s.allocated.card < s.inoNum) {ino : ℕ} {name : Name}
    (hdir : s.LiveDir ino name) {data : FileData Name}
    (hdata : ∀ a b, data = .directory a b → a = [] ∧ b = []) :
    ∃ i r, s.inoFreelist = some i ∧ (s.takeFree i).createIn i ino name data = some r ∧
      r.1.Built := by
  obtain ⟨m, hm⟩ := h.inOrder
  have hi := hm.freelist_eq hroom
  obtain ⟨p, d, a, hfile, hd, hda, hino, hname⟩ := h.tree.of_liveDir hdir
  have hnew := h.newIn hm hd hda hino hname hdata
  have hlen : ∀ a b, data = .directory a b → a.length = b.length := by
    intro a b hab
    rw [(hdata a b hab).1, (hdata a b hab).2]
  obtain ⟨r, hr, hinv⟩ := h.inv.createIn_takeFree hi hdir hlen
  have hdirectory : (s.takeFree m).directoryOf ino = some (p, d, a, a) := by
    apply (h.inv.takeFree hi).directoryOf_eq (Finset.mem_insert_of_mem hdir.2.1) _ hd hda
    rw [file_takeFree]
    exact hfile
  -- the entry is really added, so this is what the call leaves
  have hplaced : r.1 = s.placed p d a ⟨name, m, ino, data⟩ := by
    have hadd := h.tree.dirAdd_eq hnew
      (t := ((s.takeFree m).newFile ⟨name, m, ino, data⟩).1) rfl
    simp only [Fs.createIn, hdirectory, Option.bind_eq_bind, Option.bind_some,
      Option.some.injEq] at hr
    unfold placed
    rw [← hr, ← hadd]
    rfl
  have hg := grown_placed s p d a ⟨name, m, ino, data⟩
  have hlt : m < s.inoNum := by
    rw [hm.allocated, Finset.card_range] at hroom
    exact hroom
  refine ⟨m, r, hi, hr, hinv, ?_, ⟨m + 1, ?_⟩, ?_⟩
  · rw [hplaced] at hinv ⊢
    exact h.tree.grown hnew hg hinv.table
  · rw [hplaced]
    exact hm.placed hlt p d a
  · rw [hplaced]
    intro id hid
    have hcount : s.nextFile + 1 ≤ id := hid
    have hp : id ≠ p := by
      rintro rfl
      rw [h.fresh id (by omega)] at hd
      cases hd
    rw [hg.files, Function.update_of_ne hp, Function.update_of_ne (by omega)]
    exact h.fresh id (by omega)

/-- A create call that is allowed keeps a built tree. -/
lemma Built.step (h : s.Built) {call : FsCall Name} (hcreates : call.Creates)
    (hallowed : s.Allowed call) : ∃ s', s.step call = some s' ∧ s'.Built := by
  cases call with
  | createdir parentino name =>
    obtain ⟨hroom, hdir⟩ := hallowed
    have hdata : ∀ a b, FileData.directory [] [] = (.directory a b : FileData Name) →
        a = [] ∧ b = [] := by
      intro a b hab
      rw [FileData.directory.injEq] at hab
      exact ⟨hab.1.symm, hab.2.symm⟩
    obtain ⟨i, r, hi, hr, hbuilt⟩ := h.createIn hroom hdir hdata
    refine ⟨r.1, ?_, hbuilt⟩
    simp only [Fs.step, h.inv.fsCreatedir_eq hi hdir.1, hr, Option.map_some]
  | createfile dirino name symlink =>
    obtain ⟨hroom, hdir⟩ := hallowed
    have hdata : ∀ a b, newData symlink = .directory a b → a = [] ∧ b = [] := by
      cases symlink <;> simp [newData]
    obtain ⟨i, r, hi, hr, hbuilt⟩ := h.createIn hroom hdir hdata
    refine ⟨r.1, ?_, hbuilt⟩
    simp only [Fs.step, h.inv.fsCreatefile_eq hi hdir.1, hr, Option.map_some]
  | removeitem item purge => exact hcreates.elim

omit [DecidableEq Name] in
/-- After the setup the root is the only item. -/
lemma files_created {dot : Name} {id : ℕ} {f : File Name} (hf : (created dot).files id = some f) :
    id = 0 ∧ f = ⟨dot, ROOT_INO, INVALID_INO, .directory [] []⟩ := by
  by_cases hid : id = 0
  · subst hid
    exact ⟨rfl, (Option.some.inj hf).symm⟩
  · have hnone : (created dot).files id = none := Function.update_of_ne hid _ _
    rw [hnone] at hf
    cases hf

omit [DecidableEq Name] in
lemma tree_created (dot : Name) : (created dot).Tree := by
  have hentries : ∀ {id : ℕ} {f : File Name} {a b : List ℕ}, (created dot).files id = some f →
      f.data = .directory a b → a = [] ∧ b = [] := by
    intro id f a b hf hdata
    obtain ⟨-, rfl⟩ := files_created hf
    rw [FileData.directory.injEq] at hdata
    exact ⟨hdata.1.symm, hdata.2.symm⟩
  have hallocated : (created dot).allocated = {1, 0} := rfl
  refine ⟨(inv_created dot).table, ?_, ?_, ?_, ?_, ?_, ?_, ?_⟩
  · rw [hallocated]
    exact ⟨by decide, rfl⟩
  · intro id f hf
    obtain ⟨rfl, rfl⟩ := files_created hf
    rw [hallocated]
    show 1 ∈ ({1, 0} : Finset ℕ) ∧ 1 ≠ 0 ∧ _
    exact ⟨by decide, by decide, rfl⟩
  · intro i hi hne
    rw [hallocated, Finset.mem_insert, Finset.mem_singleton] at hi
    exact ⟨0, _, rfl, (hi.resolve_right hne).symm⟩
  · intro id f hf _
    obtain ⟨-, rfl⟩ := files_created hf
    exact ⟨rfl, [], [], rfl⟩
  · intro id f hf hne
    obtain ⟨-, rfl⟩ := files_created hf
    exact absurd rfl hne
  · intro p d a b hd hdata
    obtain ⟨rfl, rfl⟩ := hentries hd hdata
    exact ⟨rfl, List.nodup_nil, fun c hc => absurd hc List.not_mem_nil⟩
  · intro p d a b hd hdata c hc
    rw [(hentries hd hdata).1] at hc
    cases hc

omit [DecidableEq Name] in
lemma inOrder_created (dot : Name) : (created dot).InOrder 2 := by
  constructor
  · show insert 1 (insert 0 (∅ : Finset ℕ)) = Finset.range 2
    decide
  · rfl
  · intro i hle _
    unfold created
    rw [next_setFileOf]
    show (((empty : Fs Name).initInotable.takeFree 0).takeFree 1).next i = _
    rw [next_takeFree, next_takeFree, Function.update_of_ne (by omega),
      Function.update_of_ne (by omega)]
    rfl

omit [DecidableEq Name] in
lemma built_created (dot : Name) : (created dot).Built := by
  refine ⟨inv_created dot, tree_created dot, ⟨2, inOrder_created dot⟩, fun id hid => ?_⟩
  have hne : id ≠ 0 := Nat.one_le_iff_ne_zero.mp hid
  exact Function.update_of_ne hne _ _

end Fs

/-- An allowed call that creates an item. -/
def CreateAllowed [DecidableEq Name] (st : Option (Fs Name)) (call : FsCall Name) : Prop :=
  call.Creates ∧ CallAllowed st call

/-- Every run of allowed create calls from the setup reaches a built tree. -/
lemma built_of_creates [DecidableEq Name] {dot : Name} {calls : List (FsCall Name)}
    (h : Guarded fsStep CreateAllowed (Fs.fsCreate dot) calls) :
    ∃ s, runFrom fsStep (Fs.fsCreate dot) calls = some s ∧ s.Built := by
  apply h.invariant (I := fun st => ∃ s, st = some s ∧ s.Built)
  · rintro st call ⟨s, rfl, hbuilt⟩ ⟨hcreates, hallowed⟩
    exact hbuilt.step hcreates (hallowed s rfl)
  · exact ⟨Fs.created dot, Fs.fsCreate_eq dot, Fs.built_created dot⟩

end SymbiOS.Kld
