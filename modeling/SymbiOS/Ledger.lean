import Mathlib.Data.Finset.Insert
import Mathlib.Data.Finset.Erase
import Mathlib.Algebra.Order.Group.Multiset
import Mathlib.Tactic.Abel

/-!
# Programs that acquire and release

A program holds a finite set of resources. What it acquires gets a name that is not held,
and to release a name that is not held has no meaning. A part of a program owns some of
what is held; the rest is a frame that it never touches.
-/
namespace SymbiOS

variable {R α β : Type}

/-- A program over the resources that are held; `none` is a run without a meaning. -/
abbrev Use (R α : Type) := StateT (Finset R) Option α

/-- How names are chosen for what is acquired. -/
structure Namer (R : Type) where
  pick : Finset R → R
  fresh : ∀ held, pick held ∉ held

namespace Use

section

variable [DecidableEq R]

def acquire (new : Namer R) : Use R R :=
  fun held => some (new.pick held, insert (new.pick held) held)

def release (r : R) : Use R Unit :=
  fun held => if r ∈ held then some ((), held.erase r) else none

def releaseAll : List R → Use R Unit
  | [] => pure ()
  | r :: rs => do
      release r
      releaseAll rs

end

/-- The run ends, whatever else is held, and what is owned at its end is as stated. -/
def Spec (own : Multiset R) (m : Use R α) (post : α → Multiset R → Prop) : Prop :=
  ∀ frame held : Finset R, held.val = own + frame.val →
    ∃ a held' own', m held = some (a, held') ∧ held'.val = own' + frame.val ∧ post a own'

variable {own : Multiset R} {m : Use R α} {post : α → Multiset R → Prop}

theorem spec_pure {a : α} (h : post a own) : Spec own (pure a : Use R α) post :=
  fun _ held hheld => ⟨a, held, own, rfl, hheld, h⟩

theorem Spec.bind {f : α → Use R β} {post' : β → Multiset R → Prop} (h : Spec own m post)
    (hf : ∀ a o, post a o → Spec o (f a) post') : Spec own (m >>= f) post' := by
  intro frame held hheld
  obtain ⟨a, held₁, o, hm, hheld₁, hpost⟩ := h frame held hheld
  obtain ⟨b, held₂, o', hb, hheld₂, hpost'⟩ := hf a o hpost frame held₁ hheld₁
  refine ⟨b, held₂, o', ?_, hheld₂, hpost'⟩
  show (m held).bind (fun p => f p.1 p.2) = _
  rw [hm]
  exact hb

theorem Spec.mono {post' : α → Multiset R → Prop} (h : Spec own m post)
    (himp : ∀ a o, post a o → post' a o) : Spec own m post' := by
  intro frame held hheld
  obtain ⟨a, held', o, hm, hheld', hpost⟩ := h frame held hheld
  exact ⟨a, held', o, hm, hheld', himp a o hpost⟩

/-- A part of a program leaves alone what it does not own. -/
theorem Spec.frame (h : Spec own m post) (extra : Multiset R) :
    Spec (own + extra) m fun a o => ∃ o', post a o' ∧ o = o' + extra := by
  intro frame held hheld
  have hnodup : (extra + frame.val).Nodup := by
    apply Multiset.nodup_of_le _ held.nodup
    rw [hheld, add_assoc]
    exact Multiset.le_add_left _ _
  obtain ⟨a, held', o, hm, hheld', hpost⟩ := h ⟨_, hnodup⟩ held (by rw [hheld, add_assoc])
  exact ⟨a, held', o + extra, hm, by rw [hheld', add_assoc], o, hpost, rfl⟩

/-- A part of a program that leaves something alone, and then the rest. -/
theorem Spec.bind_frame {f : α → Use R β} {post' : β → Multiset R → Prop} {extra : Multiset R}
    (h : Spec own m post) (hf : ∀ a o, post a o → Spec (o + extra) (f a) post') :
    Spec (own + extra) (m >>= f) post' := by
  apply (h.frame extra).bind
  rintro a _ ⟨o, ho, rfl⟩
  exact hf a o ho

theorem Spec.of_eq {own' : Multiset R} (h : Spec own m post) (heq : own' = own) :
    Spec own' m post := heq ▸ h

/-- From nothing of its own, in a program that holds the frame. -/
theorem Spec.run (h : Spec 0 m post) (held : Finset R) :
    ∃ a held' own', m held = some (a, held') ∧ held'.val = own' + held.val ∧ post a own' :=
  h held held (zero_add held.val).symm

variable [DecidableEq R]

theorem spec_acquire_of {new : Namer R} {P : R → Prop} (h : ∀ held, P (new.pick held)) :
    Spec own (acquire new) fun r o => P r ∧ o = {r} + own := by
  intro frame held hheld
  refine ⟨new.pick held, insert (new.pick held) held, _, rfl, ?_, h held, rfl⟩
  rw [Finset.insert_val_of_notMem (new.fresh held), hheld, ← Multiset.singleton_add, add_assoc]

theorem spec_acquire (new : Namer R) : Spec own (acquire new) fun r o => o = {r} + own :=
  (spec_acquire_of (P := fun _ => True) fun _ => trivial).mono fun _ _ h => h.2

theorem spec_release (r : R) : Spec ({r} + own) (release r) fun _ o => o = own := by
  intro frame held hheld
  have hval : held.val = r ::ₘ (own + frame.val) := by
    rw [hheld, add_assoc, Multiset.singleton_add]
  have hmem : r ∈ held := by
    rw [← Finset.mem_val, hval]
    exact Multiset.mem_cons_self _ _
  refine ⟨(), held.erase r, own, if_pos hmem, ?_, rfl⟩
  rw [Finset.erase_val, hval, Multiset.erase_cons_head]

/-- The resource is among what is owned. -/
theorem spec_release_of (own : Multiset R) {own' : Multiset R} (r : R) (h : own' = {r} + own) :
    Spec own' (release r) fun _ o => o = own := (spec_release r).of_eq h

theorem spec_releaseAll (rs : List R) :
    Spec ((rs : Multiset R) + own) (releaseAll rs) fun _ o => o = own := by
  induction rs with
  | nil => exact spec_pure (zero_add own)
  | cons r rs ih =>
    rw [← Multiset.cons_coe, ← Multiset.singleton_add, add_assoc]
    apply (spec_release r).bind
    rintro - o rfl
    exact ih

theorem spec_releaseAll_of (own : Multiset R) {own' : Multiset R} (rs : List R)
    (h : own' = (rs : Multiset R) + own) :
    Spec own' (releaseAll rs) fun _ o => o = own := (spec_releaseAll rs).of_eq h

end Use

end SymbiOS
