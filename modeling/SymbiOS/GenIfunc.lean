import SymbiOS.PyText
import Mathlib.Algebra.BigOperators.Group.List.Basic
import Mathlib.Algebra.Ring.Nat

/-!
# Declarations of ifuncs

`genifunc` writes a `DECLARE_IFUNC` line for every external function that a header
declares. `get_function_prototype_ifunc` splits the tokens of a declaration at the
function's name, by comparing spellings: every token that is spelled like the name
is taken for it.
-/
namespace SymbiOS.Gen
open SymbiOS.PyText

/-- The loop's variables. -/
structure Split where
  rettypeTokens : List Text
  parmsTokens : List Text
  count : ℤ
  name : ℤ

def splitStart : Split := ⟨[], [], 0, -1⟩

/-- One token, where the declared function is called `spelling`. -/
def splitStep (spelling : Text) (s : Split) (token : Text) : Split :=
  if token = spelling then { s with name := s.count }
  else if s.name = -1 then { s with rettypeTokens := s.rettypeTokens ++ [token] }
  else { s with parmsTokens := s.parmsTokens ++ [token], count := s.count + 1 }

def splitTokens (spelling : Text) (tokens : List Text) : Split :=
  tokens.foldl (splitStep spelling) splitStart

def rettypeOf (s : Split) : Text :=
  if s.rettypeTokens = [] then lit "void" else strip (join s.rettypeTokens)

def parmsOf (s : Split) : Text :=
  replace (slice (if s.parmsTokens = [] then lit "void" else strip (join s.parmsTokens)))

/-- The prototype and the ifunc line. -/
def getFunctionPrototypeIfunc (spelling : Text) (tokens : List Text) : Option (Text × Text) :=
  let s := splitTokens spelling tokens
  if s.count ≠ -1 then
    some (lit "extern " ++ rettypeOf s ++ lit " " ++ spelling ++ parmsOf s ++ lit ";",
      lit "DECLARE_IFUNC(" ++ spelling ++ lit ", " ++ rettypeOf s ++ lit ", (" ++ parmsOf s ++
        lit "))")
  else none

/-- A token: it neither starts nor ends with white space, and the only one that
starts with a comma is the comma. -/
structure IsToken (t : Text) : Prop where
  ne_nil : t ≠ []
  head_isSpace : ∀ c ∈ t.head?, isSpace c = false
  last_isSpace : ∀ c ∈ t.getLast?, isSpace c = false
  comma : t.head? = some ',' → t = [',']

/-- The declaration of a function: the tokens before its name, the name and the
tokens between the parentheses. The tokens are those of C; libclang returns the comments
among them too, which a declaration of this shape does not have. -/
structure Declaration where
  before : List Text
  name : Text
  inner : List Text
  before_ne_nil : before ≠ []
  before_tokens : ∀ t ∈ before, IsToken t
  inner_tokens : ∀ t ∈ inner, IsToken t
  name_ne_nil : name ≠ []
  name_chars : ∀ c ∈ name, isNameChar c
  /-- A keyword is no identifier. -/
  name_ne_void : name ≠ lit "void"

def Declaration.tokens (d : Declaration) : List Text :=
  d.before ++ d.name :: ([['(']] ++ d.inner ++ [[')']])

/-- A text that has the tokens in order, with a space between two of them that may be
missing before a comma. -/
inductive IsSpelling : List Text → Text → Prop where
  | nil : IsSpelling [] []
  | single (t : Text) : IsSpelling [t] t
  | space (t : Text) {u : Text} {ts : List Text} {s : Text} :
      IsSpelling (u :: ts) s → IsSpelling (t :: u :: ts) (t ++ ' ' :: s)
  | comma (t : Text) {ts : List Text} {s : Text} :
      IsSpelling ([','] :: ts) s → IsSpelling (t :: [','] :: ts) (t ++ s)

/-- The ifunc line has the name, and a return type and an argument list that are the
declaration's own. -/
structure KeepsSignature (d : Declaration) : Prop where
  rettype : IsSpelling d.before (rettypeOf (splitTokens d.name d.tokens))
  parms : IsSpelling d.inner (parmsOf (splitTokens d.name d.tokens))
  line : ∃ prototype, getFunctionPrototypeIfunc d.name d.tokens =
    some (prototype, lit "DECLARE_IFUNC(" ++ d.name ++ lit ", " ++
      rettypeOf (splitTokens d.name d.tokens) ++ lit ", (" ++
      parmsOf (splitTokens d.name d.tokens) ++ lit "))")

section Split

variable {spelling : Text}

/-- Up to the name the tokens are those of the return type. -/
lemma foldl_before (tokens : List Text) (h : spelling ∉ tokens) {s : Split} (hs : s.name = -1) :
    tokens.foldl (splitStep spelling) s =
      { s with rettypeTokens := s.rettypeTokens ++ tokens } := by
  induction tokens generalizing s with
  | nil => simp
  | cons t tokens ih =>
    have ht : t ≠ spelling := fun he => h (he ▸ List.mem_cons_self)
    have hstep : splitStep spelling s t =
        { s with rettypeTokens := s.rettypeTokens ++ [t] } := by
      rw [splitStep, if_neg ht, if_pos hs]
    have hrest := ih (fun hmem => h (List.mem_cons_of_mem t hmem))
      (s := splitStep spelling s t) (by rw [hstep]; exact hs)
    rw [List.foldl_cons, hrest, hstep]
    simp

/-- From the name on all others go to the parameters. -/
lemma foldl_after (tokens : List Text) {s : Split} (hcount : 0 ≤ s.count) (hname : s.name ≠ -1) :
    (tokens.foldl (splitStep spelling) s).rettypeTokens = s.rettypeTokens ∧
    (tokens.foldl (splitStep spelling) s).parmsTokens =
      s.parmsTokens ++ tokens.filter (· ≠ spelling) ∧
    0 ≤ (tokens.foldl (splitStep spelling) s).count := by
  induction tokens generalizing s with
  | nil => simpa using hcount
  | cons t tokens ih =>
    rw [List.foldl_cons]
    by_cases ht : t = spelling
    · have hstep : splitStep spelling s t = { s with name := s.count } := by
        rw [splitStep, if_pos ht]
      rw [hstep, List.filter_cons_of_neg (by simpa using ht)]
      exact ih hcount (by simp only; omega)
    · have hstep : splitStep spelling s t =
          { s with parmsTokens := s.parmsTokens ++ [t], count := s.count + 1 } := by
        rw [splitStep, if_neg ht, if_neg hname]
      obtain ⟨hret, hparms, hpos⟩ := ih (s := splitStep spelling s t)
        (by rw [hstep]; simp only; omega) (by rw [hstep]; exact hname)
      rw [List.filter_cons_of_pos (by simpa using ht)]
      refine ⟨?_, ?_, hpos⟩
      · rw [hret, hstep]
      · rw [hparms, hstep]
        simp

/-- The split is at the first token that is spelled like the name. -/
lemma splitTokens_eq (first second : List Text) (h : spelling ∉ first) :
    (splitTokens spelling (first ++ spelling :: second)).rettypeTokens = first ∧
    (splitTokens spelling (first ++ spelling :: second)).parmsTokens =
      second.filter (· ≠ spelling) ∧
    0 ≤ (splitTokens spelling (first ++ spelling :: second)).count := by
  have hsplit : splitTokens spelling (first ++ spelling :: second) =
      second.foldl (splitStep spelling) ⟨first, [], 0, 0⟩ := by
    rw [splitTokens, List.foldl_append, foldl_before first h rfl, List.foldl_cons, splitStep,
      if_pos rfl]
    simp [splitStart]
  rw [hsplit]
  exact foldl_after second (Int.le_refl 0) (by simp)

end Split

lemma isToken_singleton {c : Char} (hc : isSpace c = false) : IsToken [c] where
  ne_nil := List.cons_ne_nil c []
  head_isSpace := by simpa using hc
  last_isSpace := by simpa using hc
  comma := by simp

lemma join_cons {ts : List Text} (h : ts ≠ []) (t : Text) :
    join (t :: ts) = t ++ ' ' :: join ts := by
  cases ts with
  | nil => exact absurd rfl h
  | cons u ts => rfl

lemma isSpelling_join (ts : List Text) : IsSpelling ts (join ts) := by
  induction ts with
  | nil => exact .nil
  | cons t ts ih =>
    cases ts with
    | nil => exact .single t
    | cons u ts => exact .space t ih

lemma strip_join {ts : List Text} (h : ∀ t ∈ ts, IsToken t) : strip (join ts) = join ts := by
  apply strip_eq_self
  · cases ts with
    | nil => simp [join]
    | cons t ts =>
      have ht := h t List.mem_cons_self
      have hhead : (join (t :: ts)).head? = t.head? := by
        cases ts with
        | nil => rfl
        | cons u ts => exact List.head?_append_of_ne_nil _ ht.ne_nil
      rw [hhead]
      exact ht.head_isSpace
  · induction ts using List.reverseRecOn with
    | nil => simp [join]
    | append_singleton ts t _ =>
      have ht := h t (by simp)
      have hlast : (join (ts ++ [t])).getLast? = t.getLast? := by
        by_cases hts : ts = []
        · rw [hts]
          rfl
        · rw [join_concat hts, List.append_cons, List.getLast?_append_of_ne_nil _ ht.ne_nil]
      rw [hlast]
      exact ht.last_isSpace

lemma ink_join (ts : List Text) : ink (join ts) = (ts.map ink).sum := by
  induction ts with
  | nil => rfl
  | cons t ts ih =>
    by_cases hts : ts = []
    · simp [hts, join]
    · rw [join_cons hts, ink_append, ink_space, ih, List.map_cons, List.sum_cons]

lemma IsSpelling.ink_eq {ts : List Text} {s : Text} (h : IsSpelling ts s) :
    ink s = (ts.map ink).sum := by
  induction h with
  | nil => rfl
  | single t => simp
  | space t h ih => rw [ink_append, ink_space, ih, List.map_cons (l := _ :: _), List.sum_cons]
  | comma t h ih => rw [ink_append, ih, List.map_cons (l := _ :: _), List.sum_cons]

lemma IsSpelling.head_leads {t : Text} {ts : List Text} {s : Text} (h : IsSpelling (t :: ts) s) :
    t <+: s := by
  cases h with
  | single => exact List.prefix_rfl
  | space _ _ => exact List.prefix_append _ _
  | comma _ _ => exact List.prefix_append _ _

/-- The commas that are not at the front. -/
def laterCommas (ts : List Text) : ℕ := ts.tail.count [',']

/-- A spelling has a space for every gap that is not before a comma. -/
lemma IsSpelling.spaces_le {ts : List Text} {s : Text} (h : IsSpelling ts s) :
    (ts.map (List.count ' ')).sum + (ts.length - 1) ≤ s.count ' ' + laterCommas ts := by
  induction h with
  | nil => simp [laterCommas]
  | single t => simp [laterCommas]
  | @space t u ts s h ih =>
    simp only [laterCommas, List.tail_cons, List.map_cons, List.sum_cons, List.length_cons,
      List.count_append, List.count_cons_self, List.count_cons] at ih ⊢
    omega
  | @comma t ts s h ih =>
    simp only [laterCommas, List.tail_cons, List.map_cons, List.sum_cons, List.length_cons,
      List.count_append, List.count_cons_self] at ih ⊢
    omega

lemma IsToken.getLast?_ne_space {t : Text} (h : IsToken t) : t.getLast? ≠ some ' ' := by
  intro hlast
  have := h.last_isSpace ' ' hlast
  simp [isSpace, Char.isWhitespace] at this

lemma head?_join_iff {u : Text} (hu : IsToken u) (ts : List Text) :
    (join (u :: ts)).head? = some ',' ↔ u = [','] := by
  have hhead : (join (u :: ts)).head? = u.head? := by
    cases ts with
    | nil => rfl
    | cons v ts => exact List.head?_append_of_ne_nil _ hu.ne_nil
  rw [hhead]
  constructor
  · exact hu.comma
  · rintro rfl
    rfl

/-- A comma token is replaced with the space before it, and so is what looks like
one within a token. -/
lemma hits_join {ts : List Text} (h : ∀ t ∈ ts, IsToken t) :
    hits (join ts) = (ts.map hits).sum + laterCommas ts := by
  induction ts with
  | nil => rfl
  | cons t ts ih =>
    cases ts with
    | nil => simp [join, laterCommas]
    | cons u ts =>
      have hrest := ih fun v hv => h v (List.mem_cons_of_mem t hv)
      have hu : IsToken u := h u (by simp)
      rw [join, hits_append (h t List.mem_cons_self).getLast?_ne_space, hits, hrest]
      simp only [head?_join_iff hu, laterCommas, List.tail_cons, List.map_cons, List.sum_cons,
        List.count_cons, true_and, beq_iff_eq]
      omega

lemma count_join (ts : List Text) :
    (join ts).count ' ' = (ts.map (List.count ' ')).sum + (ts.length - 1) := by
  induction ts with
  | nil => rfl
  | cons t ts ih =>
    cases ts with
    | nil => simp [join]
    | cons u ts =>
      rw [join, List.count_append, List.count_cons_self, ih]
      simp only [List.map_cons, List.sum_cons, List.length_cons]
      omega

lemma isSpelling_replace_join {ts : List Text} (h : ∀ t ∈ ts, IsToken t)
    (hits_zero : ∀ t ∈ ts, hits t = 0) : IsSpelling ts (replace (join ts)) := by
  induction ts with
  | nil => exact .nil
  | cons t ts ih =>
    have ht := replace_of_hits_eq_zero (hits_zero t List.mem_cons_self)
    cases ts with
    | nil =>
      rw [join, ht]
      exact .single t
    | cons u ts =>
      have hrest := ih (fun v hv => h v (List.mem_cons_of_mem t hv))
        fun v hv => hits_zero v (List.mem_cons_of_mem t hv)
      have hu : IsToken u := h u (by simp)
      rw [join, replace_append (h t List.mem_cons_self).getLast?_ne_space, ht, replace_cons]
      by_cases hcomma : u = [',']
      · rw [if_pos ⟨rfl, (head?_join_iff hu ts).mpr hcomma⟩]
        subst hcomma
        exact .comma t hrest
      · rw [if_neg fun hc => hcomma ((head?_join_iff hu ts).mp hc.2)]
        exact .space t hrest

/-- What the replacement leaves is a spelling of the tokens when it replaces nothing
but spaces between them. -/
lemma isSpelling_replace_join_iff {ts : List Text} (h : ∀ t ∈ ts, IsToken t) :
    IsSpelling ts (replace (join ts)) ↔ ∀ t ∈ ts, ¬ [' ', ','] <:+: t := by
  simp only [← hits_eq_zero_iff]
  constructor
  · intro hspelling
    have hle := hspelling.spaces_le
    have hcount := count_replace (join ts)
    rw [hits_join h, count_join] at hcount
    have hsum : (ts.map hits).sum = 0 := by omega
    intro t ht
    exact List.sum_eq_zero_iff_forall_eq_nat.mp hsum _ (List.mem_map_of_mem ht)
  · exact isSpelling_replace_join h

namespace Declaration

variable (d : Declaration)

lemma ink_name_pos : 0 < ink d.name := by
  obtain ⟨c, hc⟩ := List.exists_mem_of_ne_nil d.name d.name_ne_nil
  apply List.countP_pos_iff.mpr
  refine ⟨c, hc, ?_⟩
  have hchar := d.name_chars c hc
  rw [bne_iff_ne]
  rintro rfl
  exact absurd hchar (by decide)

/-- Each token that is left out takes its characters with it. -/
lemma ink_filter_add (ts : List Text) :
    ((ts.filter (· ≠ d.name)).map ink).sum + ts.count d.name * ink d.name = (ts.map ink).sum := by
  induction ts with
  | nil => simp
  | cons t ts ih =>
    by_cases ht : t = d.name
    · rw [List.filter_cons_of_neg (by simpa using ht), List.map_cons, List.sum_cons, ht,
        List.count_cons_self, Nat.succ_mul]
      omega
    · rw [List.filter_cons_of_pos (by simpa using ht), List.map_cons, List.sum_cons, List.map_cons,
        List.sum_cons, List.count_cons_of_ne ht]
      omega

/-- What is spelled without the name is no spelling of tokens that have it. -/
lemma not_isSpelling_of_mem {ts : List Text} (h : d.name ∈ ts) {s : Text}
    (hs : ink s ≤ ((ts.filter (· ≠ d.name)).map ink).sum) : ¬ IsSpelling ts s := by
  intro hspelling
  have hink := hspelling.ink_eq
  have hsum := d.ink_filter_add ts
  have hpos : 0 < ts.count d.name * ink d.name :=
    Nat.mul_pos (List.count_pos_iff.mpr h) d.ink_name_pos
  omega

lemma name_ne_mark {c : Char} (hc : isNameChar c = false) : [c] ≠ d.name := by
  intro h
  have := d.name_chars c (by rw [← h]; exact List.mem_singleton_self c)
  rw [hc] at this
  exact absurd this (by decide)

lemma filter_name {ts : List Text} (h : d.name ∉ ts) : ts.filter (· ≠ d.name) = ts := by
  rw [List.filter_eq_self]
  intro t ht
  rw [decide_eq_true_eq]
  rintro rfl
  exact h ht

/-- The argument list, where the split is at the declared name. -/
lemma parms_eq (h : d.name ∉ d.before) :
    parmsOf (splitTokens d.name d.tokens) =
      replace (join (d.inner.filter (· ≠ d.name))) := by
  obtain ⟨-, hparms, -⟩ := splitTokens_eq d.before ([['(']] ++ d.inner ++ [[')']]) h
  set ts := d.inner.filter (· ≠ d.name) with hts
  have hfilter : ([['(']] ++ d.inner ++ [[')']]).filter (· ≠ d.name) =
      ['('] :: (ts ++ [[')']]) := by
    rw [List.filter_append, List.filter_append, ← hts]
    have hopen := d.name_ne_mark (c := '(') (by decide)
    have hclose := d.name_ne_mark (c := ')') (by decide)
    simp [hopen, hclose]
  rw [hfilter] at hparms
  rw [parmsOf, Declaration.tokens, hparms, if_neg (List.cons_ne_nil _ _)]
  have htokens : ∀ t ∈ ['('] :: (ts ++ [[')']]), IsToken t := by
    intro t ht
    simp only [List.mem_cons, List.mem_append, List.not_mem_nil, or_false] at ht
    obtain rfl | ht | rfl := ht
    · exact isToken_singleton (by decide)
    · exact d.inner_tokens t (List.mem_of_mem_filter ht)
    · exact isToken_singleton (by decide)
  rw [strip_join htokens]
  congr 1
  by_cases hnil : ts = []
  · rw [hnil]
    rfl
  · rw [join_cons (by simp), join_concat hnil]
    exact slice_between '(' ' ' ' ' ')' (join ts)

/-- The return type, where the split is at the declared name. -/
lemma rettype_eq (h : d.name ∉ d.before) :
    rettypeOf (splitTokens d.name d.tokens) = join d.before := by
  obtain ⟨hret, -, -⟩ := splitTokens_eq d.before ([['(']] ++ d.inner ++ [[')']]) h
  rw [rettypeOf, Declaration.tokens, hret, if_neg d.before_ne_nil, strip_join d.before_tokens]

lemma not_isSpelling_void (rest : List Text) : ¬ IsSpelling (d.name :: rest) (lit "void") := by
  intro h
  generalize hvoid : lit "void" = s at h
  cases h with
  | single => exact d.name_ne_void hvoid.symm
  | space _ _ =>
    have hmem : ' ' ∈ lit "void" := by simp [hvoid]
    exact absurd hmem (by decide)
  | comma _ hrest =>
    have hmem : ',' ∈ lit "void" := by
      rw [hvoid, List.mem_append]
      exact Or.inr (hrest.head_leads.mem (List.mem_singleton_self ','))
    exact absurd hmem (by decide)

/-- A return type that has the name among its tokens is cut short. -/
lemma rettype_cut (h : d.name ∈ d.before) :
    ¬ IsSpelling d.before (rettypeOf (splitTokens d.name d.tokens)) := by
  obtain ⟨first, second, hbefore, hnot⟩ := List.eq_append_cons_of_mem h
  have htokens : d.tokens = first ++ d.name ::
      (second ++ d.name :: ([['(']] ++ d.inner ++ [[')']])) := by
    simp [Declaration.tokens, hbefore]
  obtain ⟨hret, -, -⟩ := splitTokens_eq first (second ++ d.name ::
    ([['(']] ++ d.inner ++ [[')']])) hnot
  rw [rettypeOf, htokens, hret]
  by_cases hfirst : first = []
  · rw [if_pos hfirst, hbefore, hfirst]
    exact d.not_isSpelling_void second
  · have htok : ∀ t ∈ first, IsToken t := fun t ht => d.before_tokens t (by simp [hbefore, ht])
    rw [if_neg hfirst, strip_join htok]
    apply d.not_isSpelling_of_mem h
    rw [hbefore, ink_join, List.filter_append, d.filter_name hnot, List.map_append,
      List.sum_append]
    omega

end Declaration

/-- For every declaration, whatever its tokens are: the ifunc line has its return type
and its parameters exactly when no other token is spelled like the function, and no
token among the parameters has a comma after a space. -/
theorem keepsSignature_iff (d : Declaration) :
    KeepsSignature d ↔
      d.name ∉ d.before ∧ d.name ∉ d.inner ∧ ∀ t ∈ d.inner, ¬ [' ', ','] <:+: t := by
  constructor
  · intro h
    have hbefore : d.name ∉ d.before := fun hmem => d.rettype_cut hmem h.rettype
    have hparms := h.parms
    rw [d.parms_eq hbefore] at hparms
    have hinner : d.name ∉ d.inner := by
      intro hmem
      apply d.not_isSpelling_of_mem hmem _ hparms
      rw [ink_replace, ink_join]
    rw [d.filter_name hinner, isSpelling_replace_join_iff d.inner_tokens] at hparms
    exact ⟨hbefore, hinner, hparms⟩
  · rintro ⟨hbefore, hinner, hcommas⟩
    obtain ⟨-, -, hcount⟩ := splitTokens_eq d.before ([['(']] ++ d.inner ++ [[')']]) hbefore
    refine ⟨?_, ?_, ?_⟩
    · rw [d.rettype_eq hbefore]
      exact isSpelling_join d.before
    · rw [d.parms_eq hbefore, d.filter_name hinner, isSpelling_replace_join_iff d.inner_tokens]
      exact hcommas
    · rw [getFunctionPrototypeIfunc]
      exact ⟨_, if_pos (by rw [Declaration.tokens]; omega)⟩

lemma isToken_of_all {ts : List Text} (h : ts.all fun t =>
    t != [] && t.all (fun c => !isSpace c) && t.head? != some ',') : ∀ t ∈ ts, IsToken t := by
  intro t ht
  have hcheck := List.all_eq_true.mp h t ht
  simp only [Bool.and_eq_true, bne_iff_ne, List.all_eq_true, Bool.not_eq_true'] at hcheck
  obtain ⟨⟨hne, hspace⟩, hcomma⟩ := hcheck
  exact ⟨hne, fun c hc => hspace c (List.mem_of_mem_head? hc),
    fun c hc => hspace c (List.mem_of_getLast? hc), fun hhead => absurd hhead hcomma⟩

/-- `struct stat stat(const char *path)`. -/
def statDecl : Declaration where
  before := [lit "struct", lit "stat"]
  name := lit "stat"
  inner := [lit "const", lit "char", lit "*", lit "path"]
  before_ne_nil := List.cons_ne_nil _ _
  before_tokens := isToken_of_all (by decide)
  inner_tokens := isToken_of_all (by decide)
  name_ne_nil := by decide
  name_chars := List.all_eq_true.mp (by decide)
  name_ne_void := by decide

/-- The function's own name ends the return type at `struct`. -/
theorem getFunctionPrototypeIfunc_loses_tag :
    (getFunctionPrototypeIfunc statDecl.name statDecl.tokens).map Prod.snd =
      some (lit "DECLARE_IFUNC(stat, struct, (const char * path))") ∧
    ¬ KeepsSignature statDecl := by
  refine ⟨by decide, fun h => ?_⟩
  exact statDecl.rettype_cut (by decide) h.rettype

end SymbiOS.Gen
