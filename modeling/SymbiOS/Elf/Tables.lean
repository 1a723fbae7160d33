import Mathlib.Data.List.Basic

/-!
# String tables and System V hash tables

What a dynamic linker reads from a shared object: NUL-terminated names in a
string table, and a hash table of 32-bit words, `nbucket`, `nchain`, the buckets
and the chains. The lookup follows the words as they are and says where it ends.
-/
namespace SymbiOS.Elf

/-- The string that starts at an offset. -/
def strAt (bytes : List UInt8) (off : ℕ) : List UInt8 := (bytes.drop off).takeWhile (· != 0)

/-- A terminated string reads back, whatever comes before and after it. -/
theorem strAt_append (before s after : List UInt8) (hs : 0 ∉ s) :
    strAt (before ++ s ++ 0 :: after) before.length = s := by
  unfold strAt
  rw [List.append_assoc, List.drop_left]
  induction s with
  | nil => simp
  | cons c s ih =>
    have hc : c ≠ 0 := fun he => hs (he ▸ List.mem_cons_self)
    have hrest := ih fun hmem => hs (List.mem_cons_of_mem c hmem)
    rw [List.cons_append, List.takeWhile_cons_of_pos (by simpa using hc), hrest]

/-- The hash function of the System V ABI. -/
def elfHash (name : List UInt8) : BitVec 32 :=
  name.foldl
    (fun h c =>
      let h := (h <<< 4) + c.toBitVec.setWidth 32
      let g := h &&& 0xf0000000
      (h ^^^ (g >>> 24)) &&& ~~~g)
    0

/-- Where a lookup ends: at a symbol, at index 0, at a word outside the table, or
nowhere with the steps it was given. -/
inductive Lookup where
  | found (i : ℕ)
  | absent
  | outside
  | running
  deriving Repr, DecidableEq

/-- Follow the chain from index `i`. -/
def chase (words : List (BitVec 32)) (nbucket : ℕ) (isName : ℕ → Bool) : ℕ → ℕ → Lookup
  | 0, _ => .running
  | fuel + 1, i =>
      if i = 0 then .absent
      else if isName i then .found i
      else
        match words[2 + nbucket + i]? with
        | none => .outside
        | some next => chase words nbucket isName fuel next.toNat

def lookup (words : List (BitVec 32)) (isName : ℕ → Bool) (name : List UInt8) (fuel : ℕ) :
    Lookup :=
  match words[0]? with
  | none => .outside
  | some nbucket =>
      if nbucket = 0 then .outside
      else
        match words[2 + (elfHash name).toNat % nbucket.toNat]? with
        | none => .outside
        | some i => chase words nbucket.toNat isName fuel i.toNat

/-- The words are the two counts, the buckets and the chains. -/
def WellFormed (words : List (BitVec 32)) : Prop :=
  ∃ nbucket nchain, words[0]? = some nbucket ∧ words[1]? = some nchain ∧
    words.length = 2 + nbucket.toNat + nchain.toNat

/-- An empty bucket ends the lookup. -/
theorem lookup_of_empty_bucket {words : List (BitVec 32)} {nbucket : BitVec 32}
    {name : List UInt8} (isName : ℕ → Bool) (fuel : ℕ) (hn : words[0]? = some nbucket)
    (hpos : nbucket ≠ 0)
    (hb : words[2 + (elfHash name).toNat % nbucket.toNat]? = some 0) :
    lookup words isName name (fuel + 1) = .absent := by
  simp only [lookup, hn, if_neg hpos, hb]
  simp [chase]

end SymbiOS.Elf
