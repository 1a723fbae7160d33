import SymbiOS.HexString
import Mathlib.Data.List.DropRight
import Mathlib.Data.List.Infix
import Mathlib.Data.List.Nodup

/-!
# Where `libkallsyms.so` is mapped

`find_libkallsyms` reads `/proc/self/maps` into a buffer of 256 bytes. What it
takes for a line is what one `fgets` returns: the first 255 bytes of a line that is
longer, then the next 255, and so on. Each piece is searched for the name and, where
it is found, read as if it started with an address range.
-/
namespace SymbiOS.MapsScan
open SymbiOS.CLib

def newline : UInt8 := 10

def LINE_MAX : ℕ := 256

def kallsyms : List UInt8 := ascii "libkallsyms.so"

/-- `fgets` with `room` bytes before the NUL: what it stores and what is left of the
file. -/
def fgets : ℕ → List UInt8 → List UInt8 × List UInt8
  | 0, file => ([], file)
  | _ + 1, [] => ([], [])
  | room + 1, c :: file =>
    if c = newline then ([c], file)
    else (c :: (fgets room file).1, (fgets room file).2)

/-- The string from the last `c` on. -/
def strrchr (c : UInt8) (s : List UInt8) : Option (List UInt8) :=
  if c ∈ s then some (c :: s.rtakeWhile (· != c)) else none

/-- Whether `strstr` finds `needle`. -/
def strstr (s needle : List UInt8) : Bool := decide (needle <:+: s)

def iskallsyms (path : List UInt8) : Bool := strstr path kallsyms

/-- The memory at a string: its bytes, then NUL. -/
def memoryAt (s : List UInt8) (i : ℕ) : UInt8 := s.getD i 0

/-- The return value and the two results. -/
structure Found where
  rc : ℤ
  start : BitVec 64
  stop : BitVec 64
  deriving Repr, DecidableEq

def notFound : Found := ⟨0, 0, 0⟩

/-- The two conversions, on the line without its newline. -/
def readRange (line : List UInt8) : Found :=
  match hexstr2ull (memoryAt line) line.length with
  | .notDigit => notFound
  | .stored 0 _ => notFound
  | .stored (n + 1) x =>
    match hexstr2ull (fun i => memoryAt line (n + 2 + i)) (line.length - (n + 2 : ℕ)) with
    | .stored (_ + 1) y => ⟨1, x, y⟩
    | _ => ⟨0, x, 0⟩

/-- The loop's body on the string in the buffer: `none` goes on with the next one. -/
def tryLine (line : List UInt8) : Option Found :=
  match strrchr slash line with
  | none => none
  | some pathname =>
    if strstr line (ascii "[stack]") || strstr line (ascii "[heap]") then none
    -- the newline is cut off in the buffer, from the path and from the line
    else if pathname.getLast? = some newline then
      if iskallsyms pathname.dropLast then some (readRange line.dropLast) else none
    else if iskallsyms pathname then some (readRange line)
    else none

/-- The loop over the file. Every `fgets` takes at least one byte. -/
def scanMaps : ℕ → List UInt8 → Found
  | 0, _ => notFound
  | fuel + 1, file =>
    if file = [] then notFound
    else
      let read := fgets (LINE_MAX - 1) file
      match tryLine (read.1.takeWhile (· != 0)) with
      | some found => found
      | none => scanMaps fuel read.2

/-- `maps` is the content of the file, where it can be opened. -/
def findLibkallsyms (maps : Option (List UInt8)) : Found :=
  match maps with
  | none => notFound
  | some file => scanMaps file.length file

/-- A line of the file: two addresses, then the fields up to the path. -/
structure MapsLine where
  lo : List UInt8
  hi : List UInt8
  attrs : List UInt8
  path : List UInt8
  lo_ne_nil : lo ≠ []
  hi_ne_nil : hi ≠ []
  lo_digits : ∀ c ∈ lo, isXdigit c
  hi_digits : ∀ c ∈ hi, isXdigit c
  attrs_head : attrs.head? = some 32
  attrs_plain : ∀ c ∈ attrs, c ≠ slash ∧ c ≠ newline ∧ c ≠ 0
  path_plain : ∀ c ∈ path, c ≠ newline ∧ c ≠ 0

namespace MapsLine

/-- What stands before the path. -/
def fields (l : MapsLine) : List UInt8 := l.lo ++ 45 :: (l.hi ++ l.attrs)

def text (l : MapsLine) : List UInt8 := l.fields ++ l.path

def range (l : MapsLine) : BitVec 64 × BitVec 64 :=
  (BitVec.ofNat 64 (hexValue l.lo), BitVec.ofNat 64 (hexValue l.hi))

def pathHas (l : MapsLine) : Bool := decide (kallsyms <:+: l.path)

/-- The name is in the last component. A mapping's name without a slash is no path. -/
def lastHas (l : MapsLine) : Bool :=
  decide (slash ∈ l.path ∧ kallsyms <:+: l.path.rtakeWhile (· != slash))

end MapsLine

def mapsFile (lines : List MapsLine) : List UInt8 := lines.flatMap fun l => l.text ++ [newline]

/-- The range found is that of a line with the name in its path, and the first line
with the name in its last component is found. -/
structure Locates (lines : List MapsLine) (found : Found) : Prop where
  sound : found.rc = 1 → ∃ l ∈ lines, l.pathHas ∧ (found.start, found.stop) = l.range
  complete : ∀ before l after, lines = before ++ l :: after → l.lastHas →
    (∀ l' ∈ before, ¬ l'.lastHas) → found.rc = 1 ∧ (found.start, found.stop) = l.range

/-- The pieces in which a line is read, without the newline. -/
def splitText (text : List UInt8) : List (List UInt8) :=
  if text.length < LINE_MAX - 1 then [text]
  else text.take (LINE_MAX - 1) :: splitText (text.drop (LINE_MAX - 1))
termination_by text.length
decreasing_by simp only [List.length_drop, LINE_MAX] at *; omega

/-- A piece, the line it is cut from and whether it is the first of its line. -/
structure Piece where
  line : MapsLine
  isHead : Bool
  text : List UInt8

def pieces (l : MapsLine) : List Piece :=
  match splitText l.text with
  | [] => []
  | first :: later => ⟨l, true, first⟩ :: later.map fun text => ⟨l, false, text⟩

/-- The test that a piece has to pass. -/
def accepts (text : List UInt8) : Bool :=
  decide (slash ∈ text ∧ ¬ ascii "[stack]" <:+: text ∧ ¬ ascii "[heap]" <:+: text ∧
    kallsyms <:+: text.rtakeWhile (· != slash))

/-- The two numbers that a text starts with. -/
def leadingRange (text : List UInt8) : Option (BitVec 64 × BitVec 64) :=
  let lo := text.takeWhile isXdigit
  let hi := ((text.dropWhile isXdigit).drop 1).takeWhile isXdigit
  if lo = [] ∨ hi = [] then none
  else some (BitVec.ofNat 64 (hexValue lo), BitVec.ofNat 64 (hexValue hi))

/-- The line passes the test in its first piece. -/
def MapsLine.headAccepted (l : MapsLine) : Bool := accepts (l.text.take (LINE_MAX - 1))

/-- It passes the test in a later piece. -/
def MapsLine.tailAccepted (l : MapsLine) : Bool :=
  (splitText (l.text.drop (LINE_MAX - 1))).any accepts

/-- The file can be read by the first pieces of its lines: up to the first line that
passes the test in its first piece no line passes it only later, and the first line with
the name in its last component is that line. -/
structure ReadByHeads (lines : List MapsLine) : Prop where
  starts : ∀ before l after, lines = before ++ l :: after →
    (∀ l' ∈ before, ¬ l'.headAccepted) → l.tailAccepted → l.headAccepted
  first : ∀ before l after, lines = before ++ l :: after → l.lastHas →
    (∀ l' ∈ before, ¬ l'.lastHas) → l.headAccepted ∧ ∀ l' ∈ before, ¬ l'.headAccepted

/-- The lines have different ranges, and no later piece that passes the test starts with
one of them. -/
structure ToldApart (lines : List MapsLine) : Prop where
  ranges : (lines.map MapsLine.range).Nodup
  later : ∀ l ∈ lines, ∀ text ∈ splitText (l.text.drop (LINE_MAX - 1)), accepts text →
    ∀ l' ∈ lines, leadingRange text ≠ some l'.range

/-- The first piece that passes the test starts the line that is looked for; or it
starts in the middle of a line, and what it starts with is that line's range anyway. -/
def StopsRight (lines : List MapsLine) : Prop :=
  match (lines.flatMap pieces).find? (fun p => accepts p.text) with
  | none => lines.find? MapsLine.lastHas = none
  | some p =>
    if p.isHead then ∀ l, lines.find? MapsLine.lastHas = some l → l.range = p.line.range
    else
      match leadingRange p.text with
      | none => lines.find? MapsLine.lastHas = none
      | some r => (∃ l ∈ lines, l.pathHas ∧ l.range = r) ∧
          ∀ l, lines.find? MapsLine.lastHas = some l → l.range = r

lemma fgets_eq {text : List UInt8} (htext : newline ∉ text) (room : ℕ) (rest : List UInt8) :
    fgets room (text ++ newline :: rest) =
      if text.length < room then (text ++ [newline], rest)
      else (text.take room, text.drop room ++ newline :: rest) := by
  induction text generalizing room with
  | nil => cases room <;> simp [fgets]
  | cons c text ih =>
    have hc : c ≠ newline := fun h => htext (by simp [h])
    cases room with
    | zero => simp [fgets]
    | succ room =>
      rw [List.cons_append, fgets, if_neg hc, ih (fun h => htext (List.mem_cons_of_mem c h))]
      by_cases hlen : text.length < room
      · rw [if_pos hlen, if_pos (by simpa using hlen)]
        rfl
      · rw [if_neg hlen, if_neg (by simpa using hlen)]
        rfl

lemma infix_newline_iff {needle s : List UInt8} (h : newline ∉ needle) :
    needle <:+: s ++ [newline] ↔ needle <:+: s := by
  rw [List.infix_concat_iff]
  constructor
  · rintro (hsuffix | hinfix)
    · obtain rfl | ⟨t, rfl, -⟩ := List.suffix_concat_iff.mp hsuffix
      · exact List.nil_infix
      · exact absurd (by simp) h
    · exact hinfix
  · exact Or.inr

lemma rtakeWhile_newline (s : List UInt8) :
    (s ++ [newline]).rtakeWhile (· != slash) = s.rtakeWhile (· != slash) ++ [newline] :=
  List.rtakeWhile_concat_pos _ _ _ (by decide)

lemma kallsyms_infix_slash (s : List UInt8) : kallsyms <:+: slash :: s ↔ kallsyms <:+: s := by
  rw [List.infix_cons_iff, or_iff_right]
  intro h
  obtain ⟨hhead, -⟩ := List.cons_prefix_cons.mp h
  exact absurd hhead (by decide)

lemma accepts_iff {text : List UInt8} (hslash : slash ∈ text) :
    accepts text ↔ (strstr text (ascii "[stack]") || strstr text (ascii "[heap]")) = false ∧
      iskallsyms (slash :: text.rtakeWhile (· != slash)) := by
  simp only [accepts, strstr, iskallsyms, kallsyms_infix_slash, decide_eq_true_eq,
    Bool.or_eq_false_iff, decide_eq_false_iff_not, hslash, true_and, and_assoc]

/-- The body on a piece that does not end in a newline. -/
lemma tryLine_eq {text : List UInt8} (htext : newline ∉ text) :
    tryLine text = if accepts text then some (readRange text) else none := by
  by_cases hslash : slash ∈ text
  · have hlast : (slash :: text.rtakeWhile (· != slash)).getLast? ≠ some newline := by
      intro h
      obtain hslash' | hmem := List.mem_cons.mp (List.mem_of_getLast? h)
      · exact absurd hslash' (by decide)
      · exact htext ((List.rtakeWhile_suffix _ text).mem hmem)
    simp only [tryLine, strrchr, if_pos hslash, if_neg hlast, accepts_iff hslash]
    cases strstr text (ascii "[stack]") || strstr text (ascii "[heap]") <;> simp
  · simp [tryLine, strrchr, accepts, hslash]

/-- The body on a piece that does. -/
lemma tryLine_newline (text : List UInt8) :
    tryLine (text ++ [newline]) = if accepts text then some (readRange text) else none := by
  have hmem : slash ∈ text ++ [newline] ↔ slash ∈ text := by
    rw [List.mem_append, List.mem_singleton, or_iff_left (by decide)]
  by_cases hslash : slash ∈ text
  · have hlast : (slash :: (text.rtakeWhile (· != slash) ++ [newline])).getLast? =
        some newline := by
      rw [← List.cons_append, List.getLast?_concat]
    have hdrop : (slash :: (text.rtakeWhile (· != slash) ++ [newline])).dropLast =
        slash :: text.rtakeWhile (· != slash) := by
      rw [← List.cons_append, List.dropLast_concat]
    have hstack : strstr (text ++ [newline]) (ascii "[stack]") = strstr text (ascii "[stack]") :=
      decide_eq_decide.mpr (infix_newline_iff (by decide))
    have hheap : strstr (text ++ [newline]) (ascii "[heap]") = strstr text (ascii "[heap]") :=
      decide_eq_decide.mpr (infix_newline_iff (by decide))
    simp only [tryLine, strrchr, if_pos (hmem.mpr hslash), rtakeWhile_newline, hstack, hheap,
      if_pos hlast, hdrop, List.dropLast_concat, accepts_iff hslash]
    cases strstr text (ascii "[stack]") || strstr text (ascii "[heap]") <;> simp
  · simp [tryLine, strrchr, accepts, hslash, hmem]

/-- A conversion at position `k` of a string, bounded by what is left of it. -/
lemma hexstr2ull_at (s : List UInt8) (k : ℕ) :
    hexstr2ull (fun i => memoryAt s (k + i)) (s.length - (k : ℕ)) =
      .stored ((s.drop k).takeWhile isXdigit).length
        (BitVec.ofNat 64 (hexValue ((s.drop k).takeWhile isXdigit))) := by
  have hbytes : bytesBelow (fun i => memoryAt s (k + i)) (s.length - k) = s.drop k := by
    apply List.ext_getElem
    · simp [bytesBelow]
    · intro i _ hi
      have hlt : k + i < s.length := by
        rw [List.length_drop] at hi
        omega
      simp [bytesBelow, memoryAt, hlt]
  rw [hexstr2ull_spec, Int.toNat_sub, hbytes]

lemma drop_takeWhile_length (s : List UInt8) :
    s.drop ((s.takeWhile isXdigit).length + 1) = (s.dropWhile isXdigit).drop 1 := by
  have h := congrArg (List.drop (s.takeWhile isXdigit).length)
    (List.takeWhile_append_dropWhile (p := isXdigit) (l := s))
  rw [List.drop_left] at h
  rw [← List.drop_drop, ← h]

lemma readRange_eq (text : List UInt8) :
    readRange text =
      let lo := text.takeWhile isXdigit
      let hi := ((text.dropWhile isXdigit).drop 1).takeWhile isXdigit
      if lo = [] then notFound
      else if hi = [] then ⟨0, BitVec.ofNat 64 (hexValue lo), 0⟩
      else ⟨1, BitVec.ofNat 64 (hexValue lo), BitVec.ofNat 64 (hexValue hi)⟩ := by
  have hlo := hexstr2ull_at text 0
  simp only [Nat.zero_add, Nat.cast_zero, Int.sub_zero, List.drop_zero] at hlo
  have hhi := hexstr2ull_at text ((text.takeWhile isXdigit).length + 1)
  rw [drop_takeWhile_length] at hhi
  simp only
  cases hlen : (text.takeWhile isXdigit).length with
  | zero => simp [readRange, hlo, List.length_eq_zero_iff.mp hlen]
  | succ n =>
    have hne : text.takeWhile isXdigit ≠ [] := List.ne_nil_of_length_eq_add_one hlen
    rw [hlen] at hhi
    rw [readRange, hlo, hlen, if_neg hne]
    simp only [hhi]
    cases hlen' : (((text.dropWhile isXdigit).drop 1).takeWhile isXdigit).length with
    | zero => rw [if_pos (List.length_eq_zero_iff.mp hlen')]
    | succ m => rw [if_neg (List.ne_nil_of_length_eq_add_one hlen')]

lemma readRange_of_some {text : List UInt8} {r : BitVec 64 × BitVec 64}
    (h : leadingRange text = some r) : readRange text = ⟨1, r.1, r.2⟩ := by
  simp only [leadingRange, Option.ite_none_left_eq_some, not_or, Option.some.injEq] at h
  obtain ⟨⟨hlo, hhi⟩, rfl⟩ := h
  simp only [readRange_eq, if_neg hlo, if_neg hhi]

lemma readRange_of_none {text : List UInt8} (h : leadingRange text = none) :
    (readRange text).rc = 0 := by
  simp only [leadingRange, ite_eq_left_iff, reduceCtorEq, imp_false, not_not] at h
  simp only [readRange_eq]
  obtain hlo | hhi := h
  · rw [if_pos hlo]
    rfl
  · rw [if_pos hhi]
    split <;> rfl

lemma MapsLine.newline_not_mem_fields (l : MapsLine) :
    ∀ c ∈ l.fields, c ≠ slash ∧ c ≠ newline ∧ c ≠ 0 := by
  have hdigit : ∀ c, isXdigit c → c ≠ slash ∧ c ≠ newline ∧ c ≠ 0 := by
    intro c hc
    refine ⟨?_, ?_, ?_⟩ <;> rintro rfl <;> exact absurd hc (by decide)
  intro c hc
  simp only [fields, List.mem_append, List.mem_cons] at hc
  obtain hlo | rfl | hhi | hattrs := hc
  · exact hdigit c (l.lo_digits c hlo)
  · decide
  · exact hdigit c (l.hi_digits c hhi)
  · exact l.attrs_plain c hattrs

lemma MapsLine.text_plain (l : MapsLine) : ∀ c ∈ l.text, c ≠ newline ∧ c ≠ 0 := by
  intro c hc
  obtain hfields | hpath := List.mem_append.mp hc
  · exact (l.newline_not_mem_fields c hfields).2
  · exact l.path_plain c hpath

/-- The result of a search that stops at the first text it accepts. -/
def firstAccepted (texts : List (List UInt8)) : Found :=
  match texts.find? accepts with
  | none => notFound
  | some text => readRange text

lemma firstAccepted_cons (text : List UInt8) (texts : List (List UInt8)) :
    firstAccepted (text :: texts) =
      if accepts text then readRange text else firstAccepted texts := by
  unfold firstAccepted
  cases h : accepts text with
  | true => rw [List.find?_cons_of_pos h]; rfl
  | false => rw [List.find?_cons_of_neg (by simp [h])]; rfl

lemma scanMaps_nil (fuel : ℕ) : scanMaps fuel [] = notFound := by
  cases fuel <;> simp [scanMaps]

lemma mapsFile_cons (l : MapsLine) (lines : List MapsLine) :
    mapsFile (l :: lines) = l.text ++ newline :: mapsFile lines := by
  simp [mapsFile]

/-- A string without NUL is seen whole. -/
lemma takeWhile_ne_zero {s : List UInt8} (h : ∀ c ∈ s, c ≠ 0) : s.takeWhile (· != 0) = s := by
  rw [List.takeWhile_eq_self_iff]
  intro c hc
  simpa using h c hc

/-- The loop from the start of a piece on. -/
lemma scanMaps_eq (fuel : ℕ) {text : List UInt8} (htext : ∀ c ∈ text, c ≠ newline ∧ c ≠ 0)
    (lines : List MapsLine) (hfuel : (text ++ newline :: mapsFile lines).length ≤ fuel) :
    scanMaps fuel (text ++ newline :: mapsFile lines) =
      firstAccepted (splitText text ++ lines.flatMap fun l => splitText l.text) := by
  induction fuel generalizing text lines with
  | zero => simp at hfuel
  | succ fuel ih =>
    have hnewline : newline ∉ text := fun h => (htext newline h).1 rfl
    have hzero : ∀ c ∈ text, c ≠ 0 := fun c hc => (htext c hc).2
    rw [List.length_append, List.length_cons] at hfuel
    rw [scanMaps, if_neg (by simp), splitText, fgets_eq hnewline]
    by_cases hshort : text.length < LINE_MAX - 1
    · have hseen : (text ++ [newline]).takeWhile (· != 0) = text ++ [newline] := by
        apply takeWhile_ne_zero
        intro c hc
        obtain hc | hc := List.mem_append.mp hc
        · exact hzero c hc
        · rw [List.mem_singleton.mp hc]
          decide
      -- the loop goes on with the next line
      have hnext : scanMaps fuel (mapsFile lines) =
          firstAccepted (lines.flatMap fun l => splitText l.text) := by
        cases lines with
        | nil => exact scanMaps_nil fuel
        | cons l lines =>
          rw [mapsFile_cons] at hfuel ⊢
          exact ih l.text_plain lines (by omega)
      rw [if_pos hshort, if_pos hshort, List.singleton_append, firstAccepted_cons]
      simp only [hseen, tryLine_newline]
      cases accepts text with
      | true => rfl
      | false => exact hnext
    · have hseen : (text.take (LINE_MAX - 1)).takeWhile (· != 0) = text.take (LINE_MAX - 1) :=
        takeWhile_ne_zero fun c hc => hzero c (List.mem_of_mem_take hc)
      have hrest : ∀ c ∈ text.drop (LINE_MAX - 1), c ≠ newline ∧ c ≠ 0 :=
        fun c hc => htext c (List.mem_of_mem_drop hc)
      rw [if_neg hshort, if_neg hshort, List.cons_append, firstAccepted_cons]
      simp only [hseen, tryLine_eq fun h => hnewline (List.mem_of_mem_take h)]
      cases accepts (text.take (LINE_MAX - 1)) with
      | true => rfl
      | false =>
        apply ih hrest
        rw [List.length_append, List.length_cons, List.length_drop]
        simp only [LINE_MAX] at *
        omega

lemma findLibkallsyms_eq (lines : List MapsLine) :
    findLibkallsyms (some (mapsFile lines)) =
      firstAccepted (lines.flatMap fun l => splitText l.text) := by
  cases lines with
  | nil => rfl
  | cons l lines =>
    rw [mapsFile_cons]
    exact scanMaps_eq _ l.text_plain lines le_rfl

lemma pieces_map_text (l : MapsLine) : (pieces l).map Piece.text = splitText l.text := by
  unfold pieces
  cases splitText l.text with
  | nil => rfl
  | cons first later => simp [Function.comp_def]

/-- The pieces of a line are cut from it, and the first is where it starts. -/
lemma mem_pieces {l : MapsLine} {p : Piece} (hp : p ∈ pieces l) :
    p.line = l ∧ (p.isHead = true → p.text <+: l.text) := by
  unfold pieces at hp
  rw [splitText] at hp
  by_cases hshort : l.text.length < LINE_MAX - 1
  · simp only [if_pos hshort, List.map_nil, List.mem_singleton] at hp
    subst hp
    exact ⟨rfl, fun _ => List.prefix_rfl⟩
  · simp only [if_neg hshort, List.mem_cons, List.mem_map] at hp
    obtain rfl | ⟨text, -, rfl⟩ := hp
    · exact ⟨rfl, fun _ => List.take_prefix _ _⟩
    · exact ⟨rfl, fun h => absurd h (by simp)⟩

/-- Digits end where another character follows. -/
lemma digits_then {digits : List UInt8} (h : ∀ c ∈ digits, isXdigit c) {c : UInt8}
    (hc : isXdigit c = false) (rest : List UInt8) :
    (digits ++ c :: rest).takeWhile isXdigit = digits ∧
      (digits ++ c :: rest).dropWhile isXdigit = c :: rest := by
  rw [List.takeWhile_append_of_pos h, List.dropWhile_append_of_pos h,
    List.takeWhile_cons_of_neg (by simp [hc]), List.dropWhile_cons_of_neg (by simp [hc])]
  exact ⟨List.append_nil digits, rfl⟩

lemma leadingRange_of_fields (l : MapsLine) (rest : List UInt8) :
    leadingRange (l.fields ++ rest) = some l.range := by
  obtain ⟨attrs, hattrs⟩ : ∃ attrs, l.attrs = 32 :: attrs := by
    cases h : l.attrs with
    | nil => simpa [h] using l.attrs_head
    | cons c attrs =>
      have hhead := l.attrs_head
      rw [h, List.head?_cons, Option.some.injEq] at hhead
      exact ⟨attrs, by rw [hhead]⟩
  have htext : l.fields ++ rest = l.lo ++ 45 :: (l.hi ++ 32 :: (attrs ++ rest)) := by
    simp [MapsLine.fields, hattrs]
  obtain ⟨hlo, hback⟩ := digits_then l.lo_digits (c := 45) (by decide)
    (l.hi ++ 32 :: (attrs ++ rest))
  obtain ⟨hhi, -⟩ := digits_then l.hi_digits (c := 32) (by decide) (attrs ++ rest)
  simp only [htext, leadingRange, hlo, hback, List.drop_succ_cons, List.drop_zero, hhi]
  rw [if_neg (not_or.mpr ⟨l.lo_ne_nil, l.hi_ne_nil⟩)]
  rfl

lemma rtakeWhile_append_of_mem (front : List UInt8) {back : List UInt8} (h : slash ∈ back) :
    (front ++ back).rtakeWhile (· != slash) = back.rtakeWhile (· != slash) := by
  induction back using List.reverseRecOn with
  | nil => simp at h
  | append_singleton back c ih =>
    rw [← List.append_assoc]
    by_cases hc : c = slash
    · rw [List.rtakeWhile_concat_neg _ _ _ (by simp [hc]),
        List.rtakeWhile_concat_neg _ _ _ (by simp [hc])]
    · have hmem : slash ∈ back := by
        obtain hmem | hlast := List.mem_append.mp h
        · exact hmem
        · exact absurd (List.mem_singleton.mp hlast).symm hc
      rw [List.rtakeWhile_concat_pos _ _ _ (by simpa using hc),
        List.rtakeWhile_concat_pos _ _ _ (by simpa using hc), ih hmem]

/-- The slash that the test asks for is behind the fields, so that they are whole. -/
lemma head_accepted {l : MapsLine} {text : List UInt8} (hpre : text <+: l.text)
    (h : accepts text) : leadingRange text = some l.range ∧ l.pathHas := by
  simp only [accepts, decide_eq_true_eq] at h
  obtain ⟨hslash, -, -, hname⟩ := h
  have hfields : l.fields <+: text := by
    apply (List.prefix_or_prefix_of_prefix hpre (List.prefix_append _ _)).resolve_left
    intro hshort
    exact (l.newline_not_mem_fields slash (hshort.mem hslash)).1 rfl
  obtain ⟨front, rfl⟩ := hfields
  have hfront : front <+: l.path := (List.prefix_append_right_inj l.fields).mp hpre
  refine ⟨leadingRange_of_fields l front, ?_⟩
  -- what follows the last slash is part of the path
  have hmem : slash ∈ front := by
    obtain hbad | hmem := List.mem_append.mp hslash
    · exact absurd rfl (l.newline_not_mem_fields slash hbad).1
    · exact hmem
  rw [rtakeWhile_append_of_mem _ hmem] at hname
  simp only [MapsLine.pathHas, decide_eq_true_eq]
  exact hname.trans ((List.rtakeWhile_suffix _ front).isInfix.trans hfront.isInfix)

/-- Being the first line with the name in its last component. -/
lemma complete_iff (lines : List MapsLine) (P : MapsLine → Prop) :
    (∀ before l after, lines = before ++ l :: after → l.lastHas →
      (∀ l' ∈ before, ¬ l'.lastHas) → P l) ↔
    ∀ l, lines.find? MapsLine.lastHas = some l → P l := by
  constructor
  · intro h l hl
    obtain ⟨hlast, before, after, rfl, hbefore⟩ := List.find?_eq_some_iff_append.mp hl
    exact h before l after rfl hlast fun l' hl' => by simpa using hbefore l' hl'
  · intro h before l after hlines hlast hbefore
    apply h
    rw [List.find?_eq_some_iff_append]
    exact ⟨hlast, before, after, hlines, fun l' hl' => by simpa using hbefore l' hl'⟩

lemma locates_iff_find (lines : List MapsLine) (found : Found) :
    Locates lines found ↔
      (found.rc = 1 → ∃ l ∈ lines, l.pathHas ∧ (found.start, found.stop) = l.range) ∧
      ∀ l, lines.find? MapsLine.lastHas = some l →
        found.rc = 1 ∧ (found.start, found.stop) = l.range := by
  rw [← complete_iff]
  exact ⟨fun h => ⟨h.sound, h.complete⟩, fun h => ⟨h.1, h.2⟩⟩

/-- A call that finds nothing is right where there is nothing to find. -/
lemma locates_of_rc_zero (lines : List MapsLine) {found : Found} (h : found.rc = 0) :
    Locates lines found ↔ lines.find? MapsLine.lastHas = none := by
  rw [locates_iff_find, h, Option.eq_none_iff_forall_not_mem]
  simp

/-- What the search finds is right exactly when it stops at the right piece. -/
lemma locates_iff_stopsRight (lines : List MapsLine) :
    Locates lines (findLibkallsyms (some (mapsFile lines))) ↔ StopsRight lines := by
  have htexts : (lines.flatMap fun l => splitText l.text) =
      (lines.flatMap pieces).map Piece.text := by
    simp only [List.map_flatMap, pieces_map_text]
  rw [findLibkallsyms_eq, htexts, firstAccepted, List.find?_map, StopsRight]
  simp only [Function.comp_def]
  cases hstop : (lines.flatMap pieces).find? (fun p => accepts p.text) with
  | none => exact locates_of_rc_zero lines rfl
  | some p =>
    have haccepts : accepts p.text := by simpa using List.find?_some hstop
    obtain ⟨l, hl, hp⟩ := List.mem_flatMap.mp (List.mem_of_find?_eq_some hstop)
    obtain ⟨hline, hhead⟩ := mem_pieces hp
    simp only [Option.map_some]
    by_cases h : p.isHead = true
    · obtain ⟨hrange, hpath⟩ := head_accepted (hhead h) haccepts
      rw [readRange_of_some hrange, locates_iff_find, if_pos h, hline]
      constructor
      · rintro ⟨-, hcomplete⟩ w hw
        exact (hcomplete w hw).2.symm
      · intro hsame
        exact ⟨fun _ => ⟨l, hl, hpath, rfl⟩, fun w hw => ⟨rfl, (hsame w hw).symm⟩⟩
    · rw [if_neg h]
      cases hrange : leadingRange p.text with
      | none => exact locates_of_rc_zero lines (readRange_of_none hrange)
      | some r =>
        rw [readRange_of_some hrange, locates_iff_find]
        simp only [true_and, forall_const, eq_comm (a := r)]

lemma pieces_eq (l : MapsLine) :
    pieces l = ⟨l, true, l.text.take (LINE_MAX - 1)⟩ ::
      if l.text.length < LINE_MAX - 1 then []
      else (splitText (l.text.drop (LINE_MAX - 1))).map fun text => ⟨l, false, text⟩ := by
  rw [pieces, splitText]
  by_cases hshort : l.text.length < LINE_MAX - 1
  · simp only [if_pos hshort, List.map_nil, List.take_of_length_le hshort.le]
  · simp only [if_neg hshort]

/-- A line that fits has nothing behind its first piece. -/
lemma tailAccepted_of_short {l : MapsLine} (h : l.text.length < LINE_MAX - 1) :
    l.tailAccepted = false := by
  rw [MapsLine.tailAccepted, List.drop_of_length_le h.le, splitText, if_pos (by decide)]
  decide

lemma find?_splitText_eq_none {l : MapsLine} (h : ¬ l.tailAccepted) :
    (splitText (l.text.drop (LINE_MAX - 1))).find? accepts = none := by
  rw [List.find?_eq_none]
  intro text htext haccepts
  exact h (List.any_eq_true.mpr ⟨text, htext, haccepts⟩)

/-- The first piece of the line, or one behind it. -/
lemma find?_pieces (l : MapsLine) (rest : List Piece) :
    (pieces l ++ rest).find? (fun p => accepts p.text) =
      if l.headAccepted then some ⟨l, true, l.text.take (LINE_MAX - 1)⟩
      else (((splitText (l.text.drop (LINE_MAX - 1))).find? accepts).map fun text =>
        (⟨l, false, text⟩ : Piece)).or (rest.find? fun p => accepts p.text) := by
  rw [pieces_eq, List.cons_append]
  by_cases hhead : l.headAccepted = true
  · rw [if_pos hhead, List.find?_cons_of_pos (by exact hhead)]
  · rw [if_neg hhead, List.find?_cons_of_neg (by exact hhead), List.find?_append]
    by_cases hshort : l.text.length < LINE_MAX - 1
    · have htail : ¬ l.tailAccepted := by simp [tailAccepted_of_short hshort]
      rw [if_pos hshort, find?_splitText_eq_none htail]
      rfl
    · rw [if_neg hshort, List.find?_map]
      rfl

/-- Where lines are accepted by their first pieces, the search stops at the first such
line. -/
lemma find?_pieces_of_starts {lines : List MapsLine}
    (h : ∀ before l after, lines = before ++ l :: after → (∀ l' ∈ before, ¬ l'.headAccepted) →
      l.tailAccepted → l.headAccepted) :
    (lines.flatMap pieces).find? (fun p => accepts p.text) =
      (lines.find? MapsLine.headAccepted).map fun l => ⟨l, true, l.text.take (LINE_MAX - 1)⟩ := by
  induction lines with
  | nil => rfl
  | cons l lines ih =>
    rw [List.flatMap_cons, find?_pieces]
    by_cases hhead : l.headAccepted = true
    · rw [if_pos hhead, List.find?_cons_of_pos hhead]
      rfl
    · have htail : ¬ l.tailAccepted := fun ht => hhead (h [] l lines rfl (by simp) ht)
      rw [if_neg hhead, List.find?_cons_of_neg hhead, find?_splitText_eq_none htail,
        Option.map_none, Option.none_or]
      apply ih
      intro before l' after hlines hbefore
      apply h (l :: before) l' after (by rw [hlines, List.cons_append])
      intro l'' hl''
      rcases List.mem_cons.mp hl'' with rfl | hmem
      · exact hhead
      · exact hbefore l'' hmem

lemma stopsRight_of_readByHeads {lines : List MapsLine} (h : ReadByHeads lines) :
    StopsRight lines := by
  have hfirst : ∀ l, lines.find? MapsLine.lastHas = some l →
      lines.find? MapsLine.headAccepted = some l := by
    intro l hl
    obtain ⟨hlast, before, after, hlines, hbefore⟩ := List.find?_eq_some_iff_append.mp hl
    obtain ⟨hhead, hno⟩ := h.first before l after hlines hlast fun l' hl' => by
      simpa using hbefore l' hl'
    rw [List.find?_eq_some_iff_append]
    exact ⟨hhead, before, after, hlines, fun l' hl' => by simpa using hno l' hl'⟩
  rw [StopsRight, find?_pieces_of_starts h.starts]
  cases hfind : lines.find? MapsLine.headAccepted with
  | none =>
    rw [Option.map_none, Option.eq_none_iff_forall_not_mem]
    intro l hl
    have hl' := hfirst l hl
    rw [hfind] at hl'
    cases hl'
  | some w =>
    simp only [Option.map_some, if_true]
    intro l hl
    have hl' := hfirst l hl
    rw [hfind, Option.some.injEq] at hl'
    rw [hl']

/-- The piece that the search stops at, where lines are told apart and there is a line to
be found: the first of that line. -/
lemma find?_pieces_of_stopsRight {lines : List MapsLine} (hapart : ToldApart lines)
    (h : StopsRight lines) {l : MapsLine} (hl : lines.find? MapsLine.lastHas = some l) :
    ∃ text, (lines.flatMap pieces).find? (fun p => accepts p.text) = some ⟨l, true, text⟩ := by
  have hmem := List.mem_of_find?_eq_some hl
  rw [StopsRight, hl] at h
  cases hfind : (lines.flatMap pieces).find? (fun p => accepts p.text) with
  | none => simp [hfind] at h
  | some p =>
    obtain ⟨w, hw, hp⟩ := List.mem_flatMap.mp (List.mem_of_find?_eq_some hfind)
    have haccepts : accepts p.text := by simpa using List.find?_some hfind
    obtain ⟨hline, -⟩ := mem_pieces hp
    rw [hfind] at h
    by_cases hhead : p.isHead = true
    · simp only [if_pos hhead] at h
      have hsame : l = p.line := by
        rw [hline]
        exact List.inj_on_of_nodup_map hapart.ranges hmem hw (by rw [← hline]; exact h l rfl)
      exact ⟨p.text, by rw [hsame, ← hhead]⟩
    · exfalso
      have htext : p.text ∈ splitText (w.text.drop (LINE_MAX - 1)) := by
        rw [pieces_eq, List.mem_cons] at hp
        rcases hp with rfl | hp
        · exact absurd rfl hhead
        · split_ifs at hp
          · exact absurd hp List.not_mem_nil
          · obtain ⟨text, htext, rfl⟩ := List.mem_map.mp hp
            exact htext
      have hdiffer := hapart.later w hw p.text htext haccepts l hmem
      simp only [if_neg hhead] at h
      cases hrange : leadingRange p.text with
      | none => simp [hrange] at h
      | some r =>
        simp only [hrange] at h
        exact hdiffer (by rw [hrange, h.2 l rfl])

/-- A search that stops at the first piece of a line passed over the lines before it. -/
lemma passed_of_find?_pieces {lines : List MapsLine} {l : MapsLine} {text : List UInt8}
    (h : (lines.flatMap pieces).find? (fun p => accepts p.text) = some ⟨l, true, text⟩) :
    ∃ before after, lines = before ++ l :: after ∧ l.headAccepted ∧
      ∀ l' ∈ before, ¬ l'.headAccepted ∧ ¬ l'.tailAccepted := by
  induction lines with
  | nil => simp at h
  | cons w lines ih =>
    rw [List.flatMap_cons, find?_pieces] at h
    by_cases hhead : w.headAccepted = true
    · rw [if_pos hhead, Option.some.injEq, Piece.mk.injEq] at h
      obtain ⟨rfl, -, -⟩ := h
      exact ⟨[], lines, rfl, hhead, by simp⟩
    · rw [if_neg hhead] at h
      cases htail : (splitText (w.text.drop (LINE_MAX - 1))).find? accepts with
      | some found => simp [htail] at h
      | none =>
        rw [htail, Option.map_none, Option.none_or] at h
        obtain ⟨before, after, hlines, hl, hbefore⟩ := ih h
        refine ⟨w :: before, after, by rw [hlines, List.cons_append], hl, ?_⟩
        intro l' hl'
        rcases List.mem_cons.mp hl' with rfl | hmem
        · refine ⟨hhead, ?_⟩
          intro hany
          obtain ⟨text, htext, haccepts⟩ := List.any_eq_true.mp hany
          exact List.find?_eq_none.mp htail text htext haccepts
        · exact hbefore l' hmem

/-- Two places of a list: one is before the other, or they are the same. -/
lemma place_cases {α : Type} {before after front rest : List α} {a b : α}
    (h : before ++ a :: after = front ++ b :: rest) :
    a ∈ front ∨ (before = front ∧ a = b) ∨ b ∈ before := by
  induction before generalizing front with
  | nil =>
    cases front with
    | nil => exact .inr (.inl ⟨rfl, (List.cons.inj h).1⟩)
    | cons c front => exact .inl (by simp [(List.cons.inj h).1])
  | cons c before ih =>
    cases front with
    | nil => exact .inr (.inr (by simp [(List.cons.inj h).1]))
    | cons d front =>
      obtain ⟨rfl, htail⟩ := List.cons.inj h
      rcases ih htail with hfront | ⟨rfl, rfl⟩ | hbefore
      · exact .inl (List.mem_cons_of_mem c hfront)
      · exact .inr (.inl ⟨rfl, rfl⟩)
      · exact .inr (.inr (List.mem_cons_of_mem c hbefore))

lemma readByHeads_of_stopsRight {lines : List MapsLine} (hapart : ToldApart lines)
    (hsome : ∃ l ∈ lines, l.lastHas) (h : StopsRight lines) : ReadByHeads lines := by
  obtain ⟨w, hw, hwlast⟩ := hsome
  obtain ⟨l, hl⟩ := Option.isSome_iff_exists.mp (List.find?_isSome.mpr ⟨w, hw, hwlast⟩)
  obtain ⟨text, hfind⟩ := find?_pieces_of_stopsRight hapart h hl
  obtain ⟨before, after, hlines, hhead, hbefore⟩ := passed_of_find?_pieces hfind
  have hlast : l.lastHas := List.find?_some hl
  constructor
  · intro front x rest hsplit hno htail
    rcases place_cases (hlines.symm.trans hsplit) with hmem | ⟨-, rfl⟩ | hmem
    · exact absurd hhead (hno l hmem)
    · exact hhead
    · exact absurd htail (hbefore x hmem).2
  · intro front x rest hsplit hx hno
    have hfirst : lines.find? MapsLine.lastHas = some x := by
      rw [List.find?_eq_some_iff_append]
      exact ⟨hx, front, rest, hsplit, fun l' hl' => by simpa using hno l' hl'⟩
    obtain rfl : l = x := by rwa [hl, Option.some.injEq] at hfirst
    rcases place_cases (hlines.symm.trans hsplit) with hmem | ⟨rfl, -⟩ | hmem
    · exact absurd hlast (hno l hmem)
    · exact ⟨hhead, fun l' hl' => (hbefore l' hl').1⟩
    · exact absurd hhead (hbefore l hmem).1

/-- For every list of lines of any lengths: what `find_libkallsyms` returns is the range of
a line with the name in its path, and that of the first line with the name in its last
component if there is one, wherever the file can be read by the first pieces of its lines.
Where there is such a line, and lines are told apart by their ranges, it is so only
there. -/
theorem findLibkallsyms_locates (lines : List MapsLine) :
    (ReadByHeads lines → Locates lines (findLibkallsyms (some (mapsFile lines)))) ∧
    (ToldApart lines → (∃ l ∈ lines, l.lastHas) →
      Locates lines (findLibkallsyms (some (mapsFile lines))) → ReadByHeads lines) := by
  rw [locates_iff_stopsRight]
  exact ⟨stopsRight_of_readByHeads, readByHeads_of_stopsRight⟩

lemma accepts_text_iff (l : MapsLine) :
    accepts l.text ↔
      l.lastHas ∧ ¬ ascii "[stack]" <:+: l.text ∧ ¬ ascii "[heap]" <:+: l.text := by
  have hmem : slash ∈ l.text ↔ slash ∈ l.path := by
    rw [MapsLine.text, List.mem_append, or_iff_right]
    exact fun h => (l.newline_not_mem_fields slash h).1 rfl
  simp only [accepts, MapsLine.lastHas, decide_eq_true_eq, hmem]
  constructor
  · rintro ⟨hslash, hstack, hheap, hname⟩
    rw [MapsLine.text, rtakeWhile_append_of_mem _ hslash] at hname
    exact ⟨⟨hslash, hname⟩, hstack, hheap⟩
  · rintro ⟨⟨hslash, hname⟩, hstack, hheap⟩
    refine ⟨hslash, hstack, hheap, ?_⟩
    rwa [MapsLine.text, rtakeWhile_append_of_mem _ hslash]

/-- Lines that fit, none of them with the name taken for the stack or the heap, can be
read so. -/
theorem readByHeads_of_short {lines : List MapsLine}
    (hshort : ∀ l ∈ lines, l.text.length < LINE_MAX - 1)
    (hplain : ∀ l ∈ lines, l.lastHas →
      ¬ ascii "[stack]" <:+: l.text ∧ ¬ ascii "[heap]" <:+: l.text) : ReadByHeads lines := by
  have hhead : ∀ l ∈ lines, (l.headAccepted ↔ l.lastHas) := by
    intro l hl
    rw [MapsLine.headAccepted, List.take_of_length_le (hshort l hl).le, accepts_text_iff]
    exact ⟨And.left, fun h => ⟨h, hplain l hl h⟩⟩
  constructor
  · rintro before l after rfl - htail
    have hfalse := tailAccepted_of_short (hshort l (by simp))
    rw [hfalse] at htail
    cases htail
  · rintro before l after rfl hlast hno
    constructor
    · exact (hhead l (by simp)).mpr hlast
    · intro l' hl' hl'head
      exact hno l' hl' ((hhead l' (by simp [hl'])).mp hl'head)

lemma plain_of_all {s : List UInt8} (h : s.all fun c => c != newline && c != 0) :
    ∀ c ∈ s, c ≠ newline ∧ c ≠ 0 := by
  simpa using h

/-- A library in a directory `dead-beef`, so deep that `dead-beef` starts a piece. -/
def deepLine : MapsLine where
  lo := ascii "1000"
  hi := ascii "2000"
  attrs := ascii " r-xp 00000000 08:01 42 "
  path := slash :: List.replicate 220 120 ++ slash :: ascii "dead-beef/libkallsyms.so"
  lo_ne_nil := by decide
  hi_ne_nil := by decide
  lo_digits := List.all_eq_true.mp (by decide)
  hi_digits := List.all_eq_true.mp (by decide)
  attrs_head := by decide
  attrs_plain := fun c hc =>
    ⟨fun h => absurd (h ▸ hc) (by decide), plain_of_all (by decide) c hc⟩
  path_plain := plain_of_all (by decide +kernel)

/-- The range found is the name of a directory. -/
theorem findLibkallsyms_reads_path :
    findLibkallsyms (some (mapsFile [deepLine])) = ⟨1, 0xdead, 0xbeef⟩ ∧
    deepLine.range = (0x1000, 0x2000) ∧
    ¬ Locates [deepLine] (findLibkallsyms (some (mapsFile [deepLine]))) := by
  have hfound : findLibkallsyms (some (mapsFile [deepLine])) = ⟨1, 0xdead, 0xbeef⟩ := by
    decide +kernel
  refine ⟨hfound, by decide, ?_⟩
  rw [hfound]
  intro h
  obtain ⟨l, hl, -, hrange⟩ := h.sound rfl
  rw [List.mem_singleton.mp hl] at hrange
  exact absurd hrange (by decide)

end SymbiOS.MapsScan
