import Mathlib.Data.List.DropRight
import Mathlib.Algebra.Ring.Nat

/-!
# Strings and paths of the C library

The parts of the C and POSIX library that work on terminated strings: the bounded
formatter and the two functions that take a path apart. A string is the list of
the bytes before its NUL.
-/
namespace SymbiOS.CLib

/-- A string of C. -/
structure CString where
  bytes : List UInt8
  zero_not_mem : 0 ∉ bytes

/-- The bytes of a text of ASCII characters. -/
def ascii (s : String) : List UInt8 := s.toList.map fun c => UInt8.ofNat c.toNat

def INT_MAX : ℕ := 2 ^ 31 - 1

/-- What `snprintf` with a buffer of `n` bytes returns and leaves there, where the
whole output would be `text`. -/
def snprintf (n : ℕ) (text : List UInt8) : ℤ × List UInt8 :=
  (if text.length ≤ INT_MAX then text.length else -1, text.take (n - 1))

def slash : UInt8 := 47

/-- The last component of a path, without the slashes after it. -/
def basename (path : List UInt8) : List UInt8 :=
  if path = [] then ascii "."
  else
    let trimmed := path.rdropWhile (· == slash)
    if trimmed = [] then ascii "/" else trimmed.rtakeWhile (· != slash)

/-- The path without its last component. Exactly two slashes at the front are kept. -/
def dirname (path : List UInt8) : List UInt8 :=
  if slash ∉ path then ascii "."
  else
    let trimmed := path.rdropWhile (· == slash)
    if trimmed = [] then
      if path.length = 2 then ascii "//" else ascii "/"
    else if slash ∉ trimmed then ascii "."
    else
      let parent := trimmed.rdropWhile (· != slash)
      let dir := parent.rdropWhile (· == slash)
      if dir = [] then (if parent.length = 2 then ascii "//" else ascii "/") else dir

/-- A nonnegative result below the size of the buffer is the case of a text that
fits. -/
theorem snprintf_fits_iff {n : ℕ} (hn : n ≤ INT_MAX) (text : List UInt8) :
    0 ≤ (snprintf n text).1 ∧ (snprintf n text).1 < n ↔ text.length < n := by
  by_cases hmax : text.length ≤ INT_MAX
  · simp only [snprintf, if_pos hmax]
    omega
  · simp only [snprintf, if_neg hmax]
    omega

/-- A text that fits is stored as it is. -/
theorem snprintf_stored {n : ℕ} {text : List UInt8} (h : text.length < n) :
    (snprintf n text).2 = text :=
  List.take_of_length_le (by omega)

end SymbiOS.CLib
