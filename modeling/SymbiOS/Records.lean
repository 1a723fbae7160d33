import Mathlib.Data.List.Basic

/-!
# Reading self-delimiting records through cut replies

A buffer is the concatenation of encoded records. Each reply is a stretch of it, cut
at some size; the reader keeps the records that are complete, and asks next for the
position that the last of them carries.
-/
namespace SymbiOS.Records

variable {α β : Type*} {encode : α → List β} {decode : List β → Option (α × List β)}

/-- A record reads back, whatever follows it, and no proper beginning of it reads as a
record. -/
structure Delimited (encode : α → List β) (decode : List β → Option (α × List β)) (a : α) :
    Prop where
  ne_nil : encode a ≠ []
  read : ∀ rest, decode (encode a ++ rest) = some (a, rest)
  cut : ∀ n < (encode a).length, decode ((encode a).take n) = none

/-- The complete records at the front. -/
def readAll (decode : List β → Option (α × List β)) : ℕ → List β → List α
  | 0, _ => []
  | fuel + 1, bytes =>
      match decode bytes with
      | none => []
      | some (a, rest) => a :: readAll decode fuel rest

/-- Requests of the sizes `size k`, `size (k + 1)` and so on from a position, until a
reply is empty. -/
def session (reply : ℕ → ℕ → Option (List β)) (decode : List β → Option (α × List β))
    (position : α → ℕ) (size : ℕ → ℕ) : ℕ → ℕ → ℕ → Option (List α)
  | 0, _, _ => none
  | fuel + 1, k, off =>
      match reply (size k) off with
      | none => none
      | some bytes =>
          if bytes.length = 0 then some []
          else
            let records := readAll decode bytes.length bytes
            match records.getLast? with
            | none => none
            | some last =>
                (session reply decode position size fuel (k + 1) (position last)).map (records ++ ·)

theorem readAll_nil (h : decode [] = none) (fuel : ℕ) : readAll decode fuel [] = [] := by
  cases fuel with
  | zero => rfl
  | succ fuel => simp [readAll, h]

/-- A cut through the records leaves the complete ones before it: at least one, where the
first fits. -/
theorem readAll_take {l : List α} (h : ∀ a ∈ l, Delimited encode decode a)
    (hnil : decode [] = none) (n fuel : ℕ) (hfuel : ((l.flatMap encode).take n).length ≤ fuel) :
    ∃ k, readAll decode fuel ((l.flatMap encode).take n) = l.take k ∧
      ∀ a rest, l = a :: rest → (encode a).length ≤ n → 0 < k := by
  induction l generalizing n fuel with
  | nil =>
    refine ⟨0, ?_, fun a rest hl => by cases hl⟩
    rw [List.flatMap_nil, List.take_nil, readAll_nil hnil, List.take_nil]
  | cons a l ih =>
    have ha := h a List.mem_cons_self
    have hpos := List.length_pos_iff.mpr ha.ne_nil
    by_cases hfits : (encode a).length ≤ n
    · have htake : ((a :: l).flatMap encode).take n =
          encode a ++ (l.flatMap encode).take (n - (encode a).length) := by
        rw [List.flatMap_cons, List.take_append, List.take_of_length_le hfits]
      rw [htake, List.length_append] at hfuel
      obtain ⟨fuel, rfl⟩ : ∃ m, fuel = m + 1 := ⟨fuel - 1, by omega⟩
      obtain ⟨k, hk, -⟩ := ih (fun b hb => h b (List.mem_cons_of_mem a hb))
        (n - (encode a).length) fuel (by omega)
      refine ⟨k + 1, ?_, fun _ _ _ _ => Nat.succ_pos k⟩
      rw [htake, readAll, ha.read]
      simp [hk]
    · -- the reply ends inside the first record
      have htake : ((a :: l).flatMap encode).take n = (encode a).take n := by
        rw [List.flatMap_cons, List.take_append_of_le_length (by omega)]
      refine ⟨0, ?_, fun b rest hl hb => ?_⟩
      · rw [htake]
        cases fuel with
        | zero => rfl
        | succ fuel => simp [readAll, ha.cut n (by omega)]
      · rw [List.cons.injEq] at hl
        rw [← hl.1] at hb
        exact absurd hb hfits

/-- A reply with room for the first record ends with the last of some complete ones. -/
theorem exists_last {l : List α} (h : ∀ a ∈ l, Delimited encode decode a) {a : α}
    {rest : List α} (hl : l = a :: rest) {n : ℕ} (hfits : (encode a).length ≤ n) :
    ((l.flatMap encode).take n).length ≠ 0 ∧
    ∃ m init last, 0 < m ∧ l.take m = init ++ [last] ∧
      readAll decode ((l.flatMap encode).take n).length ((l.flatMap encode).take n) = l.take m := by
  have ha : a ∈ l := by simp [hl]
  have hpos := List.length_pos_iff.mpr (h a ha).ne_nil
  have hnil : decode [] = none := by simpa using (h a ha).cut 0 hpos
  obtain ⟨m, hm, hone⟩ := readAll_take h hnil n _ (Nat.le_refl _)
  have hmpos := hone a rest hl hfits
  have hne : l.take m ≠ [] := by
    rw [hl, ne_eq, List.take_eq_nil_iff]
    simp only [List.cons_ne_nil, or_false]
    omega
  constructor
  · rw [hl, List.flatMap_cons, List.length_take, List.length_append]
    omega
  · exact ⟨m, _, _, hmpos, (List.dropLast_append_getLast hne).symm, hm⟩

/-- What a session reads from the position of a record: it and all after it. -/
theorem session_eq {reply : ℕ → ℕ → Option (List β)} {position : α → ℕ} {size : ℕ → ℕ}
    {l : List α} (h : ∀ a ∈ l, Delimited encode decode a)
    (hreply : ∀ n off, reply n off = some (((l.flatMap encode).drop off).take n))
    (hposition : ∀ front a back, l = front ++ a :: back →
      position a = ((front ++ [a]).flatMap encode).length)
    (hsize : ∀ k, ∀ a ∈ l, (encode a).length ≤ size k) {fuel : ℕ} :
    ∀ {front back : List α} (k : ℕ), l = front ++ back → back.length < fuel →
      session reply decode position size fuel k (front.flatMap encode).length = some back := by
  induction fuel with
  | zero => intro _ _ _ _ hlt; omega
  | succ fuel ih =>
    intro front back k hl hlt
    have hdrop : (l.flatMap encode).drop (front.flatMap encode).length = back.flatMap encode := by
      rw [hl, List.flatMap_append, List.drop_left]
    rw [session, hreply, hdrop]
    cases hback : back with
    | nil => simp
    | cons a rest =>
      have hmem : ∀ b ∈ back, b ∈ l := fun b hb => hl ▸ List.mem_append_right front hb
      have ha : a ∈ back := by simp [hback]
      rw [← hback]
      obtain ⟨hne, m, init, last, hmpos, hlast, hm⟩ :=
        exists_last (fun b hb => h b (hmem b hb)) hback (hsize k a (hmem a ha))
      -- the last complete record carries the position after it
      have hsplit : l = (front ++ (init ++ [last])) ++ back.drop m := by
        rw [← hlast, List.append_assoc, List.take_append_drop, hl]
      have hnext : position last = ((front ++ (init ++ [last])).flatMap encode).length := by
        rw [hposition (front ++ init) last (back.drop m) (by simp [hsplit])]
        simp
      have hlen : 0 < back.length := List.length_pos_of_mem ha
      have hrest := ih (k + 1) hsplit (by rw [List.length_drop]; omega)
      simp only [if_neg hne, hm, hlast, List.getLast?_append, List.getLast?_singleton,
        Option.some_or, hnext, hrest, Option.map_some]
      rw [← hlast, List.take_append_drop]

end SymbiOS.Records
