import Calculator.Numeral

/-!
# Scanning numerals

A numeral that is written in front of something that does not extend it is
what scanning finds there. What extends a numeral is a digit, and a point
unless there is one already.

All characters of a numeral are digits or points. Where a numeral ends can
therefore be told without knowing how it is built: at the first character that
is neither. This is what is used of numerals that start in the middle of
others.

## Main definitions

* `Numeral.isPart`: The characters of which numerals consist.

## Theorems

* `forall_mem_of_all`: Facts about some characters, one by one.
* `takeWhile_of_stop`, `dropWhile_of_stop`: A run that ends where it should.
* `Numeral.wellFormed_of_scan?`: What is scanned is a numeral.
* `Numeral.scan?_text_append`: A numeral is found where it stands.
* `Numeral.scan?_eq_none`: Nothing is found in front of another character.
-/

namespace Calculator

/-- What is checked for each element of a list holds of its members. -/
theorem forall_mem_of_all {α : Type} {P : α → Prop} [DecidablePred P] {l : List α}
    (h : (l.all fun a => decide (P a)) = true) : ∀ a ∈ l, P a := by
  simpa using h

theorem takeWhile_of_stop {p : Char → Bool} {inside rest : List Char}
    (hi : ∀ c ∈ inside, p c = true) (hs : ∀ c ∈ rest.head?, p c = false) :
    (inside ++ rest).takeWhile p = inside := by
  rw [List.takeWhile_append_of_pos hi]
  cases rest with
  | nil => simp
  | cons c tail =>
      have hc : p c = false := hs c rfl
      simp [hc]

theorem dropWhile_of_stop {p : Char → Bool} {inside rest : List Char}
    (hi : ∀ c ∈ inside, p c = true) (hs : ∀ c ∈ rest.head?, p c = false) :
    (inside ++ rest).dropWhile p = rest := by
  rw [List.dropWhile_append_of_pos hi]
  cases rest with
  | nil => rfl
  | cons c tail =>
      have hc : p c = false := hs c rfl
      simp [hc]

namespace Numeral

/-- The characters of which numerals consist. -/
def isPart (c : Char) : Bool :=
  Text.isDecimalDigit c || c = '.'

theorem isDecimalDigit_point : Text.isDecimalDigit '.' = false := by decide

theorem isPart_of_mem_text {n : Numeral} (hn : n.WellFormed) {c : Char} (hc : c ∈ n.text) :
    isPart c = true := by
  rcases n with ⟨whole, fraction⟩
  rcases hn with ⟨hdigits, -⟩
  cases fraction with
  | none =>
      have h : c ∈ whole := by simpa [text] using hc
      simp [isPart, hdigits c (by simpa using h)]
  | some digits =>
      have h : c ∈ whole ∨ c = '.' ∨ c ∈ digits := by simpa [text] using hc
      -- A digit in front of the point, the point, or a digit behind it.
      rcases h with h | rfl | h
      · simp [isPart, hdigits c (by simp [h])]
      · simp [isPart]
      · simp [isPart, hdigits c (by simp [h])]

theorem text_ne_nil {n : Numeral} (hn : n.WellFormed) : n.text ≠ [] := by
  rcases n with ⟨whole, fraction⟩
  rcases hn with ⟨-, hne⟩
  cases fraction with
  | none => simpa [text] using hne
  | some digits => simp [text]

theorem wellFormed_of_scan? {input rest : List Char} {n : Numeral}
    (h : scan? input = some (n, rest)) : n.WellFormed := by
  have htake : ∀ l : List Char, ∀ c ∈ l.takeWhile Text.isDecimalDigit,
      Text.isDecimalDigit c = true := fun l => List.all_eq_true.1 List.all_takeWhile
  simp only [scan?] at h
  -- With a point, and without one.
  split at h
  · split at h
    · exact absurd h (by simp)
    · rename_i tail _ hne
      rcases (by simpa using h : (_ ∧ _)) with ⟨rfl, -⟩
      refine ⟨fun c hc => ?_, ?_⟩
      · rcases List.mem_append.1 hc with h' | h'
        · exact htake input c h'
        · exact htake tail c h'
      · -- A point with no digit on either side had been refused.
        intro hnil
        rcases List.append_eq_nil_iff.1 hnil with ⟨h₁, h₂⟩
        refine hne ?_
        rw [Bool.and_eq_true, List.isEmpty_iff, List.isEmpty_iff]
        exact ⟨h₁, h₂⟩
  · split at h
    · exact absurd h (by simp)
    · rename_i hne
      rcases (by simpa using h : (_ ∧ _)) with ⟨rfl, -⟩
      refine ⟨fun c hc => htake input c (by simpa using hc), fun hnil => hne ?_⟩
      rw [List.isEmpty_iff]
      simpa using hnil

/-- A numeral is found where it stands, unless what follows extends it. -/
theorem scan?_text_append {n : Numeral} (hn : n.WellFormed) {rest : List Char}
    (hd : ∀ c ∈ rest.head?, Text.isDecimalDigit c = false)
    (hp : n.fraction = none → rest.head? ≠ some '.') :
    scan? (n.text ++ rest) = some (n, rest) := by
  rcases n with ⟨whole, fraction⟩
  rcases hn with ⟨hdigits, hne⟩
  have hw : ∀ c ∈ whole, Text.isDecimalDigit c = true := fun c hc => hdigits c (by simp [hc])
  cases fraction with
  | none =>
      have hwne : whole ≠ [] := by simpa using hne
      simp only [text, List.append_nil]
      rw [scan?, takeWhile_of_stop hw hd, dropWhile_of_stop hw hd]
      -- Without a fraction, a point that follows would be taken for one.
      have hpoint := hp rfl
      split
      · exact absurd rfl hpoint
      · simp [hwne]
  | some digits =>
      have hf : ∀ c ∈ digits, Text.isDecimalDigit c = true :=
        fun c hc => hdigits c (by simp [hc])
      -- The point stops the digits in front of it.
      have hstop : ∀ c ∈ (('.' :: digits) ++ rest).head?, Text.isDecimalDigit c = false := by
        intro c hc
        have h : '.' = c := by simpa using hc
        rw [← h]
        exact isDecimalDigit_point
      simp only [text, List.append_assoc]
      rw [scan?, takeWhile_of_stop hw hstop, dropWhile_of_stop hw hstop]
      simp only [List.cons_append]
      rw [takeWhile_of_stop hf hd, dropWhile_of_stop hf hd, if_neg]
      intro hempty
      rw [Bool.and_eq_true, List.isEmpty_iff, List.isEmpty_iff] at hempty
      exact hne (by simp [hempty.1, hempty.2])

/-- No numeral starts with any other character. -/
theorem scan?_eq_none {c : Char} (hc : isPart c = false) (rest : List Char) :
    scan? (c :: rest) = none := by
  have hsplit : Text.isDecimalDigit c = false ∧ c ≠ '.' := by simpa [isPart] using hc
  rcases hsplit with ⟨hd, hp⟩
  -- No digit is taken, so only a point could still start a numeral.
  have hdrop : (c :: rest).dropWhile Text.isDecimalDigit = c :: rest := by simp [hd]
  simp only [scan?, hdrop]
  split
  · rename_i heq
    exact absurd (List.cons.inj heq).1 hp
  · simp [hd]

end Numeral

end Calculator
