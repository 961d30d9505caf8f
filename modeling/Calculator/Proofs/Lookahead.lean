import Calculator.Proofs.Scanning

/-!
# One character of lookahead

Where a lexeme ends is decided by the one character behind it. A text that has
been scanned can therefore be cut behind any of its tokens and continued in
another way: with a blank at the cut, the tokens before it are found as they
were, at the same places, and behind them whatever is written there.

## Main definitions

* `Lexeme.isExtendedBy`: Whether a character right behind a lexeme belongs to
  it.

## Theorems

* `Lexeme.scan?_eq_some_iff`: When a lexeme is scanned.
* `Token.scan_continued`: The tokens before a cut do not depend on what follows.
-/

namespace Calculator

namespace Lexeme

/-- Whether a character right behind a lexeme would be scanned as a part of
    it. A numeral takes one point. -/
def isExtendedBy : Lexeme → Char → Bool
  | number n, c => Text.isDecimalDigit c || (n.fraction = none && c = '.')
  | word _, c => c.isAlpha
  | operator .mul, c => c = '*'
  | _, _ => false

/-- A blank extends nothing. -/
theorem isExtendedBy_blank (t : Lexeme) : t.isExtendedBy ' ' = false := by
  have hdigit : Text.isDecimalDigit ' ' = false := by decide
  cases t with
  | number n => simp [isExtendedBy, hdigit]
  | word letters => exact (by decide : Char.isAlpha ' ' = false)
  | operator op => cases op <;> simp [isExtendedBy]
  | _ => rfl

/-- Behind a run that is as long as possible stands a character outside the
    class. -/
theorem head?_dropWhile {p : Char → Bool} {text : List Char} :
    ∀ c ∈ (text.dropWhile p).head?, p c = false := by
  intro c hc
  rcases hdrop : text.dropWhile p with _ | ⟨d, rest⟩
  · rw [hdrop] at hc
    exact absurd hc (by simp)
  · rw [hdrop] at hc
    obtain rfl : d = c := by simpa using hc
    simpa [hdrop] using List.head?_dropWhile_not p text

theorem not_extended_of_number? {text rest : List Char} {n : Numeral}
    (h : Numeral.scan? text = some (n, rest)) :
    ∀ c ∈ rest.head?, (number n).isExtendedBy c = false := by
  simp only [Numeral.scan?] at h
  split at h
  · split at h
    · exact absurd h (by simp)
    · -- The digits behind the point end before the rest.
      rcases (by simpa using h : (_ ∧ _)) with ⟨rfl, rfl⟩
      intro c hc
      simp [isExtendedBy, head?_dropWhile c hc]
  · rename_i hpoint
    split at h
    · exact absurd h (by simp)
    · rcases (by simpa using h : (_ ∧ _)) with ⟨rfl, rfl⟩
      intro c hc
      have hdot : c ≠ '.' := by
        rintro rfl
        rcases List.head?_eq_some_iff.1 hc with ⟨tail, htail⟩
        exact hpoint tail htail
      simp [isExtendedBy, head?_dropWhile c hc, hdot]

theorem not_extended_of_sign? {text rest : List Char} {t : Lexeme}
    (h : sign? text = some (t, rest)) : ∀ c ∈ rest.head?, t.isExtendedBy c = false := by
  unfold sign? at h
  split at h
  case h_2 tail hstar =>
    -- Two asterisks would have been taken for one sign.
    rcases (by simpa using h : (_ ∧ _)) with ⟨rfl, rfl⟩
    intro c hc
    rcases List.head?_eq_some_iff.1 hc with ⟨behind, rfl⟩
    have hne : c ≠ '*' := by
      rintro rfl
      exact hstar behind rfl
    simp [isExtendedBy, hne]
  all_goals first
    | (rcases (by simpa using h : (_ ∧ _)) with ⟨rfl, rfl⟩
       simp [isExtendedBy])
    | exact absurd h (by simp)

theorem not_extended_of_scan? {text rest : List Char} {t : Lexeme}
    (h : scan? text = some (t, rest)) : ∀ c ∈ rest.head?, t.isExtendedBy c = false := by
  simp only [scan?, Option.or_eq_some_iff] at h
  rcases h with h | ⟨-, h | ⟨-, h⟩⟩
  · rcases Option.map_eq_some_iff.1 h with ⟨⟨n, tail⟩, hn, heq⟩
    rcases (by simpa using heq : (_ ∧ _)) with ⟨rfl, rfl⟩
    exact not_extended_of_number? hn
  · simp only [word?] at h
    split at h
    · exact absurd h (by simp)
    · rcases (by simpa using h : (_ ∧ _)) with ⟨rfl, rfl⟩
      exact head?_dropWhile
  · exact not_extended_of_sign? h

/-- A lexeme is scanned exactly if it is well-formed, stands at the start of
    the text, and is not extended by the character behind it. -/
theorem scan?_eq_some_iff {text rest : List Char} {t : Lexeme} :
    scan? text = some (t, rest) ↔
      t.WellFormed ∧ t.text ++ rest = text ∧ ∀ c ∈ rest.head?, t.isExtendedBy c = false := by
  constructor
  · exact fun h => ⟨wellFormed_of_scan? h, text_append_of_scan? h, not_extended_of_scan? h⟩
  · rintro ⟨hw, rfl, hend⟩
    cases t with
    | number n =>
        -- A point may stand behind a numeral that has one already.
        have hd : ∀ c ∈ rest.head?, Text.isDecimalDigit c = false := fun c hc =>
          (Bool.or_eq_false_iff.1 (hend c hc)).1
        have hp : n.fraction = none → rest.head? ≠ some '.' := fun hn hdot => by
          have := hend '.' hdot
          simp [isExtendedBy, hn] at this
        rw [scan?, number?, text, Numeral.scan?_text_append hw hd hp]
        rfl
    | word letters => exact scan?_text_append hw hend
    | operator op =>
        cases op with
        | mul =>
            refine scan?_text_append hw fun hstar => ?_
            exact absurd (hend '*' hstar) (by simp [isExtendedBy])
        | _ => exact scan?_text_append hw trivial
    | _ => exact scan?_text_append hw trivial

end Lexeme

namespace Token

/-- Scanning passes over a blank. -/
theorem scanFrom_blank (position : Nat) (text : List Char) :
    scanFrom position (' ' :: text) = scanFrom (position + 1) text := by
  have hblank : Text.isBlank ' ' = true := by decide
  rw [scanFrom, if_pos hblank]

/-- A scanned text, cut behind some of its tokens and continued with others. -/
theorem scanFrom_continued {position : Nat} {text : List Char} {before after : List Token}
    (h : scanFrom position text = .ok (before ++ after)) {ts : List Lexeme}
    (hw : ∀ t ∈ ts, t.WellFormed) (hc : ts.IsChain Lexeme.Apart) :
    ∃ (other : List Char) (more : List Token),
      (other.head? = text.head? ∨ other.head? = some ' ') ∧
      scanFrom position other = .ok (before ++ more) ∧ more.map Token.lexeme = ts := by
  -- At the cut a blank is written, so that nothing runs together there.
  have hcut (position : Nat) : ∃ (other : List Char) (more : List Token),
      other.head? = some ' ' ∧ scanFrom position other = .ok more ∧
        more.map Token.lexeme = ts := by
    rcases scanFrom_flatMap_text hw hc (position + 1) with ⟨more, hmore, hmap⟩
    exact ⟨' ' :: ts.flatMap Lexeme.text, more, rfl, by rw [scanFrom_blank, hmore], hmap⟩
  fun_induction scanFrom position text generalizing before with
  | case1 position =>
      obtain ⟨rfl, -⟩ : before = [] ∧ after = [] := by simpa using h
      rcases hcut position with ⟨other, more, hhead, hscan, hmap⟩
      exact ⟨other, more, .inr hhead, hscan, hmap⟩
  | case2 position c rest hblank ih =>
      rcases ih h with ⟨other, more, -, hscan, hmap⟩
      refine ⟨c :: other, more, .inl rfl, ?_, hmap⟩
      rw [scanFrom, if_pos hblank, hscan]
  | case3 => exact absurd h (by simp)
  | case4 position c rest hblank t tail hlexeme ih =>
      rcases before with _ | ⟨token, before⟩
      · rcases hcut position with ⟨other, more, hhead, hscan, hmap⟩
        exact ⟨other, more, .inr hhead, hscan, hmap⟩
      · cases htail : scanFrom (position + t.text.length) tail with
        | error failure =>
            rw [htail] at h
            exact absurd h (by simp [Except.map])
        | ok later =>
            rw [htail] at h
            obtain ⟨rfl, rfl⟩ : (⟨t, position⟩ : Token) = token ∧ later = before ++ after := by
              simpa [Except.map] using h
            rcases ih htail with ⟨other, more, hhead, hscan, hmap⟩
            rcases Lexeme.scan?_eq_some_iff.1 hlexeme with ⟨hwf, htext, hend⟩
            -- What follows the lexeme now starts as before, or with a blank.
            have hend' : ∀ d ∈ other.head?, t.isExtendedBy d = false := by
              intro d hd
              rcases hhead with hhead | hhead
              · exact hend d (hhead ▸ hd)
              · obtain rfl : ' ' = d := by simpa [hhead] using hd
                exact t.isExtendedBy_blank
            have hfirst : (t.text ++ other).head? = some c := by
              rw [List.head?_append_of_ne_nil _ (Lexeme.text_ne_nil hwf),
                ← List.head?_append_of_ne_nil _ (Lexeme.text_ne_nil hwf), htext]
              rfl
            refine ⟨t.text ++ other, more, .inl hfirst, ?_, hmap⟩
            have hb : ∀ d ∈ (t.text ++ other).head?, Text.isBlank d = false := by
              intro d hd
              obtain rfl : c = d := by simpa [hfirst] using hd
              simpa using hblank
            rw [scanFrom_cons hb (Lexeme.scan?_eq_some_iff.2 ⟨hwf, rfl, hend'⟩), hscan]
            rfl

/-- The tokens before a cut are found as they were, and behind them whatever is
    written there. -/
theorem scan_continued {text : List Char} {before after : List Token}
    (h : scan text = .ok (before ++ after)) {ts : List Lexeme}
    (hw : ∀ t ∈ ts, t.WellFormed) (hc : ts.IsChain Lexeme.Apart) :
    ∃ (other : List Char) (more : List Token),
      scan other = .ok (before ++ more) ∧ more.map Token.lexeme = ts := by
  rcases scanFrom_continued h hw hc with ⟨other, more, -, hscan, hmap⟩
  exact ⟨other, more, hscan, hmap⟩

end Token

end Calculator
