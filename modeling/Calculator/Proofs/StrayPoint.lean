import Calculator.Proofs.Canonical
import Calculator.Proofs.Coverage

/-!
# Stray points

Canonical text is written with few characters, and nearly all of them start a
lexeme wherever they stand. The exception is the point. It starts a numeral if
a digit follows it, and it may end one. A point that does neither is stray, and
the first stray point of a canonical text is the only thing in it that can be
refused as no lexeme.

## Main definitions

* `Shorthand.isCanonical`: The characters of canonical text.
* `Token.Stray`: A point that neither starts nor belongs to a numeral.

## Theorems

* `Shorthand.isCanonical_of_mem_expand`: Canonical text has no other characters.
* `Token.not_stray_of_lt`: What has been read has no stray point.
* `Token.stray_stop`: Reading stops at a stray point.
* `Formula.refused_at_stray_point`: Where scanning fails.
-/

namespace Calculator

/-! ### The characters of canonical text -/

namespace Shorthand

/-- The signs of canonical text. -/
def canonicalSigns : List Char :=
  ['.', '+', '-', '*', '/', '(', ')', '!', '%', ',']

/-- The characters of canonical text: ASCII digits, ASCII letters and signs. -/
def isCanonical (c : Char) : Bool :=
  c.isDigit || c.isAlpha || canonicalSigns.contains c

/-- Canonical text has no other characters. -/
theorem isCanonical_of_mem_expand {text : List Char} (h : ∀ c ∈ text, Keypad.accepts c = true) :
    ∀ c ∈ expand text, isCanonical c = true := by
  intro c hc
  have haccepts := accepts_of_mem_expand h c hc
  obtain ⟨hroot, hpower, hpi⟩ := not_mem_expand text
  have hne : c ≠ '√' ∧ c ≠ '^' ∧ c ≠ 'π' :=
    ⟨fun heq => hroot (heq ▸ hc), fun heq => hpower (heq ▸ hc), fun heq => hpi (heq ▸ hc)⟩
  simp only [Keypad.accepts, Char.isAlphanum, Keypad.signs, Bool.or_eq_true,
    List.contains_iff_mem, List.mem_cons] at haccepts
  simp only [isCanonical, canonicalSigns, Bool.or_eq_true, List.contains_iff_mem, List.mem_cons]
  tauto

end Shorthand

/-! ### Points of numerals -/

/-- Behind the point of a numeral there are only digits. -/
theorem Numeral.isDecimalDigit_of_text_eq {n : Numeral} (hn : n.WellFormed)
    {before after : List Char} (h : n.text = before ++ '.' :: after) :
    ∀ c ∈ after, Text.isDecimalDigit c = true := by
  intro c hc
  have hcount := count_point_text hn
  rw [h, List.count_append, List.count_cons_self] at hcount
  have hpart : isPart c = true := isPart_of_mem_text hn (by rw [h]; simp [hc])
  rcases Bool.or_eq_true_iff.1 hpart with hdigit | hpoint
  · exact hdigit
  · -- A second point would be one too many.
    rw [of_decide_eq_true hpoint] at hc
    have := List.count_pos_iff.2 hc
    split at hcount <;> omega

/-- The character behind the point of a numeral is a digit. -/
theorem Numeral.isDecimalDigit_of_getElem? {n : Numeral} (hn : n.WellFormed) {k : Nat} {c : Char}
    (hpoint : n.text[k]? = some '.') (hc : n.text[k + 1]? = some c) :
    Text.isDecimalDigit c = true := by
  rcases List.getElem?_eq_some_iff.1 hpoint with ⟨hk, hget⟩
  have hsplit : n.text = n.text.take k ++ '.' :: n.text.drop (k + 1) := by
    rw [← hget, List.getElem_cons_drop, List.take_append_drop]
  refine isDecimalDigit_of_text_eq hn hsplit c (List.mem_of_mem_head? ?_)
  rw [List.head?_drop]
  exact hc

/-- A lexeme with a point is a numeral. -/
theorem Lexeme.exists_number_of_mem {t : Lexeme} (ht : t.WellFormed) (h : '.' ∈ t.text) :
    ∃ n, t = number n := by
  cases t with
  | number n => exact ⟨n, rfl⟩
  | word letters => exact absurd (ht.2 '.' h) (by decide)
  | operator op => cases op <;> exact absurd h (by decide)
  | _ => exact absurd h (by decide)

namespace Token

/-- A point that no digit follows and that is not the last character of a
    numeral read from left to right. -/
structure Stray (text : List Char) (i : Nat) : Prop where
  /-- It is a point. -/
  point : text[i]? = some '.'
  /-- No digit follows it. -/
  alone : ∀ c ∈ text[i + 1]?, Text.isDecimalDigit c = false
  /-- No numeral ends with it. -/
  free : ∀ token ∈ (read text).tokens, (∃ n, token.lexeme = .number n) → token.stop ≠ i + 1

variable {text : List Char}

/-- The characters of a token are those of the text. -/
theorem Covers.getElem?_text {first last : Nat} {tokens : List Token}
    (h : Covers text first last tokens) {t : Token} (ht : t ∈ tokens) {k : Nat}
    (hk : k < t.lexeme.text.length) : t.lexeme.text[k]? = text[t.position + k]? := by
  have hslice := congrArg (·[k]?) (h.slice t ht)
  simp only [List.getElem?_take_of_lt hk, List.getElem?_drop] at hslice
  exact hslice.symm

/-- What is not blank belongs to a token. -/
theorem Covers.exists_token {first last : Nat} {tokens : List Token}
    (h : Covers text first last tokens) {i : Nat} {c : Char} (hfirst : first ≤ i) (hlast : i < last)
    (hc : text[i]? = some c) (hblank : Text.isBlank c = false) :
    ∃ t ∈ tokens, t.position ≤ i ∧ i < t.stop := by
  by_contra hnone
  have hall : ∀ t ∈ tokens, i < t.position ∨ t.stop ≤ i := by
    intro t ht
    by_contra hin
    exact hnone ⟨t, ht, by omega, by omega⟩
  rw [h.blank i hfirst hlast hall c hc] at hblank
  cases hblank

/-- What has been read has no stray point. -/
theorem not_stray_of_lt {i : Nat} (hi : i < (read text).stop) : ¬Stray text i := by
  intro h
  rcases covers_read text with ⟨hcovers, -⟩
  rcases hcovers.exists_token (Nat.zero_le i) hi h.point (by decide) with ⟨t, ht, hlow, hhigh⟩
  rw [stop] at hhigh
  have hpoint : t.lexeme.text[i - t.position]? = some '.' := by
    rw [hcovers.getElem?_text ht (by omega), show t.position + (i - t.position) = i by omega]
    exact h.point
  have hwf := (hcovers.longest t ht).1
  rcases Lexeme.exists_number_of_mem hwf (List.mem_of_getElem? hpoint) with ⟨n, hn⟩
  refine h.free t ht ⟨n, hn⟩ ?_
  rw [stop]
  by_contra hne
  -- The numeral would go on behind the point, with a digit.
  rcases hd : t.lexeme.text[i - t.position + 1]? with _ | d
  · rw [List.getElem?_eq_none_iff] at hd
    omega
  have hnext := hcovers.getElem?_text ht (List.getElem?_eq_some_iff.1 hd).1
  rw [hd, show t.position + (i - t.position + 1) = i + 1 by omega] at hnext
  rw [hn] at hwf hpoint hd
  have hdigit := Numeral.isDecimalDigit_of_getElem? hwf hpoint hd
  rw [h.alone d hnext.symm] at hdigit
  cases hdigit

/-- A character of canonical text starts a lexeme, unless it is the point. -/
theorem exists_lexeme_of_isCanonical {c : Char} (hc : Shorthand.isCanonical c = true)
    (hpoint : c ≠ '.') : ∃ u : Lexeme, u.WellFormed ∧ u.text = [c] := by
  simp only [Shorthand.isCanonical, Shorthand.canonicalSigns, Bool.or_eq_true,
    List.contains_iff_mem] at hc
  rcases hc with (hdigit | halpha) | hsign
  · have hdecimal := Text.isDecimalDigit_of_isDigit c hdigit
    exact ⟨.number ⟨[c], none⟩, ⟨by simpa using hdecimal, by simp⟩, rfl⟩
  · exact ⟨.word [c], ⟨by simp, by simpa using halpha⟩, rfl⟩
  · simp only [List.mem_cons, List.not_mem_nil, or_false] at hsign
    rcases hsign with rfl | rfl | rfl | rfl | rfl | rfl | rfl | rfl | rfl | rfl
    · exact absurd rfl hpoint
    · exact ⟨.operator .add, trivial, rfl⟩
    · exact ⟨.operator .sub, trivial, rfl⟩
    · exact ⟨.operator .mul, trivial, rfl⟩
    · exact ⟨.operator .div, trivial, rfl⟩
    · exact ⟨.leftParen, trivial, rfl⟩
    · exact ⟨.rightParen, trivial, rfl⟩
    · exact ⟨.exclamation, trivial, rfl⟩
    · exact ⟨.percentMark, trivial, rfl⟩
    · exact ⟨.comma, trivial, rfl⟩

/-- Reading stops at a stray point, if all characters are those of canonical
    text. -/
theorem stray_stop (htext : ∀ c ∈ text, Shorthand.isCanonical c = true) {c : Char}
    (hc : text[(read text).stop]? = some c) : c = '.' ∧ Stray text (read text).stop := by
  rcases covers_read text with ⟨hcovers, hstop⟩
  have hnone := (hstop c hc).2
  have hdrop := List.drop_eq_getElem?_toList_append (l := text) (i := (read text).stop)
  rw [hc] at hdrop
  obtain rfl : c = '.' := by
    by_contra hne
    rcases exists_lexeme_of_isCanonical (htext c (List.mem_of_getElem? hc)) hne with ⟨u, hu, hu'⟩
    exact hnone u hu (by rw [hu', hdrop]; exact List.prefix_append _ _)
  refine ⟨rfl, hc, fun d hd => ?_, fun t ht _ heq => ?_⟩
  · -- With a digit behind it the point would start a numeral.
    by_contra hdigit
    have hnext := List.drop_eq_getElem?_toList_append (l := text) (i := (read text).stop + 1)
    have hwf : (Lexeme.number ⟨[], some [d]⟩).WellFormed := ⟨by simpa using hdigit, by simp⟩
    refine hnone _ hwf ?_
    rw [hdrop, hnext, hd]
    exact List.prefix_append ['.', d] _
  · have := (hcovers.within t ht).2
    omega

/-- A text that has been read to its end has no stray point. -/
theorem not_stray_of_read (hend : text[(read text).stop]? = none) (i : Nat) : ¬Stray text i := by
  intro hstray
  have hlt : i < text.length := (List.getElem?_eq_some_iff.1 hstray.point).1
  exact not_stray_of_lt (hlt.trans_le (List.getElem?_eq_none_iff.1 hend)) hstray

/-- Where all characters are those of canonical text, scanning succeeds if
    there is no stray point. -/
theorem scan_eq_ok_iff (htext : ∀ c ∈ text, Shorthand.isCanonical c = true) :
    (∃ tokens, scan text = .ok tokens) ↔ ∀ i, ¬Stray text i := by
  rw [scan_eq]
  cases hc : text[(read text).stop]? with
  | none => exact iff_of_true ⟨_, rfl⟩ (not_stray_of_read hc)
  | some c => exact iff_of_false (by simp) fun h => h _ (stray_stop htext hc).2

/-- And it fails at the first one otherwise. -/
theorem scan_eq_error_iff (htext : ∀ c ∈ text, Shorthand.isCanonical c = true)
    (failure : Failure) :
    scan text = .error failure ↔
      ∃ p, failure = .unrecognised '.' p ∧ Stray text p ∧ ∀ i < p, ¬Stray text i := by
  rw [scan_eq]
  cases hc : text[(read text).stop]? with
  | none => exact iff_of_false (by simp) fun ⟨p, _, hp, _⟩ => not_stray_of_read hc p hp
  | some c =>
    obtain ⟨rfl, hstray⟩ := stray_stop htext hc
    constructor
    · intro h
      exact ⟨_, (Except.error.inj h).symm, hstray, fun i hi => not_stray_of_lt hi⟩
    · rintro ⟨p, rfl, hp, hfirst⟩
      have hlow : (read text).stop ≤ p := not_lt.1 fun hlt => not_stray_of_lt hlt hp
      have hhigh : p ≤ (read text).stop := not_lt.1 fun hlt => hfirst _ hlt hstray
      rw [hlow.antisymm hhigh]

end Token

namespace Formula

/-- Whatever is typed, its canonical text consists of ASCII digits, ASCII
    letters and a few signs. It is scanned exactly if it has no stray point, and
    else it is refused at the first one. -/
theorem refused_at_stray_point {limit : NestingLimit} {typed canonical : List Char}
    (h : expandWithin limit (Keypad.clean typed) = .ok canonical) :
    (∀ c ∈ canonical, Shorthand.isCanonical c = true) ∧
      ((∃ tokens, Token.scan canonical = .ok tokens) ↔ ∀ i, ¬Token.Stray canonical i) ∧
      ∀ failure, Token.scan canonical = .error failure ↔
        ∃ p, failure = .unrecognised '.' p ∧ Token.Stray canonical p ∧
          ∀ i < p, ¬Token.Stray canonical i := by
  obtain ⟨-, rfl⟩ := expandWithin_eq_ok.1 h
  have haccepts : ∀ c ∈ Keypad.clean typed, Keypad.accepts c = true :=
    fun c hc => (List.mem_filter.1 hc).2
  have hcanonical := Shorthand.isCanonical_of_mem_expand haccepts
  exact ⟨hcanonical, Token.scan_eq_ok_iff hcanonical, Token.scan_eq_error_iff hcanonical⟩

/-- One point starts a numeral and one ends a numeral; the last one is stray. -/
theorem refused_at_stray_point_last :
    expandWithin NestingLimit.standard (Keypad.clean "√.5 + 1..".toList) =
        .ok "sqrt(.5)+1..".toList ∧
      Token.scan "sqrt(.5)+1..".toList = .error (.unrecognised '.' 11) ∧
      Token.Stray "sqrt(.5)+1..".toList 11 ∧ ∀ i < 11, ¬Token.Stray "sqrt(.5)+1..".toList i := by
  have htyped : expandWithin NestingLimit.standard (Keypad.clean "√.5 + 1..".toList) =
      .ok "sqrt(.5)+1..".toList := by decide +kernel
  have hscan : Token.scan "sqrt(.5)+1..".toList = .error (.unrecognised '.' 11) := by
    decide +kernel
  rcases ((refused_at_stray_point htyped).2.2 _).1 hscan with ⟨p, hp, hstray, hfirst⟩
  obtain rfl : 11 = p := by simpa using hp
  exact ⟨htyped, hscan, hstray, hfirst⟩

end Formula

end Calculator
