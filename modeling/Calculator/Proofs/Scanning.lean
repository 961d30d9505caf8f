import Mathlib.Data.List.Chain
import Calculator.Proofs.Grammar
import Calculator.Proofs.Numeral
import Calculator.Text.Letter

/-!
# Scanning what was written

Lexemes that are written one after the other are found again by scanning, if
no two neighbours run into each other: two numerals, two words, or an asterisk
in front of an asterisk. In a derivable sequence nothing runs together, since
an operand never follows an operand, and no operand starts with an asterisk.

Conversely, scanned lexemes make up the text, if there are no blanks in it.

## Main definitions

* `Lexeme.WellFormed`: A lexeme that is found if it is written alone.
* `Lexeme.Apart`: Two lexemes that do not run together.
* `Lexeme.canStart`, `Lexeme.canEnd`: The two ends of derivable sequences.

## Theorems

* `Lexeme.scan?_text_append`: The first lexeme of what was written is found.
* `Token.scan_flatMap_text`: What was written is found.
* `Token.flatMap_text_of_scan`: What was found had been written.
* `Grammar.Derives.isChain`: In derivable sequences nothing runs together.
-/

namespace Calculator

namespace Text

theorem isDecimalDigit_eq_true {c : Char} (h : isDecimalDigit c = true) :
    ∃ base ∈ scriptZeros, base ≤ c.toNat ∧ c.toNat ≤ base + 9 := by
  rcases Option.isSome_iff_exists.1 h with ⟨v, hv⟩
  rcases Option.map_eq_some_iff.1 hv with ⟨base, hbase, -⟩
  have hin := List.find?_some hbase
  refine ⟨base, List.mem_of_find?_eq_some hbase, by simpa using hin⟩

/-- No decimal digit of any script is blank. -/
theorem isBlank_of_isDecimalDigit {c : Char} (h : isDecimalDigit c = true) :
    isBlank c = false := by
  -- The runs of ten digits and the runs of blanks do not meet.
  have hdisjoint : ∀ base ∈ scriptZeros, ∀ r ∈ blankRanges, base + 9 < r.1 ∨ r.2 < base := by
    decide
  rcases isDecimalDigit_eq_true h with ⟨base, hbase, hle⟩
  rw [isBlank, inRanges, List.any_eq_false]
  intro r hr
  have := hdisjoint base hbase r hr
  simp only [Bool.and_eq_true, decide_eq_true_eq]
  omega

/-- No decimal digit of any script is an ASCII letter. -/
theorem isAlpha_of_isDecimalDigit {c : Char} (h : isDecimalDigit c = true) :
    c.isAlpha = false := by
  have hdisjoint : ∀ base ∈ scriptZeros, base + 9 < 65 ∨ 122 < base := by decide
  rcases isDecimalDigit_eq_true h with ⟨base, hbase, hle⟩
  have := hdisjoint base hbase
  rw [Bool.eq_false_iff]
  intro halpha
  have := toNat_of_isAlpha halpha
  omega

theorem isBlank_of_isAlpha {c : Char} (h : c.isAlpha = true) : isBlank c = false := by
  have hdisjoint : ∀ r ∈ blankRanges, r.2 < 65 ∨ 122 < r.1 := by decide
  rw [isBlank, inRanges, List.any_eq_false]
  intro r hr
  have := hdisjoint r hr
  have := toNat_of_isAlpha h
  simp only [Bool.and_eq_true, decide_eq_true_eq]
  omega

end Text

namespace Numeral

theorem isPart_of_isAlpha {c : Char} (h : c.isAlpha = true) : isPart c = false := by
  rw [isPart, Bool.or_eq_false_iff]
  refine ⟨?_, ?_⟩
  · rw [Bool.eq_false_iff]
    intro hd
    rw [Text.isAlpha_of_isDecimalDigit hd] at h
    exact absurd h (by simp)
  · -- The decimal point is not a letter.
    rw [decide_eq_false_iff_not]
    rintro rfl
    exact absurd h (by decide)

theorem isBlank_of_isPart {c : Char} (h : isPart c = true) : Text.isBlank c = false := by
  rcases Bool.or_eq_true_iff.1 h with h | h
  · exact Text.isBlank_of_isDecimalDigit h
  · rw [of_decide_eq_true h]
    decide

end Numeral

namespace Lexeme

/-- A lexeme that is found if it is written alone. -/
def WellFormed : Lexeme → Prop
  | number n => n.WellFormed
  | word letters => letters ≠ [] ∧ ∀ c ∈ letters, c.isAlpha = true
  | _ => True

/-- Two lexemes that do not run together when one is written behind the
    other. -/
def Apart : Lexeme → Lexeme → Prop
  | number _, number _ => False
  | word _, word _ => False
  | operator .mul, operator .mul => False
  | operator .mul, operator .pow => False
  | _, _ => True

theorem text_ne_nil {t : Lexeme} (ht : t.WellFormed) : t.text ≠ [] := by
  cases t with
  | number n => exact Numeral.text_ne_nil ht
  | word letters => exact ht.1
  | operator op => cases op <;> simp [text, BinaryOp.symbol]
  | _ => simp [text]

/-- The signs that are lexemes, and the asterisk with which two of them start. -/
def signs : List Char :=
  ['*', '+', '-', '/', '(', ')', ',', '!', '%']

/-- The first character of a lexeme tells what kind of lexeme it is. -/
theorem head?_text {t : Lexeme} (ht : t.WellFormed) {c : Char} (hc : t.text.head? = some c) :
    ((∃ n, t = number n) ∧ Numeral.isPart c = true) ∨
      ((∃ letters, t = word letters) ∧ c.isAlpha = true) ∨
      (c ∈ signs ∧ (c = '*' → t = operator .mul ∨ t = operator .pow)) := by
  cases t with
  | number n => exact .inl ⟨⟨n, rfl⟩, Numeral.isPart_of_mem_text ht (List.mem_of_head? hc)⟩
  | word letters => exact .inr (.inl ⟨⟨letters, rfl⟩, ht.2 c (List.mem_of_head? hc)⟩)
  -- Only the signs of products and powers start with an asterisk.
  | operator op =>
      cases op <;> (rcases (by simpa [text, BinaryOp.symbol] using hc : _ = c); simp [signs])
  | _ =>
      rcases (by simpa [text] using hc : _ = c)
      simp [signs]

theorem isPart_of_mem_signs {c : Char} (h : c ∈ signs) : Numeral.isPart c = false := by
  have : ∀ c ∈ signs, Numeral.isPart c = false := forall_mem_of_all (by decide)
  exact this c h

theorem isAlpha_of_mem_signs {c : Char} (h : c ∈ signs) : c.isAlpha = false := by
  have : ∀ c ∈ signs, c.isAlpha = false := forall_mem_of_all (by decide)
  exact this c h

theorem isBlank_of_head?_text {t : Lexeme} (ht : t.WellFormed) {c : Char}
    (hc : t.text.head? = some c) : Text.isBlank c = false := by
  rcases head?_text ht hc with ⟨-, h⟩ | ⟨-, h⟩ | ⟨h, -⟩
  · exact Numeral.isBlank_of_isPart h
  · exact Text.isBlank_of_isAlpha h
  · have : ∀ c ∈ signs, Text.isBlank c = false := forall_mem_of_all (by decide)
    exact this c h

/-- What is written behind a lexeme does not extend it. -/
def Stops (t : Lexeme) (rest : List Char) : Prop :=
  match t with
  | number _ => ∀ c ∈ rest.head?, Numeral.isPart c = false
  | word _ => ∀ c ∈ rest.head?, c.isAlpha = false
  | operator .mul => rest.head? ≠ some '*'
  | _ => True

/-- The first lexeme of what was written is found. -/
theorem scan?_text_append {t : Lexeme} (ht : t.WellFormed) {rest : List Char}
    (hs : t.Stops rest) : scan? (t.text ++ rest) = some (t, rest) := by
  -- A sign starts neither a numeral nor a word, which are tried first.
  have hsign {c : Char} (hc : c ∈ signs) (tail : List Char) :
      scan? (c :: tail) = sign? (c :: tail) := by
    rw [scan?, number?, Numeral.scan?_eq_none (isPart_of_mem_signs hc), word?]
    simp [isAlpha_of_mem_signs hc]
  cases t with
  | number n =>
      have hd : ∀ c ∈ rest.head?, Text.isDecimalDigit c = false := fun c hc =>
        (Bool.or_eq_false_iff.1 (hs c hc)).1
      have hp : rest.head? ≠ some '.' := fun hdot => absurd (hs '.' hdot) (by decide)
      rw [scan?, number?, text, Numeral.scan?_text_append ht hd fun _ => hp]
      rfl
  | word letters =>
      rcases ht with ⟨hne, halpha⟩
      rcases List.exists_cons_of_ne_nil hne with ⟨c, tail, rfl⟩
      have hnone := Numeral.scan?_eq_none (Numeral.isPart_of_isAlpha (halpha c (by simp)))
      rw [scan?, number?, text, List.cons_append, hnone, ← List.cons_append, word?]
      simp only [takeWhile_of_stop halpha hs, dropWhile_of_stop halpha hs]
      rfl
  | operator op =>
      cases op with
      -- A lone asterisk is one only if no other asterisk follows.
      | mul =>
          rw [text, BinaryOp.symbol, List.cons_append, hsign (by simp [signs])]
          unfold sign?
          split
          · rename_i heq
            exact absurd (by simp at heq; simp [heq]) hs
          all_goals simp_all
      | _ => exact hsign (by simp [signs]) _
  | _ => exact hsign (by simp [signs]) _

theorem stops_of_apart {t : Lexeme} {ts : List Lexeme} (hw : ∀ u ∈ ts, u.WellFormed)
    (ha : ∀ u ∈ ts.head?, t.Apart u) : t.Stops (ts.flatMap text) := by
  cases ts with
  | nil => cases t with
      | operator op => cases op <;> simp [Stops]
      | _ => simp [Stops]
  | cons u ts =>
      have hu := hw u (by simp)
      have hap : t.Apart u := ha u rfl
      -- Only the first character of the neighbour counts.
      have hhead : ((u :: ts).flatMap text).head? = u.text.head? := by
        rw [List.flatMap_cons, List.head?_append_of_ne_nil _ (text_ne_nil hu)]
      cases t with
      -- A numeral is extended by a part of a numeral, which starts another one.
      | number n =>
          intro c hc
          rw [hhead] at hc
          rcases head?_text hu hc with ⟨⟨m, rfl⟩, -⟩ | ⟨-, h⟩ | ⟨h, -⟩
          · exact absurd hap (by simp [Apart])
          · exact Numeral.isPart_of_isAlpha h
          · exact isPart_of_mem_signs h
      | word letters =>
          intro c hc
          rw [hhead] at hc
          rcases head?_text hu hc with ⟨-, h⟩ | ⟨⟨m, rfl⟩, -⟩ | ⟨h, -⟩
          · rw [Bool.eq_false_iff]
            intro halpha
            rw [Numeral.isPart_of_isAlpha halpha] at h
            exact absurd h (by simp)
          · exact absurd hap (by simp [Apart])
          · exact isAlpha_of_mem_signs h
      | operator op =>
          cases op with
          -- An asterisk would have to start one of the two signs that are not apart.
          | mul =>
              intro hc
              rw [hhead] at hc
              rcases head?_text hu hc with ⟨-, h⟩ | ⟨-, h⟩ | ⟨-, h⟩
              · exact absurd h (by decide)
              · exact absurd h (by decide)
              · rcases h rfl with rfl | rfl
                · exact hap
                · exact hap
          | _ => trivial
      | _ => trivial

theorem wellFormed_of_scan? {text rest : List Char} {t : Lexeme}
    (h : scan? text = some (t, rest)) : t.WellFormed := by
  simp only [scan?, Option.or_eq_some_iff] at h
  -- The three kinds of lexeme are tried in turn.
  rcases h with h | ⟨-, h | ⟨-, h⟩⟩
  · rcases Option.map_eq_some_iff.1 h with ⟨⟨n, tail⟩, hn, heq⟩
    rcases (by simpa using heq : (_ ∧ _)) with ⟨rfl, -⟩
    exact Numeral.wellFormed_of_scan? hn
  · simp only [word?] at h
    split at h
    · exact absurd h (by simp)
    · rename_i hne
      rcases (by simpa using h : (_ ∧ _)) with ⟨rfl, -⟩
      refine ⟨by simpa using hne, List.all_eq_true.1 List.all_takeWhile⟩
  · unfold sign? at h
    split at h <;> first
      | (rcases (by simpa using h : (_ ∧ _)) with ⟨rfl, -⟩
         trivial)
      | exact absurd h (by simp)

end Lexeme

namespace Token

theorem scanFrom_cons {position : Nat} {t : Lexeme} {text rest : List Char}
    (hb : ∀ c ∈ text.head?, Text.isBlank c = false) (h : Lexeme.scan? text = some (t, rest)) :
    scanFrom position text =
      (scanFrom (position + t.text.length) rest).map (⟨t, position⟩ :: ·) := by
  cases text with
  | nil => exact absurd (Lexeme.length_lt_of_scan? h) (by simp)
  | cons c tail =>
      rw [scanFrom, hb c rfl, if_neg (by simp)]
      split
      · rename_i hnone
        rw [hnone] at h
        exact absurd h (by simp)
      · rename_i u rest' hsome
        rw [hsome] at h
        rcases (by simpa using h : (_ ∧ _)) with ⟨rfl, rfl⟩
        rfl

/-- What was written is found, wherever it stands. -/
theorem scanFrom_flatMap_text {ts : List Lexeme} (hw : ∀ t ∈ ts, t.WellFormed)
    (hc : ts.IsChain Lexeme.Apart) (position : Nat) :
    ∃ tokens, scanFrom position (ts.flatMap Lexeme.text) = .ok tokens ∧
      tokens.map Token.lexeme = ts := by
  induction ts generalizing position with
  | nil => exact ⟨[], by rw [List.flatMap_nil, scanFrom], rfl⟩
  | cons t ts ih =>
      have ht := hw t (by simp)
      have hwt : ∀ u ∈ ts, u.WellFormed := fun u hu => hw u (by simp [hu])
      -- The rest does not extend the first lexeme, which is found as it is.
      have hs := Lexeme.stops_of_apart hwt (List.isChain_cons.1 hc).1
      rcases ih hwt (List.isChain_cons.1 hc).2 (position + t.text.length) with ⟨tokens, hok, hmap⟩
      have hb : ∀ c ∈ ((t :: ts).flatMap Lexeme.text).head?, Text.isBlank c = false := by
        rw [List.flatMap_cons, List.head?_append_of_ne_nil _ (Lexeme.text_ne_nil ht)]
        exact fun c hc => Lexeme.isBlank_of_head?_text ht hc
      refine ⟨⟨t, position⟩ :: tokens, ?_, by rw [List.map_cons, hmap]⟩
      have hscan : Lexeme.scan? ((t :: ts).flatMap Lexeme.text) =
          some (t, ts.flatMap Lexeme.text) := Lexeme.scan?_text_append ht hs
      rw [scanFrom_cons hb hscan, hok]
      rfl

/-- What was written is found. -/
theorem scan_flatMap_text {ts : List Lexeme} (hw : ∀ t ∈ ts, t.WellFormed)
    (hc : ts.IsChain Lexeme.Apart) :
    ∃ tokens, scan (ts.flatMap Lexeme.text) = .ok tokens ∧ tokens.map Token.lexeme = ts :=
  scanFrom_flatMap_text hw hc 0

/-- What was found, wherever it stands, makes up the text. -/
theorem flatMap_text_of_scanFrom {position : Nat} {text : List Char} {tokens : List Token}
    (hb : ∀ c ∈ text, Text.isBlank c = false) (h : scanFrom position text = .ok tokens) :
    (tokens.map Token.lexeme).flatMap Lexeme.text = text ∧
      ∀ t ∈ tokens.map Token.lexeme, t.WellFormed := by
  fun_induction scanFrom position text generalizing tokens with
  | case1 position =>
      rcases (by simpa using h : tokens = [])
      exact ⟨rfl, by simp⟩
  -- A blank is skipped, but the text has none.
  | case2 position c rest hblank _ =>
      rw [hb c (by simp)] at hblank
      exact absurd hblank (by simp)
  | case3 => exact absurd h (by simp)
  | case4 position c rest _ t tail hscan ih =>
      -- The rest is shorter, and as free of blanks as the whole.
      cases htail : scanFrom (position + t.text.length) tail with
      | error failure =>
          rw [htail] at h
          exact absurd h (by simp [Except.map])
      | ok later =>
          rw [htail] at h
          rcases (by simpa [Except.map] using h : _ = tokens)
          have happend := Lexeme.text_append_of_scan? hscan
          have hbt : ∀ d ∈ tail, Text.isBlank d = false := fun d hd =>
            hb d (by rw [← happend]; simp [hd])
          rcases ih hbt htail with ⟨htext, hwf⟩
          refine ⟨by simp only [List.map_cons, List.flatMap_cons, htext, happend], ?_⟩
          intro u hu
          rcases (by simpa using hu) with rfl | hu
          · exact Lexeme.wellFormed_of_scan? hscan
          · exact hwf u (by simpa using hu)

/-- What was found makes up the text, if there are no blanks in it. -/
theorem flatMap_text_of_scan {text : List Char} {tokens : List Token}
    (hb : ∀ c ∈ text, Text.isBlank c = false) (h : scan text = .ok tokens) :
    (tokens.map Token.lexeme).flatMap Lexeme.text = text ∧
      ∀ t ∈ tokens.map Token.lexeme, t.WellFormed :=
  flatMap_text_of_scanFrom hb h

end Token

namespace Lexeme

/-- The lexemes with which derivable sequences start. -/
def canStart : Lexeme → Bool
  | number _ | word _ | leftParen | operator .add | operator .sub => true
  | _ => false

/-- The lexemes with which derivable sequences end. -/
def canEnd : Lexeme → Bool
  | number _ | word _ | rightParen => true
  | _ => false

/-- Behind an operand, a sign. -/
theorem apart_of_canEnd {t : Lexeme} (ht : t.canEnd = true) (op : BinaryOp) :
    t.Apart (operator op) := by
  cases t <;> trivial

/-- Behind a sign, an operand. -/
theorem apart_of_canStart {t : Lexeme} (ht : t.canStart = true) (op : BinaryOp) :
    (operator op).Apart t := by
  cases t with
  | operator next => cases next <;> cases op <;> trivial
  | _ => cases op <;> trivial

end Lexeme

namespace Grammar

theorem Derives.head?_canStart {c : Category} {ts : List Lexeme} {x : Expr} (h : Derives c ts x) :
    ∀ t ∈ ts.head?, t.canStart = true := by
  induction h with
  -- Every rule but an atom starts with an operand or a sign in front of one.
  | ofTerm _ ih => exact ih
  | ofUnary _ ih => exact ih
  | ofPower _ ih => exact ih
  | ofPrimary _ ih => exact ih
  | sum op _ hl _ ihl _ => rwa [List.head?_append_of_ne_nil _ hl.ne_nil]
  | product op _ hl _ ihl _ => rwa [List.head?_append_of_ne_nil _ hl.ne_nil]
  | power hl _ ihl _ => rwa [List.head?_append_of_ne_nil _ hl.ne_nil]
  | _ => simp [Lexeme.canStart]

theorem Derives.getLast?_canEnd {c : Category} {ts : List Lexeme} {x : Expr}
    (h : Derives c ts x) : ∀ t ∈ ts.getLast?, t.canEnd = true := by
  -- What ends a sequence is the end of the last operand, never a sign.
  have hbehind {ts us : List Lexeme} (t : Lexeme) (hne : us ≠ []) :
      (ts ++ t :: us).getLast? = us.getLast? := by
    rw [List.append_cons, List.getLast?_append_of_ne_nil _ hne]
  induction h with
  | ofTerm _ ih => exact ih
  | ofUnary _ ih => exact ih
  | ofPower _ ih => exact ih
  | ofPrimary _ ih => exact ih
  | sum op _ _ hr _ ihr => rwa [hbehind _ hr.ne_nil]
  | product op _ _ hr _ ihr => rwa [hbehind _ hr.ne_nil]
  | power _ hr _ ihr => rwa [hbehind _ hr.ne_nil]
  | minus hr ih => rwa [← List.nil_append (_ :: _), hbehind _ hr.ne_nil]
  | plus hr ih => rwa [← List.nil_append (_ :: _), hbehind _ hr.ne_nil]
  | number n _ => simp [Lexeme.canEnd]
  | constant c => simp [Lexeme.canEnd]
  | group _ _ =>
      rw [← List.cons_append, List.getLast?_concat]
      simp [Lexeme.canEnd]
  | call f _ _ =>
      rw [← List.cons_append, ← List.cons_append, List.getLast?_concat]
      simp [Lexeme.canEnd]

theorem isChain_binary {ts us : List Lexeme} (op : BinaryOp) (hl : ts.IsChain Lexeme.Apart)
    (hr : us.IsChain Lexeme.Apart) (hle : ∀ t ∈ ts.getLast?, t.canEnd = true)
    (hrs : ∀ t ∈ us.head?, t.canStart = true) :
    (ts ++ .operator op :: us).IsChain Lexeme.Apart := by
  refine List.isChain_append.2 ⟨hl, List.isChain_cons.2 ⟨?_, hr⟩, ?_⟩
  · exact fun u hu => Lexeme.apart_of_canStart (hrs u hu) op
  · intro t ht u hu
    rcases (by simpa using hu : _ = u)
    exact Lexeme.apart_of_canEnd (hle t ht) op

theorem isChain_group {ts : List Lexeme} (h : ts.IsChain Lexeme.Apart) :
    (.leftParen :: (ts ++ [.rightParen])).IsChain Lexeme.Apart := by
  refine List.isChain_cons.2 ⟨fun _ _ => trivial, List.isChain_append.2 ⟨h, ?_, ?_⟩⟩
  · exact List.isChain_singleton _
  · intro t _ u hu
    rcases (by simpa using hu : _ = u)
    -- A closing parenthesis extends nothing.
    cases t with
    | operator op => cases op <;> trivial
    | _ => trivial

/-- In derivable sequences nothing runs together. -/
theorem Derives.isChain {c : Category} {ts : List Lexeme} {x : Expr} (h : Derives c ts x) :
    ts.IsChain Lexeme.Apart := by
  induction h with
  | ofTerm _ ih => exact ih
  | ofUnary _ ih => exact ih
  | ofPower _ ih => exact ih
  | ofPrimary _ ih => exact ih
  -- A sign stands between the end of one operand and the start of another.
  | sum op _ hl hr ihl ihr => exact isChain_binary op ihl ihr hl.getLast?_canEnd hr.head?_canStart
  | product op _ hl hr ihl ihr =>
      exact isChain_binary op ihl ihr hl.getLast?_canEnd hr.head?_canStart
  | power hl hr ihl ihr => exact isChain_binary .pow ihl ihr hl.getLast?_canEnd hr.head?_canStart
  | minus hr ih =>
      refine List.isChain_cons.2 ⟨fun u hu => ?_, ih⟩
      exact Lexeme.apart_of_canStart (hr.head?_canStart u hu) .sub
  | plus hr ih =>
      refine List.isChain_cons.2 ⟨fun u hu => ?_, ih⟩
      exact Lexeme.apart_of_canStart (hr.head?_canStart u hu) .add
  | number n _ => exact List.isChain_singleton _
  | constant c => exact List.isChain_singleton _
  | group _ ih => exact isChain_group ih
  | call f _ ih => exact List.isChain_cons.2 ⟨by simp [Lexeme.Apart], isChain_group ih⟩

end Grammar

end Calculator
