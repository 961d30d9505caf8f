import Calculator.Proofs.Typed.Marks

/-!
# Lexemes of typed text

The text of pieces that follow their places is cut into the lexemes of the
pieces. Where a lexeme ends shows in the character behind it: behind numerals
and words there is neither a digit nor a letter, and behind an asterisk there
is no other one. Conversely, lexemes make up the text from which they were cut.

## Main definitions

* `Typed.Lexeme.text`: A lexeme as typed.
* `Typed.Lexeme.WellFormed`: A lexeme that is found if it is typed alone.

## Theorems

* `Typed.flatMap_text_of_lexemes?`: Lexemes make up their text.
* `Typed.text_eq_flatMap`: The text of pieces is that of their lexemes.
* `Typed.lexemes?_text`: The text of pieces is cut into their lexemes.
-/

namespace Calculator

namespace Typed

namespace Lexeme

/-- A lexeme as typed. -/
def text : Lexeme → List Char
  | number n => n.text
  | word letters => letters
  | operator op => op.symbol
  | caret => ['^']
  | root => ['√']
  | leftParen => ['(']
  | rightParen => [')']
  | comma => [',']
  | exclamation => ['!']
  | percentMark => ['%']

/-- A lexeme that is found if it is typed alone. -/
def WellFormed : Lexeme → Prop
  | number n => n.WellFormed
  | word letters => letters ≠ [] ∧ ∀ c ∈ letters, isLetter c = true
  | _ => True

end Lexeme

theorem text_append_of_lexeme? {text rest : List Char} {t : Lexeme}
    (h : lexeme? text = some (t, rest)) : t.text ++ rest = text ∧ t.WellFormed := by
  -- A numeral, a sign, or a word.
  unfold lexeme? at h
  split at h
  · rename_i n tail hscan
    rcases (by simpa using h : (_ ∧ _)) with ⟨rfl, rfl⟩
    exact ⟨Numeral.text_append_of_scan? hscan, Numeral.wellFormed_of_scan? hscan⟩
  · split at h
    · unfold sign? at h
      split at h <;> first
        | (rcases (by simpa using h : (_ ∧ _)) with ⟨rfl, rfl⟩
           exact ⟨rfl, trivial⟩)
        | exact absurd h (by simp)
    · rename_i hne
      rcases (by simpa using h : (_ ∧ _)) with ⟨rfl, rfl⟩
      exact ⟨List.takeWhile_append_dropWhile, hne, List.all_eq_true.1 List.all_takeWhile⟩

/-- Lexemes make up the text from which they were cut. -/
theorem flatMap_text_of_lexemes? {text : List Char} {ts : List Lexeme}
    (h : lexemes? text = some ts) :
    ts.flatMap Lexeme.text = text ∧ ∀ t ∈ ts, t.WellFormed := by
  fun_induction lexemes? text generalizing ts with
  | case1 =>
      rcases (by simpa using h : ts = [])
      exact ⟨rfl, by simp⟩
  | case2 => exact absurd h (by simp)
  | case3 c rest t tail hlex ih =>
      rcases Option.map_eq_some_iff.1 h with ⟨us, hus, rfl⟩
      rcases ih hus with ⟨htext, hwf⟩
      rcases text_append_of_lexeme? hlex with ⟨happ, ht⟩
      refine ⟨by rw [List.flatMap_cons, htext, happ], fun u hu => ?_⟩
      rcases List.mem_cons.1 hu with rfl | hu
      · exact ht
      · exact hwf u hu

theorem text_eq_flatMap (cs : List Symbol) :
    text false false cs = (lexemes cs).flatMap Lexeme.text := by
  induction cs with
  | nil => rfl
  | cons x cs ih =>
      rw [text_cons, lexemes_cons, List.flatMap_append, ih]
      -- Piece by piece; only the factorial has more than one spelling.
      congr 1
      cases x with
      | factorial negative n =>
          cases negative <;>
            simp [Symbol.text, Symbol.signed, Symbol.lexemes, Lexeme.text, BinaryOp.symbol]
      | _ => simp [Symbol.text, Symbol.lexemes, Lexeme.text]

/-- Pieces are well-formed if their lexemes are. -/
theorem wellFormed_of_lexemes {cs : List Symbol} (h : ∀ t ∈ lexemes cs, t.WellFormed) :
    ∀ x ∈ cs, x.WellFormed := by
  intro x hx
  have hsub : ∀ t ∈ x.lexemes, t.WellFormed := fun t ht =>
    h t (List.mem_flatMap.2 ⟨x, hx, ht⟩)
  cases x with
  | number n => exact hsub (.number n) (by simp [Symbol.lexemes])
  | percent n => exact hsub (.number n) (by simp [Symbol.lexemes])
  | factorial negative n =>
      cases negative
      all_goals exact hsub (.number n) (by simp [Symbol.lexemes])
  | word letters => exact hsub (.word letters) (by simp [Symbol.lexemes])
  | _ => trivial

/-- A character that starts neither a numeral nor a word starts a sign. -/
theorem lexeme?_of_sign {c : Char} (hp : Numeral.isPart c = false) (hl : isLetter c = false)
    (rest : List Char) : lexeme? (c :: rest) = sign? (c :: rest) := by
  rw [lexeme?, Numeral.scan?_eq_none hp]
  simp [hl]

theorem lexeme?_number {n : Numeral} (hn : n.WellFormed) (rest : List Char)
    (hr : ∀ c ∈ rest.head?, Numeral.isPart c = false) :
    lexeme? (n.text ++ rest) = some (.number n, rest) := by
  -- A numeral is tried first, and nothing extends it.
  rw [lexeme?, Numeral.scan?_text_append hn
    (fun d hd => (Bool.or_eq_false_iff.1 (hr d hd)).1)
    (fun _ hpoint => absurd (hr '.' hpoint) (by decide))]

theorem lexeme?_word {letters : List Char} (hw : (Symbol.word letters).WellFormed)
    {rest : List Char} (hr : ∀ c ∈ rest.head?, isLetter c = false) :
    lexeme? (letters ++ rest) = some (.word letters, rest) := by
  have hscan : Numeral.scan? (letters ++ rest) = none := by
    rcases List.exists_cons_of_ne_nil hw.1 with ⟨c, s, rfl⟩
    exact Numeral.scan?_eq_none (isPlain_of_isLetter (hw.2 c (by simp))).1 _
  rw [lexeme?, hscan]
  simp only [takeWhile_of_stop hw.2 hr, dropWhile_of_stop hw.2 hr, if_neg hw.1]

/-- Where an operand must stand there is no asterisk. -/
theorem head?_text_of_operand {cs : List Symbol} {p : Place} (hp : p = .operand ∨ p = .minus)
    (h : follow? p cs = some .closed) (hw : ∀ x ∈ cs, x.WellFormed) :
    (text false false cs).head? ≠ some '*' := by
  intro hhead
  cases cs with
  | nil => exact absurd hhead (by simp [text])
  | cons x cs =>
      have hx := hw x (by simp)
      rcases follow?_cons h with ⟨q, hq, -⟩
      -- No piece is empty, so the asterisk belongs to the first one.
      have hmem {s : List Char} (hs : x.text false false = s) (hne : s ≠ []) : '*' ∈ s := by
        rw [text_cons, hs, List.head?_append_of_ne_nil _ hne] at hhead
        exact List.mem_of_head? hhead
      cases x with
      | number n =>
          have hpart := Numeral.isPart_of_mem_text hx (hmem rfl (Numeral.text_ne_nil hx))
          exact absurd hpart (by decide)
      | word letters => exact absurd (hx.2 _ (hmem rfl hx.1)) (by decide)
      | percent n =>
          have hstar := hmem (s := n.text ++ ['%']) rfl (by simp)
          have hpart := Numeral.isPart_of_mem_text hx (by simpa using hstar)
          exact absurd hpart (by decide)
      | factorial negative n =>
          have hne : Symbol.signed negative n ++ ['!'] ≠ [] := by simp
          have hstar : '*' ∈ Symbol.signed negative n ++ ['!'] := hmem rfl hne
          cases negative with
          | false =>
              have hpart := Numeral.isPart_of_mem_text hx (by simpa [Symbol.signed] using hstar)
              exact absurd hpart (by decide)
          | true =>
              have hpart := Numeral.isPart_of_mem_text hx (by simpa [Symbol.signed] using hstar)
              exact absurd hpart (by decide)
      | operator op =>
          have hstar := hmem (s := op.symbol) rfl (by cases op <;> simp [BinaryOp.symbol])
          rcases hp with rfl | rfl
          all_goals
            cases op <;>
              simp_all [BinaryOp.symbol, Place.next?, Place.ofOperand?, Place.ofAtom?]
      | _ =>
          have hstar := hmem rfl (by simp [Symbol.text])
          exact absurd hstar (by simp [Symbol.text])

/-- Behind an operand there is no letter. -/
theorem not_isLetter_of_closed {cs : List Symbol} {q : Place} (h : follow? .closed cs = some q) :
    ∀ c ∈ (text false false cs).head?, isLetter c = false := by
  have hall : ∀ c ∈ closers, isLetter c = false := forall_mem_of_all (by decide)
  exact fun c hc => hall c (head?_text_of_closed h false false c hc)

/-- What stands behind a word that stands where it may. -/
theorem not_isLetter_of_word {letters : List Char} {p q : Place} {cs : List Symbol}
    (hq : p.next? (.word letters) = some q) (h : follow? q cs = some .closed) :
    ∀ c ∈ (text false false cs).head?, isLetter c = false := by
  rcases ofWord?_of_next? hq with rfl | rfl
  · -- A constant is an operand; behind a callee stands its parenthesis.
    exact not_isLetter_of_closed h
  · cases cs with
    | nil => exact absurd h (by simp [follow?])
    | cons y cs =>
        rcases follow?_cons h with ⟨r, hr, -⟩
        cases y with
        | leftParen =>
            intro c hc
            rcases (by simpa [text, Symbol.text] using hc : '(' = c)
            decide
        | _ => exact absurd hr (by simp [Place.next?])

/-- The sign of an operation is the longest sign where it stands. -/
theorem sign?_symbol {op : BinaryOp} {rest : List Char}
    (h : op = .mul → rest.head? ≠ some '*') :
    sign? (op.symbol ++ rest) = some (.operator op, rest) := by
  cases op with
  | mul =>
      have hrest := h rfl
      rw [BinaryOp.symbol, List.singleton_append]
      unfold sign?
      split
      · rename_i heq
        exact absurd (by simp at heq; simp [heq]) hrest
      all_goals simp_all
  | _ => rfl

theorem lexeme?_symbol {op : BinaryOp} {rest : List Char}
    (h : op = .mul → rest.head? ≠ some '*') :
    lexeme? (op.symbol ++ rest) = some (.operator op, rest) := by
  have hlex : lexeme? (op.symbol ++ rest) = sign? (op.symbol ++ rest) := by
    cases op <;> exact lexeme?_of_sign (by decide) (by decide) _
  rw [hlex, sign?_symbol h]

/-- The text of pieces that follow their places is cut into their lexemes. -/
theorem lexemes?_text {cs : List Symbol} {p : Place} (h : follow? p cs = some .closed)
    (hw : ∀ x ∈ cs, x.WellFormed) : lexemes? (text false false cs) = some (lexemes cs) := by
  -- A sign is a lexeme by itself.
  have hone {c : Char} (hp : Numeral.isPart c = false) (hl : isLetter c = false) {t : Lexeme}
      (rest : List Char) (hs : sign? (c :: rest) = some (t, rest)) :
      lexemes? (c :: rest) = (lexemes? rest).map (t :: ·) :=
    lexemes?_of_lexeme? ((lexeme?_of_sign hp hl rest).trans hs)
  induction cs generalizing p with
  | nil => exact lexemes?_nil
  | cons x cs ih =>
      have hx := hw x (by simp)
      have hcs : ∀ y ∈ cs, y.WellFormed := fun y hy => hw y (by simp [hy])
      rcases follow?_cons h with ⟨q, hq, hfollow⟩
      have hrest := ih hfollow hcs
      rw [text_cons, lexemes_cons]
      cases x with
      | number n =>
          rcases closed_of_next? (.inl rfl) hq
          -- The numeral ends where its piece does.
          have hstop := not_isPart_of_closed hfollow false false '!' (by decide)
          have hlex := lexeme?_number hx _ fun c hc => (hstop c hc).1
          rw [Symbol.text, lexemes?_of_lexeme? hlex, hrest]
          rfl
      | percent n =>
          have hlex := lexeme?_number hx ('%' :: text false false cs) (by simp; decide)
          have hmark := hone (c := '%') (by decide) (by decide) (text false false cs)
            rfl
          rw [Symbol.text, if_neg (by simp), List.append_assoc, List.singleton_append,
            lexemes?_of_lexeme? hlex, hmark, hrest]
          rfl
      | factorial negative n =>
          have hlex := lexeme?_number hx ('!' :: text false false cs) (by simp; decide)
          have hmark := hone (c := '!') (by decide) (by decide) (text false false cs)
            rfl
          cases negative with
          | false =>
              simp only [Symbol.text, Symbol.signed, Bool.false_eq_true, if_false,
                List.append_assoc, List.singleton_append]
              rw [lexemes?_of_lexeme? hlex, hmark, hrest]
              rfl
          | true =>
              have hminus := hone (c := '-') (by decide) (by decide)
                (n.text ++ '!' :: text false false cs) rfl
              simp only [Symbol.text, Symbol.signed, Bool.false_eq_true, if_false, if_true,
                List.append_assoc, List.cons_append, List.nil_append]
              rw [hminus, lexemes?_of_lexeme? hlex, hmark, hrest]
              rfl
      | word letters =>
          rw [Symbol.text, lexemes?_of_lexeme? (lexeme?_word hx (not_isLetter_of_word hq hfollow)),
            hrest]
          rfl
      | operator op =>
          -- Behind the sign stands an operand, which starts with no asterisk.
          have hstar : op = .mul → (text false false cs).head? ≠ some '*' := fun _ =>
            head?_text_of_operand (operand_of_next? hq) hfollow hcs
          rw [Symbol.text, lexemes?_of_lexeme? (lexeme?_symbol hstar), hrest]
          rfl
      | _ =>
          refine (hone (by decide) (by decide) (text false false cs) rfl).trans ?_
          rw [hrest]
          rfl

end Typed

end Calculator
