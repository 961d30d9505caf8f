import Calculator.Proofs.Scanning
import Calculator.Proofs.Typed.Symbol

/-!
# Expanding the marks of typed formulas

Marks are expanded character by character, and at every place the longest
numeral is tried. On the text of pieces that follow their places this comes to
the same as expanding piece by piece. Numerals are tried at each of their
digits, but what follows their last digit is all that counts. A minus sign is
only taken along where it is unary, and the places tell where that is.

## Main definitions

* `Typed.IsPlain`: The characters that never start the operand of a mark.
* `Typed.closers`: The characters behind an operand.
* `Typed.Behind`: The character before a place.

## Theorems

* `Shorthand.Mark.expand_plain`, `Shorthand.Mark.expand_parts`: Copied text.
* `Typed.head?_text_of_closed`: What stands behind an operand.
* `Typed.expand_factorial`, `Typed.expand_percent`: Each pass changes the
  pieces of its mark only.
* `Typed.expandMarks_text`: Both passes together.
-/

namespace Calculator

namespace Shorthand

theorem getLast?_call (word argument : List Char) : (call word argument).getLast? = some ')' := by
  rw [call, ← List.cons_append, ← List.append_assoc, List.getLast?_concat]

namespace Mark

/-- A character that starts neither a numeral nor a signed one. -/
def IsPlain (c : Char) : Prop :=
  Numeral.isPart c = false ∧ c ≠ '-'

theorem marked?_cons_of_not_isPart (m : Mark) {c : Char} (hc : Numeral.isPart c = false)
    (rest : List Char) : m.marked? (c :: rest) = none := by
  rw [marked?, Numeral.scan?_eq_none hc]

/-- Whatever part of a numeral is tried, what follows the numeral decides. -/
theorem marked?_parts {m : Mark} (hm : Numeral.isPart m.sign = false) {s rest : List Char}
    (hs : ∀ c ∈ s, Numeral.isPart c = true)
    (hr : ∀ c ∈ rest.head?, Numeral.isPart c = false ∧ c ≠ m.sign) :
    m.marked? (s ++ rest) = none := by
  unfold marked?
  split
  · rename_i n c tail hscan
    rw [if_neg]
    rintro rfl
    -- What is left behind all parts of numerals is the same for any start
    -- among them: the mark, though no mark follows.
    have happ := Numeral.text_append_of_scan? hscan
    have hn : ∀ c ∈ n.text, Numeral.isPart c = true := fun c hc =>
      Numeral.isPart_of_mem_text (Numeral.wellFormed_of_scan? hscan) hc
    have hleft : (n.text ++ m.sign :: tail).dropWhile Numeral.isPart = m.sign :: tail :=
      dropWhile_of_stop hn (by simpa using hm)
    have hright := dropWhile_of_stop hs fun c hc => (hr c hc).1
    rw [happ, hright] at hleft
    rw [hleft] at hr
    exact (hr m.sign rfl).2 rfl
  · rfl

theorem expand_of_none {m : Mark} {before : Option Char} {c : Char} {rest : List Char}
    (h : m.operand? before (c :: rest) = none) :
    m.expand before (c :: rest) = c :: m.expand (some c) rest := by
  rw [expand]
  split
  · rename_i heq
    rw [h] at heq
    exact absurd heq (by simp)
  · rfl

theorem expand_of_some {m : Mark} {before : Option Char} {text operand rest : List Char}
    (h : m.operand? before text = some (operand, rest)) :
    m.expand before text = call m.word operand ++ m.expand (some m.sign) rest := by
  rw [expand]
  split
  · rename_i heq
    rw [h] at heq
    rcases (by simpa using heq : (_ ∧ _)) with ⟨rfl, rfl⟩
    rfl
  · rename_i heq
    rw [h] at heq
    exact absurd heq (by simp)

theorem expand_nil (m : Mark) (before : Option Char) : m.expand before [] = [] := by
  rw [expand]
  rfl

theorem operand?_of_ne_minus (m : Mark) (before : Option Char) {c : Char} (hc : c ≠ '-')
    (rest : List Char) : m.operand? before (c :: rest) = m.marked? (c :: rest) := by
  rw [operand?]
  intro tail heq
  exact absurd (List.cons.inj heq).1 hc

theorem or_getLast?_cons (c : Char) (s : List Char) (before : Option Char) :
    (c :: s).getLast?.or before = s.getLast?.or (some c) := by
  rw [List.getLast?_cons, Option.or_some]
  rfl

/-- Characters that start nothing are copied. -/
theorem expand_plain (m : Mark) (before : Option Char) {s : List Char}
    (hs : ∀ c ∈ s, IsPlain c) (rest : List Char) :
    m.expand before (s ++ rest) = s ++ m.expand (s.getLast?.or before) rest := by
  induction s generalizing before with
  | nil => rfl
  | cons c s ih =>
      have hc := hs c (by simp)
      rw [List.cons_append, expand_of_none, ih (some c) (fun d hd => hs d (by simp [hd])),
        or_getLast?_cons]
      · rfl
      · rw [operand?_of_ne_minus m before hc.2, marked?_cons_of_not_isPart m hc.1]

/-- A numeral without the mark behind it is copied. -/
theorem expand_parts {m : Mark} (hm : Numeral.isPart m.sign = false) (before : Option Char)
    {s rest : List Char} (hs : ∀ c ∈ s, Numeral.isPart c = true)
    (hr : ∀ c ∈ rest.head?, Numeral.isPart c = false ∧ c ≠ m.sign) :
    m.expand before (s ++ rest) = s ++ m.expand (s.getLast?.or before) rest := by
  induction s generalizing before with
  | nil => rfl
  | cons c s ih =>
      have hne : c ≠ '-' := by
        rintro rfl
        exact absurd (hs '-' (by simp)) (by decide)
      -- The parts are tried one after the other, each with the same rest.
      have hmarked := marked?_parts hm hs hr
      rw [List.cons_append] at hmarked ⊢
      rw [expand_of_none, ih (some c) (fun d hd => hs d (by simp [hd])), or_getLast?_cons]
      · rfl
      · rw [operand?_of_ne_minus m before hne, hmarked]

/-- A numeral with the mark behind it. -/
theorem marked?_text {m : Mark} (hm : Numeral.isPart m.sign = false) {n : Numeral}
    (hn : n.WellFormed) (rest : List Char) :
    m.marked? (n.text ++ m.sign :: rest) = some (n.text, rest) := by
  have hsplit := Bool.or_eq_false_iff.1 hm
  have hpoint : m.sign ≠ '.' := by simpa using hsplit.2
  rw [marked?, Numeral.scan?_text_append hn (by simpa using hsplit.1)
    fun _ => by simpa using hpoint]
  simp

/-- A numeral with the mark behind it becomes a call. -/
theorem expand_marked {m : Mark} (hm : Numeral.isPart m.sign = false) (before : Option Char)
    {n : Numeral} (hn : n.WellFormed) (rest : List Char) :
    m.expand before (n.text ++ m.sign :: rest) =
      call m.word n.text ++ m.expand (some m.sign) rest := by
  rcases List.exists_cons_of_ne_nil (Numeral.text_ne_nil hn) with ⟨c, s, htext⟩
  have hne : c ≠ '-' := by
    rintro rfl
    have hpart := Numeral.isPart_of_mem_text hn (c := '-') (by simp [htext])
    exact absurd hpart (by decide)
  have hmarked := marked?_text hm hn rest
  refine expand_of_some ?_
  rw [htext, List.cons_append] at hmarked ⊢
  rw [operand?_of_ne_minus m before hne, hmarked]

end Mark

end Shorthand

namespace Typed

open Shorthand (Mark isUnaryPlace)
open Shorthand.Mark (IsPlain)

/-- The characters behind an operand. -/
def closers : List Char :=
  ['+', '-', '*', '/', '^', ')']

theorem isPart_of_mem_closers {c : Char} (h : c ∈ closers) : Numeral.isPart c = false := by
  have : ∀ c ∈ closers, Numeral.isPart c = false := forall_mem_of_all (by decide)
  exact this c h

/-- What stands behind an operand. -/
theorem head?_text_of_closed {cs : List Symbol} {q : Place} (h : follow? .closed cs = some q)
    (f p : Bool) : ∀ c ∈ (text f p cs).head?, c ∈ closers := by
  intro c hc
  cases cs with
  | nil => exact absurd hc (by simp [text])
  | cons x cs =>
      cases x with
      | operator op =>
          cases op <;>
            (rcases (by simpa [text, Symbol.text, BinaryOp.symbol] using hc : _ = c)
             simp [closers])
      | caret =>
          rcases (by simpa [text, Symbol.text] using hc : _ = c)
          simp [closers]
      | rightParen =>
          rcases (by simpa [text, Symbol.text] using hc : _ = c)
          simp [closers]
      | _ => exact absurd h (by simp [follow?, Place.next?])

/-- What stands behind an operand does not extend a numeral, and is no mark. -/
theorem not_isPart_of_closed {cs : List Symbol} {q : Place} (h : follow? .closed cs = some q)
    (f p : Bool) (sign : Char) (hsign : sign ∉ closers) :
    ∀ c ∈ (text f p cs).head?, Numeral.isPart c = false ∧ c ≠ sign := by
  intro c hc
  have hmem := head?_text_of_closed h f p c hc
  refine ⟨isPart_of_mem_closers hmem, ?_⟩
  rintro rfl
  exact hsign hmem

/-- The letters of words start no numeral. -/
theorem isPlain_of_isLetter {c : Char} (h : isLetter c = true) : IsPlain c := by
  rcases Bool.or_eq_true_iff.1 h with h | h
  · refine ⟨Numeral.isPart_of_isAlpha h, ?_⟩
    rintro rfl
    exact absurd h (by decide)
  · rw [of_decide_eq_true h]
    exact ⟨by decide, by decide⟩

/-- The character before a place, if that place shows in it. -/
def Behind (p : Place) (before : Option Char) : Prop :=
  match p with
  | .operand | .minus => isUnaryPlace before = true
  | .closed => isUnaryPlace before = false
  | .root | .callee => True

/-- Behind a character of a kind to which no opening character belongs, no sign
    is unary. -/
theorem isUnaryPlace_eq_false {kind : Char → Bool}
    (hkind : ∀ d ∈ ['(', '+', '-', '*', '/', '^', ','], kind d = false) {c : Char}
    (h : kind c = true) : isUnaryPlace (some c) = false := by
  rw [isUnaryPlace, Option.all_some, Bool.eq_false_iff]
  intro hmem
  rw [hkind c (by simpa using hmem)] at h
  exact absurd h (by simp)

theorem isUnaryPlace_of_isPart {c : Char} (h : Numeral.isPart c = true) :
    isUnaryPlace (some c) = false :=
  isUnaryPlace_eq_false (forall_mem_of_all (by decide)) h

theorem isUnaryPlace_of_isLetter {c : Char} (h : isLetter c = true) :
    isUnaryPlace (some c) = false :=
  isUnaryPlace_eq_false (forall_mem_of_all (by decide)) h

theorem isUnaryPlace_getLast? {s : List Char} {before : Option Char} (hne : s ≠ [])
    (hs : ∀ c ∈ s, isUnaryPlace (some c) = false) :
    isUnaryPlace (s.getLast?.or before) = false := by
  rw [List.getLast?_eq_some_getLast hne]
  exact hs _ (List.getLast_mem hne)

/-- Behind a unary minus sign no operand of the factorial starts. -/
theorem marked?_of_minus {cs : List Symbol} {q : Place} (h : follow? .minus cs = some q)
    (hw : ∀ x ∈ cs, x.WellFormed) : Mark.factorial.marked? (text false false cs) = none := by
  have hfactorial : Numeral.isPart Mark.factorial.sign = false := by decide
  cases cs with
  | nil => rfl
  | cons x cs =>
      have hx := hw x (by simp)
      cases x with
      -- A numeral here has no factorial mark: as a piece it stands behind no
      -- unary sign with one.
      | number n =>
          refine Mark.marked?_parts hfactorial (fun c hc => Numeral.isPart_of_mem_text hx hc) ?_
          exact not_isPart_of_closed h false false _ (by decide)
      | percent n =>
          have htext : text false false (.percent n :: cs) =
              n.text ++ '%' :: text false false cs := by simp [text, Symbol.text]
          rw [htext]
          refine Mark.marked?_parts hfactorial (fun c hc => Numeral.isPart_of_mem_text hx hc) ?_
          intro c hc
          rcases (by simpa using hc : '%' = c)
          exact ⟨by decide, by decide⟩
      | factorial negative n =>
          cases negative with
          | false => exact absurd h (by simp [follow?, Place.next?])
          | true => exact Mark.marked?_cons_of_not_isPart _ (by decide) _
      | word letters =>
          rcases List.exists_cons_of_ne_nil hx.1 with ⟨c, s, rfl⟩
          exact Mark.marked?_cons_of_not_isPart _ (isPlain_of_isLetter (hx.2 c (by simp))).1 _
      | operator op => cases op <;> exact Mark.marked?_cons_of_not_isPart _ (by decide) _
      | _ => exact Mark.marked?_cons_of_not_isPart _ (by decide) _

theorem text_cons (f p : Bool) (x : Symbol) (cs : List Symbol) :
    text f p (x :: cs) = x.text f p ++ text f p cs := rfl

theorem follow?_cons {p r : Place} {x : Symbol} {cs : List Symbol}
    (h : follow? p (x :: cs) = some r) : ∃ q, p.next? x = some q ∧ follow? q cs = some r :=
  Option.bind_eq_some_iff.1 h

/-- Behind an operand there is no place for another one. -/
theorem closed_of_next? {p q : Place} {n : Numeral} {x : Symbol}
    (hx : x = .number n ∨ x = .percent n ∨ ∃ negative, x = .factorial negative n)
    (h : p.next? x = some q) : q = .closed := by
  rcases hx with rfl | rfl | ⟨negative, rfl⟩
  · cases p <;> simp_all [Place.next?, Place.ofOperand?, Place.ofAtom?]
  · cases p <;> simp_all [Place.next?, Place.ofOperand?, Place.ofAtom?]
  · cases p <;> cases negative <;> simp_all [Place.next?, Place.ofOperand?, Place.ofAtom?]

/-- A word is a constant or a callee. -/
theorem ofWord?_of_next? {p q : Place} {letters : List Char}
    (h : p.next? (.word letters) = some q) : q = .closed ∨ q = .callee := by
  have hword : Place.ofWord? letters = some q := by
    cases p <;> first | exact h | exact absurd h (by simp [Place.next?])
  rcases Place.ofWord?_eq_some hword with ⟨c, -, rfl⟩ | ⟨f, -, rfl⟩
  · exact .inl rfl
  · exact .inr rfl

/-- Behind the sign of an operation an operand must stand. -/
theorem operand_of_next? {p q : Place} {op : BinaryOp} (h : p.next? (.operator op) = some q) :
    q = .operand ∨ q = .minus := by
  cases p <;> cases op <;> simp_all [Place.next?, Place.ofOperand?, Place.ofAtom?]

/-- A root sign leads to a place of its own. -/
theorem root_of_next? {p q : Place} (h : p.next? .root = some q) : .root = q := by
  cases p <;> simp_all [Place.next?, Place.ofOperand?, Place.ofAtom?]

theorem isPlain_of_mem_symbol {op : BinaryOp} (hop : op ≠ .sub) :
    ∀ c ∈ op.symbol, IsPlain c := by
  have : ∀ c ∈ ['+', '*', '/'], Numeral.isPart c = false ∧ c ≠ '-' :=
    forall_mem_of_all (by decide)
  intro c hc
  refine this c ?_
  cases op with
  | sub => exact absurd rfl hop
  | _ => simp_all [BinaryOp.symbol]

/-- A minus sign with the numeral behind it, where it is unary. -/
theorem operand?_negative {before : Option Char} (hb : isUnaryPlace before = true) {n : Numeral}
    (hn : n.WellFormed) (rest : List Char) :
    Mark.factorial.operand? before ('-' :: (n.text ++ '!' :: rest)) =
      some ('-' :: n.text, rest) := by
  have hmarked := Mark.marked?_text (m := Mark.factorial) (by decide) hn rest
  have hmarked : Mark.factorial.marked? (n.text ++ '!' :: rest) = some (n.text, rest) := hmarked
  rw [Mark.operand?, hb, hmarked]
  rfl

/-- A minus sign that is not taken along. -/
theorem operand?_minus {before : Option Char} {rest : List Char}
    (h : isUnaryPlace before = true → Mark.factorial.marked? rest = none) :
    Mark.factorial.operand? before ('-' :: rest) = none := by
  rw [Mark.operand?]
  split
  · -- The numeral is tried only where the sign is unary.
    rename_i hb
    rw [h (by simpa using (Bool.and_eq_true_iff.1 hb).2)]
    rfl
  · rfl

/-- The last character of a piece shows the place behind it. -/
theorem behind_getLast? {p q : Place} {x : Symbol} (hq : p.next? x = some q) (hx : x.WellFormed)
    (f g : Bool) (before : Option Char) : Behind q ((x.text f g).getLast?.or before) := by
  cases x with
  | number n =>
      rcases closed_of_next? (.inl rfl) hq
      exact isUnaryPlace_getLast? (Numeral.text_ne_nil hx) fun c hc =>
        isUnaryPlace_of_isPart (Numeral.isPart_of_mem_text hx hc)
  -- A mark ends the piece, or the parenthesis of the call.
  | percent n =>
      rcases closed_of_next? (.inr (.inl rfl)) hq
      cases g <;> simp [Behind, Symbol.text, Shorthand.getLast?_call, isUnaryPlace]
  | factorial negative n =>
      rcases closed_of_next? (.inr (.inr ⟨negative, rfl⟩)) hq
      cases f <;> simp [Behind, Symbol.text, Shorthand.getLast?_call, isUnaryPlace]
  | word letters =>
      rcases ofWord?_of_next? hq with rfl | rfl
      · exact isUnaryPlace_getLast? hx.1 fun c hc => isUnaryPlace_of_isLetter (hx.2 c hc)
      · trivial
  | operator op =>
      rcases operand_of_next? hq with rfl | rfl
      all_goals cases op <;> simp [Behind, Symbol.text, BinaryOp.symbol, isUnaryPlace]
  | caret =>
      cases p <;> simp_all [Place.next?, Place.ofOperand?, Place.ofAtom?]
      subst hq
      simp [Behind, Symbol.text, isUnaryPlace]
  | root =>
      cases p <;> simp_all [Place.next?, Place.ofOperand?, Place.ofAtom?]
      all_goals (subst hq; trivial)
  | leftParen =>
      cases p <;> simp_all [Place.next?, Place.ofOperand?, Place.ofAtom?]
      all_goals (subst hq; simp [Behind, Symbol.text, isUnaryPlace])
  | rightParen =>
      cases p <;> simp_all [Place.next?, Place.ofOperand?, Place.ofAtom?]
      subst hq
      simp [Behind, Symbol.text, isUnaryPlace]

/-- A pass that makes of each piece what it should makes of all pieces what it
    should. -/
theorem expand_text {m : Mark} {f g f' g' : Bool}
    (hpass : ∀ {p q : Place} {before : Option Char} {x : Symbol} {cs : List Symbol},
      p.next? x = some q → follow? q cs = some .closed → (∀ y ∈ x :: cs, y.WellFormed) →
      Behind p before → ∃ last, Behind q last ∧
        m.expand before (x.text f g ++ text f g cs) = x.text f' g' ++ m.expand last (text f g cs))
    {cs : List Symbol} {p : Place} {before : Option Char} (h : follow? p cs = some .closed)
    (hw : ∀ x ∈ cs, x.WellFormed) (hb : Behind p before) :
    m.expand before (text f g cs) = text f' g' cs := by
  induction cs generalizing p before with
  | nil => exact Mark.expand_nil _ _
  -- What the pass needs to know of the text before is the last character.
  | cons x cs ih =>
      rcases follow?_cons h with ⟨q, hq, hfollow⟩
      rcases hpass hq hfollow hw hb with ⟨last, hlast, hexpand⟩
      rw [text_cons, text_cons, hexpand, ih hfollow (fun y hy => hw y (by simp [hy])) hlast]

/-- The pass of the factorial changes the pieces of the factorial only. -/
theorem expand_factorial {cs : List Symbol} {p : Place} {before : Option Char}
    (h : follow? p cs = some .closed) (hw : ∀ x ∈ cs, x.WellFormed) (hb : Behind p before) :
    Mark.factorial.expand before (text false false cs) = text true false cs := by
  have hsign : Numeral.isPart Mark.factorial.sign = false := by decide
  refine expand_text (fun {p q before x cs} hq hfollow hw hb => ?_) h hw hb
  have hx := hw x (by simp)
  have hlast := behind_getLast? hq hx false false before
  cases x with
  | number n =>
      rcases closed_of_next? (.inl rfl) hq
      refine ⟨_, hlast, Mark.expand_parts hsign before ?_ ?_⟩
      · exact fun c hc => Numeral.isPart_of_mem_text hx hc
      · exact not_isPart_of_closed hfollow false false _ (by decide)
  -- The numeral is tried for the wrong mark, and copied with its own.
  | percent n =>
      have hcopy : ∀ before, Mark.factorial.expand before (['%'] ++ text false false cs) =
          ['%'] ++ Mark.factorial.expand (some '%') (text false false cs) := fun before =>
        Mark.expand_plain _ _ (by simp [Mark.IsPlain]; decide) _
      refine ⟨_, hlast, ?_⟩
      rw [Symbol.text, if_neg (by simp), List.append_assoc, Mark.expand_parts hsign before, hcopy]
      · simp [Symbol.text]
      · exact fun c hc => Numeral.isPart_of_mem_text hx hc
      · simp [Mark.factorial]
        decide
  | factorial negative n =>
      rcases closed_of_next? (.inr (.inr ⟨negative, rfl⟩)) hq
      refine ⟨some '!', (by decide : isUnaryPlace (some '!') = false), ?_⟩
      cases negative with
      | false =>
          have hmarked := Mark.expand_marked hsign before hx (text false false cs)
          simp only [Symbol.text, Symbol.signed, Bool.false_eq_true, if_false, if_true,
            List.append_assoc, List.singleton_append]
          exact hmarked
      | true =>
          -- The piece takes its sign along only where an operand must stand.
          have hunary : isUnaryPlace before = true := by
            cases p with
            | operand => exact hb
            | minus => exact hb
            | _ => exact absurd hq (by simp [Place.next?, Place.ofAtom?])
          have hoperand := operand?_negative hunary hx (text false false cs)
          simp only [Symbol.text, Symbol.signed, Bool.false_eq_true, if_false, if_true,
            List.append_assoc, List.cons_append, List.nil_append]
          exact Mark.expand_of_some hoperand
  | word letters =>
      exact ⟨_, hlast, Mark.expand_plain _ _ (fun c hc => isPlain_of_isLetter (hx.2 c hc)) _⟩
  | operator op =>
      refine ⟨_, hlast, ?_⟩
      by_cases hop : op = .sub
      · subst hop
        refine Mark.expand_of_none (operand?_minus fun hunary => ?_)
        -- Where the sign is unary it leads behind a unary minus sign.
        have hminus : q = .minus := by
          cases p with
          | closed => exact absurd hunary (by rw [show isUnaryPlace before = false from hb]; simp)
          | _ => simp_all [Place.next?, Place.ofOperand?, Place.ofAtom?]
        subst hminus
        exact marked?_of_minus hfollow fun y hy => hw y (by simp [hy])
      · exact Mark.expand_plain _ _ (isPlain_of_mem_symbol hop) _
  | _ => exact ⟨_, hlast, Mark.expand_plain _ _ (by simp [Symbol.text, Mark.IsPlain]; decide) _⟩

/-- The percent takes no sign along. -/
theorem expand_percent_minus (before : Option Char) (rest : List Char) :
    Mark.percent.expand before ('-' :: rest) = '-' :: Mark.percent.expand (some '-') rest :=
  Mark.expand_of_none (by simp [Mark.operand?, Mark.percent])

/-- The argument of a call is copied by the pass of the percent. -/
theorem expand_percent_signed (before : Option Char) (negative : Bool) {n : Numeral}
    (hn : n.WellFormed) (rest : List Char) :
    ∃ last, Mark.percent.expand before (Symbol.signed negative n ++ ')' :: rest) =
      Symbol.signed negative n ++ Mark.percent.expand last (')' :: rest) := by
  have hstop : ∀ c ∈ (')' :: rest).head?, Numeral.isPart c = false ∧ c ≠ Mark.percent.sign := by
    simp [Mark.percent]
    decide
  have hparts : ∀ c ∈ n.text, Numeral.isPart c = true := fun c hc =>
    Numeral.isPart_of_mem_text hn hc
  cases negative with
  | false => exact ⟨_, Mark.expand_parts (by decide) before hparts hstop⟩
  -- The sign is copied first, then the numeral in front of the parenthesis.
  | true =>
      refine ⟨n.text.getLast?.or (some '-'), ?_⟩
      simp only [Symbol.signed, if_true, List.cons_append]
      rw [expand_percent_minus, Mark.expand_parts (by decide) _ hparts hstop]

/-- The pass of the percent changes the pieces of the percent only. -/
theorem expand_percent {cs : List Symbol} {p : Place} {before : Option Char}
    (h : follow? p cs = some .closed) (hw : ∀ x ∈ cs, x.WellFormed) (hb : Behind p before) :
    Mark.percent.expand before (text true false cs) = text true true cs := by
  have hsign : Numeral.isPart Mark.percent.sign = false := by decide
  refine expand_text (fun {p q before x cs} hq hfollow hw hb => ?_) h hw hb
  have hx := hw x (by simp)
  have hlast := behind_getLast? hq hx true false before
  cases x with
  | number n =>
      rcases closed_of_next? (.inl rfl) hq
      refine ⟨_, hlast, Mark.expand_parts hsign before ?_ ?_⟩
      · exact fun c hc => Numeral.isPart_of_mem_text hx hc
      · exact not_isPart_of_closed hfollow true false _ (by decide)
  | percent n =>
      rcases closed_of_next? (.inr (.inl rfl)) hq
      refine ⟨some '%', (by decide : isUnaryPlace (some '%') = false), ?_⟩
      have hmarked := Mark.expand_marked hsign before hx (text true false cs)
      simp only [Symbol.text, Bool.false_eq_true, if_false, if_true,
        List.append_assoc, List.singleton_append]
      exact hmarked
  | factorial negative n =>
      -- The call of a factorial is copied in three parts: the word with its
      -- parenthesis, the argument, and what closes it.
      have hword : ∀ c ∈ Mark.factorial.word ++ ['('], Mark.IsPlain c := by
        simp [Mark.factorial, Mark.IsPlain]
        decide
      have hclose : ∀ c ∈ [')'], Mark.IsPlain c := by
        simp [Mark.IsPlain]
        decide
      rcases expand_percent_signed ((Mark.factorial.word ++ ['(']).getLast?.or before) negative hx
        (text true false cs) with ⟨last, hsigned⟩
      refine ⟨some ')', ?_, ?_⟩
      · rcases closed_of_next? (.inr (.inr ⟨negative, rfl⟩)) hq
        exact (by decide : isUnaryPlace (some ')') = false)
      · have hcopy := Mark.expand_plain Mark.percent last hclose (text true false cs)
        rw [List.singleton_append] at hcopy
        rw [hcopy] at hsigned
        have hsplit (rest : List Char) :
            Shorthand.call Mark.factorial.word (Symbol.signed negative n) ++ rest =
              (Mark.factorial.word ++ ['(']) ++ (Symbol.signed negative n ++ ')' :: rest) := by
          simp [Shorthand.call]
        simp only [Symbol.text, if_true]
        rw [hsplit, hsplit, Mark.expand_plain _ _ hword, hsigned]
        rfl
  | word letters =>
      exact ⟨_, hlast, Mark.expand_plain _ _ (fun c hc => isPlain_of_isLetter (hx.2 c hc)) _⟩
  | operator op =>
      refine ⟨_, hlast, ?_⟩
      by_cases hop : op = .sub
      · subst hop
        exact expand_percent_minus _ _
      · exact Mark.expand_plain _ _ (isPlain_of_mem_symbol hop) _
  | _ => exact ⟨_, hlast, Mark.expand_plain _ _ (by simp [Symbol.text, Mark.IsPlain]; decide) _⟩

/-- Expanding marks is expanding them piece by piece. -/
theorem expandMarks_text {cs : List Symbol} (h : follow? .operand cs = some .closed)
    (hw : ∀ x ∈ cs, x.WellFormed) :
    Shorthand.expandMarks (text false false cs) = text true true cs := by
  have hstart : Behind .operand none := (by decide : isUnaryPlace none = true)
  rw [Shorthand.expandMarks, Mark.calls_eq, Mark.calls_eq, expand_factorial h hw hstart,
    expand_percent h hw hstart]

end Typed

end Calculator
