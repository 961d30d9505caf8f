import Calculator.Proofs.Literal
import Calculator.Proofs.Typed.Language

/-!
# Canonical text is a fixed point

Expanding shorthand leaves none behind, so expanding it once more changes
nothing. Root signs, power signs and the circle constant are easily seen to be
gone: they are replaced wherever they stand. Marks are not. A mark is only
expanded behind a numeral, the others stay in the text, and any of the passes
could bring one of them behind a numeral.

What a pass does to a text is therefore described from the side of what is not
to be: a mark right behind a numeral. A pass copies characters and replaces
pieces. A character is only copied where no numeral with a mark starts, and the
new pieces, which are words and calls, neither end like a numeral nor start
like one or like a mark. So a numeral with a mark in the new text has been
copied character by character, and nothing that was copied starts one.

Canonical text has no character that is dropped either, so it can be typed
again, and it then means what it meant.

## Main definitions

* `Shorthand.StartsMarked`, `Shorthand.Unmarked`: A numeral with a mark, at the
  start of a text and nowhere in it.
* `Shorthand.Detached`: A piece that does not join its neighbours.
* `Shorthand.Rewrites`: Copying characters and replacing pieces.

## Theorems

* `Shorthand.Rewrites.unmarked`: What such a pass leaves has no marked numeral.
* `Shorthand.unmarked_expand`: Nor has a text with its shorthand expanded.
* `Shorthand.expand_expand`: Expanding twice is expanding once.
* `Formula.canonical_fixed`: Canonical text is not changed by any stage before
  scanning.
-/

namespace Calculator

namespace Shorthand

/-- A text starts with a numeral that has a sign right behind it. -/
def StartsMarked (sign : Char) (text : List Char) : Prop :=
  ∃ (n : Numeral) (rest : List Char), n.WellFormed ∧ text = n.text ++ sign :: rest

/-- Nowhere in a text does a sign stand right behind a numeral. -/
def Unmarked (sign : Char) (text : List Char) : Prop :=
  ∀ rest, rest <:+ text → ¬StartsMarked sign rest

/-- A piece of text without marked numerals that does not join its neighbours:
    it neither starts nor ends like a numeral, nor starts with the sign. -/
structure Detached (sign : Char) (piece : List Char) : Prop where
  /-- It has no marked numeral. -/
  unmarked : Unmarked sign piece
  /-- It does not start like a numeral or with the sign. -/
  head : ∃ c ∈ piece.head?, Numeral.isPart c = false ∧ c ≠ sign
  /-- It does not end like a numeral. -/
  last : ∃ c ∈ piece.getLast?, Numeral.isPart c = false

/-- How a pass makes one text of another: characters are copied where no marked
    numeral starts, and pieces are replaced by detached ones. -/
inductive Rewrites (sign : Char) : List Char → List Char → Prop
  | nil : Rewrites sign [] []
  /-- A character is copied. -/
  | copy {c : Char} {text result : List Char} (unmarked : ¬StartsMarked sign (c :: text))
      (tail : Rewrites sign text result) : Rewrites sign (c :: text) (c :: result)
  /-- A piece is replaced. -/
  | piece {old text new result : List Char} (detached : Detached sign new)
      (tail : Rewrites sign text result) : Rewrites sign (old ++ text) (new ++ result)

section

variable {sign : Char} {text rest : List Char}

theorem unmarked_nil : Unmarked sign [] := by
  rintro rest hsuffix ⟨n, tail, -, htext⟩
  rw [List.suffix_nil.1 hsuffix] at htext
  simp at htext

theorem unmarked_cons {c : Char} :
    Unmarked sign (c :: text) ↔ ¬StartsMarked sign (c :: text) ∧ Unmarked sign text := by
  constructor
  · intro h
    exact ⟨h _ List.suffix_rfl,
      fun rest hsuffix => h rest (hsuffix.trans (List.suffix_cons c text))⟩
  · rintro ⟨hhead, htail⟩ rest hsuffix
    rcases List.suffix_cons_iff.1 hsuffix with rfl | hsuffix
    · exact hhead
    · exact htail rest hsuffix

theorem Unmarked.suffix (h : Unmarked sign text) (hsuffix : rest <:+ text) : Unmarked sign rest :=
  fun tail htail => h tail (htail.trans hsuffix)

/-- A text without the sign has no marked numeral. -/
theorem unmarked_of_not_mem (h : sign ∉ text) : Unmarked sign text := by
  rintro rest hsuffix ⟨n, tail, -, rfl⟩
  exact h (hsuffix.subset (by simp))

/-- The start of a text without marked numerals has none. -/
theorem Unmarked.left (h : Unmarked sign (text ++ rest)) : Unmarked sign text := by
  rintro tail ⟨before, rfl⟩ ⟨n, behind, hn, rfl⟩
  refine h (n.text ++ sign :: behind ++ rest) ⟨before, by simp⟩ ⟨n, behind ++ rest, hn, by simp⟩

/-- A piece of a numeral that is not empty ends like one. -/
theorem getLast?_isPart {before left : List Char} (hne : left ≠ [])
    (hpart : ∀ c ∈ left, Numeral.isPart c = true) :
    ¬∀ c ∈ (before ++ left).getLast?, Numeral.isPart c = false := by
  intro h
  have hlast := h (left.getLast hne)
    (by simp [List.getLast?_append, List.getLast?_eq_some_getLast hne])
  rw [hpart _ (List.getLast_mem hne)] at hlast
  exact absurd hlast (by simp)

/-- Two texts without marked numerals make up another one if nothing of a
    numeral ends the first, or neither that nor the sign starts the second. -/
theorem Unmarked.append (hl : Unmarked sign text) (hr : Unmarked sign rest)
    (hjoin : (∀ c ∈ text.getLast?, Numeral.isPart c = false) ∨
      ∀ c ∈ rest.head?, Numeral.isPart c = false ∧ c ≠ sign) : Unmarked sign (text ++ rest) := by
  rintro tail ⟨before, hbefore⟩ ⟨n, behind, hn, rfl⟩
  have hpart : ∀ c ∈ n.text, Numeral.isPart c = true := fun c hc => Numeral.isPart_of_mem_text hn hc
  rcases List.append_eq_append_iff.1 hbefore with ⟨left, rfl, hnumeral⟩ | ⟨left, -, hrest⟩
  · rcases List.append_eq_append_iff.1 hnumeral with ⟨right, rfl, hsign⟩ | ⟨right, hsplit, rfl⟩
    · cases right with
      | nil =>
        -- The numeral ends the first text, and the sign starts the second.
        rw [List.append_nil] at hjoin
        rcases hjoin with hlast | hhead
        · exact getLast?_isPart (Numeral.text_ne_nil hn) hpart hlast
        · obtain rfl : sign :: behind = rest := hsign
          exact (hhead sign rfl).2 rfl
      | cons d right =>
        obtain ⟨rfl, -⟩ := by simpa using hsign
        exact hl _ (List.suffix_append _ _) ⟨n, right, hn, rfl⟩
    · rcases List.eq_nil_or_concat left with rfl | ⟨_, _, hleft⟩
      · exact hr _ List.suffix_rfl ⟨n, behind, hn, by rw [hsplit, List.nil_append]⟩
      · -- The numeral starts in the first text and does not end before the second.
        rcases hjoin with hlast | hhead
        · refine getLast?_isPart (by simp [hleft]) (fun c hc => hpart c ?_) hlast
          rw [hsplit]
          exact List.mem_append_left _ hc
        · cases right with
          | nil => exact (hhead sign rfl).2 rfl
          | cons d right =>
            have hd := hpart d (by simp [hsplit])
            rw [(hhead d rfl).1] at hd
            exact absurd hd (by simp)
  · exact hr _ ⟨left, hrest.symm⟩ ⟨n, behind, hn, rfl⟩

namespace Rewrites

/-- A single character is replaced. -/
theorem character {c : Char} {new result : List Char} (detached : Detached sign new)
    (tail : Rewrites sign text result) : Rewrites sign (c :: text) (new ++ result) :=
  @piece sign [c] text new result detached tail

/-- Parts of a numeral with the sign behind them have been copied. -/
theorem exists_copied {result parts behind : List Char} (h : Rewrites sign text result)
    (hparts : ∀ c ∈ parts, Numeral.isPart c = true) (hresult : result = parts ++ sign :: behind) :
    ∃ rest, text = parts ++ sign :: rest := by
  induction h generalizing parts with
  | nil => simp at hresult
  | @copy c text result _ _ ih =>
    cases parts with
    | nil =>
      obtain ⟨rfl, -⟩ := by simpa using hresult
      exact ⟨text, rfl⟩
    | cons d parts =>
      obtain ⟨rfl, htail⟩ := by simpa using hresult
      obtain ⟨rest, rfl⟩ := ih (fun e he => hparts e (List.mem_cons_of_mem c he)) htail
      exact ⟨rest, rfl⟩
  | piece detached _ _ =>
    -- A new piece starts with something else.
    obtain ⟨c, hc, hpart, hsign⟩ := detached.head
    obtain ⟨new, rfl⟩ := List.head?_eq_some_iff.1 hc
    cases parts with
    | nil => exact absurd (by simpa using hresult : _ ∧ _).1 hsign
    | cons d parts =>
      obtain ⟨rfl, -⟩ := by simpa using hresult
      rw [hparts c (by simp)] at hpart
      exact absurd hpart (by simp)

/-- What a pass leaves has no marked numeral. -/
theorem unmarked {result : List Char} (h : Rewrites sign text result) : Unmarked sign result := by
  induction h with
  | nil => exact unmarked_nil
  | @copy c text result hcopied tail ih =>
    refine unmarked_cons.2 ⟨?_, ih⟩
    rintro ⟨n, behind, hn, hresult⟩
    obtain ⟨rest, htext⟩ := (copy hcopied tail).exists_copied
      (fun d hd => Numeral.isPart_of_mem_text hn hd) hresult
    exact hcopied ⟨n, rest, hn, htext⟩
  | piece detached _ ih =>
    refine detached.unmarked.append ih (.inl fun c hc => ?_)
    obtain ⟨d, hd, hpart⟩ := detached.last
    rwa [Option.mem_unique hc hd]

end Rewrites

end

/-! ### The passes -/

section

variable {sign : Char} {text : List Char}

/-- A call of a word with an argument that has no marked numeral. -/
theorem detached_call {word argument : List Char}
    (hword : ∃ c ∈ word.head?, Numeral.isPart c = false) (hmem : sign ∉ word ++ ['(', ')'])
    (harg : Unmarked sign argument) : Detached sign (call word argument) := by
  obtain ⟨c, hc, hpart⟩ := hword
  obtain ⟨letters, rfl⟩ := List.head?_eq_some_iff.1 hc
  have hsign : sign ≠ c ∧ sign ∉ letters ∧ sign ≠ '(' ∧ sign ≠ ')' := by simpa using hmem
  have hopening : Unmarked sign (c :: letters ++ ['(']) :=
    unmarked_of_not_mem (by simp [hsign])
  have hclosing : Unmarked sign [')'] := unmarked_of_not_mem (by simp [hsign])
  refine ⟨?_, ⟨c, rfl, hpart, hsign.1.symm⟩, ⟨')', getLast?_call _ _, by decide⟩⟩
  have htext : call (c :: letters) argument = (c :: letters ++ ['(']) ++ (argument ++ [')']) := by
    simp [call]
  rw [htext]
  refine hopening.append (harg.append hclosing (.inr ?_)) (.inl ?_)
  · rintro d hd
    obtain rfl : ')' = d := by simpa using hd
    exact ⟨by decide, hsign.2.2.2.symm⟩
  · intro d hd
    rw [List.getLast?_concat] at hd
    obtain rfl : '(' = d := by simpa using hd
    decide

/-- A numeral with the mark behind it is an operand of the mark. -/
theorem not_startsMarked_of_operand? {m : Mark} (hm : Numeral.isPart m.sign = false)
    {before : Option Char} (h : m.operand? before text = none) : ¬StartsMarked m.sign text := by
  rintro ⟨n, rest, hn, rfl⟩
  obtain ⟨c, parts, hn'⟩ := List.exists_cons_of_ne_nil (Numeral.text_ne_nil hn)
  have hminus : c ≠ '-' := by
    rintro rfl
    exact absurd (Numeral.isPart_of_mem_text hn (c := '-') (by simp [hn'])) (by decide)
  have hmarked := Mark.marked?_text hm hn rest
  rw [hn', List.cons_append] at h hmarked
  rw [Mark.operand?_of_ne_minus m before hminus, hmarked] at h
  exact absurd h (by simp)

/-- The marks: a sign that is no part of a text in canonical spelling, and a
    word of letters. -/
theorem rewrites_expand {m : Mark} (hm : m = Mark.factorial ∨ m = Mark.percent)
    (hsign : sign = '!' ∨ sign = '%') {before : Option Char}
    (h : sign = m.sign ∨ Unmarked sign text) : Rewrites sign text (m.expand before text) := by
  have hpart : Numeral.isPart m.sign = false := by rcases hm with rfl | rfl <;> decide
  have hword : ∃ c ∈ m.word.head?, Numeral.isPart c = false := by
    rcases hm with rfl | rfl <;> exact ⟨_, rfl, by decide⟩
  have hmem : sign ∉ m.word ++ ['(', ')'] := by
    rcases hm with rfl | rfl <;> rcases hsign with rfl | rfl <;> decide
  have hnot : Numeral.isPart sign = false ∧ sign ≠ '-' := by
    rcases hsign with rfl | rfl <;> decide
  fun_induction Mark.expand m before text with
  | case1 before text operand rest hoperand ih =>
    obtain ⟨n, hn, hsplit⟩ := Typed.eq_of_operand? hoperand
    have hnumeral : sign ∉ n.text := fun hin => by
      rw [Numeral.isPart_of_mem_text hn hin] at hnot
      exact absurd hnot.1 (by simp)
    -- The operand goes with its sign or without it; either way no mark is in it.
    obtain ⟨old, rfl, hunmarked⟩ : ∃ old, text = old ++ rest ∧ sign ∉ operand := by
      rcases hsplit with ⟨rfl, rfl⟩ | ⟨rfl, rfl, -⟩
      · exact ⟨n.text ++ [m.sign], by simp, hnumeral⟩
      · exact ⟨'-' :: n.text ++ [m.sign], by simp, by simp [hnumeral, hnot.2]⟩
    exact .piece (detached_call hword hmem (unmarked_of_not_mem hunmarked))
      (ih (h.imp_right fun h => h.suffix (List.suffix_append _ _)))
  | case2 => exact .nil
  | case3 before c rest hnone ih =>
    refine .copy ?_ (ih (h.imp_right fun h => (unmarked_cons.1 h).2))
    rcases h with rfl | h
    · exact not_startsMarked_of_operand? hpart hnone
    · exact (unmarked_cons.1 h).1

/-- A word without marks that neither starts nor ends like a numeral. -/
theorem detached_word {word : List Char} (hmem : sign ∉ word)
    (hhead : ∃ c ∈ word.head?, Numeral.isPart c = false)
    (hlast : ∃ c ∈ word.getLast?, Numeral.isPart c = false) : Detached sign word := by
  obtain ⟨c, hc, hpart⟩ := hhead
  refine ⟨unmarked_of_not_mem hmem, ⟨c, hc, hpart, ?_⟩, hlast⟩
  rintro rfl
  exact hmem (List.mem_of_mem_head? hc)

/-- The root signs: an operand has its own root signs expanded first. -/
theorem rewrites_expandRoots (hsign : sign = '!' ∨ sign = '%') (h : Unmarked sign text) :
    Rewrites sign text (expandRoots text) := by
  have hmem : sign ∉ rootWord ++ ['(', ')'] := by rcases hsign with rfl | rfl <;> decide
  fun_induction expandRoots text with
  | case1 => exact .nil
  | case2 rest operand tail hsplit iho iht =>
    obtain rfl : operand ++ tail = rest := append_of_rootOperand? hsplit
    have hrest := (unmarked_cons.1 h).2
    have hcall : Detached sign (call rootWord (expandRoots operand)) :=
      detached_call ⟨'s', rfl, by decide⟩ hmem (iho hrest.left).unmarked
    rw [← List.cons_append]
    exact .piece hcall (iht (hrest.suffix (List.suffix_append _ _)))
  | case3 rest hnone ih =>
    have hword : Detached sign rootWord :=
      detached_word (fun hin => hmem (by simp [hin])) ⟨'s', rfl, by decide⟩ ⟨'t', rfl, by decide⟩
    exact .character hword (ih (unmarked_cons.1 h).2)
  | case4 c rest hc ih => exact .copy (unmarked_cons.1 h).1 (ih (unmarked_cons.1 h).2)

/-- The two characters that are merely spelled differently. -/
theorem rewrites_respell (hsign : sign = '!' ∨ sign = '%') (h : Unmarked sign text) :
    Rewrites sign text (respell text) := by
  induction text with
  | nil => exact .nil
  | cons c text ih =>
    have htail := ih (unmarked_cons.1 h).2
    rw [respell, List.flatMap_cons, respelled, ← respell]
    split
    · have hpower : Detached sign ['*', '*'] :=
        detached_word (by rcases hsign with rfl | rfl <;> decide) ⟨'*', rfl, by decide⟩
          ⟨'*', rfl, by decide⟩
      exact .character hpower htail
    · split
      · have hcircle : Detached sign ['p', 'i'] :=
          detached_word (by rcases hsign with rfl | rfl <;> decide) ⟨'p', rfl, by decide⟩
            ⟨'i', rfl, by decide⟩
        exact .character hcircle htail
      · exact .copy (unmarked_cons.1 h).1 htail

/-- A text with its shorthand expanded has no numeral with a mark. Each mark
    goes in its own pass, and no later pass brings it behind a numeral. -/
theorem unmarked_expand (hsign : sign = '!' ∨ sign = '%') : Unmarked sign (expand text) := by
  have hmarks : Unmarked sign (expandMarks text) := by
    rw [expandMarks, Mark.calls_eq, Mark.calls_eq]
    rcases hsign with rfl | rfl
    · have hfactorial : Unmarked '!' (Mark.factorial.expand none text) :=
        (rewrites_expand (.inl rfl) (.inl rfl) (.inl rfl)).unmarked
      exact (rewrites_expand (.inr rfl) (.inl rfl) (.inr hfactorial)).unmarked
    · exact (rewrites_expand (.inr rfl) (.inr rfl) (.inl rfl)).unmarked
  have hroots : Unmarked sign (expandRoots (expandMarks text)) :=
    (rewrites_expandRoots hsign hmarks).unmarked
  exact (rewrites_respell hsign hroots).unmarked

/-- A mark is not expanded in a text without a numeral that carries it. -/
theorem Mark.expand_of_unmarked {m : Mark} {before : Option Char} (h : Unmarked m.sign text) :
    m.expand before text = text := by
  induction text generalizing before with
  | nil => exact Mark.expand_nil _ _
  | cons c text ih =>
    rw [Mark.expand_of_none, ih (unmarked_cons.1 h).2]
    cases hoperand : m.operand? before (c :: text) with
    | none => rfl
    | some split =>
      -- The operand would be marked at the start of the text or behind a minus sign.
      obtain ⟨n, hn, ⟨-, hsplit⟩ | ⟨-, hsplit, -⟩⟩ := Typed.eq_of_operand? hoperand
      · exact absurd ⟨n, _, hn, hsplit⟩ (unmarked_cons.1 h).1
      · obtain ⟨rfl, rfl⟩ := List.cons_eq_cons.1 hsplit
        exact absurd ⟨n, _, hn, rfl⟩ ((unmarked_cons.1 h).2 _ List.suffix_rfl)

/-! ### What is gone -/

/-- No root sign is left, whether or not it has an operand. -/
theorem not_mem_expandRoots : '√' ∉ expandRoots text := by
  fun_induction expandRoots text with
  | case1 => simp
  | case2 rest operand tail _ iho iht =>
    rw [List.mem_append, not_or]
    refine ⟨fun hin => ?_, iht⟩
    rcases mem_call hin with hword | hparen | harg | hparen
    · exact absurd hword (by decide)
    · exact absurd hparen (by decide)
    · exact iho harg
    · exact absurd hparen (by decide)
  | case3 rest _ ih =>
    rw [List.mem_append, not_or]
    exact ⟨by decide, ih⟩
  | case4 c rest hc ih => simp [Ne.symm hc, ih]

/-- No power sign and no letter of the circle constant are left. -/
theorem not_mem_respell : '^' ∉ respell text ∧ 'π' ∉ respell text := by
  have hnew : ∀ c d : Char, c = '^' ∨ c = 'π' → c ∉ respelled d := by
    rintro c d hc hin
    unfold respelled at hin
    split at hin
    · rcases hc with rfl | rfl <;> exact absurd hin (by decide)
    · split at hin
      · rcases hc with rfl | rfl <;> exact absurd hin (by decide)
      · obtain rfl : c = d := by simpa using hin
        rcases hc with rfl | rfl <;> contradiction
  constructor <;> intro hin <;> obtain ⟨d, -, hd⟩ := List.mem_flatMap.1 hin
  · exact hnew _ d (.inl rfl) hd
  · exact hnew _ d (.inr rfl) hd

theorem not_mem_expand (text : List Char) :
    '√' ∉ expand text ∧ '^' ∉ expand text ∧ 'π' ∉ expand text := by
  refine ⟨fun hin => ?_, not_mem_respell⟩
  -- Respelling brings no root sign in.
  refine Typed.forall_respell (P := (· ≠ '√')) (forall_mem_of_all (by decide)) ?_ '√' hin rfl
  rintro c hc rfl
  exact not_mem_expandRoots hc

/-- Expanding marks and roots does nothing to a text with its shorthand
    expanded. -/
theorem expandMarks_expand : expandMarks (expand text) = expand text := by
  rw [expandMarks, Mark.calls_eq, Mark.calls_eq,
    Mark.expand_of_unmarked (m := Mark.factorial) (unmarked_expand (.inl rfl)),
    Mark.expand_of_unmarked (m := Mark.percent) (unmarked_expand (.inr rfl))]

theorem nesting_expand : nesting (expand text) = 0 := by
  rw [nesting, expandMarks_expand]
  exact rootDepth_eq_zero (not_mem_expand text).1

/-- Expanding twice is expanding once. -/
theorem expand_expand : expand (expand text) = expand text := by
  obtain ⟨hroot, hpower, hcircle⟩ := not_mem_expand text
  have hroots : expandRoots (expand text) = expand text := by
    have := expandRoots_append (s := expand text) (fun c hc heq => hroot (heq ▸ hc)) []
    rwa [List.append_nil, expandRoots, List.append_nil] at this
  rw [expand, expandMarks_expand, hroots]
  exact respell_eq fun c hc => ⟨fun heq => hpower (heq ▸ hc), fun heq => hcircle (heq ▸ hc)⟩

/-- Expanding keeps to the characters that formulas use. -/
theorem accepts_of_mem_expand (h : ∀ c ∈ text, Keypad.accepts c = true) :
    ∀ c ∈ expand text, Keypad.accepts c = true := by
  rw [expand, expandMarks, Mark.calls_eq, Mark.calls_eq]
  exact Typed.forall_respell (forall_mem_of_all (by decide))
    (Typed.forall_expandRoots (forall_mem_of_all (by decide))
      (Typed.forall_expand (forall_mem_of_all (by decide))
        (Typed.forall_expand (forall_mem_of_all (by decide)) h)))

end

end Shorthand

namespace Formula

/-- Only text that is not nested too deeply is expanded. -/
theorem expandWithin_eq_ok {limit : NestingLimit} {text canonical : List Char} :
    expandWithin limit text = .ok canonical ↔
      limit.admits (Shorthand.nesting text) = true ∧ canonical = Shorthand.expand text := by
  unfold expandWithin
  split
  · simp [*, eq_comm]
  · simp [*]

/-- Every limit admits a text with its shorthand expanded, and nothing is left
    to expand. -/
theorem expandWithin_expand (limit : NestingLimit) (text : List Char) :
    expandWithin limit (Shorthand.expand text) = .ok (Shorthand.expand text) := by
  refine expandWithin_eq_ok.2 ⟨?_, Shorthand.expand_expand.symm⟩
  rw [Shorthand.nesting_expand]
  cases limit with
  | none => rfl
  | some levels => simp

/-- Canonical text can be typed: nothing in it is dropped. -/
theorem clean_expand (typed : List Char) :
    Keypad.clean (Shorthand.expand (Keypad.clean typed)) =
      Shorthand.expand (Keypad.clean typed) :=
  Keypad.clean_of_accepted _
    (Shorthand.accepts_of_mem_expand fun _ hc => (List.mem_filter.1 hc).2)

/-- Evaluation depends on the canonical text only. -/
theorem evaluateWithin_congr {limit : NestingLimit} {typed other : List Char}
    (h : expandWithin limit (Keypad.clean typed) = expandWithin limit (Keypad.clean other))
    (backend : Backend) (mode : AngleMode) :
    backend.evaluateWithin limit mode typed = backend.evaluateWithin limit mode other := by
  cases backend <;> simp only [Backend.evaluateWithin, evaluateOver, read, h]

/-- Canonical text is a fixed point. A text that is expanded has no numeral
    with a mark and no other shorthand left, and expanding it once more changes
    nothing. What was typed may be replaced by its canonical text, which is
    cleaned and expanded to itself and has the same value, or the same failure
    at the same place. -/
theorem canonical_fixed (limit : NestingLimit) :
    (∀ text canonical : List Char, expandWithin limit text = .ok canonical →
      expandWithin limit canonical = .ok canonical ∧
      (∀ sign ∈ ['!', '%'], ∀ (before rest : List Char) (n : Numeral), n.WellFormed →
        canonical ≠ before ++ n.text ++ sign :: rest) ∧
      '√' ∉ canonical ∧ '^' ∉ canonical ∧ 'π' ∉ canonical) ∧
    ∀ typed canonical : List Char, expandWithin limit (Keypad.clean typed) = .ok canonical →
      Keypad.clean canonical = canonical ∧
      expandWithin limit (Keypad.clean canonical) = .ok canonical ∧
      ∀ (backend : Backend) (mode : AngleMode),
        backend.evaluateWithin limit mode canonical = backend.evaluateWithin limit mode typed := by
  refine ⟨fun text canonical h => ?_, fun typed canonical h => ?_⟩
  · obtain ⟨-, rfl⟩ := expandWithin_eq_ok.1 h
    refine ⟨expandWithin_expand limit text, ?_, Shorthand.not_mem_expand text⟩
    intro sign hsign before rest n hn heq
    have hmark : sign = '!' ∨ sign = '%' := by simpa using hsign
    have hsuffix : n.text ++ sign :: rest <:+ Shorthand.expand text :=
      ⟨before, by rw [heq, List.append_assoc]⟩
    exact Shorthand.unmarked_expand hmark _ hsuffix ⟨n, rest, hn, rfl⟩
  · obtain ⟨-, rfl⟩ := expandWithin_eq_ok.1 h
    have hclean := clean_expand typed
    have hagain := expandWithin_expand limit (Keypad.clean typed)
    refine ⟨hclean, by rw [hclean, hagain], fun backend mode => ?_⟩
    exact evaluateWithin_congr (by rw [hclean, hagain, h]) backend mode

/-- A text in which the longest numeral has no mark behind it, a root sign
    reaches a part of a numeral only, and a mark is left over: the expansions
    do not make up new shorthand between them. -/
theorem canonical_fixed_leftover :
    (expandWithin NestingLimit.standard "√1.5.!^π%".toList = .ok "sqrt(1.)fact(5.)**pi%".toList ∧
      expandWithin NestingLimit.standard "sqrt(1.)fact(5.)**pi%".toList =
        .ok "sqrt(1.)fact(5.)**pi%".toList) ∧
    expandWithin NestingLimit.standard (Keypad.clean "√1.5.! ^ π %".toList) =
      .ok "sqrt(1.)fact(5.)**pi%".toList ∧
    Backend.double.evaluateWithin NestingLimit.standard .radians "sqrt(1.)fact(5.)**pi%".toList =
      Backend.double.evaluateWithin NestingLimit.standard .radians "√1.5.! ^ π %".toList := by
  have htext : expandWithin NestingLimit.standard "√1.5.!^π%".toList =
      .ok "sqrt(1.)fact(5.)**pi%".toList :=
    expandWithin_eq_ok.2 ⟨by decide +kernel, by decide +kernel⟩
  have htyped : expandWithin NestingLimit.standard (Keypad.clean "√1.5.! ^ π %".toList) =
      .ok "sqrt(1.)fact(5.)**pi%".toList :=
    expandWithin_eq_ok.2 ⟨by decide +kernel, by decide +kernel⟩
  obtain ⟨hfixed, hevaluated⟩ := canonical_fixed NestingLimit.standard
  exact ⟨⟨htext, (hfixed _ _ htext).1⟩, htyped, (hevaluated _ _ htyped).2.2 .double .radians⟩

end Formula

end Calculator
