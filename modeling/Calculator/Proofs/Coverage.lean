import Calculator.Proofs.Lookahead

/-!
# What scanning covers

Scanning loses nothing and splits nothing. Read from left to right, a text is
covered by its tokens and the blanks between them, up to its end or up to the
first character that is not blank and starts no lexeme. Every token is the
longest lexeme where it stands: a longer one would extend it by the character
behind it, which has been looked at.

In the other direction, lexemes with single spaces between them are found again
as they were, since a space extends nothing.

## Main definitions

* `Token.Reading`, `Token.read`: The tokens read, and where reading stops.
* `Token.Covers`: Tokens that cover a stretch of a text, but for blanks.

## Theorems

* `Lexeme.length_le_of_scan?`: What is scanned is the longest lexeme.
* `Lexeme.scan?_eq_none_iff`: Where nothing is scanned, no lexeme stands.
* `Token.covers_read`: What has been read is covered.
* `Token.scan_eq`: Scanning is reading up to the end.
* `Token.scanFrom_intercalate`: Lexemes between spaces are found again.
* `Token.scan_lossless`: What scanning tells of a text.
-/

namespace Calculator

/-! ### The longest lexeme -/

namespace Numeral

/-- A numeral has no more than the one point. -/
theorem count_point_text {n : Numeral} (hn : n.WellFormed) :
    n.text.count '.' = if n.fraction = none then 0 else 1 := by
  have hdigits : ∀ {run : List Char}, (∀ c ∈ run, Text.isDecimalDigit c = true) →
      run.count '.' = 0 := fun h =>
    List.count_eq_zero.2 fun hmem => absurd (h '.' hmem) (by rw [isDecimalDigit_point]; simp)
  rcases n with ⟨whole, _ | digits⟩
  · simp [text, hdigits fun c hc => hn.1 c (List.mem_append_left _ hc)]
  · have hwhole : ∀ c ∈ whole, Text.isDecimalDigit c = true := fun c hc =>
      hn.1 c (List.mem_append_left _ hc)
    have hfraction : ∀ c ∈ digits, Text.isDecimalDigit c = true := fun c hc =>
      hn.1 c (List.mem_append_right _ hc)
    simp [text, hdigits hwhole, hdigits hfraction]

/-- Something is scanned wherever a numeral stands. -/
theorem scan?_text_append_ne_none {n : Numeral} (hn : n.WellFormed) (rest : List Char) :
    scan? (n.text ++ rest) ≠ none := by
  rcases n with ⟨_ | ⟨d, whole⟩, fraction⟩
  · -- Without a digit before it, the point has one behind it.
    rcases fraction with _ | _ | ⟨d, digits⟩
    · exact absurd rfl hn.2
    · exact absurd rfl hn.2
    · have hd : Text.isDecimalDigit d = true := hn.1 d (by simp)
      simp [text, scan?, isDecimalDigit_point, hd]
  · have hd : Text.isDecimalDigit d = true := hn.1 d (by simp)
    simp only [text, List.cons_append, scan?, List.takeWhile_cons, hd, if_true]
    split <;> simp

end Numeral

namespace Lexeme

/-- A lexeme that starts with a sign is that sign, or the power sign. -/
theorem text_of_head?_mem_signs {u : Lexeme} (hu : u.WellFormed) {d : Char}
    (hd : u.text.head? = some d) (hsign : d ∈ signs) :
    u.text = [d] ∨ d = '*' ∧ u.text = ['*', '*'] := by
  cases u with
  | number n =>
    have hpart := Numeral.isPart_of_mem_text hu (List.mem_of_head? hd)
    rw [isPart_of_mem_signs hsign] at hpart
    cases hpart
  | word letters =>
    have halpha := hu.2 d (List.mem_of_head? hd)
    rw [isAlpha_of_mem_signs hsign] at halpha
    cases halpha
  | operator op => cases op <;> (obtain rfl := Option.some.inj hd; simp [text, BinaryOp.symbol])
  | _ =>
    obtain rfl := Option.some.inj hd
    exact .inl rfl

/-- What follows a lexeme inside of a longer one extends it. -/
theorem isExtendedBy_of_append {t u : Lexeme} (ht : t.WellFormed) (hu : u.WellFormed) {c : Char}
    {rest : List Char} (h : u.text = t.text ++ c :: rest) : t.isExtendedBy c = true := by
  have hmem : c ∈ u.text := by rw [h]; simp
  rcases hd : t.text.head? with _ | d
  · exact absurd (List.head?_eq_none_iff.1 hd) (text_ne_nil ht)
  have hd' : u.text.head? = some d := by
    rw [h, List.head?_append_of_ne_nil _ (text_ne_nil ht), hd]
  -- The first character tells that both are of one kind.
  rcases head?_text ht hd with ⟨⟨n, rfl⟩, hpart⟩ | ⟨⟨letters, rfl⟩, halpha⟩ | ⟨hsign, hstar⟩
  · rcases head?_text hu hd' with ⟨⟨m, rfl⟩, -⟩ | ⟨-, halpha⟩ | ⟨hsign, -⟩
    · have hcount := Numeral.count_point_text hu
      have hcount' := Numeral.count_point_text ht
      have hc := Numeral.isPart_of_mem_text hu hmem
      change m.text = n.text ++ c :: rest at h
      rw [h, List.count_append, List.count_cons, hcount'] at hcount
      rcases Bool.or_eq_true_iff.1 hc with hdigit | hpoint
      · simp [isExtendedBy, hdigit]
      · -- A second point would be one too many.
        have hnone : n.fraction = none := by
          by_contra hsome
          rw [if_neg hsome, if_pos (by simpa using hpoint)] at hcount
          split at hcount <;> omega
        simp [isExtendedBy, hnone, of_decide_eq_true hpoint]
    · rw [Numeral.isPart_of_isAlpha halpha] at hpart
      cases hpart
    · rw [isPart_of_mem_signs hsign] at hpart
      cases hpart
  · rcases head?_text hu hd' with ⟨-, hpart⟩ | ⟨⟨more, rfl⟩, -⟩ | ⟨hsign, -⟩
    · rw [Numeral.isPart_of_isAlpha halpha] at hpart
      cases hpart
    · exact hu.2 c hmem
    · rw [isAlpha_of_mem_signs hsign] at halpha
      cases halpha
  · rcases text_of_head?_mem_signs ht hd hsign with htext | ⟨-, htext⟩
    · rcases text_of_head?_mem_signs hu hd' hsign with hone | ⟨rfl, htwo⟩
      · simp [hone, htext] at h
      · rcases hstar rfl with rfl | rfl
        · obtain ⟨rfl, -⟩ : '*' = c ∧ [] = rest := by simpa [htwo, htext] using h
          rfl
        · cases htext
    · have hlength := congrArg List.length h
      rcases text_of_head?_mem_signs hu hd' hsign with hone | ⟨-, htwo⟩
      · simp [hone, htext] at hlength
      · simp [htwo, htext] at hlength

/-- What is scanned is the longest lexeme. -/
theorem length_le_of_scan? {text rest : List Char} {t : Lexeme}
    (h : scan? text = some (t, rest)) {u : Lexeme} (hu : u.WellFormed) (hpre : u.text <+: text) :
    u.text.length ≤ t.text.length := by
  rcases scan?_eq_some_iff.1 h with ⟨ht, rfl, hend⟩
  by_contra hlt
  have htu := List.prefix_of_prefix_length_le (List.prefix_append t.text rest) hpre (by omega)
  rcases htu with ⟨_ | ⟨c, more⟩, hmore⟩
  · rw [← hmore, List.append_nil] at hlt
    exact hlt le_rfl
  · -- The longer lexeme would go on with the character behind this one.
    have hextended := isExtendedBy_of_append ht hu hmore.symm
    rw [← hmore, List.prefix_append_right_inj] at hpre
    rcases hpre with ⟨behind, rfl⟩
    rw [hend c rfl] at hextended
    cases hextended

/-- Where nothing is scanned, no lexeme stands. -/
theorem scan?_eq_none_iff {text : List Char} :
    scan? text = none ↔ ∀ u : Lexeme, u.WellFormed → ¬u.text <+: text := by
  constructor
  · rintro hnone u hu ⟨rest, rfl⟩
    obtain ⟨hnumber, hword, hsign⟩ := by simpa only [scan?, Option.or_eq_none_iff] using hnone
    cases u with
    | number n =>
      exact Numeral.scan?_text_append_ne_none hu rest (Option.map_eq_none_iff.1 hnumber)
    | word letters =>
      rcases letters with _ | ⟨c, letters⟩
      · exact hu.1 rfl
      · simp [word?, text, hu.2 c (by simp)] at hword
    | operator op =>
      cases op with
      | mul =>
        rcases rest with _ | ⟨c, rest⟩
        · cases hsign
        · by_cases hc : c = '*'
          · rw [hc] at hsign
            cases hsign
          · have hstops : (operator .mul).Stops (c :: rest) := by simpa [Stops] using hc
            rw [scan?_text_append hu hstops] at hnone
            cases hnone
      | _ => cases hsign
    | _ => cases hsign
  · intro hnot
    cases h : scan? text with
    | none => rfl
    | some found =>
      exact absurd ⟨found.2, text_append_of_scan? h⟩ (hnot found.1 (wellFormed_of_scan? h))

end Lexeme

/-! ### Reading from left to right -/

namespace Token

/-- Where a token ends. -/
def stop (token : Token) : Nat :=
  token.position + token.lexeme.text.length

/-- What has been read of a text. -/
structure Reading where
  /-- The tokens, from left to right. -/
  tokens : List Token
  /-- Where reading stops. -/
  stop : Nat
deriving DecidableEq, Repr

/-- What can be read of the rest of a text, of which `position` characters have
    been read: everything up to the end, or up to the first character that is
    not blank and starts no lexeme. -/
def readFrom (position : Nat) (text : List Char) : Reading :=
  match text with
  | [] => ⟨[], position⟩
  | c :: rest =>
    if Text.isBlank c then readFrom (position + 1) rest
    else match _h : Lexeme.scan? (c :: rest) with
      | none => ⟨[], position⟩
      | some (lexeme, tail) =>
        let later := readFrom (position + lexeme.text.length) tail
        ⟨⟨lexeme, position⟩ :: later.tokens, later.stop⟩
termination_by text.length
decreasing_by
  · simp
  · exact Lexeme.length_lt_of_scan? _h

/-- What can be read of a text from left to right. -/
def read (text : List Char) : Reading :=
  readFrom 0 text

/-- Tokens that cover a text from one place to another, but for blanks, each
    being the longest lexeme where it stands. -/
structure Covers (text : List Char) (first last : Nat) (tokens : List Token) : Prop where
  /-- The stretch is one of the text. -/
  bounds : first ≤ last ∧ last ≤ text.length
  /-- Positions increase, and no token ends behind the start of the next. -/
  ordered : tokens.Pairwise fun s t => s.position < t.position ∧ s.stop ≤ t.position
  /-- The tokens belong to the stretch. -/
  within : ∀ t ∈ tokens, first ≤ t.position ∧ t.stop ≤ last
  /-- Each is a slice of the text. -/
  slice : ∀ t ∈ tokens, (text.drop t.position).take t.lexeme.text.length = t.lexeme.text
  /-- Each is the longest of the lexemes that stand there. -/
  longest : ∀ t ∈ tokens, t.lexeme.WellFormed ∧
    ∀ u : Lexeme, u.WellFormed → u.text <+: text.drop t.position →
      u.text.length ≤ t.lexeme.text.length
  /-- Between the tokens there are only blanks. -/
  blank : ∀ i, first ≤ i → i < last → (∀ t ∈ tokens, i < t.position ∨ t.stop ≤ i) →
    ∀ c ∈ text[i]?, Text.isBlank c = true

namespace Covers

variable {text : List Char} {first last : Nat} {tokens : List Token}

theorem nil (h : first ≤ text.length) : Covers text first first [] where
  bounds := ⟨le_rfl, h⟩
  ordered := .nil
  within := by simp
  slice := by simp
  longest := by simp
  blank i hfirst hlast := absurd hlast hfirst.not_gt

/-- A blank before a stretch that is covered. -/
theorem skip (h : Covers text (first + 1) last tokens)
    (hb : ∀ c ∈ text[first]?, Text.isBlank c = true) : Covers text first last tokens where
  bounds := ⟨by have := h.bounds.1; omega, h.bounds.2⟩
  ordered := h.ordered
  within t ht := ⟨by have := (h.within t ht).1; omega, (h.within t ht).2⟩
  slice := h.slice
  longest := h.longest
  blank i hfirst hlast hout := by
    rcases hfirst.eq_or_lt with rfl | hlt
    · exact hb
    · exact h.blank i hlt hlast hout

/-- A scanned lexeme before a stretch that is covered. -/
theorem cons {t : Lexeme} {rest : List Char}
    (hscan : Lexeme.scan? (text.drop first) = some (t, rest))
    (h : Covers text (first + t.text.length) last tokens) :
    Covers text first last (⟨t, first⟩ :: tokens) := by
  have hwf := Lexeme.wellFormed_of_scan? hscan
  have htext := Lexeme.text_append_of_scan? hscan
  have hpos := List.length_pos_iff.2 (Lexeme.text_ne_nil hwf)
  have hstop : (⟨t, first⟩ : Token).stop = first + t.text.length := rfl
  refine ⟨⟨by have := h.bounds.1; omega, h.bounds.2⟩, ?_, ?_, ?_, ?_, ?_⟩
  · refine List.pairwise_cons.2 ⟨fun u hu => ?_, h.ordered⟩
    have hle := (h.within u hu).1
    exact ⟨by change first < _; omega, hle⟩
  · intro u hu
    rcases List.mem_cons.1 hu with rfl | hu
    · exact ⟨le_rfl, h.bounds.1⟩
    · exact ⟨by have := (h.within u hu).1; omega, (h.within u hu).2⟩
  · intro u hu
    rcases List.mem_cons.1 hu with rfl | hu
    · change (text.drop first).take t.text.length = t.text
      rw [← htext, List.take_left]
    · exact h.slice u hu
  · intro u hu
    rcases List.mem_cons.1 hu with rfl | hu
    · exact ⟨hwf, fun v hv hpre => Lexeme.length_le_of_scan? hscan hv hpre⟩
    · exact h.longest u hu
  · intro i hfirst hlast hout
    have hbehind : first + t.text.length ≤ i := by
      have := hout _ List.mem_cons_self
      rw [hstop] at this
      change i < first ∨ _ at this
      omega
    exact h.blank i hbehind hlast fun u hu => hout u (List.mem_cons_of_mem _ hu)

end Covers

section

variable {text : List Char}

/-- One character further on. -/
theorem drop_succ_of_drop {first : Nat} {c : Char} {rest : List Char}
    (h : text.drop first = c :: rest) : text[first]? = some c ∧ text.drop (first + 1) = rest := by
  constructor
  · rw [← List.head?_drop, h]
    rfl
  · rw [← List.tail_drop, h]
    rfl

/-- One lexeme further on. -/
theorem drop_add_of_drop {first : Nat} {t : Lexeme} {rest : List Char}
    (h : Lexeme.scan? (text.drop first) = some (t, rest)) :
    text.drop (first + t.text.length) = rest := by
  rw [← List.drop_drop, ← Lexeme.text_append_of_scan? h, List.drop_left]

/-- What has been read from a place on is covered, and reading stops only where
    no lexeme and no blank stands. -/
theorem covers_readFrom (first : Nat) (rest : List Char) (hle : first ≤ text.length)
    (h : text.drop first = rest) :
    Covers text first (readFrom first rest).stop (readFrom first rest).tokens ∧
      ∀ c ∈ text[(readFrom first rest).stop]?, Text.isBlank c = false ∧
        ∀ u : Lexeme, u.WellFormed → ¬u.text <+: text.drop (readFrom first rest).stop := by
  have hnext : ∀ {first : Nat}, text.drop first ≠ [] → first + 1 ≤ text.length := fun hne =>
    Nat.lt_of_not_le fun hle => hne (List.drop_eq_nil_of_le hle)
  fun_induction readFrom first rest with
  | case1 first =>
    refine ⟨.nil hle, fun c hc => ?_⟩
    rw [List.getElem?_eq_none (List.drop_eq_nil_iff.1 h)] at hc
    cases hc
  | case2 first c rest hblank ih =>
    rcases drop_succ_of_drop h with ⟨hget, hdrop⟩
    rcases ih (hnext (by rw [h]; simp)) hdrop with ⟨hcovers, hstop⟩
    refine ⟨hcovers.skip fun d hd => ?_, hstop⟩
    obtain rfl : c = d := by simpa [hget] using hd
    exact hblank
  | case3 first c rest hblank hscan =>
    refine ⟨.nil hle, fun d hd => ?_⟩
    obtain rfl : c = d := by simpa [(drop_succ_of_drop h).1] using hd
    rw [h]
    exact ⟨by simpa using hblank, Lexeme.scan?_eq_none_iff.1 hscan⟩
  | case4 first c rest hblank t tail hscan later ih =>
    rw [← h] at hscan
    have hdrop := drop_add_of_drop hscan
    have hlength := congrArg List.length (Lexeme.text_append_of_scan? hscan)
    rw [List.length_append, List.length_drop] at hlength
    have hpos := List.length_pos_iff.2 (Lexeme.text_ne_nil (Lexeme.wellFormed_of_scan? hscan))
    rcases ih (by omega) hdrop with ⟨hcovers, hstop⟩
    exact ⟨hcovers.cons hscan, hstop⟩

/-- Scanning is reading, with a failure where it stops too early. -/
theorem scanFrom_eq (first : Nat) (rest : List Char) (h : text.drop first = rest) :
    scanFrom first rest =
      match text[(readFrom first rest).stop]? with
      | none => .ok (readFrom first rest).tokens
      | some c => .error (.unrecognised c (readFrom first rest).stop) := by
  fun_induction readFrom first rest with
  | case1 first =>
    rw [scanFrom, List.getElem?_eq_none (List.drop_eq_nil_iff.1 h)]
  | case2 first c rest hblank ih =>
    rw [scanFrom, if_pos hblank]
    exact ih (drop_succ_of_drop h).2
  | case3 first c rest hblank hscan =>
    rw [scanFrom, if_neg hblank, (drop_succ_of_drop h).1]
    split
    · rfl
    · rename_i hsome
      rw [hscan] at hsome
      cases hsome
  | case4 first c rest hblank t tail hscan later ih =>
    have hb : ∀ d ∈ (c :: rest).head?, Text.isBlank d = false := by
      intro d hd
      obtain rfl : c = d := by simpa using hd
      simpa using hblank
    rw [scanFrom_cons hb hscan, ih (drop_add_of_drop (h ▸ hscan))]
    cases text[later.stop]? <;> rfl

/-- What has been read of a text is covered. -/
theorem covers_read (text : List Char) :
    Covers text 0 (read text).stop (read text).tokens ∧
      ∀ c ∈ text[(read text).stop]?, Text.isBlank c = false ∧
        ∀ u : Lexeme, u.WellFormed → ¬u.text <+: text.drop (read text).stop :=
  covers_readFrom 0 text (Nat.zero_le _) rfl

/-- Scanning is reading up to the end. -/
theorem scan_eq (text : List Char) :
    scan text =
      match text[(read text).stop]? with
      | none => .ok (read text).tokens
      | some c => .error (.unrecognised c (read text).stop) :=
  scanFrom_eq 0 text rfl

end

/-! ### Lexemes between spaces -/

/-- A lexeme is found in front of a space, and at the end. -/
theorem scanFrom_text_append {t : Lexeme} (ht : t.WellFormed) {rest : List Char}
    (hrest : ∀ c ∈ rest.head?, c = ' ') (position : Nat) :
    scanFrom position (t.text ++ rest) =
      (scanFrom (position + t.text.length) rest).map (⟨t, position⟩ :: ·) := by
  refine scanFrom_cons (fun c hc => ?_) (Lexeme.scan?_eq_some_iff.2 ⟨ht, rfl, fun c hc => ?_⟩)
  · rw [List.head?_append_of_ne_nil _ (Lexeme.text_ne_nil ht)] at hc
    exact Lexeme.isBlank_of_head?_text ht hc
  · rw [hrest c hc]
    exact t.isExtendedBy_blank

/-- Lexemes with single spaces between them are found again, wherever they
    stand. -/
theorem scanFrom_intercalate {ts : List Lexeme} (hw : ∀ t ∈ ts, t.WellFormed) (position : Nat) :
    ∃ tokens, scanFrom position ([' '].intercalate (ts.map Lexeme.text)) = .ok tokens ∧
      tokens.map Token.lexeme = ts := by
  induction ts generalizing position with
  | nil => exact ⟨[], by rw [List.map_nil, List.intercalate_nil, scanFrom], rfl⟩
  | cons t ts ih =>
    have ht := hw t List.mem_cons_self
    cases ts with
    | nil =>
      refine ⟨[⟨t, position⟩], ?_, rfl⟩
      have hscan : scanFrom position (t.text ++ []) = _ :=
        scanFrom_text_append ht (by simp) position
      rw [List.append_nil, scanFrom] at hscan
      rw [List.map_singleton, List.intercalate_singleton, hscan]
      rfl
    | cons u us =>
      rcases ih (fun v hv => hw v (List.mem_cons_of_mem _ hv))
        (position + t.text.length + 1) with ⟨tokens, hok, hmap⟩
      refine ⟨⟨t, position⟩ :: tokens, ?_, by rw [List.map_cons, hmap]⟩
      rw [List.map_cons, List.intercalate_cons_of_ne_nil (by simp), List.append_assoc,
        scanFrom_text_append ht (by simp), List.singleton_append, scanFrom_blank, hok]
      rfl

/-- Scanning loses nothing. The tokens of a text that is scanned cover it, but
    for blanks, and each of them is the longest lexeme where it stands. Where
    scanning fails, the text before is covered in the same way, and neither a
    blank nor a lexeme stands there. And all lexemes, written with single
    spaces between them, are found again. -/
theorem scan_lossless :
    (∀ (text : List Char) (tokens : List Token), scan text = .ok tokens →
      Covers text 0 text.length tokens) ∧
    (∀ (text : List Char) (failure : Failure), scan text = .error failure →
      ∃ tokens c p, failure = .unrecognised c p ∧ text[p]? = some c ∧ Covers text 0 p tokens ∧
        Text.isBlank c = false ∧ ∀ u : Lexeme, u.WellFormed → ¬u.text <+: text.drop p) ∧
    ∀ ts : List Lexeme, (∀ t ∈ ts, t.WellFormed) →
      ∃ tokens, scan ([' '].intercalate (ts.map Lexeme.text)) = .ok tokens ∧
        tokens.map Token.lexeme = ts := by
  refine ⟨fun text tokens h => ?_, fun text failure h => ?_, fun ts hw => scanFrom_intercalate hw 0⟩
  · rcases covers_read text with ⟨hcovers, -⟩
    rw [scan_eq] at h
    split at h
    · rename_i hend
      have hlast : (read text).stop = text.length :=
        hcovers.bounds.2.antisymm (List.getElem?_eq_none_iff.1 hend)
      rw [← hlast, ← Except.ok.inj h]
      exact hcovers
    · cases h
  · rcases covers_read text with ⟨hcovers, hstop⟩
    rw [scan_eq] at h
    split at h
    · cases h
    · rename_i c hc
      exact ⟨_, c, _, (Except.error.inj h).symm, hc, hcovers, hstop c hc⟩

end Token

end Calculator
