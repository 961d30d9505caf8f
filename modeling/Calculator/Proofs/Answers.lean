import Calculator.CommandLine
import Calculator.Proofs.Binary64.Display
import Calculator.Proofs.Canonical
import Calculator.Proofs.Session

/-!
# Answers to formulas

A formula is answered with its value on display, or with a word for failures
that is no such value. What the answer is depends on the arithmetic and the
mode of the session alone, so a new session gives the same. A failure that was
not foreseen is no answer, but breaks off what the formula is a part of.

The blanks around a formula do not matter, since evaluation drops all blanks.

## Main definitions

* `Terminal.freshAnswer`: The answer of a new calculator.

## Theorems

* `Backend.evaluate_trim`: Blanks around a formula do not matter.
* `Terminal.fst_display_eq`: Every session answers as a new one.
* `Terminal.freshAnswer_of_ok`, `Terminal.freshAnswer_eq_failed_iff`,
  `Terminal.freshAnswer_eq_error_iff`: What the answer is.
-/

namespace Calculator

/-! ### Blanks around a formula -/

namespace Text

/-- Dropping a class of characters at both ends leaves what is between them. -/
theorem exists_trimBy (p : Char → Bool) (text : List Char) :
    ∃ before behind, text = before ++ trimBy p text ++ behind ∧
      (∀ c ∈ before, p c = true) ∧ ∀ c ∈ behind, p c = true := by
  have hstart := List.takeWhile_append_dropWhile (p := p) (l := text)
  have hend := List.takeWhile_append_dropWhile (p := p) (l := (text.dropWhile p).reverse)
  refine ⟨text.takeWhile p, ((text.dropWhile p).reverse.takeWhile p).reverse, ?_,
    fun c hc => List.all_eq_true.1 List.all_takeWhile c hc,
    fun c hc => List.all_eq_true.1 List.all_takeWhile c (List.mem_reverse.1 hc)⟩
  rw [List.append_assoc, trimBy, ← List.reverse_append, hend, List.reverse_reverse, hstart]

theorem mem_of_mem_trim {text : List Char} {c : Char} (h : c ∈ trim text) : c ∈ text := by
  obtain ⟨before, behind, htext, -, -⟩ := exists_trimBy isBlank text
  rw [htext]
  exact List.mem_append_left _ (List.mem_append_right _ h)

theorem trim_eq_self {text : List Char} (h : ∀ c ∈ text, isBlank c = false) :
    trim text = text := by
  obtain ⟨before, behind, htext, hbefore, hbehind⟩ := exists_trimBy isBlank text
  have hno : ∀ c ∈ text, isBlank c ≠ true := fun c hc => by simp [h c hc]
  have hleft : before = [] := List.eq_nil_iff_forall_not_mem.2 fun c hc =>
    hno c (by rw [htext]; simp [hc]) (hbefore c hc)
  have hright : behind = [] := List.eq_nil_iff_forall_not_mem.2 fun c hc =>
    hno c (by rw [htext]; simp [hc]) (hbehind c hc)
  rw [hleft, hright, List.nil_append, List.append_nil] at htext
  exact htext.symm

end Text

namespace Keypad

/-- Blanks are not characters of formulas. -/
theorem clean_of_blank {text : List Char} (h : ∀ c ∈ text, Text.isBlank c = true) :
    clean text = [] := by
  refine List.filter_eq_nil_iff.2 fun d hd haccepted => ?_
  obtain ⟨c, hc, rfl⟩ := List.mem_map.1 hd
  have hblank := h c hc
  -- No display glyph is a blank, so a blank stands for itself.
  have hglyph : glyph c = c := by
    have hne : ∀ g ∈ ['×', '÷', '−'], c ≠ g := by
      rintro g hg rfl
      have hglyphs : ∀ g ∈ ['×', '÷', '−'], Text.isBlank g = false :=
        forall_mem_of_all (by decide)
      rw [hglyphs c hg] at hblank
      exact absurd hblank (by simp)
    simp [glyph, hne]
  rw [hglyph] at haccepted
  rw [Typed.isBlank_of_accepts haccepted] at hblank
  exact absurd hblank (by simp)

theorem clean_trim (text : List Char) : clean (Text.trim text) = clean text := by
  obtain ⟨before, behind, htext, hbefore, hbehind⟩ := Text.exists_trimBy Text.isBlank text
  have hleft := clean_of_blank hbefore
  have hright := clean_of_blank hbehind
  calc clean (Text.trim text)
      = clean before ++ clean (Text.trim text) ++ clean behind := by rw [hleft, hright]; simp
    _ = clean (before ++ Text.trim text ++ behind) := by rw [clean_append, clean_append]
    _ = clean text := by rw [Text.trim, ← htext]

end Keypad

/-- Blanks around a formula do not matter. -/
theorem Backend.evaluate_trim (backend : Backend) (mode : AngleMode) (typed : List Char) :
    backend.evaluate mode (Text.trim typed) = backend.evaluate mode typed :=
  Formula.evaluateWithin_congr (by rw [Keypad.clean_trim]) backend mode

namespace Terminal

/-! ### Answers -/

/-- The answer to a formula that a new calculator gives in a mode, unless its
    evaluation is broken off. -/
def freshAnswer (backend : Backend) (mode : AngleMode) (typed : List Char) :
    Except Failure (List Char) :=
  (display { Session.start backend Session.defaultHistoryLimit with mode := mode } typed).1

section

variable {backend : Backend} {mode : AngleMode} {typed : List Char} {value : Binary64}
  {failure : Failure}

theorem fst_display (s : Session) (typed : List Char) :
    (display s typed).1 = match s.backend.evaluate s.mode typed with
      | .ok value => .ok (shown value)
      | .error failure =>
        if failure.kind = .unforeseen then .error failure else .ok failed.toList := by
  rw [display, Session.evaluate, Session.value]
  cases s.backend.evaluate s.mode typed <;> rfl

theorem snd_display (s : Session) (typed : List Char) :
    (display s typed).2 = match s.backend.evaluate s.mode typed with
      | .ok value => s.record typed value
      | .error _ => s := by
  rw [display, Session.evaluate, Session.value]
  cases s.backend.evaluate s.mode typed <;> rfl

theorem freshAnswer_eq (backend : Backend) (mode : AngleMode) (typed : List Char) :
    freshAnswer backend mode typed = match backend.evaluate mode typed with
      | .ok value => .ok (shown value)
      | .error failure =>
        if failure.kind = .unforeseen then .error failure else .ok failed.toList := by
  rw [freshAnswer, fst_display]
  rfl

/-- Every session answers as a new one. -/
theorem fst_display_eq (s : Session) (typed : List Char) :
    (display s typed).1 = freshAnswer s.backend s.mode typed := by
  rw [fst_display, freshAnswer_eq]

/-- A formula with a value is answered with the value on display. -/
theorem freshAnswer_of_ok (h : backend.evaluate mode typed = .ok value) :
    ∃ text, value.display = .ok text ∧ freshAnswer backend mode typed = .ok text := by
  obtain ⟨text, htext⟩ := Binary64.exists_display (Backend.isFinite_of_evaluate h)
  refine ⟨text, htext, ?_⟩
  rw [freshAnswer_eq, h]
  dsimp only
  rw [shown, htext]

/-- A formula without a value is answered with the word for failures. -/
theorem freshAnswer_of_foreseen (h : backend.evaluate mode typed = .error failure)
    (hkind : failure.kind ≠ .unforeseen) :
    freshAnswer backend mode typed = .ok failed.toList := by
  rw [freshAnswer_eq, h]
  exact if_neg hkind

/-- It has no answer if the failure was not foreseen. -/
theorem freshAnswer_of_unforeseen (h : backend.evaluate mode typed = .error failure)
    (hkind : failure.kind = .unforeseen) : freshAnswer backend mode typed = .error failure := by
  rw [freshAnswer_eq, h]
  exact if_pos hkind

/-- No value on display is the word for failures. -/
theorem freshAnswer_eq_failed_iff :
    freshAnswer backend mode typed = .ok "Error".toList ↔
      ∃ failure, backend.evaluate mode typed = .error failure ∧ failure.kind ≠ .unforeseen := by
  cases h : backend.evaluate mode typed with
  | error failure =>
    by_cases hkind : failure.kind = .unforeseen
    · simp [freshAnswer_of_unforeseen h hkind, hkind]
    · exact iff_of_true (freshAnswer_of_foreseen h hkind) ⟨failure, rfl, hkind⟩
  | ok value =>
    obtain ⟨text, htext, hanswer⟩ := freshAnswer_of_ok h
    refine iff_of_false (fun hfailed => ?_) (by simp)
    rw [hanswer] at hfailed
    obtain rfl := Except.ok.inj hfailed
    exact absurd (Binary64.isDisplayed_of_mem_display htext 'E' (by decide)) (by decide)

theorem freshAnswer_eq_error_iff :
    freshAnswer backend mode typed = .error failure ↔
      backend.evaluate mode typed = .error failure ∧ failure.kind = .unforeseen := by
  cases h : backend.evaluate mode typed with
  | error cause =>
    by_cases hkind : cause.kind = .unforeseen
    · rw [freshAnswer_of_unforeseen h hkind]
      refine ⟨fun heq => ?_, fun heq => congrArg Except.error (Except.error.inj heq.1)⟩
      obtain rfl := Except.error.inj heq
      exact ⟨rfl, hkind⟩
    · rw [freshAnswer_of_foreseen h hkind]
      refine iff_of_false nofun fun heq => hkind ?_
      rw [Except.error.inj heq.1]
      exact heq.2
  | ok value =>
    obtain ⟨text, -, hanswer⟩ := freshAnswer_of_ok h
    rw [hanswer]
    exact iff_of_false nofun fun heq => nomatch heq.1

/-- An answer is a single line. -/
theorem not_mem_freshAnswer {text : List Char} (h : freshAnswer backend mode typed = .ok text) :
    '\n' ∉ text := by
  cases hvalue : backend.evaluate mode typed with
  | error failure =>
    have hkind : failure.kind ≠ .unforeseen := fun hkind => by
      rw [freshAnswer_of_unforeseen hvalue hkind] at h
      cases h
    rw [freshAnswer_of_foreseen hvalue hkind] at h
    rw [← Except.ok.inj h]
    decide
  | ok value =>
    obtain ⟨shown, hdisplay, hanswer⟩ := freshAnswer_of_ok hvalue
    rw [hanswer] at h
    obtain rfl := Except.ok.inj h
    intro hin
    exact absurd (Binary64.isDisplayed_of_mem_display hdisplay _ hin) (by decide)

end

/-- Evaluating a formula leaves the arithmetic and the mode. -/
theorem display_leaves (s : Session) (typed : List Char) :
    (display s typed).2.backend = s.backend ∧ (display s typed).2.mode = s.mode := by
  rw [snd_display]
  cases s.backend.evaluate s.mode typed <;> exact ⟨rfl, rfl⟩

end Terminal

end Calculator
