import Calculator.Proofs.Decimal
import Calculator.Proofs.Evaluation
import Calculator.Proofs.Lookahead
import Calculator.Proofs.Spelling

/-!
# The first impossible token

Where tokens are refused, and why there. A reader that looks at one token
after the other is told to stop as early as possible: the token that it
refuses is the first one with which no formula goes on, and at the end of the
tokens it only misses what could still come.

Both halves are facts about the states of the reader. A state that has been
reached can always be completed, since an operand can be supplied where one is
missing and every open parenthesis can be closed. A token that a state refuses
is refused whatever follows. So what was read before it is the beginning of a
formula, and nothing that begins with the token as well is one.

## Main definitions

* `Reader.closers`, `Reader.completion`: Lexemes that complete a state.
* `Reader.Continues`: Tokens and others behind them that form an expression.
* `Reader.FitsNumber`: Tokens behind which a number may stand.

## Theorems

* `Reader.exists_finish`: Every state can be completed.
* `Reader.exists_step_of_run`: A run fails at one of its tokens.
* `Reader.step_error`: What is reported of a refused token.
* `Expr.ofTokens_refuses`: The first impossible token is the one refused.
-/

namespace Calculator

namespace Reader

/-- What a state makes of further tokens, if they are the last ones. -/
def conclude (state : State) (tokens : List Token) : Except Failure Expr :=
  (run none state tokens).bind finish

theorem conclude_cons {state next : State} {token : Token} (h : step state token = .ok next)
    (tokens : List Token) : conclude state (token :: tokens) = conclude next tokens := by
  rw [conclude, run_none_cons, h]
  rfl

/-- Tokens form an expression if the first state makes one of them. -/
theorem ofTokens_eq_conclude {tokens : List Token} (h : tokens ≠ []) :
    Expr.ofTokens none tokens = conclude start tokens := by
  cases tokens with
  | nil => exact absurd rfl h
  | cons token rest => rfl

/-- What is read before other tokens does not depend on them. -/
theorem conclude_append {before : List Token} {state next : State}
    (h : run none state before = .ok next) (tokens : List Token) :
    conclude state (before ++ tokens) = conclude next tokens := by
  rw [conclude, run_append, h]
  rfl

/-! ### Completing a state -/

/-- The lexemes that close what waits: a parenthesis for each open one. -/
def closers : List Frame → List Lexeme
  | [] => []
  | frame :: frames =>
    if frame.level = 0 then .rightParen :: closers frames else closers frames

theorem eq_rightParen_of_mem_closers {frames : List Frame} {t : Lexeme} (h : t ∈ closers frames) :
    t = .rightParen := by
  induction frames with
  | nil => exact absurd h (by simp [closers])
  | cons frame frames ih =>
      rw [closers] at h
      split at h
      · rcases List.mem_cons.1 h with h | h
        · exact h
        · exact ih h
      · exact ih h

theorem value?_complete (value : Expr) : (Focus.complete value).value? = some value := rfl

theorem value?_constant (name : Constant) :
    (Focus.constant name).value? = some (.constant name) := rfl

/-- A frame that no parenthesis has opened completes before the next closing
    parenthesis, and at the end. -/
theorem conclude_plug {frame : Frame} (hframe : frame.level ≠ 0) (frames : List Frame)
    {focus : Focus} {value : Expr} (hv : focus.value? = some value) {tokens : List Token}
    (ht : ∀ t ∈ tokens.map Token.lexeme, t = .rightParen) :
    conclude ⟨frame :: frames, focus⟩ tokens =
      conclude ⟨frames, .complete (frame.plug value)⟩ tokens := by
  have hred : reduce 1 (frame :: frames) value = reduce 1 frames (frame.plug value) := by
    rw [reduce, if_pos (by omega)]
  cases tokens with
  | nil =>
      change finish ⟨frame :: frames, focus⟩ = close frames (frame.plug value)
      cases focus with
      | operand => exact absurd hv (by simp [Focus.value?])
      | callee f => exact absurd hv (by simp [Focus.value?])
      | constant name =>
          obtain rfl : Expr.constant name = value := by simpa [Focus.value?] using hv
          simp only [finish, close, hred]
      | complete v =>
          obtain rfl : v = value := by simpa [Focus.value?] using hv
          simp only [finish, close, hred]
  | cons token rest =>
      -- Both states look for the innermost parenthesis, which is the same one.
      have hparen : token.lexeme = .rightParen := ht token.lexeme (by simp)
      have hstep : step ⟨frame :: frames, focus⟩ token =
          step ⟨frames, .complete (frame.plug value)⟩ token := by
        rw [step_of_value hv _ _ (by simp [hparen]), step_of_value rfl _ _ (by simp [hparen])]
        simp only [afterOperand, hparen, hred]
      rw [conclude, conclude, run_none_cons, run_none_cons, hstep]

/-- Once an operand is complete, closing what is open is enough. -/
theorem exists_conclude_closers (frames : List Frame) {focus : Focus} {value : Expr}
    (hv : focus.value? = some value) {tokens : List Token}
    (ht : tokens.map Token.lexeme = closers frames) :
    ∃ x, conclude ⟨frames, focus⟩ tokens = .ok x := by
  -- The induction is on the frames, for any operand on top of them.
  induction frames generalizing focus value tokens with
  | nil =>
      obtain rfl : tokens = [] := by simpa [closers] using ht
      refine ⟨value, ?_⟩
      cases focus with
      | operand => exact absurd hv (by simp [Focus.value?])
      | callee f => exact absurd hv (by simp [Focus.value?])
      | constant name =>
          obtain rfl : Expr.constant name = value := by simpa [Focus.value?] using hv
          rfl
      | complete v =>
          obtain rfl : v = value := by simpa [Focus.value?] using hv
          rfl
  | cons frame frames ih =>
      rw [closers] at ht
      split at ht
      · rename_i hframe
        rcases List.map_eq_cons_iff.1 ht with ⟨⟨_, position⟩, rest, rfl, rfl, hrest⟩
        have hred : reduce 1 (frame :: frames) value = (frame :: frames, value) := by
          rw [reduce, if_neg (by omega)]
        have hstep : step ⟨frame :: frames, focus⟩ ⟨.rightParen, position⟩ =
            .ok ⟨frames, .complete (frame.plug value)⟩ := by
          rw [step_of_value hv _ _ (by simp)]
          simp only [afterOperand, hred]
        rw [conclude_cons hstep]
        exact ih (value?_complete (frame.plug value)) hrest
      · rename_i hframe
        have hparens : ∀ t ∈ tokens.map Token.lexeme, t = .rightParen := fun t hmem =>
          eq_rightParen_of_mem_closers (ht ▸ hmem)
        rw [conclude_plug hframe frames hv hparens]
        exact ih (value?_complete (frame.plug value)) ht

/-- A number that may stand wherever an operand is missing. -/
def zero : Numeral :=
  ⟨['0'], none⟩

theorem isFinite_zero : (Binary64.ofNumeral zero).isFinite = true := by
  decide +kernel

/-- Lexemes that complete a state: the operand that is missing, if one is, and
    what closes the parentheses. -/
def completion (state : State) : List Lexeme :=
  match state.focus with
  | .operand => .number zero :: closers state.frames
  | .callee _ => .leftParen :: .number zero :: .rightParen :: closers state.frames
  | .constant _ | .complete _ => closers state.frames

/-- A number where an operand is missing. -/
theorem step_number (frames : List Frame) {n : Numeral}
    (hn : (Binary64.ofNumeral n).isFinite = true) (position : Nat) :
    step ⟨frames, .operand⟩ ⟨.number n, position⟩ = .ok ⟨frames, .complete (.number n)⟩ := by
  simp only [step, readOperand, if_pos hn]

/-- Every state can be completed. -/
theorem exists_finish (state : State) {tokens : List Token}
    (ht : tokens.map Token.lexeme = completion state) : ∃ x, conclude state tokens = .ok x := by
  rcases state with ⟨frames, focus⟩
  cases focus with
  | operand =>
      rcases List.map_eq_cons_iff.1 ht with ⟨⟨_, position⟩, rest, rfl, rfl, hrest⟩
      rw [conclude_cons (step_number frames isFinite_zero position)]
      exact exists_conclude_closers frames (value?_complete (.number zero)) hrest
  | callee f =>
      rcases List.map_eq_cons_iff.1 ht with ⟨⟨_, position⟩, rest, rfl, rfl, hrest⟩
      have hparen : step ⟨frames, .callee f⟩ ⟨.leftParen, position⟩ =
          .ok ⟨.call f :: frames, .operand⟩ := by
        simp only [step, if_true]
      rcases List.map_eq_cons_iff.1 hrest with ⟨⟨_, position'⟩, rest', rfl, rfl, hrest'⟩
      rw [conclude_cons hparen, conclude_cons (step_number _ isFinite_zero position')]
      -- The call is one more open parenthesis.
      exact exists_conclude_closers (.call f :: frames) (value?_complete (.number zero)) hrest'
  | constant name =>
      exact exists_conclude_closers frames (value?_constant name) ht
  | complete value =>
      exact exists_conclude_closers frames (value?_complete value) ht

theorem wellFormed_completion (state : State) : ∀ t ∈ completion state, t.WellFormed := by
  have hclosers : ∀ t ∈ closers state.frames, t.WellFormed := by
    intro t ht
    rw [eq_rightParen_of_mem_closers ht]
    trivial
  have hpositional : zero.IsPositional := ⟨by simp [zero], by simp [zero], by simp [zero]⟩
  have hzero : (Lexeme.number zero).WellFormed := hpositional.wellFormed
  have hparens : Lexeme.leftParen.WellFormed ∧ Lexeme.rightParen.WellFormed := ⟨trivial, trivial⟩
  unfold completion
  split
  · simpa using ⟨hzero, hclosers⟩
  · simpa using ⟨hparens.1, hzero, hparens.2, hclosers⟩
  · exact hclosers
  · exact hclosers

/-- A parenthesis runs into nothing behind it. -/
theorem isChain_closers (frames : List Frame) : (closers frames).IsChain Lexeme.Apart := by
  induction frames with
  | nil => exact .nil
  | cons frame frames ih =>
      rw [closers]
      split
      · exact List.isChain_cons.2 ⟨fun _ _ => trivial, ih⟩
      · exact ih

theorem isChain_completion (state : State) : (completion state).IsChain Lexeme.Apart := by
  have hclosers := isChain_closers state.frames
  -- Behind the number only parentheses stand.
  have hnumber {ts : List Lexeme} (hc : ts.IsChain Lexeme.Apart)
      (hp : ∀ t ∈ ts, t = .rightParen) : (.number zero :: ts).IsChain Lexeme.Apart := by
    refine List.isChain_cons.2 ⟨fun u hu => ?_, hc⟩
    rw [hp u (List.mem_of_mem_head? hu)]
    trivial
  have hparens : ∀ t ∈ closers state.frames, t = .rightParen :=
    fun t ht => eq_rightParen_of_mem_closers ht
  unfold completion
  split
  · exact hnumber hclosers hparens
  · refine List.isChain_cons.2 ⟨fun _ _ => trivial, hnumber ?_ (by simpa using hparens)⟩
    exact List.isChain_cons.2 ⟨fun _ _ => trivial, hclosers⟩
  · exact hclosers
  · exact hclosers

/-! ### Refusing a token -/

/-- What is reported of a token behind a complete operand that is refused. -/
theorem afterOperand_error {frames : List Frame} {value : Expr} {token : Token}
    {failure : Failure} (h : afterOperand frames value token = .error failure) :
    failure.position? = some token.position ∧ failure.kind = .syntactic := by
  unfold afterOperand at h
  split at h
  · exact absurd h (by simp)
  · split at h
    · exact absurd h (by simp)
    · obtain rfl : Failure.unclosed (some token.position) = failure := by simpa using h
      exact ⟨rfl, rfl⟩
    · obtain rfl : Failure.unexpected token.lexeme.text token.position = failure := by
        simpa using h
      exact ⟨rfl, rfl⟩

theorem readWord_error {frames : List Frame} {word : List Char} {position : Nat}
    {failure : Failure} (h : readWord frames word position = .error failure) :
    failure.position? = some position ∧ failure.kind = .syntactic := by
  unfold readWord at h
  split at h
  · exact absurd h (by simp)
  · split at h
    · exact absurd h (by simp)
    · obtain rfl : Failure.unknownWord word position = failure := by simpa using h
      exact ⟨rfl, rfl⟩

/-- A token that is a numeral beyond the doubles. -/
def IsOutOfRange (token : Token) : Prop :=
  ∃ n, token.lexeme = .number n ∧ (Binary64.ofNumeral n).isFinite = false

/-- What is reported of a token where an operand must stand. Only a numeral
    that is too large is refused for what it denotes. -/
theorem readOperand_error {frames : List Frame} {token : Token} {failure : Failure}
    (h : readOperand frames token = .error failure) :
    failure.position? = some token.position ∧
      (failure.kind = .syntactic ∧ ¬IsOutOfRange token ∨
        failure.kind = .numeric ∧ IsOutOfRange token) := by
  have hother (hne : ∀ n, token.lexeme ≠ .number n) : ¬IsOutOfRange token :=
    fun ⟨n, hn, _⟩ => hne n hn
  unfold readOperand at h
  split at h
  · exact absurd h (by simp)
  · exact absurd h (by simp)
  · rename_i n heq
    split at h
    · exact absurd h (by simp)
    · rename_i hn
      obtain rfl : Failure.outOfRange n token.position = failure := by simpa using h
      exact ⟨rfl, .inr ⟨rfl, n, heq, by simpa using hn⟩⟩
  · exact absurd h (by simp)
  · rename_i word heq
    rcases readWord_error h with ⟨hposition, hkind⟩
    exact ⟨hposition, .inl ⟨hkind, hother (by simp [heq])⟩⟩
  · rename_i hnumber _ _
    obtain rfl : Failure.unexpected token.lexeme.text token.position = failure := by simpa using h
    exact ⟨rfl, .inl ⟨rfl, hother hnumber⟩⟩

/-- What is reported of a refused token: its place, and that a number is too
    large exactly if that is so and an operand has been missing. -/
theorem step_error {state : State} {token : Token} {failure : Failure}
    (h : step state token = .error failure) :
    failure.position? = some token.position ∧
      (failure.kind = .numeric ∨ failure.kind = .syntactic) ∧
      (failure.kind = .numeric ↔ IsOutOfRange token ∧ state.focus = .operand) := by
  -- Where no operand is missing, every refusal is one of syntax.
  have hsyntactic (hposition : failure.position? = some token.position)
      (hkind : failure.kind = .syntactic) (hfocus : state.focus ≠ .operand) :
      failure.position? = some token.position ∧
        (failure.kind = .numeric ∨ failure.kind = .syntactic) ∧
        (failure.kind = .numeric ↔ IsOutOfRange token ∧ state.focus = .operand) := by
    refine ⟨hposition, .inr hkind, fun hnumeric => ?_, fun hop => absurd hop.2 hfocus⟩
    rw [hkind] at hnumeric
    exact absurd hnumeric (by simp)
  rcases state with ⟨frames, focus⟩
  cases focus with
  | operand =>
      rcases readOperand_error h with ⟨hposition, ⟨hkind, hin⟩ | ⟨hkind, hout⟩⟩
      · refine ⟨hposition, .inr hkind, ?_⟩
        rw [hkind]
        simp [hin]
      · refine ⟨hposition, .inl hkind, ?_⟩
        rw [hkind]
        simp [hout]
  | callee f =>
      simp only [step] at h
      split at h
      · exact absurd h (by simp)
      · obtain rfl : Failure.uncalled f (some token.position) = failure := by simpa using h
        exact hsyntactic rfl rfl (by simp)
  | constant name =>
      simp only [step] at h
      split at h
      · obtain rfl : Failure.notCallable name token.position = failure := by simpa using h
        exact hsyntactic rfl rfl (by simp)
      · rcases afterOperand_error h with ⟨hposition, hkind⟩
        exact hsyntactic hposition hkind (by simp)
  | complete value =>
      rcases afterOperand_error h with ⟨hposition, hkind⟩
      exact hsyntactic hposition hkind (by simp)

/-- What is reported where tokens end too early belongs to no place. -/
theorem finish_error {state : State} {failure : Failure} (h : finish state = .error failure) :
    failure.position? = none ∧ failure.kind = .syntactic := by
  have hclose {value : Expr} (h : close state.frames value = .error failure) :
      failure.position? = none ∧ failure.kind = .syntactic := by
    unfold close at h
    split at h
    · exact absurd h (by simp)
    · obtain rfl : Failure.unclosed none = failure := by simpa using h
      exact ⟨rfl, rfl⟩
  unfold finish at h
  split at h
  · obtain rfl : Failure.incomplete = failure := by simpa using h
    exact ⟨rfl, rfl⟩
  · rename_i f _
    obtain rfl : Failure.uncalled f none = failure := by simpa using h
    exact ⟨rfl, rfl⟩
  · exact hclose h
  · exact hclose h

/-- A run fails at one of its tokens, in the state before it. -/
theorem exists_step_of_run {state : State} {tokens : List Token} {failure : Failure}
    (h : run none state tokens = .error failure) :
    ∃ before token after next, tokens = before ++ token :: after ∧
      run none state before = .ok next ∧ step next token = .error failure := by
  induction tokens generalizing state with
  | nil => exact absurd h (by simp [run_nil])
  | cons token rest ih =>
      rw [run_none_cons] at h
      cases hstep : step state token with
      | error cause =>
          rw [hstep] at h
          obtain rfl : cause = failure := by simpa [Except.bind] using h
          exact ⟨[], token, rest, state, rfl, run_nil none state, hstep⟩
      | ok next =>
          rw [hstep] at h
          rcases ih h with ⟨before, refused, after, last, rfl, hrun, hrefused⟩
          refine ⟨token :: before, refused, after, last, rfl, ?_, hrefused⟩
          rw [run_none_cons, hstep]
          exact hrun

/-- A number is taken only where an operand is missing. -/
theorem focus_of_step_number {state next : State} {n : Numeral} {position : Nat}
    (h : step state ⟨.number n, position⟩ = .ok next) : state.focus = .operand := by
  have hafter (frames : List Frame) (value : Expr) :
      afterOperand frames value ⟨.number n, position⟩ ≠ .ok next := by
    unfold afterOperand
    split
    · rename_i heq
      exact absurd heq (by simp)
    · split
      · rename_i heq
        exact absurd heq (by simp)
      · simp
      · simp
  rcases state with ⟨frames, focus⟩
  cases focus with
  | operand => rfl
  | callee f => exact absurd h (by simp [step])
  | constant name => exact absurd h (by simpa [step] using hafter frames (.constant name))
  | complete value => exact absurd h (hafter frames value)

/-! ### Tokens that can be continued -/

/-- Tokens and others behind them that are scanned from a text together and
    form an expression together. -/
def Continues (tokens more : List Token) : Prop :=
  ∃ text x, Token.scan text = .ok (tokens ++ more) ∧ Expr.ofTokens none (tokens ++ more) = .ok x

/-- Tokens behind which a number may stand, as the start of an operand. -/
def FitsNumber (tokens : List Token) : Prop :=
  ∃ n position more, (Binary64.ofNumeral n).isFinite = true ∧
    Continues tokens (⟨.number n, position⟩ :: more)

/-- What has been read is continued by what completes its state. -/
theorem exists_continues {text : List Char} {before after : List Token}
    (hscan : Token.scan text = .ok (before ++ after)) {state : State}
    (hrun : run none start before = .ok state) :
    ∃ more, more.map Token.lexeme = completion state ∧ Continues before more := by
  rcases Token.scan_continued hscan (wellFormed_completion state) (isChain_completion state) with
    ⟨other, more, hother, hmap⟩
  rcases exists_finish state hmap with ⟨x, hx⟩
  rw [← conclude_append hrun] at hx
  refine ⟨more, hmap, other, x, hother, ?_⟩
  -- Nothing at all is no expression, so there are tokens.
  rwa [ofTokens_eq_conclude]
  intro hnil
  rw [hnil] at hx
  exact absurd hx (by simp [conclude, run_nil, finish, start, Except.bind])

/-- A refused token is refused whatever follows. -/
theorem ofTokens_refused {before : List Token} {state : State} {token : Token}
    {failure : Failure} (hrun : run none start before = .ok state)
    (hstep : step state token = .error failure) (more : List Token) :
    Expr.ofTokens none (before ++ token :: more) = .error failure := by
  rw [ofTokens_eq_conclude (by simp), conclude_append hrun, conclude, run_none_cons, hstep]
  rfl

/-- A number may stand where the state of reading misses an operand. -/
theorem fitsNumber_iff {text : List Char} {before after : List Token}
    (hscan : Token.scan text = .ok (before ++ after)) {state : State}
    (hrun : run none start before = .ok state) :
    FitsNumber before ↔ state.focus = .operand := by
  constructor
  · rintro ⟨n, position, more, -, -, x, -, hx⟩
    rw [ofTokens_eq_conclude (by simp), conclude_append hrun, conclude, run_none_cons] at hx
    cases hstep : step state ⟨.number n, position⟩ with
    | error failure =>
        rw [hstep] at hx
        exact absurd hx (by simp [Except.bind])
    | ok next => exact focus_of_step_number hstep
  · intro hfocus
    rcases exists_continues hscan hrun with ⟨more, hmap, hcontinues⟩
    rw [completion, hfocus] at hmap
    rcases List.map_eq_cons_iff.1 hmap with ⟨⟨_, position⟩, rest, rfl, rfl, -⟩
    exact ⟨zero, position, rest, isFinite_zero, hcontinues⟩

/-- No numeral that is too large is read as a part of an expression. -/
theorem not_isOutOfRange_of_ofTokens {tokens : List Token} {x : Expr}
    (h : Expr.ofTokens none tokens = .ok x) : ∀ token ∈ tokens, ¬IsOutOfRange token := by
  rintro token hmem ⟨n, hn, hout⟩
  rcases List.append_of_mem hmem with ⟨before, after, rfl⟩
  rw [ofTokens_eq_conclude (by simp), conclude, run_append] at h
  cases hrun : run none start before with
  | error failure =>
      rw [hrun] at h
      exact absurd h (by simp [Except.bind])
  | ok state =>
      rw [hrun] at h
      change (run none state (token :: after)).bind finish = _ at h
      rw [run_none_cons] at h
      rcases token with ⟨lexeme, position⟩
      obtain rfl : lexeme = .number n := hn
      cases hstep : step state ⟨.number n, position⟩ with
      | error failure =>
          rw [hstep] at h
          exact absurd h (by simp [Except.bind])
      | ok next =>
          have hfocus := focus_of_step_number hstep
          rw [step, hfocus] at hstep
          exact absurd hstep (by simp [readOperand, hout])

/-- Tokens that form no expression contain one that is refused, or they end too
    early. -/
theorem refused_or_unfinished {tokens : List Token} {failure : Failure}
    (h : Expr.ofTokens none tokens = .error failure) :
    (∃ before token after state, tokens = before ++ token :: after ∧
        run none start before = .ok state ∧ step state token = .error failure) ∨
      (failure.position? = none ∧ failure.kind = .syntactic ∧
        ∃ state, run none start tokens = .ok state) := by
  rcases tokens with _ | ⟨first, rest⟩
  · -- The empty formula has a failure of its own.
    obtain rfl : Failure.empty = failure := by simpa [Expr.ofTokens] using h
    exact .inr ⟨rfl, rfl, start, run_nil none start⟩
  · rw [ofTokens_eq_conclude (by simp), conclude] at h
    cases hrun : run none start (first :: rest) with
    | error cause =>
        rw [hrun] at h
        obtain rfl : cause = failure := by simpa [Except.bind] using h
        exact .inl (exists_step_of_run hrun)
    | ok state =>
        rw [hrun] at h
        rcases finish_error h with ⟨hposition, hkind⟩
        exact .inr ⟨hposition, hkind, state, rfl⟩

end Reader

namespace Expr

open Reader

/-- If scanned tokens form no expression, and the failure has a place, then
    this is the place of the first impossible token: what stands before it can
    be continued to an expression, and nothing that begins with it can. A
    failure without a place says that the tokens are a proper beginning of an
    expression. The kind of the failure is numeric exactly if the refused token
    is a numeral beyond the doubles where a number may stand. -/
theorem ofTokens_refuses {text : List Char} {tokens : List Token} {failure : Failure}
    (hscan : Token.scan text = .ok tokens) (h : ofTokens none tokens = .error failure) :
    (∀ position, failure.position? = some position →
      ∃ before token after, tokens = before ++ token :: after ∧ token.position = position ∧
        (∃ more, Continues before more) ∧
        (∀ more x, ofTokens none (before ++ token :: more) ≠ .ok x) ∧
        (failure.kind = .numeric ↔ IsOutOfRange token ∧ FitsNumber before)) ∧
    (failure.position? = none →
      failure.kind = .syntactic ∧ ∃ more, more ≠ [] ∧ Continues tokens more) ∧
    (failure.kind = .numeric ∨ failure.kind = .syntactic) ∧
    ∀ others x, ofTokens none others = .ok x → ∀ token ∈ others, ¬IsOutOfRange token := by
  rcases refused_or_unfinished h with
    ⟨before, token, after, state, rfl, hrun, hstep⟩ | ⟨hnone, hkind, state, hrun⟩
  · rcases step_error hstep with ⟨hposition, hkinds, hnumeric⟩
    refine ⟨fun position hp => ?_, fun hnone => ?_, hkinds, fun _ _ => not_isOutOfRange_of_ofTokens⟩
    · rw [hposition] at hp
      rcases exists_continues hscan hrun with ⟨more, -, hcontinues⟩
      refine ⟨before, token, after, rfl, by simpa using hp, ⟨more, hcontinues⟩, ?_, ?_⟩
      · intro more x hx
        rw [ofTokens_refused hrun hstep more] at hx
        exact absurd hx (by simp)
      · rw [hnumeric, fitsNumber_iff hscan hrun]
    · rw [hposition] at hnone
      exact absurd hnone (by simp)
  · refine ⟨fun position hp => ?_, fun _ => ⟨hkind, ?_⟩, .inr hkind,
      fun _ _ => not_isOutOfRange_of_ofTokens⟩
    · rw [hnone] at hp
      exact absurd hp (by simp)
    · rw [← List.append_nil tokens] at hscan
      rcases exists_continues hscan hrun with ⟨more, -, hcontinues⟩
      refine ⟨more, ?_, hcontinues⟩
      -- The tokens alone form no expression, so something has been added.
      rintro rfl
      rcases hcontinues with ⟨_, x, -, hx⟩
      rw [List.append_nil, h] at hx
      exact absurd hx (by simp)

/-- The tokens of `e*(pi e`, which are refused at the last one. -/
def crowded : List Token :=
  [⟨.word ['e'], 0⟩, ⟨.operator .mul, 1⟩, ⟨.leftParen, 2⟩, ⟨.word ['p', 'i'], 3⟩,
    ⟨.word ['e'], 6⟩]

/-- In `e*(pi e` the place of the last word is reported, and it is the first
    impossible one. -/
theorem ofTokens_refuses_crowded :
    Token.scan ['e', '*', '(', 'p', 'i', ' ', 'e'] = .ok crowded ∧
      ofTokens none crowded = .error (.unclosed (some 6)) ∧
      ∃ before token after, crowded = before ++ token :: after ∧ token.position = 6 ∧
        (∃ more, Continues before more) ∧
        ∀ more x, ofTokens none (before ++ token :: more) ≠ .ok x := by
  have hscan : Token.scan ['e', '*', '(', 'p', 'i', ' ', 'e'] = .ok crowded :=
    ok_of_toOption (by decide +kernel)
  have hread : ofTokens none crowded = .error (.unclosed (some 6)) := rfl
  rcases (ofTokens_refuses hscan hread).1 6 rfl with
    ⟨before, token, after, hsplit, hposition, hbefore, hnone, -⟩
  exact ⟨hscan, hread, before, token, after, hsplit, hposition, hbefore, hnone⟩

end Expr

end Calculator
