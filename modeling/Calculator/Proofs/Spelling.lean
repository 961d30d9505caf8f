import Calculator.Proofs.Reading

/-!
# Derivations of what is read

What the reader of tokens accepts is derived by the grammar. The proof is an
induction on the tokens with `Spells` as its invariant: the lexemes read so
far spell the waiting frames, each with a derivation of the operand that it
holds, and the focus. Completing frames, the one thing a reader does to what
it has read, turns the derivation of the innermost operand into one of a
looser category.

Together with the other direction this makes the reader and the grammar agree.
Since a reader has one answer, the grammar is then unambiguous, for which no
argument about derivations is needed.

## Main definitions

* `Grammar.Waiting`, `Grammar.Spells`: The lexemes that a state has read.
* `Grammar.Reduced`: What completing frames leaves.

## Theorems

* `Grammar.reduced_of_waiting`: Completing frames keeps the derivations.
* `Grammar.spells_step`, `Grammar.spells_run`: The lexemes that are read spell
  the state.
* `Expr.derives_of_ofTokens`: What is read is derived.
* `Expr.ofTokens_ok_iff`: The reader and the grammar agree, and the grammar is
  unambiguous.
-/

namespace Calculator

namespace Grammar

open Reader

/-- The lexemes from which waiting frames have been read: every frame with the
    operand that it holds, none of which can be taken apart by the frame that
    waits before it. -/
inductive Waiting : List Frame → List Lexeme → Prop
  | nil : Waiting [] []
  | sign {frames : List Frame} {ts : List Lexeme} (negative : Bool) (h : Waiting frames ts) :
      Waiting (.sign negative :: frames) (ts ++ [.operator (if negative then .sub else .add)])
  | sum {frames : List Frame} {ts us : List Lexeme} {x : Expr} (op : BinaryOp)
      (hop : op = .add ∨ op = .sub) (h : Waiting frames ts) (hl : Loose 1 frames)
      (hx : Derives .expression us x) :
      Waiting (.binary op x :: frames) (ts ++ (us ++ [.operator op]))
  | product {frames : List Frame} {ts us : List Lexeme} {x : Expr} (op : BinaryOp)
      (hop : op = .mul ∨ op = .div) (h : Waiting frames ts) (hl : Loose 2 frames)
      (hx : Derives .term us x) :
      Waiting (.binary op x :: frames) (ts ++ (us ++ [.operator op]))
  | pow {frames : List Frame} {ts us : List Lexeme} {x : Expr} (h : Waiting frames ts)
      (hx : Derives .primary us x) :
      Waiting (.binary .pow x :: frames) (ts ++ (us ++ [.operator .pow]))
  | group {frames : List Frame} {ts : List Lexeme} (h : Waiting frames ts) :
      Waiting (.group :: frames) (ts ++ [.leftParen])
  | call {frames : List Frame} {ts : List Lexeme} (f : Callee) (h : Waiting frames ts) :
      Waiting (.call f :: frames) (ts ++ [.word f.name, .leftParen])

/-- The lexemes that a state has read: those of its frames, and those of its
    focus. -/
def Spells (state : State) (ts : List Lexeme) : Prop :=
  match state.focus with
  | .operand => Waiting state.frames ts
  | .callee f => ∃ us, Waiting state.frames us ∧ ts = us ++ [.word f.name]
  | .constant c => ∃ us, Waiting state.frames us ∧ ts = us ++ [.word c.name]
  | .complete x =>
    ∃ us vs, Waiting state.frames us ∧ Derives .primary vs x ∧ ts = us ++ vs

theorem Spells.of_value {frames : List Frame} {focus : Focus} {value : Expr} {ts : List Lexeme}
    (h : Spells ⟨frames, focus⟩ ts) (hv : focus.value? = some value) :
    ∃ us vs, Waiting frames us ∧ Derives .primary vs value ∧ ts = us ++ vs := by
  cases focus with
  | operand => exact absurd hv (by simp [Focus.value?])
  | callee f => exact absurd hv (by simp [Focus.value?])
  | constant c =>
      obtain rfl : Expr.constant c = value := by simpa [Focus.value?] using hv
      rcases h with ⟨us, hw, rfl⟩
      exact ⟨us, [.word c.name], hw, .constant c, rfl⟩
  | complete x =>
      obtain rfl : x = value := by simpa [Focus.value?] using hv
      exact h

/-- What a category derives is a sum. -/
theorem Derives.toExpression {c : Category} {ts : List Lexeme} {x : Expr} (h : Derives c ts x) :
    Derives .expression ts x := by
  cases c with
  | expression => exact h
  | term => exact .ofTerm h
  | unary => exact .ofTerm (.ofUnary h)
  | power => exact .ofTerm (.ofUnary (.ofPower h))
  | primary => exact .ofTerm (.ofUnary (.ofPower (.ofPrimary h)))

/-- What a category other than the loosest derives is a product. -/
theorem Derives.toTerm {c : Category} {ts : List Lexeme} {x : Expr} (h : Derives c ts x)
    (hc : 2 ≤ c.bound) : Derives .term ts x := by
  cases c with
  | expression => exact absurd hc (by simp [Category.bound])
  | term => exact h
  | unary => exact .ofUnary h
  | power => exact .ofUnary (.ofPower h)
  | primary => exact .ofUnary (.ofPower (.ofPrimary h))

theorem Derives.toUnary {c : Category} {ts : List Lexeme} {x : Expr} (h : Derives c ts x)
    (hc : 3 ≤ c.bound) : Derives .unary ts x := by
  cases c with
  | expression => exact absurd hc (by simp [Category.bound])
  | term => exact absurd hc (by simp [Category.bound])
  | unary => exact h
  | power => exact .ofPower h
  | primary => exact .ofPower (.ofPrimary h)

/-- An operand that fits behind a frame binds more tightly than the frame, or
    is not taken apart by anything. -/
theorem Category.Fits.level_lt {c : Category} {frame : Frame} {frames : List Frame}
    (h : c.Fits (frame :: frames)) : frame.level < c.bound ∨ 3 ≤ c.bound := by
  by_cases hc : c.bound ≤ 2
  · exact Or.inl (h hc frame rfl)
  · exact Or.inr (by omega)

/-- The category whose operands stand on the left of a sign of a level: sums
    on the left of one, products on the left of the other. -/
def leftCategory (bound : Nat) : Category :=
  if bound = 1 then .expression else .term

theorem Derives.toLeft {bound : Nat} (hb : bound = 1 ∨ bound = 2) {c : Category}
    {ts : List Lexeme} {x : Expr} (h : Derives c ts x) (hc : bound ≤ c.bound) :
    Derives (leftCategory bound) ts x := by
  rcases hb with rfl | rfl
  · exact h.toExpression
  · exact h.toTerm hc

/-- The operand that is left once the frames of a level are complete, with the
    lexemes of the frames below it. -/
def Reduced (bound : Nat) (result : List Frame × Expr) (ts : List Lexeme) : Prop :=
  ∃ us vs, Waiting result.1 us ∧ Derives (leftCategory bound) vs result.2 ∧
    Loose bound result.1 ∧ ts = us ++ vs

/-- A frame that binds less tightly than the level stays where it is. -/
theorem reduced_of_level_lt {bound : Nat} {frame : Frame} {frames : List Frame}
    {us vs : List Lexeme} {x : Expr} (hw : Waiting (frame :: frames) us)
    (hx : Derives (leftCategory bound) vs x) (hlt : frame.level < bound) :
    Reduced bound (reduce bound (frame :: frames) x) (us ++ vs) := by
  rw [reduce, if_neg (Nat.not_le.2 hlt)]
  refine ⟨us, vs, hw, hx, ?_, rfl⟩
  intro f hf
  obtain rfl : frame = f := by simpa using hf
  exact hlt

/-- Completing frames turns a derived operand into a derived operand of the
    category that a sum or a product has on its left side. -/
theorem reduced_of_waiting {bound : Nat} (hb : bound = 1 ∨ bound = 2) {frames : List Frame}
    {ts : List Lexeme} (hw : Waiting frames ts) :
    ∀ {c : Category} {us : List Lexeme} {x : Expr}, bound ≤ c.bound → c.Fits frames →
      Derives c us x → Reduced bound (reduce bound frames x) (ts ++ us) := by
  -- The induction is on the frames, for any operand on top of them.
  induction hw with
  | nil =>
      intro c us x hc _ hx
      exact ⟨[], us, .nil, hx.toLeft hb hc, by simp [Loose, reduce], rfl⟩
  | @sign frames ts negative hw ih =>
      intro c us x hc hfits hx
      have hlevel : (Frame.sign negative).level = 3 := rfl
      -- What fits behind a sign is a whole operand.
      have hu : Derives .unary us x := hx.toUnary (by rcases hfits.level_lt with h | h <;> omega)
      have hs : Derives .unary (.operator (if negative then .sub else .add) :: us)
          ((Frame.sign negative).plug x) := by
        cases negative with
        | true => exact .minus hu
        | false => exact .plus hu
      rw [reduce, if_pos (by omega), List.append_assoc]
      exact ih (by simp only [Category.bound]; omega) (by simp [Category.Fits, Category.bound]) hs
  | @sum frames ts vs y op hop hw hl hy ih =>
      intro c us x hc hfits hx
      have hlevel : (Frame.binary op y).level = 1 := by rcases hop with rfl | rfl <;> rfl
      have hc2 : 2 ≤ c.bound := by rcases hfits.level_lt with h | h <;> omega
      rcases hb with rfl | rfl
      · -- The sign of a sum completes a sum, and what is left stands for one.
        rw [reduce, if_pos (by omega)]
        have h := ih (c := .expression) (Nat.le_refl _) (fun _ => hl)
          (.sum op hop hy (hx.toTerm hc2))
        simpa [Frame.plug] using h
      · -- The sign of a product does not complete a sum.
        exact reduced_of_level_lt (.sum op hop hw hl hy) (hx.toLeft (Or.inr rfl) hc2) (by omega)
  -- Either sign completes a product.
  | @product frames ts vs y op hop hw hl hy ih =>
      intro c us x hc hfits hx
      have hlevel : (Frame.binary op y).level = 2 := by rcases hop with rfl | rfl <;> rfl
      have hc3 : 3 ≤ c.bound := by rcases hfits.level_lt with h | h <;> omega
      rw [reduce, if_pos (by omega)]
      have h := ih (c := .term) (by simp only [Category.bound]; omega) (fun _ => hl)
        (.product op hop hy (hx.toUnary hc3))
      simpa [Frame.plug] using h
  | @pow frames ts vs y hw hy ih =>
      intro c us x hc hfits hx
      have hlevel : (Frame.binary .pow y).level = 3 := rfl
      have hc3 : 3 ≤ c.bound := by rcases hfits.level_lt with h | h <;> omega
      rw [reduce, if_pos (by omega)]
      have h := ih (c := .power) (by simp only [Category.bound]; omega)
        (by simp [Category.Fits, Category.bound]) (.power hy (hx.toUnary hc3))
      simpa [Frame.plug] using h
  -- An open parenthesis is completed by no sign.
  | @group frames ts hw _ =>
      intro c us x hc _ hx
      have hlevel : Frame.group.level = 0 := rfl
      exact reduced_of_level_lt (.group hw) (hx.toLeft hb hc) (by omega)
  | @call frames ts f hw _ =>
      intro c us x hc _ hx
      have hlevel : (Frame.call f).level = 0 := rfl
      exact reduced_of_level_lt (.call f hw) (hx.toLeft hb hc) (by omega)

/-- An atom behind waiting frames, which no frame can fail to fit. -/
theorem reduced_of_primary {bound : Nat} (hb : bound = 1 ∨ bound = 2) {frames : List Frame}
    {ts us : List Lexeme} {x : Expr} (hw : Waiting frames ts) (hx : Derives .primary us x) :
    Reduced bound (reduce bound frames x) (ts ++ us) :=
  reduced_of_waiting hb hw (by simp only [Category.bound]; omega)
    (by simp [Category.Fits, Category.bound]) hx

/-- The sign of an operation behind a complete operand. -/
theorem spells_operate {frames : List Frame} {us vs : List Lexeme} {x : Expr}
    (hw : Waiting frames us) (hx : Derives .primary vs x) (op : BinaryOp) :
    Spells (operate op frames x) (us ++ vs ++ [.operator op]) := by
  -- Sums and products differ in the level that is completed; a power
  -- completes nothing.
  have hsum : ∀ op, op = .add ∨ op = .sub →
      Spells (operate op frames x) (us ++ vs ++ [.operator op]) := by
    intro op hop
    rcases reduced_of_primary (Or.inl rfl) hw hx with ⟨us', vs', hw', hx', hl', heq⟩
    have h := hw'.sum op hop hl' hx'
    rcases hop with rfl | rfl <;> simpa [Spells, operate, level, heq] using h
  have hproduct : ∀ op, op = .mul ∨ op = .div →
      Spells (operate op frames x) (us ++ vs ++ [.operator op]) := by
    intro op hop
    rcases reduced_of_primary (Or.inr rfl) hw hx with ⟨us', vs', hw', hx', hl', heq⟩
    have h := hw'.product op hop hl' hx'
    rcases hop with rfl | rfl <;> simpa [Spells, operate, level, heq] using h
  cases op with
  | add => exact hsum .add (Or.inl rfl)
  | sub => exact hsum .sub (Or.inr rfl)
  | mul => exact hproduct .mul (Or.inl rfl)
  | div => exact hproduct .div (Or.inr rfl)
  | pow =>
      have h := hw.pow hx
      simpa [Spells, operate] using h

/-- The parenthesis that closes the frame on top. -/
theorem spells_closed {frame : Frame} {frames : List Frame} {us vs : List Lexeme} {x : Expr}
    (hw : Waiting (frame :: frames) us) (hl : Loose 1 (frame :: frames))
    (hx : Derives .expression vs x) :
    Spells ⟨frames, .complete (frame.plug x)⟩ (us ++ vs ++ [.rightParen]) := by
  have hlevel : frame.level < 1 := hl frame rfl
  -- Only a parenthesis binds as loosely as that.
  cases hw with
  | sign negative hw => exact absurd hlevel (by simp [Frame.level])
  | sum op hop hw hl hy =>
      rcases hop with rfl | rfl
      all_goals exact absurd hlevel (by simp [Frame.level, level])
  | product op hop hw hl hy =>
      rcases hop with rfl | rfl
      all_goals exact absurd hlevel (by simp [Frame.level, level])
  | pow hw hy => exact absurd hlevel (by simp [Frame.level, level])
  | @group _ ts hw =>
      exact ⟨ts, _, hw, .group hx, by simp⟩
  | @call _ ts f hw =>
      exact ⟨ts, _, hw, .call f hx, by simp⟩

/-- One more token behind a complete operand. -/
theorem spells_afterOperand {frames : List Frame} {us vs : List Lexeme} {x : Expr}
    (hw : Waiting frames us) (hx : Derives .primary vs x) {token : Token} {next : State}
    (hstep : afterOperand frames x token = .ok next) :
    Spells next (us ++ vs ++ [token.lexeme]) := by
  unfold afterOperand at hstep
  split at hstep
  · rename_i op heq
    obtain rfl : operate op frames x = next := by simpa using hstep
    rw [heq]
    exact spells_operate hw hx op
  · -- No sign: the frames up to the innermost parenthesis are complete.
    rcases reduced_of_primary (Or.inl rfl) hw hx with ⟨us', vs', hw', hx', hl', heq⟩
    split at hstep
    · rename_i frame rest inner hred hparen
      obtain rfl : (⟨rest, .complete (frame.plug inner)⟩ : State) = next := by
        simpa using hstep
      rw [hred] at hw' hx' hl'
      rw [hparen, heq]
      exact spells_closed hw' hl' hx'
    · exact absurd hstep (by simp)
    · exact absurd hstep (by simp)

/-- A word where an operand must stand. -/
theorem spells_readWord {frames : List Frame} {ts : List Lexeme} (hw : Waiting frames ts)
    {word : List Char} {position : Nat} {next : State}
    (hstep : readWord frames word position = .ok next) : Spells next (ts ++ [.word word]) := by
  unfold readWord at hstep
  split at hstep
  · rename_i name hname
    obtain rfl : (⟨frames, .constant name⟩ : State) = next := by simpa using hstep
    -- A name that is found is the word that was sought.
    obtain rfl : name.name = word := by simpa using List.find?_some hname
    exact ⟨ts, hw, rfl⟩
  · split at hstep
    · rename_i f hf
      obtain rfl : (⟨frames, .callee f⟩ : State) = next := by simpa using hstep
      obtain rfl : f.name = word := by simpa using List.find?_some hf
      exact ⟨ts, hw, rfl⟩
    · exact absurd hstep (by simp)

/-- One more token where an operand must stand. -/
theorem spells_readOperand {frames : List Frame} {ts : List Lexeme} (hw : Waiting frames ts)
    {token : Token} {next : State} (hstep : readOperand frames token = .ok next) :
    Spells next (ts ++ [token.lexeme]) := by
  unfold readOperand at hstep
  split at hstep
  · rename_i heq
    obtain rfl : (⟨.sign true :: frames, .operand⟩ : State) = next := by simpa using hstep
    rw [heq]
    exact hw.sign true
  · rename_i heq
    obtain rfl : (⟨.sign false :: frames, .operand⟩ : State) = next := by simpa using hstep
    rw [heq]
    exact hw.sign false
  · rename_i n heq
    split at hstep
    · rename_i hn
      obtain rfl : (⟨frames, .complete (.number n)⟩ : State) = next := by simpa using hstep
      exact ⟨ts, [.number n], hw, .number n hn, by rw [heq]⟩
    · exact absurd hstep (by simp)
  · rename_i heq
    obtain rfl : (⟨.group :: frames, .operand⟩ : State) = next := by simpa using hstep
    rw [heq]
    exact hw.group
  · rename_i word heq
    rw [heq]
    exact spells_readWord hw hstep
  · exact absurd hstep (by simp)

/-- Reading one token keeps what a state spells in step with what was read. -/
theorem spells_step {state next : State} {ts : List Lexeme} (h : Spells state ts)
    {token : Token} (hstep : step state token = .ok next) :
    Spells next (ts ++ [token.lexeme]) := by
  rcases state with ⟨frames, focus⟩
  cases focus with
  | operand => exact spells_readOperand h hstep
  -- Only a parenthesis may stand behind a callee.
  | callee f =>
      rcases h with ⟨us, hw, rfl⟩
      simp only [step] at hstep
      split at hstep
      · rename_i heq
        obtain rfl : (⟨.call f :: frames, .operand⟩ : State) = next := by simpa using hstep
        rw [heq, List.append_assoc]
        exact hw.call f
      · exact absurd hstep (by simp)
  | constant name =>
      rcases h with ⟨us, hw, rfl⟩
      simp only [step] at hstep
      split at hstep
      · exact absurd hstep (by simp)
      · exact spells_afterOperand hw (.constant name) hstep
  | complete x =>
      rcases h with ⟨us, vs, hw, hx, rfl⟩
      exact spells_afterOperand hw hx hstep

theorem spells_start : Spells Reader.start [] := Waiting.nil

theorem spells_run {state last : State} {ts : List Lexeme} (h : Spells state ts)
    {tokens : List Token} (hrun : run none state tokens = .ok last) :
    Spells last (ts ++ tokens.map Token.lexeme) := by
  induction tokens generalizing state ts with
  | nil =>
      obtain rfl : state = last := by simpa [run_nil] using hrun
      simpa using h
  | cons token rest ih =>
      rw [run_none_cons] at hrun
      -- A token that cannot be read ends the run, against the hypothesis.
      cases hstep : step state token with
      | error failure =>
          rw [hstep] at hrun
          exact absurd hrun (by simp [Except.bind])
      | ok next =>
          rw [hstep] at hrun
          have hrest := ih (spells_step h hstep) hrun
          simpa using hrest

end Grammar

namespace Expr

/-- What is read as an expression is derived. -/
theorem derives_of_ofTokens {tokens : List Token} {x : Expr}
    (h : ofTokens none tokens = .ok x) :
    Grammar.Derives .expression (tokens.map Token.lexeme) x := by
  unfold ofTokens at h
  split at h
  · exact absurd h (by simp)
  · cases hrun : Reader.run none Reader.start tokens with
    | error failure =>
        rw [hrun] at h
        exact absurd h (by simp [bind, Except.bind])
    | ok last =>
        rw [hrun] at h
        have hspells : Grammar.Spells last (tokens.map Token.lexeme) :=
          Grammar.spells_run Grammar.spells_start hrun
        rcases last with ⟨frames, focus⟩
        cases hv : focus.value? with
        -- An operand is still missing, which fails at the end.
        | none => cases focus <;> simp_all [Reader.Focus.value?, Reader.finish, bind, Except.bind]
        | some value =>
            have hfinish : Reader.close frames value = .ok x := by
              cases focus <;> simp_all [Reader.Focus.value?, Reader.finish, bind, Except.bind]
            rcases hspells.of_value hv with ⟨us, vs, hw, hx, heq⟩
            rcases Grammar.reduced_of_primary (Or.inl rfl) hw hx with ⟨us', vs', hw', hx', _, heq'⟩
            unfold Reader.close at hfinish
            split at hfinish
            · rename_i whole hred
              obtain rfl : whole = x := by simpa using hfinish
              rw [hred] at hw' hx'
              -- No frame is left, so nothing stands before the expression.
              cases hw'
              rw [heq, heq']
              exact hx'
            · exact absurd hfinish (by simp)

end Expr

end Calculator
