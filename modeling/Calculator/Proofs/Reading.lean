import Calculator.Expr.Reader
import Calculator.Proofs.Grammar

/-!
# Reading derived formulas

The reader of tokens accepts what the grammar derives, and yields the
expression that the derivation names, when no limit is set to the nesting.

The proof is an induction on the derivation. A category is read on top of
frames that are still waiting, and what it adds to them is described by
`Reads`: frames that bind as tightly as the category, which completed around
the focus give its expression. The frames below are not touched, provided that
the innermost of them binds less tightly than the category; a category that no
sign of an operation completes may stand on any frames.

## Main definitions

* `Reader.Focus.value?`: The operand that has just been read.
* `Reader.plugAll`: The expression that frames make when they are completed.
* `Grammar.Category.bound`: How tightly the frames of a category bind.
* `Grammar.Reads`: How a category is read on top of waiting frames.

## Theorems

* `Reader.reduce_append`: Exactly the frames that bind tightly are completed.
* `Grammar.reads_of_derives`: Derived lexemes are read.
* `Expr.ofTokens_of_derives`: They form the expression of the derivation.
-/

namespace Calculator

/-- No callee has the name of a constant. -/
theorem Callee.not_constant (f : Callee) : Constant.ofName? f.name = none := by
  cases f with
  | elementary function => cases function <;> rfl
  | factorial => rfl
  | percent => rfl

namespace Reader

theorem stepWithin_none (state : State) (token : Token) :
    stepWithin none state token = step state token := by
  unfold stepWithin
  cases step state token with
  | ok next => rfl
  | error failure => rfl

theorem run_nil (limit : NestingLimit) (state : State) : run limit state [] = .ok state := rfl

theorem run_none_cons (state : State) (token : Token) (tokens : List Token) :
    run none state (token :: tokens) =
      (step state token).bind fun next => run none next tokens := by
  rw [run, List.foldlM_cons, stepWithin_none]
  rfl

theorem run_append (limit : NestingLimit) (state : State) (ts us : List Token) :
    run limit state (ts ++ us) = (run limit state ts).bind fun next => run limit next us := by
  rw [run, List.foldlM_append]
  rfl

/-- The operand that has just been read, if one is complete. -/
def Focus.value? : Focus → Option Expr
  | .operand | .callee _ => none
  | .constant name => some (.constant name)
  | .complete value => some value

/-- A complete operand is followed in one way, whether or not it is a constant;
    only an opening parenthesis tells the two apart. -/
theorem step_of_value {focus : Focus} {value : Expr} (hv : focus.value? = some value)
    (frames : List Frame) (token : Token) (ht : token.lexeme ≠ .leftParen) :
    step ⟨frames, focus⟩ token = afterOperand frames value token := by
  cases focus with
  -- Nothing has been read as an operand yet.
  | operand => exact absurd hv (by simp [Focus.value?])
  | callee f => exact absurd hv (by simp [Focus.value?])
  | constant name =>
      obtain rfl : Expr.constant name = value := by simpa [Focus.value?] using hv
      simp only [step, if_neg ht]
  | complete v =>
      obtain rfl : v = value := by simpa [Focus.value?] using hv
      rfl

/-- Frames that complete around a value, from the innermost outwards. -/
def plugAll (frames : List Frame) (value : Expr) : Expr :=
  frames.foldl (fun x frame => frame.plug x) value

/-- The innermost frame, if there is one, binds less tightly than a level. -/
def Loose (bound : Nat) (frames : List Frame) : Prop :=
  ∀ frame ∈ frames.head?, frame.level < bound

/-- Exactly the frames that bind tightly enough are completed. -/
theorem reduce_append (bound : Nat) {inner outer : List Frame}
    (hi : ∀ frame ∈ inner, bound ≤ frame.level) (ho : Loose bound outer) (value : Expr) :
    reduce bound (inner ++ outer) value = (outer, plugAll inner value) := by
  induction inner generalizing value with
  -- Nothing is left that binds tightly, so the outer frames stop it.
  | nil =>
      cases outer with
      | nil => rfl
      | cons frame rest =>
          have hlt : frame.level < bound := ho frame rfl
          simp only [List.nil_append, reduce, if_neg (Nat.not_le.2 hlt)]
          rfl
  | cons frame rest ih =>
      have hle : bound ≤ frame.level := hi frame List.mem_cons_self
      simp only [List.cons_append, reduce, if_pos hle]
      exact ih (fun f hf => hi f (List.mem_cons_of_mem frame hf)) (frame.plug value)

theorem level_le (frame : Frame) : frame.level ≤ 3 := by
  cases frame with
  | binary op left => cases op <;> simp [Frame.level, level]
  | _ => simp [Frame.level]

end Reader

namespace Grammar

open Reader

/-- How tightly the frames of a category bind at least. No frame binds as
    tightly as a primary, which leaves none. -/
def Category.bound : Category → Nat
  | .expression => 1
  | .term => 2
  | .unary | .power => 3
  | .primary => 4

/-- The frames on which a category can be read without being taken apart. Only
    the signs of sums and products complete frames, so only sums and products
    ask for anything. -/
def Category.Fits (c : Category) (frames : List Frame) : Prop :=
  c.bound ≤ 2 → Loose c.bound frames

/-- Tokens are read as an operand of a category: on all frames that fit, what
    they leave there is the operand with frames that bind as tightly as the
    category, and nothing below is touched. -/
def Reads (c : Category) (tokens : List Token) (x : Expr) : Prop :=
  ∀ frames, c.Fits frames → ∃ inner focus value,
    run none ⟨frames, .operand⟩ tokens = .ok ⟨inner ++ frames, focus⟩ ∧
      focus.value? = some value ∧ (∀ frame ∈ inner, c.bound ≤ frame.level) ∧
      plugAll inner value = x

/-- An operand of a tighter category is one of a looser category. -/
theorem Reads.weaken {c d : Category} {tokens : List Token} {x : Expr} (h : Reads c tokens x)
    (hb : d.bound ≤ c.bound) (hf : ∀ frames, d.Fits frames → c.Fits frames) :
    Reads d tokens x := by
  intro frames hfits
  rcases h frames (hf frames hfits) with ⟨inner, focus, value, hrun, hv, hin, hx⟩
  exact ⟨inner, focus, value, hrun, hv, fun f hf => Nat.le_trans hb (hin f hf), hx⟩

/-- Reading on behind a frame that has just been put on the stack: the frame
    stays open around what is read, so the operand ends up in it. -/
theorem Reads.behind {c d : Category} {us : List Token} {y : Expr} (hr : Reads d us y)
    (frame : Frame) (frames : List Frame) (hfits : d.Fits (frame :: frames))
    (hframe : c.bound ≤ frame.level) (hcd : c.bound ≤ d.bound) :
    ∃ inner focus value,
      run none ⟨frame :: frames, .operand⟩ us = .ok ⟨inner ++ frames, focus⟩ ∧
        focus.value? = some value ∧ (∀ f ∈ inner, c.bound ≤ f.level) ∧
        plugAll inner value = frame.plug y := by
  rcases hr (frame :: frames) hfits with ⟨inner, focus, value, hrun, hv, hin, hy⟩
  -- The frame joins those that the operand has left above it.
  refine ⟨inner ++ [frame], focus, value, ?_, hv, ?_, ?_⟩
  · rw [hrun, List.append_assoc]
    rfl
  · intro f hf
    rcases List.mem_append.1 hf with h | h
    · exact Nat.le_trans hcd (hin f h)
    · obtain rfl : f = frame := by simpa using h
      exact hframe
  · rw [plugAll, List.foldl_append]
    change frame.plug (plugAll inner value) = _
    rw [hy]

/-- Whatever is read first is followed by the rest. -/
theorem run_append_cons {state next last : State} {ts us : List Token} {token : Token}
    (hts : run none state ts = .ok next) (hstep : step next token = .ok last) :
    run none state (ts ++ token :: us) = run none last us := by
  rw [run_append, hts]
  change run none next (token :: us) = _
  rw [run_none_cons, hstep]
  rfl

/-- An operand, the sign of an operation that binds as tightly as the operand,
    and an operand that binds more tightly. -/
theorem Reads.binary {c d : Category} {ts us : List Token} {x y : Expr} {op : BinaryOp}
    (hl : Reads c ts x) (hr : Reads d us y) (hop : level op ≤ 2) (hc : level op = c.bound)
    (hd : c.bound < d.bound) (position : Nat) :
    Reads c (ts ++ ⟨.operator op, position⟩ :: us) (.binary op x y) := by
  intro frames hfits
  rcases hl frames hfits with ⟨inner, focus, value, hrun, hv, hin, hx⟩
  -- The sign completes the left operand, and only that.
  have hstep : step ⟨inner ++ frames, focus⟩ ⟨.operator op, position⟩
      = .ok ⟨.binary op x :: frames, .operand⟩ := by
    rw [step_of_value hv _ _ (by simp)]
    have hred : reduce (level op) (inner ++ frames) value = (frames, x) := by
      rw [hc, reduce_append c.bound hin (hfits (by omega)), hx]
    cases op with
    | pow => exact absurd hop (by decide)
    | _ => simp only [afterOperand, operate, hred]
  rw [run_append_cons hrun hstep]
  -- The right operand stands behind a frame of its own level, which it fits.
  refine hr.behind (.binary op x) frames ?_ (Nat.le_of_eq hc.symm) (Nat.le_of_lt hd)
  intro _ frame hframe
  obtain rfl : Frame.binary op x = frame := by simpa using hframe
  change level op < d.bound
  omega

/-- No frame binds as tightly as a primary, so a primary leaves none. -/
theorem eq_nil_of_primary {inner : List Frame}
    (hin : ∀ frame ∈ inner, Category.primary.bound ≤ frame.level) : inner = [] := by
  cases inner with
  | nil => rfl
  | cons frame rest =>
      have hle := hin frame List.mem_cons_self
      have hlevel := level_le frame
      simp only [Category.bound] at hle
      omega

theorem Reads.pow {ts us : List Token} {x y : Expr} (hl : Reads .primary ts x)
    (hr : Reads .unary us y) (position : Nat) :
    Reads .power (ts ++ ⟨.operator .pow, position⟩ :: us) (.binary .pow x y) := by
  intro frames _
  rcases hl frames (by simp [Category.Fits, Category.bound]) with
    ⟨inner, focus, value, hrun, hv, hin, hx⟩
  -- The base is an atom, so the sign finds nothing to complete.
  obtain rfl := eq_nil_of_primary hin
  obtain rfl : value = x := hx
  have hstep : step ⟨[] ++ frames, focus⟩ ⟨.operator .pow, position⟩
      = .ok ⟨.binary .pow value :: frames, .operand⟩ := by
    rw [step_of_value hv _ _ (by simp)]
    rfl
  rw [run_append_cons hrun hstep]
  exact hr.behind (.binary .pow value) frames (by simp [Category.Fits, Category.bound])
    (by simp [Frame.level, level, Category.bound]) (by simp [Category.bound])

theorem Reads.sign {ts : List Token} {x : Expr} (h : Reads .unary ts x) (negative : Bool)
    (position : Nat) :
    Reads .unary (⟨.operator (if negative then .sub else .add), position⟩ :: ts)
      ((Frame.sign negative).plug x) := by
  intro frames _
  have hstep : step ⟨frames, .operand⟩ ⟨.operator (if negative then .sub else .add), position⟩
      = .ok ⟨.sign negative :: frames, .operand⟩ := by
    cases negative <;> rfl
  rw [run_none_cons, hstep]
  exact h.behind (.sign negative) frames (by simp [Category.Fits, Category.bound])
    (by simp [Frame.level, Category.bound]) (Nat.le_refl _)

/-- An operand between the parenthesis that a frame stands for and the one
    that closes it. -/
theorem Reads.enclosed {ts : List Token} {x : Expr} (h : Reads .expression ts x)
    (frame : Frame) (hframe : frame.level = 0) (frames : List Frame) (position : Nat) :
    run none ⟨frame :: frames, .operand⟩ (ts ++ [⟨.rightParen, position⟩])
      = .ok ⟨frames, .complete (frame.plug x)⟩ := by
  -- The frame of the parenthesis stops what closes it from going further.
  have hloose : Loose 1 (frame :: frames) := by
    intro f hf
    obtain rfl : frame = f := by simpa using hf
    omega
  rcases h (frame :: frames) (fun _ => hloose) with ⟨inner, focus, value, hrun, hv, hin, hx⟩
  have hstep : step ⟨inner ++ frame :: frames, focus⟩ ⟨.rightParen, position⟩
      = .ok ⟨frames, .complete (frame.plug x)⟩ := by
    have hred : reduce 1 (inner ++ frame :: frames) value = (frame :: frames, x) := by
      rw [reduce_append 1 hin hloose, hx]
    rw [step_of_value hv _ _ (by simp)]
    simp only [afterOperand, hred]
  rw [run_append_cons hrun hstep, run_nil]

/-- A category that leaves a finished operand and no frame. -/
theorem reads_primary (focus : Focus) {tokens : List Token} {x : Expr}
    (hv : focus.value? = some x)
    (hrun : ∀ frames, run none ⟨frames, .operand⟩ tokens = .ok ⟨frames, focus⟩) :
    Reads .primary tokens x := by
  intro frames _
  exact ⟨[], focus, x, hrun frames, hv, by simp, rfl⟩

/-- Derived lexemes are read. -/
theorem reads_of_derives {c : Category} {ts : List Lexeme} {x : Expr} (h : Derives c ts x) :
    ∀ tokens : List Token, tokens.map Token.lexeme = ts → Reads c tokens x := by
  -- The induction is on the derivation, for any positions of the tokens.
  induction h with
  -- A frame that a sum stands on binds less tightly than any product.
  | ofTerm _ ih =>
      intro tokens htok
      refine (ih tokens htok).weaken (by simp [Category.bound]) (fun frames hf _ => ?_)
      exact fun f hmem => Nat.lt_succ_of_lt (hf (by simp [Category.bound]) f hmem)
  -- From here on a category fits any frames.
  | ofUnary _ ih =>
      intro tokens htok
      exact (ih tokens htok).weaken (by simp [Category.bound])
        (fun _ _ => by simp [Category.Fits, Category.bound])
  | ofPower _ ih =>
      intro tokens htok
      exact (ih tokens htok).weaken (Nat.le_refl _)
        (fun _ _ => by simp [Category.Fits, Category.bound])
  | ofPrimary _ ih =>
      intro tokens htok
      exact (ih tokens htok).weaken (by simp [Category.bound])
        (fun _ _ => by simp [Category.Fits, Category.bound])
  -- The tokens are cut where the lexemes are: operand, sign, operand.
  | sum op hop _ _ ihl ihr =>
      intro tokens htok
      rcases List.map_eq_append_iff.1 htok with ⟨ls, rest, rfl, hls, hrest⟩
      rcases List.map_eq_cons_iff.1 hrest with ⟨⟨_, position⟩, rs, rfl, rfl, hrs⟩
      refine (ihl ls hls).binary (ihr rs hrs) ?_ ?_ (by simp [Category.bound]) position
      all_goals rcases hop with rfl | rfl <;> simp [level, Category.bound]
  | product op hop _ _ ihl ihr =>
      intro tokens htok
      rcases List.map_eq_append_iff.1 htok with ⟨ls, rest, rfl, hls, hrest⟩
      rcases List.map_eq_cons_iff.1 hrest with ⟨⟨_, position⟩, rs, rfl, rfl, hrs⟩
      refine (ihl ls hls).binary (ihr rs hrs) ?_ ?_ (by simp [Category.bound]) position
      all_goals rcases hop with rfl | rfl <;> simp [level, Category.bound]
  | power _ _ ihl ihr =>
      intro tokens htok
      rcases List.map_eq_append_iff.1 htok with ⟨ls, rest, rfl, hls, hrest⟩
      rcases List.map_eq_cons_iff.1 hrest with ⟨⟨_, position⟩, rs, rfl, rfl, hrs⟩
      exact (ihl ls hls).pow (ihr rs hrs) position
  | minus _ ih =>
      intro tokens htok
      rcases List.map_eq_cons_iff.1 htok with ⟨⟨_, position⟩, rs, rfl, rfl, hrs⟩
      exact (ih rs hrs).sign true position
  | plus _ ih =>
      intro tokens htok
      rcases List.map_eq_cons_iff.1 htok with ⟨⟨_, position⟩, rs, rfl, rfl, hrs⟩
      exact (ih rs hrs).sign false position
  -- An atom leaves no frame, whatever it is read on.
  | number n hn =>
      intro tokens htok
      rcases List.map_eq_singleton_iff.1 htok with ⟨⟨_, position⟩, rfl, rfl⟩
      refine reads_primary (.complete (.number n)) rfl (fun frames => ?_)
      have hstep : step ⟨frames, .operand⟩ ⟨.number n, position⟩
          = .ok ⟨frames, .complete (.number n)⟩ := by
        simp only [step, readOperand, if_pos hn]
      exact run_append_cons (run_nil none _) hstep
  | constant name =>
      intro tokens htok
      rcases List.map_eq_singleton_iff.1 htok with ⟨⟨_, position⟩, rfl, rfl⟩
      refine reads_primary (.constant name) rfl (fun frames => ?_)
      have hstep : step ⟨frames, .operand⟩ ⟨.word name.name, position⟩
          = .ok ⟨frames, .constant name⟩ := by
        simp only [step, readOperand, readWord, Constant.ofName?_name]
      exact run_append_cons (run_nil none _) hstep
  -- The parenthesis opens a frame, on which the body is read.
  | @group _ x _ ih =>
      intro tokens htok
      rcases List.map_eq_cons_iff.1 htok with ⟨⟨_, position⟩, rest, rfl, rfl, hrest⟩
      rcases List.map_eq_append_iff.1 hrest with ⟨body, last, rfl, hbody, hlast⟩
      rcases List.map_eq_singleton_iff.1 hlast with ⟨⟨_, position'⟩, rfl, rfl⟩
      refine reads_primary (.complete x) rfl (fun frames => ?_)
      have hstep : step ⟨frames, .operand⟩ ⟨.leftParen, position⟩
          = .ok ⟨.group :: frames, .operand⟩ := rfl
      exact (run_append_cons (run_nil none _) hstep).trans
        ((ih body hbody).enclosed .group rfl frames position')
  | @call _ x f _ ih =>
      intro tokens htok
      rcases List.map_eq_cons_iff.1 htok with ⟨⟨_, position⟩, rest, rfl, rfl, hrest⟩
      rcases List.map_eq_cons_iff.1 hrest with ⟨⟨_, position''⟩, rest', rfl, rfl, hrest'⟩
      rcases List.map_eq_append_iff.1 hrest' with ⟨body, last, rfl, hbody, hlast⟩
      rcases List.map_eq_singleton_iff.1 hlast with ⟨⟨_, position'⟩, rfl, rfl⟩
      refine reads_primary (.complete (f.node x)) rfl (fun frames => ?_)
      -- The word names a callee only, so it waits for its parenthesis.
      have hword : step ⟨frames, .operand⟩ ⟨.word f.name, position⟩ = .ok ⟨frames, .callee f⟩ := by
        simp only [step, readOperand, readWord, Callee.not_constant f, Callee.ofName?_name]
      have hparen : step ⟨frames, .callee f⟩ ⟨.leftParen, position''⟩
          = .ok ⟨.call f :: frames, .operand⟩ := by
        simp only [step, if_true]
      exact (run_append_cons (run_nil none _) hword).trans
        ((run_append_cons (run_nil none _) hparen).trans
          ((ih body hbody).enclosed (.call f) rfl frames position'))

end Grammar

namespace Expr

/-- Derived lexemes form the expression that the derivation names. -/
theorem ofTokens_of_derives {tokens : List Token} {x : Expr}
    (h : Grammar.Derives .expression (tokens.map Token.lexeme) x) :
    ofTokens none tokens = .ok x := by
  have hne : tokens.isEmpty = false := by
    cases tokens with
    | nil => exact absurd rfl h.ne_nil
    | cons token rest => rfl
  rcases Grammar.reads_of_derives h tokens rfl [] (by simp [Grammar.Category.Fits, Reader.Loose])
    with ⟨inner, focus, value, hrun, hv, hin, hx⟩
  -- No frame lies below, so what is left at the end is the whole.
  have hclose : Reader.close (inner ++ []) value = .ok x := by
    have hred : Reader.reduce 1 (inner ++ []) value = ([], x) := by
      rw [Reader.reduce_append 1 hin (by simp [Reader.Loose]), hx]
    simp only [Reader.close, hred]
  simp only [ofTokens, hne, Reader.start, hrun]
  -- A value has been read, so only two states of the focus are possible.
  cases focus with
  | operand => exact absurd hv (by simp [Reader.Focus.value?])
  | callee f => exact absurd hv (by simp [Reader.Focus.value?])
  | constant name =>
      obtain rfl : Expr.constant name = value := by simpa [Reader.Focus.value?] using hv
      exact hclose
  | complete v =>
      obtain rfl : v = value := by simpa [Reader.Focus.value?] using hv
      exact hclose

end Expr

end Calculator
