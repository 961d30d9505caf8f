import Calculator.Proofs.Evaluation

/-!
# What a limit of nesting can do

A limit can do one thing to a computation: cut it short, which is then reported
as such. It cannot change a result or a failure that is found in spite of it,
and neither can a larger limit. Three stages work under a limit, each in its own
way. Root signs are measured before they are expanded, the reader looks at its
stack after every token, and evaluation has one level less for the operands. All
three are put together from a few pieces, and each piece has the property: what
does not look at the limit, a check of a depth, one level further down, and one
computation after another.

The measure of root signs stands for a recursion. Expanding them level by level,
with a limit that shrinks on the way down, fails at exactly the texts whose
measure is beyond the limit.

## Main definitions

* `NestingLimit.AtMost`: A limit is at least as large as another one.
* `Bounded`: A computation that a limit can only cut short.
* `Shorthand.expandRootsWithin`: Root signs, expanded level by level.

## Theorems

* `Bounded.bind`, `Bounded.inner`, `Bounded.admitted`: The pieces.
* `Shorthand.expandRootsWithin_eq`: The measure stands for the recursion.
* `Expr.bounded_ofTokens`, `Expr.bounded_eval`: Reading and evaluation.
* `Backend.bounded_evaluateWithin`: The value of what was typed.
* `Backend.cut_only_by_nesting`: What becomes of it under every limit.
-/

namespace Calculator

namespace NestingLimit

/-- Every depth that is admitted by one limit is admitted by another one. -/
def AtMost (limit larger : NestingLimit) : Prop :=
  ∀ depth, limit.admits depth = true → larger.admits depth = true

variable {limit larger : NestingLimit}

theorem atMost_none (limit : NestingLimit) : limit.AtMost none :=
  fun _ _ => rfl

theorem atMost_some {levels more : Nat} (h : levels ≤ more) : AtMost (some levels) (some more) := by
  intro depth hdepth
  rw [admits_some] at hdepth ⊢
  exact Nat.le_trans hdepth h

/-- What is left of two limits further down compares like the limits. -/
theorem AtMost.inner (h : limit.AtMost larger) {below : NestingLimit}
    (hbelow : limit.inner = some below) :
    ∃ under, larger.inner = some under ∧ below.AtMost under := by
  cases larger with
  | none => exact ⟨none, rfl, atMost_none below⟩
  | some more =>
    match limit, hbelow with
    | some (levels + 1), hbelow =>
      obtain rfl : some levels = below := Option.some.inj hbelow
      have hle : levels + 1 ≤ more := by simpa using h (levels + 1) (by simp)
      obtain ⟨rest, rfl⟩ := Nat.exists_eq_add_of_le' (Nat.zero_lt_of_lt hle)
      exact ⟨some rest, rfl, atMost_some (Nat.le_of_succ_le_succ hle)⟩
    | none, hbelow =>
      -- No number of levels admits every depth.
      exact absurd (h (more + 1) rfl) (by simp)

theorem admits_of_le {depth deeper : Nat} (hle : depth ≤ deeper)
    (h : limit.admits deeper = true) : limit.admits depth = true := by
  cases limit with
  | none => rfl
  | some levels =>
    rw [admits_some] at h ⊢
    exact Nat.le_trans hle h

@[simp] theorem inner_none : inner none = some none := rfl

@[simp] theorem admits_zero (limit : NestingLimit) : limit.admits 0 = true := by
  cases limit <;> simp

theorem admits_max (limit : NestingLimit) (depth other : Nat) :
    limit.admits (max depth other) = (limit.admits depth && limit.admits other) := by
  cases limit with
  | none => rfl
  | some levels =>
    rw [Bool.eq_iff_iff, Bool.and_eq_true, admits_some, admits_some, admits_some]
    exact Nat.max_le

/-- Another level is admitted if what is left of the limit admits the rest. -/
theorem admits_succ (limit : NestingLimit) (depth : Nat) :
    limit.admits (depth + 1) = limit.inner.any (·.admits depth) := by
  match limit with
  | none => rfl
  | some 0 => simp [admits, inner]
  | some (levels + 1) => simp [admits, inner]

end NestingLimit

/-- What is done after another computation can be cut short, or that one. -/
theorem bind_ne_tooDeep {α β : Type} {x : Except Failure α} {f : α → Except Failure β}
    (hx : x ≠ .error .tooDeep) (hf : ∀ value, f value ≠ .error .tooDeep) :
    x >>= f ≠ .error .tooDeep := by
  cases x with
  | error failure =>
    intro h
    have hfailure : Except.error failure = (.error .tooDeep : Except Failure β) := h
    exact hx (by rw [Except.error.inj hfailure])
  | ok value => exact hf value

/-- A computation that a limit of nesting can only cut short. -/
structure Bounded {α : Type} (f : NestingLimit → Except Failure α) : Prop where
  /-- What is not cut short under a limit is the same under every larger one. -/
  cut : ∀ {limit larger : NestingLimit}, limit.AtMost larger →
    f limit = .error .tooDeep ∨ f larger = f limit
  /-- Some depth is all that is needed. -/
  enough : ∃ depth, ∀ limit : NestingLimit, limit.admits depth = true → f limit = f none
  /-- Without a limit nothing is cut short. -/
  free : f none ≠ .error .tooDeep

namespace Bounded

variable {α β : Type}

/-- What does not look at the limit. -/
theorem const {x : Except Failure α} (h : x ≠ .error .tooDeep) : Bounded fun _ => x :=
  ⟨fun _ => .inr rfl, ⟨0, fun _ _ => rfl⟩, h⟩

/-- One computation after another. -/
theorem bind {f : NestingLimit → Except Failure α} {g : α → NestingLimit → Except Failure β}
    (hf : Bounded f) (hg : ∀ value, Bounded (g value)) :
    Bounded fun limit => f limit >>= fun value => g value limit where
  cut {limit larger} h := by
    rcases hf.cut h with hcut | hsame
    · exact .inl (by rw [hcut]; rfl)
    · rw [hsame]
      cases f limit with
      | error failure => exact .inr rfl
      | ok value => exact (hg value).cut h
  enough := by
    obtain ⟨depth, hdepth⟩ := hf.enough
    cases hvalue : f none with
    | error failure =>
      refine ⟨depth, fun limit h => ?_⟩
      rw [hdepth limit h, hvalue]
      rfl
    | ok value =>
      obtain ⟨below, hbelow⟩ := (hg value).enough
      refine ⟨max depth below, fun limit h => ?_⟩
      have hleft := hdepth limit (NestingLimit.admits_of_le (Nat.le_max_left _ _) h)
      have hright := hbelow limit (NestingLimit.admits_of_le (Nat.le_max_right _ _) h)
      rw [hleft, hvalue]
      exact hright
  free := bind_ne_tooDeep hf.free fun value => (hg value).free

/-- A computation and what is made of its result without further failures. -/
theorem map {f : NestingLimit → Except Failure α} (hf : Bounded f) (g : α → β) :
    Bounded fun limit => (f limit).map g := by
  have hmap : (fun limit => (f limit).map g) =
      fun limit => f limit >>= fun value => .ok (g value) := by
    funext limit
    cases f limit <;> rfl
  rw [hmap]
  exact hf.bind fun value => const (by simp)

/-- A computation that is done one level further down. -/
theorem inner {f g : NestingLimit → Except Failure α} (hf : Bounded f)
    (hbottom : ∀ {limit : NestingLimit}, limit.inner = none → g limit = .error .tooDeep)
    (hbelow : ∀ {limit below : NestingLimit}, limit.inner = some below → g limit = f below) :
    Bounded g where
  cut {limit larger} h := by
    cases hinner : limit.inner with
    | none => exact .inl (hbottom hinner)
    | some below =>
      obtain ⟨under, hunder, hle⟩ := h.inner hinner
      rw [hbelow hinner, hbelow hunder]
      exact hf.cut hle
  enough := by
    obtain ⟨depth, hdepth⟩ := hf.enough
    refine ⟨depth + 1, fun limit h => ?_⟩
    rw [NestingLimit.admits_succ] at h
    obtain ⟨below, hinner, hadmits⟩ := (Option.any_eq_true _ _).1 h
    rw [hbelow hinner, hbelow NestingLimit.inner_none]
    exact hdepth below hadmits
  free := by
    rw [hbelow NestingLimit.inner_none]
    exact hf.free

/-- A computation that needs a depth to be admitted. -/
theorem admitted {x : Except Failure α} (hx : x ≠ .error .tooDeep) (depth : Nat) :
    Bounded fun limit : NestingLimit => if limit.admits depth then x else .error .tooDeep where
  cut {limit larger} h := by
    cases hadmits : limit.admits depth with
    | false => exact .inl rfl
    | true => exact .inr (by rw [h depth hadmits])
  enough := ⟨depth, fun limit h => by rw [h]; rfl⟩
  free := hx

end Bounded

/-! ### Shorthand -/

namespace Shorthand

/-- The operand of a root sign, found level by level: every further root sign
    in front of it is one level down. -/
def rootOperandWithin (limit : NestingLimit) :
    List Char → Except Failure (Option (List Char × List Char))
  | [] => .ok none
  | c :: rest =>
    if c = '√' then
      match limit.inner with
      | none => .error .tooDeep
      | some below =>
        (rootOperandWithin below rest).map (Option.map fun split => (c :: split.1, split.2))
    else .ok (rootOperand? (c :: rest))

theorem rootRun_cons (c : Char) (rest : List Char) :
    rootRun (c :: rest) = if c = '√' then rootRun rest + 1 else 0 := by
  by_cases hc : c = '√' <;> simp [rootRun, hc]

theorem rootOperandWithin_eq (limit : NestingLimit) (text : List Char) :
    rootOperandWithin limit text =
      if limit.admits (rootRun text) then .ok (rootOperand? text) else .error .tooDeep := by
  induction text generalizing limit with
  | nil => simp [rootOperandWithin, rootRun, rootOperand?]
  | cons c rest ih =>
    rw [rootOperandWithin, rootRun_cons]
    split
    · rename_i hc
      rw [NestingLimit.admits_succ, rootOperand?, if_pos hc]
      cases limit.inner with
      | none => rfl
      | some below =>
        dsimp only
        rw [ih below, Option.any_some]
        cases below.admits (rootRun rest) <;> rfl
    · rw [NestingLimit.admits_zero]
      rfl

/-- What is found level by level is the operand. -/
theorem rootOperand?_of_within {limit : NestingLimit} {text : List Char}
    {found : Option (List Char × List Char)} (h : rootOperandWithin limit text = .ok found) :
    rootOperand? text = found := by
  rw [rootOperandWithin_eq] at h
  split at h
  · exact Except.ok.inj h
  · exact absurd h (by simp)

/-- A text with its root signs expanded level by level: every root sign and
    the operand behind it are one level down from where the sign stands. -/
def expandRootsWithin (limit : NestingLimit) (text : List Char) : Except Failure (List Char) :=
  match text with
  | [] => .ok []
  | c :: rest =>
    if c = '√' then
      match limit.inner with
      | none => .error .tooDeep
      | some below =>
        match _h : rootOperandWithin below rest with
        | .error failure => .error failure
        | .ok none => (expandRootsWithin limit rest).map (rootWord ++ ·)
        | .ok (some (operand, tail)) => do
          let argument ← expandRootsWithin below operand
          let behind ← expandRootsWithin limit tail
          return call rootWord argument ++ behind
    else (expandRootsWithin limit rest).map (c :: ·)
termination_by text.length
decreasing_by
  · simp
  · have := length_operand_le_of_rootOperand? (rootOperand?_of_within _h)
    simp only [List.length_cons]
    omega
  · have := length_lt_of_rootOperand? (rootOperand?_of_within _h)
    simp only [List.length_cons]
    omega
  · simp

theorem rootDepth_operand {rest operand tail : List Char}
    (h : rootOperand? rest = some (operand, tail)) :
    rootDepth ('√' :: rest) =
      max (rootRun rest + 1) (max (rootDepth operand + 1) (rootDepth tail)) := by
  rw [rootDepth, if_pos rfl, rootRun_cons, if_pos rfl]
  split
  · rename_i found after hsplit
    obtain ⟨rfl, rfl⟩ : found = operand ∧ after = tail := by simpa [hsplit] using h
    rfl
  · rename_i hnone
    exact absurd (hnone.symm.trans h) (by simp)

theorem rootDepth_bare {rest : List Char} (h : rootOperand? rest = none) :
    rootDepth ('√' :: rest) = max (rootRun rest + 1) (rootDepth rest) := by
  rw [rootDepth, if_pos rfl, rootRun_cons, if_pos rfl]
  split
  · rename_i hsplit
    exact absurd (hsplit.symm.trans h) (by simp)
  · rfl

/-- A root sign needs the run of signs behind it to be within what is left of
    the limit. -/
theorem expandRootsWithin_root (limit : NestingLimit) (rest : List Char) :
    expandRootsWithin limit ('√' :: rest) =
      match limit.inner with
      | none => .error .tooDeep
      | some below =>
        if below.admits (rootRun rest) then
          match rootOperand? rest with
          | none => (expandRootsWithin limit rest).map (rootWord ++ ·)
          | some (operand, tail) => do
            let argument ← expandRootsWithin below operand
            let behind ← expandRootsWithin limit tail
            return call rootWord argument ++ behind
        else .error .tooDeep := by
  rw [expandRootsWithin, if_pos rfl]
  cases limit.inner with
  | none => rfl
  | some below =>
    have hwithin := rootOperandWithin_eq below rest
    dsimp only
    split
    · rename_i hfound
      rw [hfound] at hwithin
      split at hwithin
      · exact absurd hwithin (by simp)
      · rename_i hcut
        rw [if_neg hcut, Except.error.inj hwithin]
    all_goals
      rename_i hfound
      rw [hfound] at hwithin
      split at hwithin
      · rename_i hrun
        rw [if_pos hrun, ← Except.ok.inj hwithin]
      · exact absurd hwithin (by simp)

/-- The measure of root signs stands for a recursion: what it is within, the
    recursion stays within, and then the results agree. -/
theorem expandRootsWithin_eq (limit : NestingLimit) (text : List Char) :
    expandRootsWithin limit text =
      if limit.admits (rootDepth text) then .ok (expandRoots text) else .error .tooDeep := by
  fun_induction expandRoots text generalizing limit with
  | case1 => simp [expandRootsWithin, rootDepth]
  | case2 rest operand tail hsplit iho iht =>
    -- The run of signs is walked first, then its operand, then what follows.
    rw [expandRootsWithin_root, hsplit, rootDepth_operand hsplit, NestingLimit.admits_max,
      NestingLimit.admits_max, NestingLimit.admits_succ, NestingLimit.admits_succ]
    cases limit.inner with
    | none => rfl
    | some below =>
      dsimp only
      rw [iho below, iht limit, Option.any_some, Option.any_some]
      cases below.admits (rootRun rest) <;> cases below.admits (rootDepth operand) <;>
        cases limit.admits (rootDepth tail) <;> rfl
  | case3 rest hnone ih =>
    rw [expandRootsWithin_root, hnone, rootDepth_bare hnone, NestingLimit.admits_max,
      NestingLimit.admits_succ]
    cases limit.inner with
    | none => rfl
    | some below =>
      dsimp only
      rw [ih limit, Option.any_some]
      cases below.admits (rootRun rest) <;> cases limit.admits (rootDepth rest) <;> rfl
  | case4 c rest hc ih =>
    rw [expandRootsWithin, if_neg hc, ih limit, rootDepth, if_neg hc]
    cases limit.admits (rootDepth rest) <;> rfl

end Shorthand

/-! ### Reading -/

namespace Token

theorem scanFrom_ne_tooDeep (position : Nat) (text : List Char) :
    scanFrom position text ≠ .error .tooDeep := by
  fun_induction scanFrom position text with
  | case1 => simp
  | case2 position c rest _ ih => exact ih
  | case3 => simp
  | case4 position c rest _ lexeme tail _ ih =>
    cases hrest : scanFrom (position + lexeme.text.length) tail with
    | error failure =>
      intro h
      rw [hrest] at ih
      exact ih h
    | ok tokens => simp [Except.map]

end Token

namespace Reader

theorem afterOperand_ne_tooDeep (frames : List Frame) (value : Expr) (token : Token) :
    afterOperand frames value token ≠ .error .tooDeep := by
  unfold afterOperand
  split
  · simp
  · split <;> simp

/-- Reading a token does not look at the limit. -/
theorem step_ne_tooDeep (state : State) (token : Token) : step state token ≠ .error .tooDeep := by
  unfold step
  split
  · unfold readOperand
    split
    case h_3 => split <;> simp
    case h_5 =>
      unfold readWord
      split
      · simp
      · split <;> simp
    all_goals simp
  · split <;> simp
  · split
    · simp
    · exact afterOperand_ne_tooDeep _ _ _
  · exact afterOperand_ne_tooDeep _ _ _

theorem finish_ne_tooDeep (state : State) : finish state ≠ .error .tooDeep := by
  have hclose : ∀ frames value, close frames value ≠ .error .tooDeep := by
    intro frames value
    unfold close
    split <;> simp
  unfold finish
  split
  · simp
  · simp
  · exact hclose _ _
  · exact hclose _ _

theorem bounded_stepWithin (state : State) (token : Token) :
    Bounded fun limit => stepWithin limit state token := by
  have hstep := step_ne_tooDeep state token
  unfold stepWithin
  cases hnext : step state token with
  | error failure =>
    rw [hnext] at hstep
    exact .const fun h => hstep (by rw [Except.error.inj h])
  | ok next => exact .admitted (by simp) next.depth

/-- A run of steps: each one looks at the limit again. -/
theorem bounded_run (state : State) (tokens : List Token) :
    Bounded fun limit => run limit state tokens := by
  induction tokens generalizing state with
  | nil => exact .const (x := .ok state) (by simp)
  | cons token tokens ih =>
    simp only [run, List.foldlM_cons]
    exact (bounded_stepWithin state token).bind fun next => ih next

end Reader

theorem Expr.bounded_ofTokens (tokens : List Token) :
    Bounded fun limit => Expr.ofTokens limit tokens := by
  unfold Expr.ofTokens
  split
  · exact .const (by simp)
  · exact (Reader.bounded_run Reader.start tokens).bind fun state =>
      .const (Reader.finish_ne_tooDeep state)

theorem Formula.bounded_expandWithin (text : List Char) :
    Bounded fun limit => Formula.expandWithin limit text :=
  .admitted (by simp) (Shorthand.nesting text)

theorem Formula.bounded_read (typed : List Char) : Bounded fun limit => Formula.read limit typed :=
  (bounded_expandWithin (Keypad.clean typed)).bind fun canonical =>
    (Bounded.const (Token.scanFrom_ne_tooDeep 0 canonical)).bind Expr.bounded_ofTokens

/-! ### Evaluation -/

section

variable {α : Type} {a : Arithmetic α} {mode : AngleMode}

namespace Arithmetic

theorem checked_ne_tooDeep (value : Option α) : a.checked value ≠ .error .tooDeep := by
  unfold checked
  split
  · split <;> simp
  · simp

theorem literal_ne_tooDeep (numeral : Numeral) : a.literal numeral ≠ .error .tooDeep := by
  unfold literal
  split
  · exact checked_ne_tooDeep _
  · simp

theorem factorialOf_ne_tooDeep (value : α) : a.factorialOf value ≠ .error .tooDeep := by
  unfold factorialOf
  split
  · split <;> simp
  · simp

theorem applyIn_ne_tooDeep (function : Elementary) (value : α) :
    a.applyIn mode function value ≠ .error .tooDeep := by
  unfold applyIn
  split
  · exact checked_ne_tooDeep _
  · split
    · exact checked_ne_tooDeep _
    · split
      · exact bind_ne_tooDeep (checked_ne_tooDeep _) fun angle => checked_ne_tooDeep _
      · exact checked_ne_tooDeep _

theorem result_ne_tooDeep (value : α) : a.result value ≠ .error .tooDeep := by
  unfold result
  split <;> simp

end Arithmetic

namespace Expr

theorem eval_of_bottom {limit : NestingLimit} (h : limit.inner = none) (e : Expr) :
    e.eval a mode limit = .error .tooDeep := by
  cases e <;> rw [eval, h]

/-- The operands of a node are one level further down, and the operation
    itself does not look at the limit. -/
theorem bounded_eval (e : Expr) : Bounded fun limit => e.eval a mode limit := by
  induction e with
  | number numeral =>
    exact (Bounded.const (Arithmetic.literal_ne_tooDeep numeral)).inner
      (eval_of_bottom · _) (eval_number · numeral)
  | constant name =>
    exact (Bounded.const (x := .ok (a.constant name)) (by simp)).inner
      (eval_of_bottom · _) (eval_constant · name)
  | negate operand ih =>
    exact (ih.map a.negate).inner (eval_of_bottom · _) (eval_negate · operand)
  | percent operand ih =>
    exact (ih.map a.percent).inner (eval_of_bottom · _) (eval_percent · operand)
  | factorial operand ih =>
    exact (ih.bind fun value => .const (Arithmetic.factorialOf_ne_tooDeep value)).inner
      (eval_of_bottom · _) (eval_factorial · operand)
  | apply function operand ih =>
    exact (ih.bind fun value => .const (Arithmetic.applyIn_ne_tooDeep function value)).inner
      (eval_of_bottom · _) (eval_apply · function operand)
  | binary op left right ihl ihr =>
    exact (ihl.bind fun x => ihr.bind fun y => .const (Arithmetic.checked_ne_tooDeep _)).inner
      (eval_of_bottom · _) (eval_binary · op left right)

end Expr

theorem Formula.bounded_evaluateOver (typed : List Char) :
    Bounded fun limit => Formula.evaluateOver a limit mode typed :=
  (bounded_read typed).bind fun tree =>
    (Expr.bounded_eval tree).bind fun value => .const (Arithmetic.result_ne_tooDeep value)

end

theorem Backend.bounded_evaluateWithin (backend : Backend) (mode : AngleMode)
    (typed : List Char) : Bounded fun limit => backend.evaluateWithin limit mode typed := by
  cases backend with
  | double => exact Formula.bounded_evaluateOver typed
  | extended digits => exact Formula.bounded_evaluateOver typed

/-- The limit of nesting is the only way in which a computation is cut short,
    and that is reported as such. Under every limit the outcome is that failure
    or else the value or the failure that there is without a limit, and then it
    is the same under every larger limit. Without a limit nothing is cut short,
    nor is it under a limit that is large enough. -/
theorem Backend.cut_only_by_nesting (backend : Backend) (mode : AngleMode) (typed : List Char) :
    (∀ levels more : Nat,
      backend.evaluateWithin (some levels) mode typed = .error .tooDeep ∨
        backend.evaluateWithin (some levels) mode typed = backend.evaluateWithin none mode typed ∧
        backend.evaluateWithin (some (levels + more)) mode typed =
          backend.evaluateWithin (some levels) mode typed) ∧
    (∃ enough : Nat, ∀ more : Nat,
      backend.evaluateWithin (some (enough + more)) mode typed =
        backend.evaluateWithin none mode typed) ∧
    backend.evaluateWithin none mode typed ≠ .error .tooDeep ∧
    Failure.tooDeep.kind = .domain ∧
    Failure.tooDeep.message = "Expresión demasiado anidada para evaluarse" ∧
    Failure.tooDeep.position? = none := by
  obtain ⟨cut, ⟨depth, enough⟩, free⟩ := backend.bounded_evaluateWithin mode typed
  refine ⟨fun levels more => ?_, ⟨depth, fun more => ?_⟩, free, rfl, rfl, rfl⟩
  · rcases cut (NestingLimit.atMost_none (some levels)) with hcut | hfree
    · exact .inl hcut
    · rcases cut (NestingLimit.atMost_some (Nat.le_add_right levels more)) with hcut | hlarger
      · exact .inl hcut
      · exact .inr ⟨hfree.symm, hlarger⟩
  · exact enough _ (by simp)

end Calculator
