import Calculator.Proofs.Binary64.Rank
import Calculator.Proofs.Range
import Calculator.Proofs.Session

/-!
# Sums in the memory

A formula has a finite value or none, so the last answer and all values of the
history are finite and can be displayed. The memory is the one number of a
session that is not the value of a formula. Finite numbers are put into it, but
no sum is refused there, and a sum that is too large is an infinity. It stays
one, whatever finite numbers come next, until the memory is cleared, and it
cannot be displayed.

A sum is too large exactly from the point on that lies halfway between the
largest double and the power of two behind it, before anything is rounded. So
the memory is finite as long as no exact sum since it was cleared has reached
that point.

## Main definitions

* `Binary64.overflowPoint`: Where numbers start to be rounded to infinities.
* `Entry.IsFinite`, `Action.EntersFinite`: Only finite numbers are put in.
* `Log.Moment.Overflows`: An exact sum that is too large for the memory.

## Theorems

* `Binary64.isFinite_add_iff`: The finite sums of finite doubles.
* `Log.isFinite_answer`, `Log.isFinite_of_mem_history`: Values of formulas.
* `Log.memory_ne_nan`, `Log.isFinite_memory_iff`: Sums in the memory.
* `Session.finite_until_overflow`: The numbers of a session.
-/

namespace Calculator

/-! ### Sums of finite doubles -/

namespace Binary64

/-- The number of units from which on numbers are rounded to an infinity. It
    lies halfway between the largest double and the power of two behind it. -/
def overflowPoint : Nat := 2 ^ 2098 - 2 ^ 2044

theorem overflowPoint_eq :
    magnitude (finiteCount - 1) + magnitude (finiteCount - 1 + 1) = 2 * overflowPoint := by
  decide +kernel

/-- The rank of the largest double is odd, so the point itself is too large. -/
theorem nearestRank_lt_finiteCount_iff (n : Nat) :
    nearestRank n 1 < finiteCount ↔ n < overflowPoint := by
  have hcount : finiteCount - 1 + 1 = finiteCount := Nat.sub_add_cancel (by decide)
  have hodd : (finiteCount - 1) % 2 = 1 := by decide
  have hcut := nearestRank_le_iff_mul (n := n) one_pos (finiteCount - 1)
  rw [overflowPoint_eq, ← Nat.lt_succ_iff, Nat.succ_eq_add_one, hcount] at hcut
  rw [hcut, Nat.one_mul]
  omega

theorem isFinite_nearest_iff (negative : Bool) (n : Nat) :
    (nearest negative n 1).isFinite = true ↔ n < overflowPoint := by
  rw [← nearestRank_lt_finiteCount_iff, nearest, ofRank]
  split <;> simp_all [isFinite]

theorem nearest_ne_nan (negative : Bool) (n d : Nat) : nearest negative n d ≠ nan := by
  rw [nearest, ofRank]
  split <;> simp

theorem overflowPoint_pos : 0 < overflowPoint := by decide +kernel

/-- The sum of finite doubles is the exact sum, rounded. -/
theorem finite_add_finite (s t : Bool) (r q : Fin finiteCount) :
    finite s r + finite t q =
      if (finite s r).units + (finite t q).units = 0 then zero (s && t)
      else nearest ((finite s r).units + (finite t q).units < 0)
        ((finite s r).units + (finite t q).units).natAbs 1 := rfl

variable {x y : Binary64}

theorem exists_eq_finite (h : x.isFinite = true) : ∃ negative rank, x = finite negative rank := by
  cases x with
  | finite negative rank => exact ⟨negative, rank, rfl⟩
  | infinite negative => cases h
  | nan => cases h

/-- The sum of finite doubles is finite if the exact sum is not too large. -/
theorem isFinite_add_iff (hx : x.isFinite = true) (hy : y.isFinite = true) :
    (x + y).isFinite = true ↔ (x.units + y.units).natAbs < overflowPoint := by
  obtain ⟨s, r, rfl⟩ := exists_eq_finite hx
  obtain ⟨t, q, rfl⟩ := exists_eq_finite hy
  rw [finite_add_finite]
  split
  · rename_i hzero
    exact iff_of_true rfl (by rw [hzero]; exact overflowPoint_pos)
  · exact isFinite_nearest_iff _ _

/-- A number and a finite double have a sum. -/
theorem add_ne_nan (hx : x ≠ nan) (hy : y.isFinite = true) : x + y ≠ nan := by
  obtain ⟨t, q, rfl⟩ := exists_eq_finite hy
  cases x with
  | finite s r =>
    rw [finite_add_finite]
    split
    · exact nofun
    · exact nearest_ne_nan _ _ _
  | infinite negative => exact nofun
  | nan => exact absurd rfl hx

/-- What is not finite does not become finite again. -/
theorem isFinite_of_add (hy : y.isFinite = true) (h : (x + y).isFinite = true) :
    x.isFinite = true := by
  obtain ⟨t, q, rfl⟩ := exists_eq_finite hy
  cases x with
  | finite s r => rfl
  | infinite negative => exact h
  | nan => exact h

end Binary64

/-! ### What goes into the memory -/

/-- An entry that stands for a finite number, if it stands for any. -/
def Entry.IsFinite (entry : Entry) : Prop :=
  ∀ value, entry.toBinary64 = .ok value → value.isFinite = true

/-- An action that puts a finite number into the memory, if it puts one in. -/
def Action.EntersFinite (action : Action) : Prop :=
  ∀ entry, action = .addToMemory entry ∨ action = .subtractFromMemory entry → entry.IsFinite

namespace Log

open Binary64 (overflowPoint)

/-- The number that a summand adds: its value, or the opposite of it. -/
def Summand.amount : Summand → Binary64
  | added value => value
  | subtracted value => -value

theorem Summand.onto_eq (sum : Binary64) (summand : Summand) :
    summand.onto sum = sum + summand.amount := by
  cases summand <;> rfl

/-- A finite sum in the memory to which a number is added at a moment so that
    the exact sum is too large. -/
def Moment.Overflows (backend : Backend) (moment : Moment) : Prop :=
  ∃ summand, moment.summand? backend = some summand ∧
    (memory backend moment.earlier).isFinite = true ∧
    overflowPoint ≤ ((memory backend moment.earlier).units + summand.amount.units).natAbs

variable {backend : Backend} {limit : Nat} {log : Log}

/-- What an action evaluates has a finite value. -/
theorem isFinite_of_evaluationIn {mode : AngleMode} {latest : Binary64} {action : Action}
    {evaluation : List Char × Binary64}
    (h : evaluationIn backend mode latest action = some evaluation) :
    evaluation.2.isFinite = true := by
  obtain ⟨typed, -, hvalue⟩ := Option.bind_eq_some_iff.1 h
  obtain ⟨value, hok, rfl⟩ := Option.map_eq_some_iff.1 hvalue
  exact Backend.isFinite_of_evaluate (ok_of_toOption hok)

/-- The last answer is finite. -/
theorem isFinite_answer (backend : Backend) (log : Log) : (answer backend log).isFinite = true := by
  induction log with
  | nil => rfl
  | cons action earlier ih =>
    rw [answer_cons]
    cases hevaluation : Moment.evaluation? backend ⟨action, earlier⟩ with
    | none => exact ih
    | some evaluation => exact isFinite_of_evaluationIn hevaluation

/-- All values of the history are finite. -/
theorem isFinite_of_mem_history {evaluation : List Char × Binary64}
    (h : evaluation ∈ history backend limit log) : evaluation.2.isFinite = true := by
  obtain ⟨moment, -, hevaluation⟩ := List.mem_filterMap.1 (List.mem_of_mem_take h)
  exact isFinite_of_evaluationIn hevaluation

/-- What an entry stands for is finite: an absent one stands for the last
    answer. -/
theorem isFinite_of_entered? {entry : Entry} (h : entry.IsFinite) {value : Binary64}
    (hvalue : entered? (answer backend log) entry = some value) : value.isFinite = true := by
  cases entry with
  | absent =>
    obtain rfl : answer backend log = value := by simpa [entered?] using hvalue
    exact isFinite_answer backend log
  | _ => exact h value (ok_of_toOption hvalue)

theorem Moment.isFinite_amount {moment : Moment} (h : moment.action.EntersFinite)
    {summand : Summand} (hsummand : moment.summand? backend = some summand) :
    summand.amount.isFinite = true := by
  obtain ⟨action, earlier⟩ := moment
  cases action with
  | addToMemory entry =>
    obtain ⟨value, hvalue, rfl⟩ := Option.map_eq_some_iff.1 hsummand
    exact isFinite_of_entered? (h entry (.inl rfl)) hvalue
  | subtractFromMemory entry =>
    obtain ⟨value, hvalue, rfl⟩ := Option.map_eq_some_iff.1 hsummand
    exact Binary64.isFinite_neg (isFinite_of_entered? (h entry (.inr rfl)) hvalue)
  | _ => cases hsummand

/-- The memory always holds something, if finite numbers are put into it. -/
theorem memory_ne_nan (h : ∀ action ∈ log, action.EntersFinite) : memory backend log ≠ .nan := by
  induction log with
  | nil => simp [memory, since, moments, Binary64.zero]
  | cons action earlier ih =>
    have hearlier := ih fun other hother => h other (List.mem_cons_of_mem _ hother)
    by_cases hclear : action = .clearMemory
    · rw [hclear, memory_clear]
      simp [Binary64.zero]
    · rw [memory_cons action hclear]
      cases hsummand : Moment.summand? backend ⟨action, earlier⟩ with
      | none => exact hearlier
      | some summand =>
        rw [Option.elim_some, Summand.onto_eq]
        exact Binary64.add_ne_nan hearlier
          (Moment.isFinite_amount (h action List.mem_cons_self) hsummand)

/-- One more action keeps the memory finite if it was, and if the sum is not
    too large for it. -/
theorem isFinite_memory_cons {action : Action} (h : action.EntersFinite)
    (hclear : action ≠ .clearMemory) :
    (memory backend (action :: log)).isFinite = true ↔
      (memory backend log).isFinite = true ∧ ¬Moment.Overflows backend ⟨action, log⟩ := by
  rw [memory_cons action hclear]
  cases hsummand : Moment.summand? backend ⟨action, log⟩ with
  | none =>
    have hno : ¬Moment.Overflows backend ⟨action, log⟩ := by
      rintro ⟨summand, hsome, -⟩
      rw [hsummand] at hsome
      cases hsome
    simp [hno]
  | some summand =>
    have hamount := Moment.isFinite_amount h hsummand
    rw [Option.elim_some, Summand.onto_eq]
    constructor
    · intro hsum
      have hmemory := Binary64.isFinite_of_add hamount hsum
      refine ⟨hmemory, ?_⟩
      rintro ⟨other, hother, -, hlarge⟩
      obtain rfl : summand = other := Option.some.inj (hsummand.symm.trans hother)
      exact absurd ((Binary64.isFinite_add_iff hmemory hamount).1 hsum) hlarge.not_gt
    · rintro ⟨hmemory, hno⟩
      refine (Binary64.isFinite_add_iff hmemory hamount).2 (not_le.1 fun hlarge => ?_)
      exact hno ⟨summand, hsummand, hmemory, hlarge⟩

/-- The memory is finite as long as no exact sum since it was cleared has been
    too large. -/
theorem isFinite_memory_iff (h : ∀ action ∈ log, action.EntersFinite) :
    (memory backend log).isFinite = true ↔
      ∀ moment ∈ since .clearMemory log, ¬moment.Overflows backend := by
  induction log with
  | nil => exact iff_of_true rfl (by simp [since, moments])
  | cons action earlier ih =>
    have hearlier := ih fun other hother => h other (List.mem_cons_of_mem _ hother)
    by_cases hclear : action = .clearMemory
    · rw [hclear, memory_clear, since_self]
      exact iff_of_true rfl (by simp)
    · rw [isFinite_memory_cons (h action List.mem_cons_self) hclear, since_cons hclear, hearlier,
        List.forall_mem_cons, and_comm]

end Log

namespace Session

theorem after_eq_session (backend : Backend) (historyLimit : Int) (actions : List Action) :
    (start backend historyLimit).after actions =
      Log.session backend (max 1 historyLimit).toNat actions.reverse := by
  -- The log grows at its head and the run at its end.
  induction actions using List.reverseRecOn with
  | nil => exact start_eq_session backend historyLimit
  | append_singleton actions action ih =>
    rw [after_concat, ih, Log.perform_session, List.reverse_append, List.reverse_singleton,
      List.singleton_append]

theorem exists_displayed_iff {value : Binary64} :
    (∃ text, displayed value = .ok (.text text)) ↔ value.isFinite = true := by
  constructor
  · rintro ⟨text, h⟩
    cases value with
    | finite negative rank => rfl
    | infinite negative => cases h
    | nan => cases h
  · intro h
    obtain ⟨text, htext⟩ := Binary64.exists_display h
    exact ⟨text, by rw [displayed, htext]⟩

theorem displayed_eq_infinite_iff {value : Binary64} (h : value ≠ .nan) :
    displayed value = .error (.display .infinite) ↔ value.isFinite = false := by
  cases value with
  | finite negative rank =>
    have hfinite : (Binary64.finite negative rank).isFinite = true := rfl
    obtain ⟨text, htext⟩ := exists_displayed_iff.2 hfinite
    rw [htext]
    exact iff_of_false (by simp) (by simp [Binary64.isFinite])
  | infinite negative => exact iff_of_true rfl rfl
  | nan => exact absurd rfl h

/-- In every state that is reached by putting finite numbers into the memory,
    the last answer and the values of the history are finite, and the last
    answer can be displayed. The memory is finite, and can be displayed, exactly
    if no exact sum since it was cleared has been too large; otherwise it is an
    infinity, which cannot. -/
theorem finite_until_overflow (backend : Backend) (historyLimit : Int) {actions : List Action}
    (h : ∀ action ∈ actions, action.EntersFinite) {s : Session}
    (hs : (start backend historyLimit).after actions = s) :
    s.lastAnswer.isFinite = true ∧
      (∀ evaluation ∈ s.history, evaluation.2.isFinite = true) ∧
      (∃ text, (s.perform .displayAnswer).1 = .ok (.text text)) ∧
      (s.memory.isFinite = true ↔
        ∀ moment ∈ Log.since .clearMemory actions.reverse, ¬moment.Overflows backend) ∧
      (s.memory.isFinite = true ↔ ∃ text, (s.perform .displayMemory).1 = .ok (.text text)) ∧
      (s.memory.isFinite = false ↔ (s.perform .displayMemory).1 = .error (.display .infinite)) := by
  rw [after_eq_session] at hs
  subst hs
  have hlog : ∀ action ∈ actions.reverse, action.EntersFinite := fun action haction =>
    h action (List.mem_reverse.1 haction)
  have hanswer := Log.isFinite_answer backend actions.reverse
  refine ⟨hanswer, fun evaluation => Log.isFinite_of_mem_history, exists_displayed_iff.2 hanswer,
    Log.isFinite_memory_iff hlog, exists_displayed_iff.symm, ?_⟩
  exact (displayed_eq_infinite_iff (Log.memory_ne_nan hlog)).symm

/-- The largest double, added to the memory twice. -/
def largestTwice : List Action :=
  [.addToMemory (.number (Binary64.largest false)), .addToMemory (.number (Binary64.largest false))]

theorem entersFinite_of_mem_largestTwice : ∀ action ∈ largestTwice, action.EntersFinite := by
  have hnumber : Entry.IsFinite (.number (Binary64.largest false)) := by
    intro value hvalue
    obtain rfl : Binary64.largest false = value := by simpa [Entry.toBinary64] using hvalue
    rfl
  intro action haction entry hentry
  obtain rfl : action = .addToMemory (.number (Binary64.largest false)) := by
    simpa [largestTwice] using haction
  rcases hentry with hentry | hentry
  · obtain rfl : Entry.number (Binary64.largest false) = entry := by simpa using hentry
    exact hnumber
  · cases hentry

theorem memory_largestTwice :
    ((start .double 10).after largestTwice).memory = .infinite false := by
  decide +kernel

/-- Its exact sum with itself is too large for the memory; the last answer is
    not concerned. -/
theorem finite_until_overflow_largestTwice :
    (∀ action ∈ largestTwice, action.EntersFinite) ∧
      ((start .double 10).after largestTwice).lastAnswer.isFinite = true ∧
      ∃ moment ∈ Log.since .clearMemory largestTwice.reverse, moment.Overflows .double := by
  obtain ⟨hanswer, -, -, hmemory, -, -⟩ :=
    finite_until_overflow .double 10 entersFinite_of_mem_largestTwice rfl
  refine ⟨entersFinite_of_mem_largestTwice, hanswer, ?_⟩
  by_contra hno
  -- Without such a sum the memory would be finite.
  have hfinite := hmemory.2 fun moment hmoment hover => hno ⟨moment, hmoment, hover⟩
  rw [memory_largestTwice] at hfinite
  cases hfinite

/-- Finite numbers put into the memory do not keep it finite, and then it
    cannot be displayed. -/
theorem memory_overflows :
    (∀ action ∈ largestTwice, action.EntersFinite) ∧
      ((start .double 10).after largestTwice).memory.isFinite = false ∧
      (((start .double 10).after largestTwice).perform .displayMemory).1 =
        .error (.display .infinite) := by
  refine ⟨entersFinite_of_mem_largestTwice, by rw [memory_largestTwice]; rfl, ?_⟩
  rw [perform, memory_largestTwice]
  rfl

end Session

end Calculator
