import Calculator.Proofs.Evaluation
import Calculator.Session
import Mathlib.Data.List.Induction

/-!
# Sessions and their logs

What a session holds is a function of what has been done in it. A log lists
the actions, the latest one first, and each part of the state is read off the
log on its own: the mode from the latest choice or switch, the last answer
from the latest evaluation that succeeded, the history from the evaluations
since it was last cleared, and the memory from the entries since it was last
cleared.

An action is read together with those before it, since the mode, and the
answer that stands for an absent entry, are those of its moment. Actions that
fail leave no trace.

## Main definitions

* `Log`: The actions of a session.
* `Log.Moment`: An action with those before it.
* `Log.since`: The moments since an action was last done.
* `Log.mode`, `Log.answer`, `Log.history`, `Log.memory`: What a log says.
* `Log.session`: The session that a log describes.
* `Session.after`: The session after some actions.

## Theorems

* `Session.perform_error`: An action that fails changes nothing.
* `Log.perform_session`: One more action, in the session and in the log.
* `Session.after_start`: A session is described by its log.
-/

namespace Calculator

/-- The actions of a session so far, the latest one first. -/
abbrev Log := List Action

/-- The text that an action evaluates, if it evaluates any, when the last
    answer is the one given. -/
def Action.evaluated? (answer : Binary64) : Action → Option (List Char)
  | .evaluate typed | .evaluateValue typed => some typed
  | .evaluateAround before after =>
    (Formula.literal answer).toOption.map fun text => before ++ text ++ after
  | _ => none

namespace Log

/-- The mode that was chosen or switched to last. -/
def mode : Log → AngleMode
  | [] => .radians
  | .setMode name? :: earlier => (name?.bind AngleMode.ofName?).getD (mode earlier)
  | .toggleMode :: earlier => (mode earlier).other
  | _ :: earlier => mode earlier

/-- What an action evaluates and the value of that, if it has one, in the mode
    and behind the answer of its moment. -/
def evaluationIn (backend : Backend) (mode : AngleMode) (answer : Binary64) (action : Action) :
    Option (List Char × Binary64) :=
  (action.evaluated? answer).bind fun typed =>
    (backend.evaluate mode typed).toOption.map fun value => (typed, value)

/-- The value of the latest evaluation that succeeded. -/
def answer (backend : Backend) : Log → Binary64
  | [] => Binary64.zero false
  | action :: earlier =>
    match evaluationIn backend (mode earlier) (answer backend earlier) action with
    | some (_, value) => value
    | none => answer backend earlier

/-- An action with those before it. -/
structure Moment where
  /-- What is done. -/
  action : Action
  /-- What has been done before, the latest one first. -/
  earlier : Log

/-- The actions of a log, each with those before it. -/
def moments : Log → List Moment
  | [] => []
  | action :: earlier => ⟨action, earlier⟩ :: moments earlier

/-- What has been done since an action was last done. -/
def since (action : Action) (log : Log) : List Moment :=
  (moments log).takeWhile fun moment => moment.action ≠ action

/-- What is evaluated at a moment and the value of that, if it has one. -/
def Moment.evaluation? (backend : Backend) (moment : Moment) : Option (List Char × Binary64) :=
  evaluationIn backend (mode moment.earlier) (answer backend moment.earlier) moment.action

/-- The latest successful evaluations since the history was cleared, as many as
    a limit admits. -/
def history (backend : Backend) (limit : Nat) (log : Log) : List (List Char × Binary64) :=
  ((since .clearHistory log).filterMap (Moment.evaluation? backend)).take limit

/-- The number that an entry stands for behind an answer, if it stands for
    one. -/
def entered? (answer : Binary64) : Entry → Option Binary64
  | .absent => some answer
  | entry => entry.toBinary64.toOption

/-- A number on its way into the memory. -/
inductive Summand
  /-- It is added. -/
  | added (value : Binary64)
  /-- It is subtracted. -/
  | subtracted (value : Binary64)

/-- A sum with one more number. -/
def Summand.onto (sum : Binary64) : Summand → Binary64
  | added value => sum + value
  | subtracted value => sum - value

/-- What goes into the memory at a moment, if anything does. -/
def Moment.summand? (backend : Backend) (moment : Moment) : Option Summand :=
  match moment.action with
  | .addToMemory entry => (entered? (answer backend moment.earlier) entry).map .added
  | .subtractFromMemory entry => (entered? (answer backend moment.earlier) entry).map .subtracted
  | _ => none

/-- The sum, from the first to the last, of what has gone into the memory since
    it was cleared. -/
def memory (backend : Backend) (log : Log) : Binary64 :=
  ((since .clearMemory log).filterMap (Moment.summand? backend)).reverse.foldl Summand.onto
    (Binary64.zero false)

/-- The session that a log describes. -/
def session (backend : Backend) (limit : Nat) (log : Log) : Session where
  backend := backend
  historyLimit := limit
  mode := mode log
  lastAnswer := answer backend log
  memory := memory backend log
  history := history backend limit log

section

variable {backend : Backend} {limit : Nat} {action : Action} {earlier : Log}

theorem since_self : since action (action :: earlier) = [] := by
  simp [since, moments]

theorem since_cons {latest : Action} (h : latest ≠ action) :
    since action (latest :: earlier) = ⟨latest, earlier⟩ :: since action earlier := by
  simp [since, moments, h]

theorem answer_cons :
    answer backend (action :: earlier) =
      ((Moment.evaluation? backend ⟨action, earlier⟩).map Prod.snd).getD
        (answer backend earlier) := by
  rw [answer, Moment.evaluation?]
  cases evaluationIn backend (mode earlier) (answer backend earlier) action <;> rfl

theorem history_cons (action : Action) (h : action ≠ .clearHistory) :
    history backend limit (action :: earlier) =
      ((Moment.evaluation? backend ⟨action, earlier⟩).toList ++
        history backend limit earlier).take limit := by
  rw [history, since_cons h, List.filterMap_cons]
  cases Moment.evaluation? backend ⟨action, earlier⟩ with
  | none => simp [history, List.take_take]
  | some evaluation =>
    cases limit with
    | zero => rfl
    | succ n => simp [history, List.take_take]

theorem history_clear : history backend limit (.clearHistory :: earlier) = [] := by
  rw [history, since_self, List.filterMap_nil, List.take_nil]

theorem memory_cons (action : Action) (h : action ≠ .clearMemory) :
    memory backend (action :: earlier) =
      (Moment.summand? backend ⟨action, earlier⟩).elim (memory backend earlier)
        (Summand.onto (memory backend earlier)) := by
  rw [memory, since_cons h, List.filterMap_cons]
  cases Moment.summand? backend ⟨action, earlier⟩ with
  | none => rfl
  | some summand => simp [memory]

theorem memory_clear : memory backend (.clearMemory :: earlier) = Binary64.zero false := by
  rw [memory, since_self, List.filterMap_nil, List.reverse_nil, List.foldl_nil]

theorem take_history :
    (history backend limit earlier).take limit = history backend limit earlier := by
  rw [history, List.take_take, Nat.min_self]

end

end Log

/-! ### One action -/

theorem Binary64.exists_display {x : Binary64} (h : x.isFinite = true) :
    ∃ text, x.display = .ok text := by
  cases x with
  | finite negative rank =>
    simp only [display]
    cases (finite negative rank).integer? with
    | some n => exact ⟨_, rfl⟩
    | none => exact ⟨_, rfl⟩
  | infinite negative => cases h
  | nan => cases h

namespace Session

variable {s : Session}

theorem snd_evaluateForDisplay (typed : List Char) :
    (s.evaluateForDisplay typed).2 = (s.evaluate typed).2 := by
  unfold evaluateForDisplay
  split <;> simp_all

theorem snd_evaluateForValue (typed : List Char) :
    (s.evaluateForValue typed).2 = (s.evaluate typed).2 := by
  unfold evaluateForValue
  split <;> simp_all

theorem snd_evaluate_of_error {typed : List Char} {failure : Failure}
    (h : s.value typed = .error failure) : (s.evaluate typed).2 = s := by
  rw [evaluate, h]

/-- An evaluation for display that fails has not been recorded: what was
    recorded is finite, and every finite double can be displayed. -/
theorem evaluateForDisplay_error {typed : List Char} {error : SessionError}
    (h : (s.evaluateForDisplay typed).1 = .error error) : (s.evaluateForDisplay typed).2 = s := by
  rw [snd_evaluateForDisplay]
  cases hv : s.value typed with
  | error failure => exact snd_evaluate_of_error hv
  | ok value =>
    obtain ⟨text, ht⟩ := Binary64.exists_display (Backend.isFinite_of_evaluate hv)
    rw [evaluateForDisplay, evaluate, hv] at h
    simp only [displayed, ht] at h
    cases h

theorem evaluateForValue_error {typed : List Char} {error : SessionError}
    (h : (s.evaluateForValue typed).1 = .error error) : (s.evaluateForValue typed).2 = s := by
  rw [snd_evaluateForValue]
  cases hv : s.value typed with
  | error failure => exact snd_evaluate_of_error hv
  | ok value => rw [evaluateForValue, evaluate, hv] at h; cases h

theorem updateMemory_error {combine : Binary64 → Binary64 → Binary64} {entry : Entry}
    {error : SessionError} (h : (s.updateMemory combine entry).1 = .error error) :
    (s.updateMemory combine entry).2 = s := by
  unfold updateMemory at h ⊢
  split at h
  · cases h
  · rfl

/-- An action that fails changes nothing. -/
theorem perform_error {action : Action} {error : SessionError}
    (h : (s.perform action).1 = .error error) : (s.perform action).2 = s := by
  cases action with
  | evaluate typed => exact evaluateForDisplay_error h
  | evaluateValue typed => exact evaluateForValue_error h
  | evaluateAround before after =>
    simp only [perform] at h ⊢
    cases ht : s.answerText with
    | ok text => rw [ht] at h; exact evaluateForDisplay_error h
    | error failure => rfl
  | setMode name? =>
    simp only [perform] at h ⊢
    cases hm : name?.bind AngleMode.ofName? with
    | some mode => rw [hm] at h; cases h
    | none => rfl
  | answerText =>
    simp only [perform]
    cases s.answerText <;> rfl
  | addToMemory entry => exact updateMemory_error h
  | subtractFromMemory entry => exact updateMemory_error h
  | toggleMode => cases h
  | clearMemory => cases h
  | clearHistory => cases h
  | displayAnswer => rfl
  | displayMemory => rfl
  | recallMemory => rfl

/-- The session after some actions, the first one first. -/
def after (s : Session) (actions : List Action) : Session :=
  actions.foldl (fun s action => (s.perform action).2) s

theorem after_concat (actions : List Action) (action : Action) :
    s.after (actions ++ [action]) = ((s.after actions).perform action).2 := by
  simp [after]

end Session

namespace Log

variable {backend : Backend} {limit : Nat} {action : Action} {log : Log}

/-- An action that is no evaluation and does not touch the memory can change
    the mode, unless it clears the history. -/
theorem session_cons_of_silent (action : Action)
    (he : Moment.evaluation? backend ⟨action, log⟩ = none)
    (hs : Moment.summand? backend ⟨action, log⟩ = none) (hh : action ≠ .clearHistory)
    (hc : action ≠ .clearMemory) :
    session backend limit (action :: log) =
      { session backend limit log with mode := mode (action :: log) } := by
  rw [session, answer_cons, history_cons action hh, memory_cons action hc, he, hs]
  simp [session, take_history]

/-- An evaluation leaves behind what the log says of it. -/
theorem session_evaluate {typed : List Char}
    (h : action.evaluated? (answer backend log) = some typed) :
    ((session backend limit log).evaluate typed).2 = session backend limit (action :: log) := by
  have he : Moment.evaluation? backend ⟨action, log⟩ =
      (backend.evaluate (mode log) typed).toOption.map (typed, ·) := by
    rw [Moment.evaluation?, evaluationIn, h]
    rfl
  -- Whatever is evaluated has nothing to do with the mode and the memory.
  have hm : mode (action :: log) = mode log := by
    cases action <;> first | rfl | cases h
  have hs : Moment.summand? backend ⟨action, log⟩ = none := by
    cases action <;> first | rfl | cases h
  have hh : action ≠ .clearHistory := by rintro rfl; cases h
  have hc : action ≠ .clearMemory := by rintro rfl; cases h
  rw [Session.evaluate, Session.value]
  cases hv : backend.evaluate (mode log) typed with
  | error failure =>
    have he : Moment.evaluation? backend ⟨action, log⟩ = none := by rw [he, hv]; rfl
    rw [session_cons_of_silent action he hs hh hc, hm]
    simp [session, hv]
  | ok value =>
    have he : Moment.evaluation? backend ⟨action, log⟩ = some (typed, value) := by rw [he, hv]; rfl
    rw [session.eq_def backend limit (action :: log), hm, answer_cons, history_cons action hh,
      memory_cons action hc, hs, he]
    simp [session, hv, Session.record]

/-- The memory takes in what the log says of an entry. -/
theorem session_updateMemory {entry : Entry} {combine : Binary64 → Binary64 → Binary64}
    {summand : Binary64 → Summand}
    (h : Moment.summand? backend ⟨action, log⟩ =
      (entered? (answer backend log) entry).map summand)
    (hc : ∀ sum value, (summand value).onto sum = combine sum value)
    (hm : mode (action :: log) = mode log) (he : Moment.evaluation? backend ⟨action, log⟩ = none)
    (hh : action ≠ .clearHistory) (hn : action ≠ .clearMemory) :
    ((session backend limit log).updateMemory combine entry).2 =
      session backend limit (action :: log) := by
  have hv : entered? (answer backend log) entry =
      ((session backend limit log).entered entry).toOption := by
    cases entry <;> rfl
  rw [Session.updateMemory]
  cases hr : (session backend limit log).entered entry with
  | error cause =>
    have hs : Moment.summand? backend ⟨action, log⟩ = none := by rw [h, hv, hr]; rfl
    rw [session_cons_of_silent action he hs hh hn, hm]
    rfl
  | ok value =>
    have hs : Moment.summand? backend ⟨action, log⟩ = some (summand value) := by
      rw [h, hv, hr]; rfl
    rw [session.eq_def backend limit (action :: log), hm, answer_cons, history_cons action hh,
      memory_cons action hn, hs, he]
    simp [session, take_history, hc]

/-- One more action does to the session what it does to its description. -/
theorem perform_session (action : Action) :
    ((session backend limit log).perform action).2 = session backend limit (action :: log) := by
  cases action with
  | evaluate typed =>
    rw [Session.perform, Session.snd_evaluateForDisplay]
    exact session_evaluate rfl
  | evaluateValue typed =>
    rw [Session.perform, Session.snd_evaluateForValue]
    exact session_evaluate rfl
  | evaluateAround before after =>
    simp only [Session.perform]
    cases ht : (session backend limit log).answerText with
    | ok text =>
      change Formula.literal (answer backend log) = .ok text at ht
      change ((session backend limit log).evaluateForDisplay (before ++ text ++ after)).2 = _
      rw [Session.snd_evaluateForDisplay]
      apply session_evaluate
      simp [Action.evaluated?, ht, Except.toOption]
    | error failure =>
      change Formula.literal (answer backend log) = .error failure at ht
      have he : Moment.evaluation? backend ⟨.evaluateAround before after, log⟩ = none := by
        simp [Moment.evaluation?, evaluationIn, Action.evaluated?, ht, Except.toOption]
      rw [session_cons_of_silent _ he rfl nofun nofun]
      rfl
  | setMode name? =>
    rw [session_cons_of_silent (.setMode name?) rfl rfl nofun nofun, mode]
    simp only [Session.perform]
    cases name?.bind AngleMode.ofName? <;> rfl
  | toggleMode =>
    rw [session_cons_of_silent .toggleMode rfl rfl nofun nofun]
    rfl
  | answerText =>
    rw [session_cons_of_silent .answerText rfl rfl nofun nofun]
    simp only [Session.perform]
    cases (session backend limit log).answerText <;> rfl
  | displayAnswer => rw [session_cons_of_silent .displayAnswer rfl rfl nofun nofun]; rfl
  | displayMemory => rw [session_cons_of_silent .displayMemory rfl rfl nofun nofun]; rfl
  | recallMemory => rw [session_cons_of_silent .recallMemory rfl rfl nofun nofun]; rfl
  | addToMemory entry =>
    exact session_updateMemory rfl (fun _ _ => rfl) rfl rfl nofun nofun
  | subtractFromMemory entry =>
    exact session_updateMemory rfl (fun _ _ => rfl) rfl rfl nofun nofun
  | clearMemory =>
    rw [session.eq_def backend limit (_ :: log), memory_clear, history_cons .clearMemory nofun]
    simp only [Moment.evaluation?, evaluationIn, Action.evaluated?, Option.bind_none,
      Option.toList_none, List.nil_append, take_history]
    rfl
  | clearHistory =>
    rw [session.eq_def backend limit (_ :: log), history_clear, memory_cons .clearHistory nofun]
    rfl

end Log

namespace Session

theorem start_eq_session (backend : Backend) (historyLimit : Int) :
    start backend historyLimit = Log.session backend (max 1 historyLimit).toNat [] := by
  rw [Log.session, Log.history, Log.since, Log.moments, List.takeWhile_nil, List.filterMap_nil,
    List.take_nil]
  rfl

/-- A session is what its log says, at every moment, and an action that fails
    there leaves it so. -/
theorem after_start (backend : Backend) (historyLimit : Int) (actions : List Action) :
    (start backend historyLimit).after actions =
        { backend := backend
          historyLimit := (max 1 historyLimit).toNat
          mode := Log.mode actions.reverse
          lastAnswer := Log.answer backend actions.reverse
          memory := Log.memory backend actions.reverse
          history := Log.history backend (max 1 historyLimit).toNat actions.reverse } ∧
      ∀ (action : Action) (error : SessionError),
        (((start backend historyLimit).after actions).perform action).1 = .error error →
        (start backend historyLimit).after (actions ++ [action]) =
          (start backend historyLimit).after actions := by
  constructor
  · change _ = Log.session backend (max 1 historyLimit).toNat actions.reverse
    -- The log grows at its head and the run at its end.
    induction actions using List.reverseRecOn with
    | nil => exact start_eq_session backend historyLimit
    | append_singleton actions action ih =>
      rw [after_concat, ih, Log.perform_session, List.reverse_append, List.reverse_singleton,
        List.singleton_append]
  · intro action error h
    rw [after_concat]
    exact perform_error h

theorem after_start_unknownMode :
    ((start .double 3).after [.toggleMode]).mode = .degrees ∧
      (start .double 3).after [.toggleMode, .setMode (some "grad")] =
        (start .double 3).after [.toggleMode] :=
  ⟨by rw [(after_start .double 3 [.toggleMode]).1]; rfl,
    (after_start .double 3 [.toggleMode]).2 (.setMode (some "grad")) .mode (by decide)⟩

end Session

end Calculator
