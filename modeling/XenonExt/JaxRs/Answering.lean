import XenonExt.Effects.RelatedLists
import XenonExt.JaxRs.RoutingOperationHandler

/-! # Every request is answered

An exception inside a callback of a future is lost, and an `Error` passes the handler. Apart from
these every way in which a request can go ends in one call of `complete` or `fail`.

* **`Answerable`**: no exception of a callback and no `Error` is in the way of the answer.
* **`Stage`**: how far a request has been handled; one lemma for each part of the handler.
* **`answeredOnce_iff`**: a request is answered exactly once when it is answerable. -/

namespace XenonExt

variable {E O V : Type}

namespace RoutingOperationHandler

/-! ## Requests that are answered -/

section

variable [DecidableEq E]

/-- The error response for a throwable can be made: its chain of causes fits on the stack. -/
def CausesFit (env : Surroundings E O V) (e : E) : Prop :=
  HttpErrorResponse.CausesEndWithin env.throwables env.stack e

/-- What is thrown while the inputs are read can be turned into an answer. -/
def InputErrorAnswerable (env : Surroundings E O V) : Thrown E V → Prop
  | .throwable e =>
    if (env.throwables e).isHttpError then CausesFit env e else (env.throwables e).isException
  | .stackOverflowError => False
  | _ => True

/-- The outcome of a future can be turned into an answer: the value can be set as body, or there is
a throwable to report whose error response can be made. -/
def OutcomeAnswerable (env : Surroundings E O V) : FutureOutcome E O → Prop
  | .value value => env.setBody value = .ok ()
  | .failure e => ∃ c ∈ failureCause env e, CausesFit env c

instance (env : Surroundings E O V) (e : E) : Decidable (CausesFit env e) := by
  unfold CausesFit HttpErrorResponse.CausesEndWithin
  infer_instance

instance (env : Surroundings E O V) : DecidablePred (OutcomeAnswerable env)
  | .value value => match hv : env.setBody value with
    | .ok () => .isTrue hv
    | .error _ => .isFalse fun h => nomatch hv.symm.trans h
  | .failure e => inferInstanceAs (Decidable (∃ c ∈ failureCause env e, CausesFit env c))

/-- How a method that returns a future went can be turned into an answer. -/
def AsyncAnswerable (env : Surroundings E O V) : Invocation E (Option (Future E O)) → Prop
  | .returned (some future) =>
    ∀ moment outcome, future.completion = some (moment, outcome) → OutcomeAnswerable env outcome
  | _ => True

variable (h : RoutingOperationHandler)

/-- How any other method went can be turned into an answer. -/
def SyncAnswerable (env : Surroundings E O V) : Invocation E (Option O) → Prop
  | .returned value =>
    h.hasValidReturnType → ∀ e, env.setBody value = .error e → (env.throwables e).isException
  | _ => True

/-- **A request can be answered**, whatever reading it and invoking the method lead to. -/
def Answerable (env : Surroundings E O V) (request : Request) : Prop :=
  match h.methodInputs env request with
  | .error error => InputErrorAnswerable env error
  | .ok inputs =>
    if h.httpMethod.asyncApi then AsyncAnswerable env (env.invokeAsync inputs)
    else h.SyncAnswerable env (env.invoke inputs)

/-- The method has returned a future that does not complete. -/
def OutcomePending (env : Surroundings E O V) (request : Request) : Prop :=
  ∃ inputs future, h.methodInputs env request = .ok inputs ∧ h.httpMethod.asyncApi ∧
    env.invokeAsync inputs = .returned (some future) ∧ future.completion = none

/-- The body of the request violates a constraint. -/
def BodyViolates (env : Surroundings E O V) : Prop :=
  ∃ p ∈ h.httpMethod.parameters, p.type = .body ∧ ∃ body violations,
    env.getBody p.paramterType = .ok body ∧ env.validate body = .ok violations ∧ violations ≠ []

/-- **A request is answered exactly once**: as soon as its outcome is known there has been one call
of `complete` or `fail`, and none before; and the method is invoked at most once, for a body that
violates a constraint not at all. -/
structure AnsweredOnce (env : Surroundings E O V) (request : Request) : Prop where
  answered : ¬ h.OutcomePending env request → (h.handle env request).answers.length = 1
  unanswered : h.OutcomePending env request → (h.handle env request).answers = []
  invoked_le : (h.handle env request).invocations.length ≤ 1
  not_invoked : h.BodyViolates env → (h.handle env request).invocations = []

end

/-! ## Stages -/

/-- How far a request has been handled. -/
structure Stage (invocations : List (List (Argument O))) (outcome : Option (FutureOutcome E O))
    (callbacks : List Callback) (later : Option (FutureOutcome E O)) (answers : Nat)
    (p : Progress E O V) : Prop where
  invocations_eq : p.invocations = invocations
  outcome_eq : p.outcome = outcome
  callbacks_eq : p.callbacks = callbacks
  later_eq : p.later = later
  answers_length : p.answers.length = answers

variable (env : Surroundings E O V) {invocations : List (List (Argument O))}
  {outcome later : Option (FutureOutcome E O)} {callbacks : List Callback} {n : Nat}
  {p : Progress E O V}

/-- The request once the logging completion is nested. -/
def logged : Progress E O V := { Progress.start with nestedCompletions := 1 }

/-- Nothing has happened yet. -/
theorem stage_logged : Stage [] none [] none 0 (logged : Progress E O V) :=
  ⟨rfl, rfl, rfl, rfl, rfl⟩

/-- The last step of attaching the callbacks. -/
theorem Stage.withLater (hp : Stage invocations outcome callbacks later n p)
    (later' : Option (FutureOutcome E O)) :
    Stage invocations outcome callbacks later' n { p with later := later' } :=
  ⟨hp.invocations_eq, hp.outcome_eq, hp.callbacks_eq, rfl, hp.answers_length⟩

/-- Calling `fail` answers. -/
theorem fail_run (hp : Stage invocations outcome callbacks later n p) (error : Option (Thrown E V))
    (body : FailureBody O) : ∃ p', (fail error body : HandlerM E O V Unit).run p = .ok () p' ∧
      Stage invocations outcome callbacks later (n + 1) p' := by
  refine ⟨_, rfl, hp.invocations_eq, hp.outcome_eq, hp.callbacks_eq, hp.later_eq, ?_⟩
  rw [List.length_append, hp.answers_length]
  rfl

/-- Calling `complete` answers. -/
theorem complete_run (hp : Stage invocations outcome callbacks later n p) :
    ∃ p', (complete : HandlerM E O V Unit).run p = .ok () p' ∧
      Stage invocations outcome callbacks later (n + 1) p' := by
  refine ⟨_, rfl, hp.invocations_eq, hp.outcome_eq, hp.callbacks_eq, hp.later_eq, ?_⟩
  rw [List.length_append, hp.answers_length]
  rfl

/-- Setting the body changes nothing else, also when it fails. -/
theorem setBody_run (hp : Stage invocations outcome callbacks later n p) (body : Option O) :
    (env.setBody body = .ok () ∧ ∃ p', (setBody env body).run p = .ok () p' ∧
        Stage invocations outcome callbacks later n p') ∨
      ∃ e, env.setBody body = .error e ∧ (setBody env body).run p = .error (.throwable e) p := by
  unfold setBody
  cases env.setBody body with
  | ok u => exact .inl ⟨rfl, _, rfl, hp.1, hp.2, hp.3, hp.4, hp.5⟩
  | error e => exact .inr ⟨e, rfl, rfl⟩

/-- Invoking the method records the invocation. -/
theorem invoke_run {α : Type} (method : List (Argument O) → Invocation E α)
    (hp : Stage [] outcome callbacks later n p) (methodInputs : List (Argument O)) :
    ∃ p', Stage [methodInputs] outcome callbacks later n p' ∧
      (invoke method methodInputs : HandlerM E O V α).run p =
        match method methodInputs with
        | .refused => .error .invocationRefused p'
        | .threw e => .error (.invocationTargetException e) p'
        | .returned value => .ok value p' := by
  refine ⟨{ p with invocations := p.invocations ++ [methodInputs] },
    ⟨by rw [hp.1, List.nil_append], hp.2, hp.3, hp.4, hp.5⟩, ?_⟩
  unfold invoke
  cases method methodInputs <;> rfl

/-! ## Constraints -/

variable {h : RoutingOperationHandler} (request : Request)

/-- The body of a request and the constraints that it violates. -/
theorem findMethodInput_body {queryParams : Str → JString} {pathValues : List Str}
    {p : ParamMetadata} {body : Option O} {violations : List V} (htype : p.type = .body)
    (hbody : env.getBody p.paramterType = .ok body) (hvalidate : env.validate body = .ok violations) :
    h.findMethodInput env request queryParams pathValues p = .ok (.body body, violations) := by
  simp only [findMethodInput, htype, hbody]
  change (do
    let violations ← (env.validate body).mapError Thrown.throwable
    Except.ok (Argument.body body, violations)) = _
  rw [hvalidate]
  rfl

/-- A body that violates a constraint leaves no arguments for the method. -/
theorem methodInputs_of_violates (hviolates : h.BodyViolates env) :
    ∃ error, h.methodInputs env request = .error error := by
  obtain ⟨p, hp, htype, body, violations, hbody, hvalidate, hne⟩ := hviolates
  unfold methodInputs
  cases env.uriUtils.parseUriQueryParams request.uri with
  | none => exact ⟨_, rfl⟩
  | some queryParams =>
      simp only [findMethodInputs]
      cases hinputs : h.httpMethod.parameters.mapM (h.findMethodInput env request queryParams
          (parsePathValues env.uriUtils request.uri)) with
      | error e => exact ⟨e, rfl⟩
      | ok inputs =>
          obtain ⟨input, hmem, hinput⟩ := forall₂_exists_right (mapM_eq_ok_iff.mp hinputs) hp
          have hsnd : input.2 = violations := by
            rw [findMethodInput_body env request htype hbody hvalidate] at hinput
            rw [← Except.ok.inj hinput]
          have hall : inputs.flatMap Prod.snd ≠ [] := fun hnil =>
            hne (hsnd ▸ List.flatMap_eq_nil_iff.mp hnil input hmem)
          exact ⟨_, if_neg hall⟩

/-! ## Callbacks -/

section Callbacks

variable [DecidableEq E]

/-- Making an error response changes nothing. -/
theorem responseFrom_run (e : E) :
    (CausesFit env e ∧ ∃ rsp, (responseFrom env (some e)).run p = .ok rsp p) ∨
      (¬ CausesFit env e ∧ (responseFrom env (some e)).run p = .error .stackOverflowError p) := by
  rcases HttpErrorResponse.fromThrowable_cases env.throwables env.stack e with
    ⟨hends, rsp, hrsp⟩ | ⟨hends, herror⟩
  · refine .inl ⟨hends, rsp, ?_⟩
    rw [responseFrom, hrsp]
    rfl
  · refine .inr ⟨hends, ?_⟩
    rw [responseFrom, herror]
    rfl

/-- Without a throwable there is no error response. -/
theorem responseFrom_none_run :
    (responseFrom env none).run p = .error .nullPointerException p := by
  rw [responseFrom, HttpErrorResponse.fromThrowable_none]
  rfl

/-- The callback is the one for the outcome. -/
def Callback.IsFor : Callback → FutureOutcome E O → Bool
  | .exceptionally, .failure _ => true
  | .thenAccept, .value _ => true
  | _, _ => false

/-- How many answers a callback gives. -/
def answersGiven (env : Surroundings E O V) (outcome : FutureOutcome E O) (c : Callback) : Nat :=
  if Callback.IsFor c outcome ∧ OutcomeAnswerable env outcome then 1 else 0

/-- How many answers some callbacks give. -/
def answersGivenByAll (env : Surroundings E O V) (outcome : FutureOutcome E O) :
    List Callback → Nat
  | [] => 0
  | c :: cs => answersGiven env outcome c + answersGivenByAll env outcome cs

/-- Both callbacks together answer once if the outcome can be turned into an answer. -/
theorem answersGiven_add (env : Surroundings E O V) (outcome : FutureOutcome E O) :
    answersGiven env outcome .exceptionally + answersGiven env outcome .thenAccept =
      if OutcomeAnswerable env outcome then 1 else 0 := by
  cases outcome <;> simp [answersGiven, Callback.IsFor]

/-- What a callback that throws leaves behind. -/
theorem runCallback_run_error {env : Surroundings E O V} {o : FutureOutcome E O} {c : Callback} {e : Thrown E V}
    (h : (callback env c o).run p = .error e p) : (runCallback env o c).run p = .ok () p :=
  tryCatch_run_error h

/-- The callback for failures answers if there is a throwable to report and its causes fit. -/
theorem runCallback_exceptionally_run (hp : Stage invocations outcome callbacks later n p) (e : E) :
    ∃ p', (runCallback env (.failure e) .exceptionally).run p = .ok () p' ∧
      Stage invocations outcome callbacks later (n + answersGiven env (.failure e) .exceptionally) p' := by
  cases hc : failureCause env e with
  | none =>
      -- `from(null)` throws, and the derived future keeps the exception
      have hnot : ¬ OutcomeAnswerable env (.failure e) := by simp [OutcomeAnswerable, hc]
      refine ⟨p, runCallback_run_error (e := .nullPointerException) ?_, ?_⟩
      · rw [callback, hc, bind_run_error (responseFrom_none_run env)]
      · rwa [answersGiven, if_neg fun h => hnot h.2]
  | some c =>
      rcases responseFrom_run env c with ⟨hfit, rsp, hrsp⟩ | ⟨hfit, herror⟩
      · have hyes : OutcomeAnswerable env (.failure e) := ⟨c, hc, hfit⟩
        obtain ⟨p', hfail, hp'⟩ := fail_run hp (some (.throwable c)) (.response rsp)
        refine ⟨p', tryCatch_run_ok ?_, ?_⟩
        · rw [callback, hc, bind_run_ok hrsp]
          exact hfail
        · rwa [answersGiven, if_pos ⟨rfl, hyes⟩]
      · -- the causes do not fit on the stack: the `Error` is kept in the same way
        have hnot : ¬ OutcomeAnswerable env (.failure e) := by
          simpa [OutcomeAnswerable, hc] using hfit
        refine ⟨p, runCallback_run_error (e := .stackOverflowError) ?_, ?_⟩
        · rw [callback, hc, bind_run_error herror]
        · rwa [answersGiven, if_neg fun h => hnot h.2]

/-- The callback for values answers if the value can be set as body. -/
theorem runCallback_thenAccept_run (hp : Stage invocations outcome callbacks later n p)
    (value : Option O) : ∃ p', (runCallback env (.value value) .thenAccept).run p = .ok () p' ∧
      Stage invocations outcome callbacks later (n + answersGiven env (.value value) .thenAccept) p' := by
  rcases setBody_run env hp value with ⟨hok, p₁, hset, hp₁⟩ | ⟨e, herror, hset⟩
  · obtain ⟨p', hcomplete, hp'⟩ := complete_run hp₁
    refine ⟨p', tryCatch_run_ok ?_, ?_⟩
    · rw [callback, bind_run_ok hset]
      exact hcomplete
    · rwa [answersGiven, if_pos ⟨rfl, hok⟩]
  · have hnot : ¬ OutcomeAnswerable env (.value value : FutureOutcome E O) := fun h =>
      nomatch herror.symm.trans h
    refine ⟨p, runCallback_run_error (e := .throwable e) ?_, ?_⟩
    · rw [callback, bind_run_error hset]
    · rwa [answersGiven, if_neg fun h => hnot h.2]

/-- **A callback returns**, and answers if it is the one for an outcome that can be answered. -/
theorem runCallback_run (hp : Stage invocations outcome callbacks later n p) (o : FutureOutcome E O)
    (c : Callback) : ∃ p', (runCallback env o c).run p = .ok () p' ∧
      Stage invocations outcome callbacks later (n + answersGiven env o c) p' := by
  cases c with
  | exceptionally =>
      cases o with
      | value v => exact ⟨p, rfl, hp⟩
      | failure e => exact runCallback_exceptionally_run env hp e
  | thenAccept =>
      cases o with
      | value v => exact runCallback_thenAccept_run env hp v
      | failure e => exact ⟨p, rfl, hp⟩

/-- Callbacks that run one after the other add up. -/
theorem forM_runCallback_run (hp : Stage invocations outcome callbacks later n p)
    (o : FutureOutcome E O) (cs : List Callback) :
    ∃ p', (cs.forM (runCallback env o)).run p = .ok () p' ∧
      Stage invocations outcome callbacks later (n + answersGivenByAll env o cs) p' := by
  induction cs generalizing n p with
  | nil => exact ⟨p, rfl, hp⟩
  | cons c cs ih =>
      obtain ⟨p₁, hrun, hp₁⟩ := runCallback_run env hp o c
      obtain ⟨p', hruns, hp'⟩ := ih hp₁
      refine ⟨p', ?_, ?_⟩
      · exact (bind_run_ok hrun).trans hruns
      · rwa [answersGivenByAll, ← Nat.add_assoc]

/-! ## The future -/

/-- A callback attached to a future that has completed runs at once. -/
theorem attach_run_known {o : FutureOutcome E O} (hp : Stage invocations (some o) callbacks later n p)
    (c : Callback) : ∃ p', (attach env c).run p = .ok () p' ∧
      Stage invocations (some o) callbacks later (n + answersGiven env o c) p' := by
  obtain ⟨p', hrun, hp'⟩ := runCallback_run env hp o c
  refine ⟨p', ?_, hp'⟩
  rw [attach, bind_run_ok (rfl : (get : HandlerM E O V _).run p = .ok p p), hp.outcome_eq]
  exact hrun

/-- A callback attached to a future that is still to complete waits. -/
theorem attach_run_waiting (hp : Stage invocations none callbacks later n p) (c : Callback) :
    ∃ p', (attach env c).run p = .ok () p' ∧ Stage invocations none (c :: callbacks) later n p' := by
  refine ⟨{ p with callbacks := c :: p.callbacks }, ?_, hp.1, hp.2, by rw [hp.3], hp.4, hp.5⟩
  rw [attach, bind_run_ok (rfl : (get : HandlerM E O V _).run p = .ok p p)]
  split
  · rename_i o ho
    exact absurd (hp.outcome_eq.symm.trans ho) (Option.some_ne_none o).symm
  · rfl

/-- A future that completes runs the callbacks that wait. -/
theorem completeFuture_run (hp : Stage invocations none callbacks later n p)
    (o : FutureOutcome E O) :
    ∃ p', (completeFuture env o).run p = .ok () p' ∧
      Stage invocations (some o) [] later (n + answersGivenByAll env o callbacks) p' := by
  have hset : Stage invocations (some o) [] later n { p with outcome := some o, callbacks := [] } :=
    ⟨hp.1, rfl, rfl, hp.4, hp.5⟩
  obtain ⟨p', hrun, hp'⟩ := forM_runCallback_run env hset o callbacks
  refine ⟨p', ?_, hp'⟩
  rw [← hp.callbacks_eq] at hrun
  exact hrun

/-- A future that does not complete now. -/
theorem completeAt_run_eq_self {future : Future E O} {moment : Moment}
    (h : ∀ o, future.completion ≠ some (moment, o)) :
    (completeAt env future moment).run p = .ok () p := by
  unfold completeAt
  split
  · rename_i m o hm
    rw [if_neg fun he : m = moment => h o (he ▸ hm)]
    rfl
  · rfl

/-- A future that completes now. -/
theorem completeAt_eq {future : Future E O} {moment : Moment} {o : FutureOutcome E O}
    (h : future.completion = some (moment, o)) :
    completeAt env future moment = completeFuture env o := by
  simp only [completeAt, h, if_true]

/-! ## Whole requests -/

/-- How a request stands in the end: the answers and the invocations there have been. -/
structure Ended (invocations : List (List (Argument O))) (answers : Nat) (p : Progress E O V) :
    Prop where
  invocations_eq : p.invocations = invocations
  answers_length : p.answers.length = answers

/-- When no completion is to come, the stage is the end. -/
theorem Stage.ended (hp : Stage invocations outcome callbacks none n p) :
    Ended invocations n (afterAccept env p) := by
  rw [afterAccept, hp.later_eq]
  exact ⟨hp.invocations_eq, hp.answers_length⟩

/-- When a completion is to come, the callbacks that wait run for it. -/
theorem Stage.ended_later {o : FutureOutcome E O}
    (hp : Stage invocations none callbacks (some o) n p) :
    Ended invocations (n + answersGivenByAll env o callbacks) (afterAccept env p) := by
  obtain ⟨p', hrun, hp'⟩ := completeFuture_run env hp o
  rw [afterAccept, hp.later_eq]
  simp only [hrun, finalState_ok]
  exact ⟨hp'.invocations_eq, hp'.answers_length⟩

/-- How many answers a future leads to in the end. -/
def futureAnswers (env : Surroundings E O V) (future : Future E O) : Nat :=
  match future.completion with
  | some (_, o) => if OutcomeAnswerable env o then 1 else 0
  | none => 0

/-- While a future does not complete, the callbacks wait. -/
theorem attachCallbacks_run_pending {future : Future E O} (hc : future.completion = none)
    (hp : Stage invocations none [] none 0 p) :
    ∃ p', (attachCallbacks env future).run p = .ok () p' ∧
      Ended invocations 0 (afterAccept env p') := by
  have hnow : ∀ moment o, future.completion ≠ some (moment, o) := by simp [hc]
  obtain ⟨p₁, hrun₁, hp₁⟩ := attach_run_waiting env hp .exceptionally
  obtain ⟨p₂, hrun₂, hp₂⟩ := attach_run_waiting env hp₁ .thenAccept
  refine ⟨{ p₂ with later := none }, ?_, (hp₂.withLater none).ended env⟩
  rw [attachCallbacks, bind_run_ok (completeAt_run_eq_self env (hnow _)), bind_run_ok hrun₁,
    bind_run_ok (completeAt_run_eq_self env (hnow _)), bind_run_ok hrun₂, hc]
  rfl

/-- When a future has completed before, both callbacks run as they are attached. -/
theorem attachCallbacks_run_before {future : Future E O} {o : FutureOutcome E O}
    (hc : future.completion = some (.beforeCallbacks, o))
    (hp : Stage invocations none [] none 0 p) :
    ∃ p', (attachCallbacks env future).run p = .ok () p' ∧
      Ended invocations (if OutcomeAnswerable env o then 1 else 0) (afterAccept env p') := by
  obtain ⟨p₁, hrun₁, hp₁⟩ := completeFuture_run env hp o
  obtain ⟨p₂, hrun₂, hp₂⟩ := attach_run_known env hp₁ .exceptionally
  obtain ⟨p₃, hrun₃, hp₃⟩ := attach_run_known env hp₂ .thenAccept
  refine ⟨{ p₃ with later := none }, ?_, ?_⟩
  · rw [attachCallbacks, completeAt_eq env hc, bind_run_ok hrun₁, bind_run_ok hrun₂,
      bind_run_ok (completeAt_run_eq_self env (by simp [hc])), bind_run_ok hrun₃, hc]
    rfl
  · have hcount := answersGiven_add env o
    rw [← hcount]
    simpa [answersGivenByAll] using (hp₃.withLater none).ended env

/-- When a future completes between, the first callback runs then and the second as it is
attached. -/
theorem attachCallbacks_run_between {future : Future E O} {o : FutureOutcome E O}
    (hc : future.completion = some (.betweenCallbacks, o))
    (hp : Stage invocations none [] none 0 p) :
    ∃ p', (attachCallbacks env future).run p = .ok () p' ∧
      Ended invocations (if OutcomeAnswerable env o then 1 else 0) (afterAccept env p') := by
  obtain ⟨p₁, hrun₁, hp₁⟩ := attach_run_waiting env hp .exceptionally
  obtain ⟨p₂, hrun₂, hp₂⟩ := completeFuture_run env hp₁ o
  obtain ⟨p₃, hrun₃, hp₃⟩ := attach_run_known env hp₂ .thenAccept
  refine ⟨{ p₃ with later := none }, ?_, ?_⟩
  · rw [attachCallbacks, bind_run_ok (completeAt_run_eq_self env (by simp [hc])),
      bind_run_ok hrun₁, completeAt_eq env hc, bind_run_ok hrun₂, bind_run_ok hrun₃, hc]
    rfl
  · have hcount := answersGiven_add env o
    rw [← hcount]
    simpa [answersGivenByAll] using (hp₃.withLater none).ended env

/-- When a future completes after `accept`, both callbacks run then. -/
theorem attachCallbacks_run_after {future : Future E O} {o : FutureOutcome E O}
    (hc : future.completion = some (.afterAccept, o))
    (hp : Stage invocations none [] none 0 p) :
    ∃ p', (attachCallbacks env future).run p = .ok () p' ∧
      Ended invocations (if OutcomeAnswerable env o then 1 else 0) (afterAccept env p') := by
  obtain ⟨p₁, hrun₁, hp₁⟩ := attach_run_waiting env hp .exceptionally
  obtain ⟨p₂, hrun₂, hp₂⟩ := attach_run_waiting env hp₁ .thenAccept
  refine ⟨{ p₂ with later := some o }, ?_, ?_⟩
  · rw [attachCallbacks, bind_run_ok (completeAt_run_eq_self env (by simp [hc])),
      bind_run_ok hrun₁, bind_run_ok (completeAt_run_eq_self env (by simp [hc])),
      bind_run_ok hrun₂, hc]
    rfl
  · have hcount := answersGiven_add env o
    rw [Nat.add_comm] at hcount
    rw [← hcount]
    simpa [answersGivenByAll] using (hp₂.withLater (some o)).ended_later env

/-- **A method that returns a future**: both callbacks are attached and, once the future completes,
run for its outcome, whenever that is. -/
theorem attachCallbacks_run (future : Future E O) (hp : Stage invocations none [] none 0 p) :
    ∃ p', (attachCallbacks env future).run p = .ok () p' ∧
      Ended invocations (futureAnswers env future) (afterAccept env p') := by
  unfold futureAnswers
  rcases hc : future.completion with _ | ⟨moment, o⟩
  · exact attachCallbacks_run_pending env hc hp
  · cases moment with
    | beforeCallbacks => exact attachCallbacks_run_before env hc hp
    | betweenCallbacks => exact attachCallbacks_run_between env hc hp
    | afterAccept => exact attachCallbacks_run_after env hc hp

/-! ## The handler -/

variable (h) {inputs : List (Argument O)}

/-- The body of `accept` acts on the arguments of the method, or on what is thrown instead. -/
theorem tryAccept_run (hop : h.hasOperationAsAnArgument = false) :
    (h.tryAccept env request).run .start =
      (match h.methodInputs env request with
        | .error error => catchHttpError env error
        | .ok inputs =>
          if h.httpMethod.asyncApi then invokeMethodAndHandleOperationAsync env inputs
          else h.invokeMethodAndHandleOperationSync env inputs).run logged := by
  unfold tryAccept methodInputs
  rw [bind_run_ok (rfl : (doLogging : HandlerM E O V Unit).run .start = .ok () logged), hop]
  cases env.uriUtils.parseUriQueryParams request.uri <;> rfl

variable {h} {request}

/-- When the body of `accept` returns, the request goes on from there. -/
theorem handle_of_ok (hrun : (h.tryAccept env request).run .start = .ok () p) :
    h.handle env request = afterAccept env p := by
  rw [handle, accept, tryCatch_run_ok hrun, finalState_ok]

/-- When the body of `accept` throws, the request is failed for an exception, and left unanswered
for an `Error`. -/
theorem handle_of_error {error : Thrown E V}
    (hrun : (h.tryAccept env request).run .start = .error error p)
    (hp : Stage invocations none [] none 0 p) :
    Ended invocations (if isException env error then 1 else 0) (h.handle env request) := by
  rw [handle, accept, tryCatch_run_error hrun]
  by_cases he : isException env error
  · obtain ⟨p', hfail, hp'⟩ := fail_run hp (some error) (.text (failureText request) : FailureBody O)
    rw [if_pos he, if_pos he, hfail, finalState_ok]
    exact hp'.ended env
  · rw [if_neg he, if_neg he, throw_run, finalState_error]
    exact hp.ended env

/-- An `HttpError` is answered with its response if that can be made; other exceptions pass. -/
theorem catchHttpError_run (error : Thrown E V) (hp : Stage invocations none [] none 0 p) :
    (InputErrorAnswerable env error ∧ ∃ p', (catchHttpError env error).run p = .ok () p' ∧
        Stage invocations none [] none 1 p') ∨
      ∃ error', (catchHttpError env error).run p = .error error' p ∧
        (isException env error' ↔ InputErrorAnswerable env error) := by
  cases error with
  | constraintViolations violations =>
      obtain ⟨p', hfail, hp'⟩ := fail_run hp (some (.constraintViolations violations))
        (.response (HttpErrorResponse.response (constraintError env violations) none))
      exact .inl ⟨trivial, p', hfail, hp'⟩
  | throwable e =>
      simp only [catchHttpError, InputErrorAnswerable]
      -- only an `HttpError` is caught here, and making its response may itself fail
      by_cases he : (env.throwables e).isHttpError
      · simp only [if_pos he]
        rcases responseFrom_run env (p := p) e with ⟨hfit, rsp, hrsp⟩ | ⟨hfit, herror⟩
        · obtain ⟨p', hfail, hp'⟩ := fail_run hp (some (.throwable e)) (.response rsp)
          exact .inl ⟨hfit, p', (bind_run_ok hrsp).trans hfail, hp'⟩
        · refine .inr ⟨.stackOverflowError, bind_run_error herror, ?_⟩
          exact iff_of_false Bool.false_ne_true hfit
      · simp only [if_neg he]
        exact .inr ⟨.throwable e, rfl, Iff.rfl⟩
  | stackOverflowError => exact .inr ⟨_, rfl, iff_of_false Bool.false_ne_true id⟩
  | _ => exact .inr ⟨_, rfl, iff_of_true rfl trivial⟩

/-- **What is thrown while the inputs are read** is answered, and the method is not invoked. -/
theorem handle_inputError (hop : h.hasOperationAsAnArgument = false) {error : Thrown E V}
    (hinputs : h.methodInputs env request = .error error) :
    (h.handle env request).invocations = [] ∧
      ((h.handle env request).answers.length = 1 ↔ InputErrorAnswerable env error) := by
  have hrun := tryAccept_run env h request hop
  rw [hinputs] at hrun
  rcases catchHttpError_run env error stage_logged with ⟨hyes, p', hcatch, hp'⟩ | ⟨e, hcatch, he⟩
  · rw [handle_of_ok env (hrun.trans hcatch)]
    exact ⟨(hp'.ended env).1, iff_of_true (hp'.ended env).2 hyes⟩
  · have hended := handle_of_error env (hrun.trans hcatch) stage_logged
    refine ⟨hended.1, ?_⟩
    rw [hended.2, ← he]
    by_cases hexc : isException env e <;> simp [hexc]

/-- **A method that returns a value** leads to an answer, unless an `Error` passes when its value is
set as body. -/
theorem handle_sync (hop : h.hasOperationAsAnArgument = false)
    (hasync : h.httpMethod.asyncApi = false) (hinputs : h.methodInputs env request = .ok inputs) :
    (h.handle env request).invocations = [inputs] ∧
      ((h.handle env request).answers.length = 1 ↔
        h.SyncAnswerable env (env.invoke inputs)) := by
  have hrun := tryAccept_run env h request hop
  obtain ⟨p₁, hp₁, hinvoke⟩ := invoke_run env.invoke stage_logged inputs
  rw [hinputs] at hrun
  simp only [hasync, Bool.false_eq_true, if_false] at hrun
  cases hres : env.invoke inputs with
  | refused =>
      rw [hres] at hinvoke
      have hended := handle_of_error env (hrun.trans (bind_run_error hinvoke)) hp₁
      exact ⟨hended.1, iff_of_true hended.2 trivial⟩
  | threw e =>
      rw [hres] at hinvoke
      have hended := handle_of_error env (hrun.trans (bind_run_error hinvoke)) hp₁
      exact ⟨hended.1, iff_of_true hended.2 trivial⟩
  | returned value =>
      rw [hres] at hinvoke
      have hrun := hrun.trans (bind_run_ok hinvoke)
      -- the value is set as body only when the method is not `void`
      by_cases hvalid : h.hasValidReturnType
      · simp only [if_pos hvalid] at hrun
        rcases setBody_run env hp₁ value with ⟨hok, p₂, hset, hp₂⟩ | ⟨e, herror, hset⟩
        · obtain ⟨p', hcomplete, hp'⟩ := complete_run hp₂
          rw [handle_of_ok env (hrun.trans ((bind_run_ok hset).trans hcomplete))]
          refine ⟨(hp'.ended env).1, iff_of_true (hp'.ended env).2 fun _ e he => ?_⟩
          exact nomatch hok.symm.trans he
        · -- the value cannot be set: the outer `catch` answers, for exceptions only
          have hended := handle_of_error env (hrun.trans (bind_run_error hset)) hp₁
          refine ⟨hended.1, ?_⟩
          rw [hended.2]
          constructor
          · intro hone _ e' he'
            obtain rfl : e = e' := Except.error.inj (herror.symm.trans he')
            by_contra hexc
            exact absurd (hone.symm.trans (if_neg hexc)) Nat.one_ne_zero
          · intro hsync
            exact if_pos (hsync hvalid e herror)
      · simp only [if_neg hvalid] at hrun
        obtain ⟨p', hcomplete, hp'⟩ := complete_run hp₁
        rw [handle_of_ok env (hrun.trans hcomplete)]
        exact ⟨(hp'.ended env).1, iff_of_true (hp'.ended env).2 fun hv => absurd hv hvalid⟩

/-- How many answers the invocation of a method that returns a future leads to. -/
def asyncAnswers (env : Surroundings E O V) : Invocation E (Option (Future E O)) → Nat
  | .returned (some future) => futureAnswers env future
  | _ => 1

/-- **A method that returns a future** leads to an answer when the future completes, unless a
callback throws. -/
theorem handle_async (hop : h.hasOperationAsAnArgument = false)
    (hasync : h.httpMethod.asyncApi = true) (hinputs : h.methodInputs env request = .ok inputs) :
    Ended [inputs] (asyncAnswers env (env.invokeAsync inputs)) (h.handle env request) := by
  have hrun := tryAccept_run env h request hop
  obtain ⟨p₁, hp₁, hinvoke⟩ := invoke_run env.invokeAsync stage_logged inputs
  rw [hinputs] at hrun
  simp only [hasync, if_true] at hrun
  cases hres : env.invokeAsync inputs with
  | refused =>
      rw [hres] at hinvoke
      exact handle_of_error env (hrun.trans (bind_run_error hinvoke)) hp₁
  | threw e =>
      rw [hres] at hinvoke
      exact handle_of_error env (hrun.trans (bind_run_error hinvoke)) hp₁
  | returned value =>
      rw [hres] at hinvoke
      have hrun := hrun.trans (bind_run_ok hinvoke)
      -- `null` instead of a future is an exception of `accept` itself
      cases value with
      | none => exact handle_of_error env hrun hp₁
      | some future =>
          obtain ⟨p', hattach, hended⟩ := attachCallbacks_run env future hp₁
          rw [handle_of_ok env (hrun.trans hattach)]
          exact hended

/-- A future that completes leads to one answer if its outcome can be answered. -/
theorem futureAnswers_eq_one_iff {future : Future E O} (hknown : future.completion ≠ none) :
    futureAnswers env future = 1 ↔ AsyncAnswerable env (.returned (some future)) := by
  obtain ⟨⟨moment, o⟩, hc⟩ := Option.ne_none_iff_exists'.mp hknown
  simp only [futureAnswers, AsyncAnswerable, hc]
  constructor
  · intro hone moment' o' ho
    obtain ⟨-, rfl⟩ := Prod.mk.inj (Option.some.inj ho)
    by_contra hnot
    exact absurd (hone.symm.trans (if_neg hnot)) Nat.one_ne_zero
  · exact fun hyes => if_pos (hyes moment o rfl)

/-- Once the outcome of a request is known, it is answered exactly once when there is one answer. -/
theorem answeredOnce_iff_of_known (hknown : ¬ h.OutcomePending env request)
    (hle : (h.handle env request).invocations.length ≤ 1)
    (hviolates : h.BodyViolates env → (h.handle env request).invocations = []) :
    h.AnsweredOnce env request ↔ (h.handle env request).answers.length = 1 :=
  ⟨fun honce => honce.answered hknown,
    fun hone => ⟨fun _ => hone, fun hpending => absurd hpending hknown, hle, hviolates⟩⟩

/-- A method that returns a future: the request is answered exactly once when the outcome of the
future, if there is one, can be answered. -/
theorem answeredOnce_iff_async (hop : h.hasOperationAsAnArgument = false)
    (hasync : h.httpMethod.asyncApi = true) (hinputs : h.methodInputs env request = .ok inputs)
    (hvalid : ¬ h.BodyViolates env) :
    h.AnsweredOnce env request ↔ AsyncAnswerable env (env.invokeAsync inputs) := by
  have hended := handle_async env hop hasync hinputs
  have hle : (h.handle env request).invocations.length ≤ 1 := by
    rw [hended.1]
    exact le_rfl
  by_cases hpending : h.OutcomePending env request
  · -- nothing is known yet: there must be no answer
    obtain ⟨_, future, hinputs', _, hinvoke, hc⟩ := hpending
    obtain rfl := Except.ok.inj (hinputs.symm.trans hinputs')
    rw [hinvoke] at hended ⊢
    refine iff_of_true ⟨fun hknown => absurd ?_ hknown, fun _ => ?_, hle,
      fun hviolates => absurd hviolates hvalid⟩ fun moment o ho => ?_
    · exact ⟨inputs, future, hinputs, hasync, hinvoke, hc⟩
    · refine List.length_eq_zero_iff.mp (hended.2.trans ?_)
      simp only [asyncAnswers, futureAnswers, hc]
    · exact nomatch hc.symm.trans ho
  · rw [answeredOnce_iff_of_known env hpending hle fun hviolates => absurd hviolates hvalid,
      hended.2]
    cases hinvoke : env.invokeAsync inputs with
    | refused => exact iff_of_true rfl trivial
    | threw e => exact iff_of_true rfl trivial
    | returned value =>
        cases value with
        | none => exact iff_of_true rfl trivial
        | some future =>
            exact futureAnswers_eq_one_iff env fun hc =>
              hpending ⟨inputs, future, hinputs, hasync, hinvoke, hc⟩

/-- **A request is answered exactly once when it is answerable.** -/
theorem answeredOnce_iff (h : RoutingOperationHandler) (env : Surroundings E O V)
    (request : Request) (hop : h.hasOperationAsAnArgument = false) :
    h.AnsweredOnce env request ↔ h.Answerable env request := by
  unfold Answerable
  cases hinputs : h.methodInputs env request with
  | error e =>
      obtain ⟨hinvocations, hanswers⟩ := handle_inputError env hop hinputs
      rw [answeredOnce_iff_of_known env ?_ (by rw [hinvocations]; exact Nat.zero_le 1)
        fun _ => hinvocations]
      · exact hanswers
      · rintro ⟨_, _, hok, _⟩
        exact nomatch hinputs.symm.trans hok
  | ok inputs =>
      -- arguments have been found, so no constraint was violated
      have hvalid : ¬ h.BodyViolates env := fun hviolates => by
        obtain ⟨e, he⟩ := methodInputs_of_violates env request hviolates
        exact nomatch hinputs.symm.trans he
      cases hasync : h.httpMethod.asyncApi with
      | false =>
          obtain ⟨hinvocations, hanswers⟩ := handle_sync env hop hasync hinputs
          rw [answeredOnce_iff_of_known env ?_ (by rw [hinvocations]; exact le_rfl)
            fun hviolates => absurd hviolates hvalid]
          · exact hanswers
          · rintro ⟨_, _, _, hasync', _⟩
            exact nomatch hasync.symm.trans hasync'
      | true => exact answeredOnce_iff_async env hop hasync hinputs hvalid

end Callbacks

/-! ## A method that returns a future -/

/-- The handler of a method without parameters that returns a future. -/
def statusHandler : RoutingOperationHandler where
  path := "/status".toList
  httpMethod :=
    { method :=
        { name := "status".toList
          isPublic := true
          httpMethodNames := [some "GET".toList]
          path := none
          parameters := []
          returnClass := .completableFuture }
      parameters := []
      uriPath := none
      action := .get
      pathParamsVsUriIndex := ∅
      asyncApi := true }

/-- A request for it. -/
def statusRequest : Request where
  action := .get
  uri := ⟨"http://localhost:8000".toList, "/status".toList, none⟩
  cookies := none
  requestHeaders _ := none

/-- Surroundings in which the future has completed and the only throwable is a
`CompletionException` without a cause. -/
def statusSurroundings (outcome : FutureOutcome Unit Unit) : Surroundings Unit Unit Unit where
  uriUtils := .documented
  getBody _ := .ok none
  validate _ := .ok []
  setBody _ := .ok ()
  invoke _ := .refused
  invokeAsync _ := .returned (some ⟨some (.beforeCallbacks, outcome)⟩)
  throwables _ := ⟨"java.util.concurrent.CompletionException".toList, .completionException, none,
    none, []⟩
  violationSet _ := ()
  stackTrace := []
  stack := 1000

/-- The value of the future answers the request. -/
theorem answeredOnce_status :
    statusHandler.AnsweredOnce (statusSurroundings (.value none)) statusRequest := by
  refine (answeredOnce_iff statusHandler _ statusRequest rfl).mpr ?_
  intro moment outcome h
  obtain ⟨-, rfl⟩ := Prod.mk.inj (Option.some.inj h)
  rfl

/-- **A request that is never answered**: the future fails with a `CompletionException` that has no
cause. -/
theorem not_answeredOnce_status : statusHandler.hasOperationAsAnArgument = false ∧
    ¬ statusHandler.AnsweredOnce (statusSurroundings (.failure ())) statusRequest := by
  refine ⟨rfl, fun honce => ?_⟩
  have hknown : ¬ statusHandler.OutcomePending (statusSurroundings (.failure ())) statusRequest := by
    rintro ⟨_, future, _, _, hinvoke, hc⟩
    rw [← Option.some.inj (Invocation.returned.inj hinvoke)] at hc
    exact nomatch hc
  have hanswers : (statusHandler.handle (statusSurroundings (.failure ())) statusRequest).answers =
    [] := rfl
  have hone := honce.answered hknown
  rw [hanswers] at hone
  exact Nat.zero_ne_one hone

end RoutingOperationHandler

end XenonExt
