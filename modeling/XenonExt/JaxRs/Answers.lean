import XenonExt.JaxRs.Answering

/-! # The answer to a request

`RoutingOperationHandler` answers a request through a body, calls of `complete` and `fail`, and
callbacks of a future that may complete at any moment. What the client is told is nevertheless a
function of what the parts around the handler do: of the arguments found, of how the invocation of
the method ends, and of the outcome of its future.

* **`answerOf`**: that function.
* **`handle_eq_answerOf`**: the calls of `complete` and `fail` of a handled request are its one value,
  or none, whenever the future completes. -/

namespace XenonExt

variable {E O V : Type}

namespace RoutingOperationHandler

variable [DecidableEq E] (env : Surroundings E O V) (request : Request)

/-! ## The answer as a function -/

/-- The answer to an exception that the handler catches; an `Error` is not answered. -/
def errorAnswer (e : Thrown E V) : Option (Answer E O V) :=
  if isException env e then some (.failed (some e) (.text (failureText request))) else none

/-- The error response for a throwable, if it can be made. -/
def responseTo (e : Option E) : Option (HttpErrorResponse O) :=
  (HttpErrorResponse.fromThrowable env.throwables env.stack e).toOption

/-- The answer to what is thrown while the arguments are found. -/
def inputErrorAnswer : Thrown E V → Option (Answer E O V)
  | .constraintViolations violations =>
    some (.failed (some (.constraintViolations violations))
      (.response (HttpErrorResponse.response (constraintError env violations) none)))
  | .throwable e =>
    if (env.throwables e).isHttpError then
      (responseTo env (some e)).map fun rsp => .failed (some (.throwable e)) (.response rsp)
    else errorAnswer env request (.throwable e)
  | error => errorAnswer env request error

/-- The answer to the outcome of a future. -/
def outcomeAnswer : FutureOutcome E O → Option (Answer E O V)
  | .value value => match env.setBody value with
    | .ok () => some (.completed (some value))
    | .error _ => none
  | .failure e => (responseTo env (failureCause env e)).map fun rsp =>
      .failed ((failureCause env e).map .throwable) (.response rsp)

/-- The answer when a method returns a future: that to its outcome, once there is one. -/
def asyncAnswer : Invocation E (Option (Future E O)) → Option (Answer E O V)
  | .refused => errorAnswer env request .invocationRefused
  | .threw e => errorAnswer env request (.invocationTargetException e)
  | .returned none => errorAnswer env request .nullPointerException
  | .returned (some future) => future.completion.bind fun c => outcomeAnswer env c.2

variable (h : RoutingOperationHandler)

/-- The answer when a method returns its result. -/
def syncAnswer : Invocation E (Option O) → Option (Answer E O V)
  | .refused => errorAnswer env request .invocationRefused
  | .threw e => errorAnswer env request (.invocationTargetException e)
  | .returned value =>
    if h.hasValidReturnType then
      match env.setBody value with
      | .ok () => some (.completed (some value))
      | .error e => errorAnswer env request (.throwable e)
    else some (.completed none)

/-- The answer when the arguments of the method were found. -/
def methodAnswer (inputs : List (Argument O)) : Option (Answer E O V) :=
  if h.httpMethod.asyncApi then asyncAnswer env request (env.invokeAsync inputs)
  else syncAnswer env request h (env.invoke inputs)

/-- **The answer to a request.** -/
def answerOf : Option (Answer E O V) :=
  match h.methodInputs env request with
  | .error error => inputErrorAnswer env request error
  | .ok inputs => h.methodAnswer env request inputs

/-! ## The handler gives that answer -/

/-- The request once the method was invoked. -/
def invoked (inputs : List (Argument O)) : Progress E O V :=
  { logged with invocations := [inputs] }

variable {request h} {p : Progress E O V}

/-- Making an error response, by whether it can be made. -/
theorem responseFrom_run_eq (e : Option E) (p : Progress E O V) :
    (∃ rsp, responseTo env e = some rsp ∧ (responseFrom env e).run p = .ok rsp p) ∨
      responseTo env e = none ∧ ∃ error, (responseFrom env e).run p = .error error p ∧
        (e ≠ none → isException env error = false) := by
  cases e with
  | none =>
      rw [responseTo, HttpErrorResponse.fromThrowable_none]
      exact .inr ⟨rfl, _, responseFrom_none_run env, fun h => absurd rfl h⟩
  | some e =>
      rcases HttpErrorResponse.fromThrowable_cases env.throwables env.stack e with
        ⟨-, rsp, hrsp⟩ | ⟨-, herror⟩
      · refine .inl ⟨rsp, by rw [responseTo, hrsp]; rfl, ?_⟩
        rw [responseFrom, hrsp]
        rfl
      · refine .inr ⟨by rw [responseTo, herror]; rfl, .stackOverflowError, ?_, fun _ => rfl⟩
        rw [responseFrom, herror]
        rfl

/-- A callback adds its answer, if it is the one for the outcome and does not throw. -/
def callbackAnswer (o : FutureOutcome E O) (c : Callback) :
    Option (Answer E O V) :=
  if Callback.IsFor c o then outcomeAnswer env o else none

/-- Where the parts of the handler leave a request: what was invoked, what is known of the future,
and the answers given. -/
structure Reached (invocations : List (List (Argument O))) (outcome : Option (FutureOutcome E O))
    (callbacks : List Callback) (later : Option (FutureOutcome E O))
    (answers : List (Answer E O V)) (p : Progress E O V) : Prop where
  invocations_eq : p.invocations = invocations
  outcome_eq : p.outcome = outcome
  callbacks_eq : p.callbacks = callbacks
  later_eq : p.later = later
  answers_eq : p.answers = answers

variable {invocations : List (List (Argument O))} {outcome later : Option (FutureOutcome E O)}
  {callbacks : List Callback} {answers : List (Answer E O V)}

/-- **A callback returns**, and adds its answer. -/
theorem runCallback_reaches (hp : Reached invocations outcome callbacks later answers p)
    (o : FutureOutcome E O) (c : Callback) :
    ∃ p', (runCallback env o c).run p = .ok () p' ∧
      Reached invocations outcome callbacks later (answers ++ (callbackAnswer env o c).toList) p' := by
  have hstays : ∃ p', (pure () : HandlerM E O V Unit).run p = .ok () p' ∧
      Reached invocations outcome callbacks later (answers ++ (none : Option (Answer E O V)).toList) p' :=
    ⟨p, rfl, by simpa using hp⟩
  cases c with
  | exceptionally =>
      cases o with
      | value v => exact hstays
      | failure e =>
          rcases responseFrom_run_eq env (failureCause env e) p with
            ⟨rsp, hsome, hrun⟩ | ⟨hnone, error, hrun, -⟩
          · have hfail : (callback env .exceptionally (.failure e)).run p = .ok () { p with
                nestedCompletions := 0
                answers := p.answers ++
                  [.failed ((failureCause env e).map .throwable) (.response rsp)] } := by
              rw [callback, bind_run_ok hrun]
              rfl
            refine ⟨_, tryCatch_run_ok hfail, hp.1, hp.2, hp.3, hp.4, ?_⟩
            simp [callbackAnswer, Callback.IsFor, outcomeAnswer, hsome, hp.5]
          · refine ⟨p, runCallback_run_error (e := error) ?_, ?_⟩
            · rw [callback, bind_run_error hrun]
            · simpa [callbackAnswer, Callback.IsFor, outcomeAnswer, hnone] using hp
  | thenAccept =>
      cases o with
      | failure e => exact hstays
      | value v =>
          cases hset : env.setBody v with
          | ok u =>
              have hbody : (setBody env v).run p = .ok () { p with body := some v } := by
                rw [setBody, hset]
                rfl
              have hcomplete : (callback env .thenAccept (.value v)).run p = .ok () { p with
                  body := some v
                  nestedCompletions := 0
                  answers := p.answers ++ [.completed (some v)] } := by
                rw [callback, bind_run_ok hbody]
                rfl
              refine ⟨_, tryCatch_run_ok hcomplete, hp.1, hp.2, hp.3, hp.4, ?_⟩
              simp [callbackAnswer, Callback.IsFor, outcomeAnswer, hset, hp.5]
          | error e =>
              refine ⟨p, runCallback_run_error (e := .throwable e) ?_, ?_⟩
              · have hbody : (setBody env v).run p = .error (.throwable e) p := by
                  rw [setBody, hset]
                  rfl
                rw [callback, bind_run_error hbody]
              · simpa [callbackAnswer, Callback.IsFor, outcomeAnswer, hset] using hp

/-- The answers of callbacks that run one after the other. -/
theorem forM_runCallback_reaches (hp : Reached invocations outcome callbacks later answers p)
    (o : FutureOutcome E O) (cs : List Callback) :
    ∃ p', (cs.forM (runCallback env o)).run p = .ok () p' ∧
      Reached invocations outcome callbacks later
        (answers ++ cs.flatMap fun c => (callbackAnswer env o c).toList) p' := by
  induction cs generalizing p answers with
  | nil => exact ⟨p, rfl, by simpa using hp⟩
  | cons c cs ih =>
      obtain ⟨p₁, hrun, hp₁⟩ := runCallback_reaches env hp o c
      obtain ⟨p', hruns, hp'⟩ := ih hp₁
      refine ⟨p', (bind_run_ok hrun).trans hruns, ?_⟩
      rwa [List.flatMap_cons, ← List.append_assoc]

/-- A callback attached to a future that has completed runs at once. -/
theorem attach_reaches_known {o : FutureOutcome E O}
    (hp : Reached invocations (some o) callbacks later answers p) (c : Callback) :
    ∃ p', (attach env c).run p = .ok () p' ∧ Reached invocations (some o) callbacks later
      (answers ++ (callbackAnswer env o c).toList) p' := by
  obtain ⟨p', hrun, hp'⟩ := runCallback_reaches env hp o c
  refine ⟨p', ?_, hp'⟩
  rw [attach, bind_run_ok (rfl : (get : HandlerM E O V _).run p = .ok p p), hp.outcome_eq]
  exact hrun

/-- A callback attached to a future that is still to complete waits. -/
theorem attach_reaches_waiting (hp : Reached invocations none callbacks later answers p)
    (c : Callback) : ∃ p', (attach env c).run p = .ok () p' ∧
      Reached invocations none (c :: callbacks) later answers p' := by
  refine ⟨{ p with callbacks := c :: p.callbacks }, ?_, hp.1, hp.2, by rw [hp.3], hp.4, hp.5⟩
  rw [attach, bind_run_ok (rfl : (get : HandlerM E O V _).run p = .ok p p)]
  split
  · rename_i o ho
    exact absurd (hp.outcome_eq.symm.trans ho) (Option.some_ne_none o).symm
  · rfl

/-- A future that completes runs the callbacks that wait. -/
theorem completeFuture_reaches (hp : Reached invocations none callbacks later answers p)
    (o : FutureOutcome E O) :
    ∃ p', (completeFuture env o).run p = .ok () p' ∧ Reached invocations (some o) [] later
      (answers ++ callbacks.flatMap fun c => (callbackAnswer env o c).toList) p' := by
  have hset : Reached invocations (some o) [] later answers
      { p with outcome := some o, callbacks := [] } := ⟨hp.1, rfl, rfl, hp.4, hp.5⟩
  obtain ⟨p', hrun, hp'⟩ := forM_runCallback_reaches env hset o callbacks
  refine ⟨p', ?_, hp'⟩
  rw [← hp.callbacks_eq] at hrun
  exact hrun

/-- Both callbacks together give the answer to an outcome, in either order. -/
theorem callbackAnswer_append (o : FutureOutcome E O) :
    (callbackAnswer env o .exceptionally).toList ++ (callbackAnswer env o .thenAccept).toList =
        (outcomeAnswer env o).toList ∧
      (callbackAnswer env o .thenAccept).toList ++ (callbackAnswer env o .exceptionally).toList =
        (outcomeAnswer env o).toList := by
  cases o <;> simp [callbackAnswer, Callback.IsFor]

/-- How a request stands in the end. -/
structure Finished (invocations : List (List (Argument O))) (answers : List (Answer E O V))
    (p : Progress E O V) : Prop where
  invocations_eq : p.invocations = invocations
  answers_eq : p.answers = answers

/-- When no completion is to come, nothing more happens. -/
theorem Reached.finished (hp : Reached invocations outcome callbacks none answers p) :
    Finished invocations answers (afterAccept env p) := by
  rw [afterAccept, hp.later_eq]
  exact ⟨hp.invocations_eq, hp.answers_eq⟩

/-- When a completion is to come, the callbacks that wait answer then. -/
theorem Reached.finished_later {o : FutureOutcome E O}
    (hp : Reached invocations none callbacks (some o) answers p) :
    Finished invocations (answers ++ callbacks.flatMap fun c => (callbackAnswer env o c).toList)
      (afterAccept env p) := by
  obtain ⟨p', hrun, hp'⟩ := completeFuture_reaches env hp o
  rw [afterAccept, hp.later_eq]
  simp only [hrun, finalState_ok]
  exact ⟨hp'.invocations_eq, hp'.answers_eq⟩

omit [DecidableEq E] in
/-- The last step of attaching the callbacks. -/
theorem Reached.withLater (hp : Reached invocations outcome callbacks later answers p)
    (later' : Option (FutureOutcome E O)) :
    Reached invocations outcome callbacks later' answers { p with later := later' } :=
  ⟨hp.1, hp.2, hp.3, rfl, hp.5⟩

/-- **A future that a method returned** is answered by its outcome, whenever that is known. -/
theorem attachCallbacks_finishes (future : Future E O)
    (hp : Reached invocations none [] none [] p) :
    ∃ p', (attachCallbacks env future).run p = .ok () p' ∧
      Finished invocations (future.completion.bind fun c => outcomeAnswer env c.2).toList
        (afterAccept env p') := by
  have hnot : ∀ moment, (∀ o, future.completion ≠ some (moment, o)) → ∀ p : Progress E O V,
      (completeAt env future moment).run p = .ok () p := fun moment h p => completeAt_run_eq_self env h
  rcases hc : future.completion with _ | ⟨moment, o⟩
  · -- the callbacks wait for ever
    obtain ⟨p₁, hrun₁, hp₁⟩ := attach_reaches_waiting env hp .exceptionally
    obtain ⟨p₂, hrun₂, hp₂⟩ := attach_reaches_waiting env hp₁ .thenAccept
    refine ⟨_, ?_, (hp₂.withLater none).finished env⟩
    rw [attachCallbacks, bind_run_ok (hnot _ (by simp [hc]) _), bind_run_ok hrun₁,
      bind_run_ok (hnot _ (by simp [hc]) _), bind_run_ok hrun₂, hc]
    rfl
  · obtain ⟨hfirst, hlast⟩ := callbackAnswer_append env o
    cases moment with
    | beforeCallbacks =>
        obtain ⟨p₁, hrun₁, hp₁⟩ := completeFuture_reaches env hp o
        obtain ⟨p₂, hrun₂, hp₂⟩ := attach_reaches_known env hp₁ .exceptionally
        obtain ⟨p₃, hrun₃, hp₃⟩ := attach_reaches_known env hp₂ .thenAccept
        refine ⟨{ p₃ with later := none }, ?_, ?_⟩
        · rw [attachCallbacks, completeAt_eq env hc, bind_run_ok hrun₁, bind_run_ok hrun₂,
            bind_run_ok (hnot _ (by simp [hc]) _), bind_run_ok hrun₃, hc]
          rfl
        · simpa [hfirst] using (hp₃.withLater none).finished env
    | betweenCallbacks =>
        obtain ⟨p₁, hrun₁, hp₁⟩ := attach_reaches_waiting env hp .exceptionally
        obtain ⟨p₂, hrun₂, hp₂⟩ := completeFuture_reaches env hp₁ o
        obtain ⟨p₃, hrun₃, hp₃⟩ := attach_reaches_known env hp₂ .thenAccept
        refine ⟨{ p₃ with later := none }, ?_, ?_⟩
        · rw [attachCallbacks, bind_run_ok (hnot _ (by simp [hc]) _), bind_run_ok hrun₁,
            completeAt_eq env hc, bind_run_ok hrun₂, bind_run_ok hrun₃, hc]
          rfl
        · simpa [hfirst] using (hp₃.withLater none).finished env
    | afterAccept =>
        obtain ⟨p₁, hrun₁, hp₁⟩ := attach_reaches_waiting env hp .exceptionally
        obtain ⟨p₂, hrun₂, hp₂⟩ := attach_reaches_waiting env hp₁ .thenAccept
        refine ⟨{ p₂ with later := some o }, ?_, ?_⟩
        · rw [attachCallbacks, bind_run_ok (hnot _ (by simp [hc]) _), bind_run_ok hrun₁,
            bind_run_ok (hnot _ (by simp [hc]) _), bind_run_ok hrun₂, hc]
          rfl
        · simpa [hlast] using (hp₂.withLater (some o)).finished_later env

/-! ## Whole requests -/

omit [DecidableEq E] in
/-- The request once the logging completion is nested. -/
theorem reached_logged : Reached [] none [] none [] (logged : Progress E O V) :=
  ⟨rfl, rfl, rfl, rfl, rfl⟩

omit [DecidableEq E] in
/-- The request once the method was invoked. -/
theorem reached_invoked (inputs : List (Argument O)) :
    Reached [inputs] none [] none [] (invoked inputs : Progress E O V) :=
  ⟨rfl, rfl, rfl, rfl, rfl⟩

omit [DecidableEq E] in
/-- Invoking the method records the invocation. -/
theorem invoke_run_logged {α : Type} (method : List (Argument O) → Invocation E α)
    (inputs : List (Argument O)) :
    (invoke method inputs : HandlerM E O V α).run logged =
      match method inputs with
      | .refused => .error .invocationRefused (invoked inputs)
      | .threw e => .error (.invocationTargetException e) (invoked inputs)
      | .returned value => .ok value (invoked inputs) := by
  unfold invoke
  cases method inputs <;> rfl

/-- When the body of `accept` throws, the exception is answered. -/
theorem handle_of_error_finishes {error : Thrown E V}
    (hrun : (h.tryAccept env request).run .start = .error error p)
    (hp : Reached invocations none [] none [] p) :
    Finished invocations (errorAnswer env request error).toList (h.handle env request) := by
  rw [handle, accept, tryCatch_run_error hrun]
  by_cases he : isException env error
  · have hfailed : Reached invocations none [] none
        [.failed (some error) (.text (failureText request))]
        { p with
          nestedCompletions := 0
          answers := p.answers ++ [.failed (some error) (.text (failureText request))] } :=
      ⟨hp.1, hp.2, hp.3, hp.4, by rw [hp.5]; rfl⟩
    rw [if_pos he, errorAnswer, if_pos he]
    exact hfailed.finished env
  · rw [if_neg he, errorAnswer, if_neg he, throw_run, finalState_error]
    exact hp.finished env

/-- When the body of `accept` calls `fail`, that is the answer. -/
theorem handle_of_fail_finishes {error : Option (Thrown E V)} {body : FailureBody O}
    (hrun : (h.tryAccept env request).run .start = (fail error body).run p)
    (hp : Reached invocations none [] none [] p) :
    Finished invocations [.failed error body] (h.handle env request) := by
  rw [handle_of_ok env hrun]
  have hfailed : Reached invocations none [] none [.failed error body]
      { p with nestedCompletions := 0, answers := p.answers ++ [.failed error body] } :=
    ⟨hp.1, hp.2, hp.3, hp.4, by rw [hp.5]; rfl⟩
  exact hfailed.finished env

/-- **What is thrown while the arguments are found** has its answer, and nothing is invoked. -/
theorem handle_inputError_finishes (hop : h.hasOperationAsAnArgument = false) {error : Thrown E V}
    (hinputs : h.methodInputs env request = .error error) :
    Finished [] (inputErrorAnswer env request error).toList (h.handle env request) := by
  have hrun := tryAccept_run env h request hop
  rw [hinputs] at hrun
  cases error with
  | constraintViolations violations => exact handle_of_fail_finishes env hrun reached_logged
  | throwable e =>
      simp only [catchHttpError] at hrun
      simp only [inputErrorAnswer]
      by_cases he : (env.throwables e).isHttpError
      · rw [if_pos he] at hrun ⊢
        rcases responseFrom_run_eq env (some e) (logged : Progress E O V) with
          ⟨rsp, hsome, hresponse⟩ | ⟨hnone, error, hresponse, hexception⟩
        · rw [bind_run_ok hresponse] at hrun
          rw [hsome]
          exact handle_of_fail_finishes env hrun reached_logged
        · -- making the response overflows the stack, and that `Error` passes
          rw [bind_run_error hresponse] at hrun
          have hfinished := handle_of_error_finishes env hrun reached_logged
          rw [errorAnswer, if_neg (by simp [hexception])] at hfinished
          rwa [hnone]
      · rw [if_neg he] at hrun ⊢
        exact handle_of_error_finishes env hrun reached_logged
  | _ => exact handle_of_error_finishes env hrun reached_logged

/-- **A method that returns its result** is answered. -/
theorem handle_sync_finishes (hop : h.hasOperationAsAnArgument = false)
    (hasync : h.httpMethod.asyncApi = false) {inputs : List (Argument O)}
    (hinputs : h.methodInputs env request = .ok inputs) :
    Finished [inputs] (syncAnswer env request h (env.invoke inputs)).toList
      (h.handle env request) := by
  have hrun := tryAccept_run env h request hop
  have hinvoke := invoke_run_logged (V := V) env.invoke inputs
  rw [hinputs] at hrun
  simp only [hasync, Bool.false_eq_true, if_false] at hrun
  cases hres : env.invoke inputs with
  | refused =>
      rw [hres] at hinvoke
      exact handle_of_error_finishes env (hrun.trans (bind_run_error hinvoke)) (reached_invoked inputs)
  | threw e =>
      rw [hres] at hinvoke
      exact handle_of_error_finishes env (hrun.trans (bind_run_error hinvoke)) (reached_invoked inputs)
  | returned value =>
      rw [hres] at hinvoke
      have hrun := hrun.trans (bind_run_ok hinvoke)
      simp only [syncAnswer]
      by_cases hvalid : h.hasValidReturnType
      · simp only [if_pos hvalid] at hrun ⊢
        cases hset : env.setBody value with
        | ok u =>
            have hbody : (setBody env value).run (invoked inputs : Progress E O V) =
                .ok () { (invoked inputs : Progress E O V) with body := some value } := by
              rw [setBody, hset]
              rfl
            rw [handle_of_ok env (hrun.trans (bind_run_ok hbody))]
            exact Reached.finished env ⟨rfl, rfl, rfl, rfl, rfl⟩
        | error e =>
            have hbody : (setBody env value).run (invoked inputs : Progress E O V) =
                .error (.throwable e) (invoked inputs) := by
              rw [setBody, hset]
              rfl
            exact handle_of_error_finishes env (hrun.trans (bind_run_error hbody))
              (reached_invoked inputs)
      · simp only [if_neg hvalid] at hrun ⊢
        rw [handle_of_ok env hrun]
        exact Reached.finished env ⟨rfl, rfl, rfl, rfl, rfl⟩

/-- **A method that returns a future** is answered by the outcome of its future. -/
theorem handle_async_finishes (hop : h.hasOperationAsAnArgument = false)
    (hasync : h.httpMethod.asyncApi = true) {inputs : List (Argument O)}
    (hinputs : h.methodInputs env request = .ok inputs) :
    Finished [inputs] (asyncAnswer env request (env.invokeAsync inputs)).toList
      (h.handle env request) := by
  have hrun := tryAccept_run env h request hop
  have hinvoke := invoke_run_logged (V := V) env.invokeAsync inputs
  rw [hinputs] at hrun
  simp only [hasync, if_true] at hrun
  cases hres : env.invokeAsync inputs with
  | refused =>
      rw [hres] at hinvoke
      exact handle_of_error_finishes env (hrun.trans (bind_run_error hinvoke)) (reached_invoked inputs)
  | threw e =>
      rw [hres] at hinvoke
      exact handle_of_error_finishes env (hrun.trans (bind_run_error hinvoke)) (reached_invoked inputs)
  | returned value =>
      rw [hres] at hinvoke
      have hrun := hrun.trans (bind_run_ok hinvoke)
      cases value with
      | none => exact handle_of_error_finishes env hrun (reached_invoked inputs)
      | some future =>
          obtain ⟨p', hattach, hfinished⟩ :=
            attachCallbacks_finishes env future (reached_invoked (V := V) inputs)
          rw [handle_of_ok env (hrun.trans hattach)]
          exact hfinished

/-! ## Futures at other moments -/

/-- An invocation that returned a future, if it did, with another one in its place. -/
def Invocation.withFuture (retime : Future E O → Future E O) :
    Invocation E (Option (Future E O)) → Invocation E (Option (Future E O))
  | .returned (some future) => .returned (some (retime future))
  | invocation => invocation

/-- The same surroundings, in which the futures of the method complete at other moments. -/
def retimed (retime : Future E O → Future E O) : Surroundings E O V :=
  { env with invokeAsync := fun inputs => Invocation.withFuture retime (env.invokeAsync inputs) }

/-- The answer does not depend on when the futures complete. -/
theorem answerOf_retimed {retime : Future E O → Future E O}
    (hretime : ∀ future, (retime future).completion.map Prod.snd = future.completion.map Prod.snd) :
    h.answerOf (retimed env retime) request = h.answerOf env request := by
  have hinputs : h.methodInputs (retimed env retime) request = h.methodInputs env request := rfl
  have hasync : ∀ invocation, asyncAnswer (retimed env retime) request
      (Invocation.withFuture retime invocation) = asyncAnswer env request invocation := by
    intro invocation
    cases invocation with
    | returned future =>
        cases future with
        | none => rfl
        | some future =>
            have hmap := congrArg (Option.bind · (outcomeAnswer (V := V) env)) (hretime future)
            simp only [Option.bind_map, Function.comp_def] at hmap
            exact hmap
    | _ => rfl
  rw [answerOf, answerOf, hinputs]
  cases h.methodInputs env request with
  | error error => rfl
  | ok inputs =>
      simp only [methodAnswer]
      split
      · exact hasync (env.invokeAsync inputs)
      · rfl

/-- **What the client is told is a function of what the parts around the handler do.** For every
method that does not receive the operation, every surroundings and every request: the calls of
`complete` and `fail` in the whole handling are the one value of `answerOf`, or none; the method is
invoked once with the arguments found, or not at all; and futures that complete at other moments,
before, between or after the callbacks are attached, lead to the same answers. -/
theorem handle_eq_answerOf (hop : h.hasOperationAsAnArgument = false) :
    (h.handle env request).answers = (h.answerOf env request).toList ∧
      (h.handle env request).invocations = (h.methodInputs env request).toOption.toList ∧
      ∀ retime : Future E O → Future E O,
        (∀ future, (retime future).completion.map Prod.snd = future.completion.map Prod.snd) →
          (h.handle (retimed env retime) request).answers = (h.handle env request).answers := by
  have hfinished : ∀ env : Surroundings E O V,
      Finished (h.methodInputs env request).toOption.toList (h.answerOf env request).toList
        (h.handle env request) := by
    intro env
    rw [answerOf]
    cases hinputs : h.methodInputs env request with
    | error error => exact handle_inputError_finishes env hop hinputs
    | ok inputs =>
        simp only [methodAnswer]
        cases hasync : h.httpMethod.asyncApi with
        | true => exact handle_async_finishes env hop hasync hinputs
        | false => exact handle_sync_finishes env hop hasync hinputs
  refine ⟨(hfinished env).answers_eq, (hfinished env).invocations_eq, fun retime hretime => ?_⟩
  rw [(hfinished _).answers_eq, (hfinished env).answers_eq, answerOf_retimed env hretime]

/-- A method without parameters whose future has a value answers with that value. -/
theorem handle_eq_answerOf_status :
    (statusHandler.handle (statusSurroundings (.value none)) statusRequest).answers =
      [.completed (some none)] :=
  (handle_eq_answerOf (h := statusHandler) (statusSurroundings (.value none)) rfl).1

end RoutingOperationHandler

end XenonExt
