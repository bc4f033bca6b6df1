import XenonExt.Effects.Traced
import XenonExt.JaxRs.MethodInfo
import XenonExt.Util.HttpErrorResponse

/-! # Handling a routed request

`RoutingOperationHandler.accept` finds the arguments of a method in a request, invokes the method
and answers the request: at once, or when the future the method returned completes.

* **`findMethodInputs`**: the arguments, or the exception that is thrown instead.
* **`accept`**: the handler, on the operations of Xenon, the validator and the invoked method, which
  are parameters (`Surroundings`).
* **`handle`**: a whole request, up to the callbacks of a future that completes later. -/

namespace XenonExt

variable {E O V : Type}

/-- The operation of a request, as the handler reads it. -/
structure Request where
  action : Action
  uri : Uri
  cookies : Option (Str → JString)
  requestHeaders : Str → JString

/-- An argument for the invoked method. -/
inductive Argument (O : Type)
  | text (value : JString)
  | operation
  | body (value : Option O)

/-- How `Method.invoke` ends: reflection refuses the arguments, the method throws, or it returns. -/
inductive Invocation (E α : Type)
  | refused
  | threw (e : E)
  | returned (value : α)

/-- How a future completes. -/
inductive FutureOutcome (E O : Type)
  | value (value : Option O)
  | failure (e : E)

/-- When a future completes, seen from the handler. -/
inductive Moment
  | beforeCallbacks
  | betweenCallbacks
  | afterAccept
  deriving DecidableEq, Repr

/-- A `CompletableFuture` the method returned: when it completes and how, if it ever does. -/
structure Future (E O : Type) where
  completion : Option (Moment × FutureOutcome E O)

/-- What a handler can throw, or pass to `fail`: an object thrown by a part that it calls, or one
that it, or the language, makes. -/
inductive Thrown (E V : Type)
  | throwable (e : E)
  | constraintViolations (violations : List V)
  | invocationTargetException (e : E)
  | invocationRefused
  | malformedQuery
  | nullPointerException
  | stackOverflowError

/-- The parts that the handler calls: Xenon's `UriUtils` and operation, the validator, the method,
and what the throwables are that these throw. The stack has room for `stack` more calls of
`HttpErrorResponse.from`. -/
structure Surroundings (E O V : Type) where
  uriUtils : UriUtils
  getBody : JString → Except E (Option O)
  validate : Option O → Except E (List V)
  setBody : Option O → Except E Unit
  invoke : List (Argument O) → Invocation E (Option O)
  invokeAsync : List (Argument O) → Invocation E (Option (Future E O))
  throwables : E → ThrowableObject E O
  violationSet : List V → O
  stackTrace : List StackTraceElement
  stack : Nat

/-- The body of a failed operation. -/
inductive FailureBody (O : Type)
  | response (rsp : HttpErrorResponse O)
  | text (message : Str)

/-- An answer to a request: `complete`, with the body set before, or `fail`. -/
inductive Answer (E O V : Type)
  | completed (body : Option (Option O))
  | failed (error : Option (Thrown E V)) (body : FailureBody O)

/-- The callbacks the handler attaches to a future. -/
inductive Callback
  | exceptionally
  | thenAccept
  deriving DecidableEq, Repr

/-- How far a request has been handled: the completions nested in the operation, its body, the calls
of `complete` and `fail`, the invocations of the method, and the future with its callbacks. -/
structure Progress (E O V : Type) where
  nestedCompletions : Nat
  body : Option (Option O)
  answers : List (Answer E O V)
  invocations : List (List (Argument O))
  outcome : Option (FutureOutcome E O)
  callbacks : List Callback
  later : Option (FutureOutcome E O)

/-- A request that has just been received. -/
def Progress.start : Progress E O V := ⟨0, none, [], [], none, [], none⟩

/-- Code of the handler. -/
abbrev HandlerM (E O V : Type) := EStateM (Thrown E V) (Progress E O V)

/-- `RoutingOperationHandler`. -/
structure RoutingOperationHandler where
  path : Str
  httpMethod : MethodInfo

/-- The text of an action. -/
def Action.text : Action → Str
  | .post => "POST".toList
  | .patch => "PATCH".toList
  | .put => "PUT".toList
  | .delete => "DELETE".toList
  | .get => "GET".toList
  | .options => "OPTIONS".toList

namespace RoutingOperationHandler

/-! ## What `init` computes -/

variable (h : RoutingOperationHandler)

/-- The method receives the operation, and answers it itself. -/
def hasOperationAsAnArgument : Bool := h.httpMethod.parameters.any fun p => p.type = .operation

/-- Holds for methods that are not `void`. -/
def hasValidReturnType : Bool := h.httpMethod.method.returnClass ≠ .void

/-- How many tokens of the path come before those of the template of the method. -/
def resourcePathOffset : Int :=
  (split uriPathChar h.path).length -
    (h.httpMethod.uriPath.map fun uriPath => (split uriPathChar uriPath).length).getD 0

/-! ## The arguments of the method -/

/-- `parsePathValues`: the tokens of the path of a request. -/
def parsePathValues (u : UriUtils) (uri : Uri) : List Str :=
  split uriPathChar (u.normalizeUriPath uri.path)

/-- The value at an index of the path. -/
def pathValue (pathValues : List Str) (index : Int) : JString :=
  if 0 ≤ index then pathValues[index.toNat]? else none

/-- The argument for one parameter, and the constraints that it violates. -/
def findMethodInput (env : Surroundings E O V) (request : Request) (queryParams : Str → JString)
    (pathValues : List Str) (p : ParamMetadata) : Except (Thrown E V) (Argument O × List V) :=
  match p.type with
  | .query => .ok (.text (p.name.bind queryParams), [])
  | .header => .ok (.text (p.name.bind request.requestHeaders), [])
  | .cookie => .ok (.text (request.cookies.bind fun cookies => p.name.bind cookies), [])
  | .path =>
    let index := (p.name.bind h.httpMethod.pathParamsVsUriIndex.lookup).map Int.ofNat |>.getD (-1)
    .ok (.text (pathValue pathValues (index + h.resourcePathOffset)), [])
  | .operation => .ok (.operation, [])
  | .body => do
    let body ← (env.getBody p.paramterType).mapError .throwable
    let violations ← (env.validate body).mapError .throwable
    .ok (.body body, violations)

/-- `findMethodInputs`: the arguments for all parameters, unless one of them cannot be found or
violates a constraint. -/
def findMethodInputs (env : Surroundings E O V) (request : Request) (queryParams : Str → JString)
    (pathValues : List Str) : Except (Thrown E V) (List (Argument O)) := do
  let inputs ← h.httpMethod.parameters.mapM
    (h.findMethodInput env request queryParams pathValues)
  let violations := inputs.flatMap Prod.snd
  if violations = [] then .ok (inputs.map Prod.fst) else .error (.constraintViolations violations)

/-- The arguments of the method for a request, or what is thrown while they are read. -/
def methodInputs (env : Surroundings E O V) (request : Request) :
    Except (Thrown E V) (List (Argument O)) :=
  match env.uriUtils.parseUriQueryParams request.uri with
  | none => .error .malformedQuery
  | some queryParams =>
    h.findMethodInputs env request queryParams (parsePathValues env.uriUtils request.uri)

/-! ## Answering -/

/-- `nestCompletion` of the logging completion. -/
def doLogging : HandlerM E O V Unit :=
  modify fun p => { p with nestedCompletions := p.nestedCompletions + 1 }

/-- A call of `complete` or `fail`: the completions nested in the operation run, and the logging
completion passes the answer on. -/
def answer (a : Answer E O V) : HandlerM E O V Unit :=
  modify fun p => { p with nestedCompletions := 0, answers := p.answers ++ [a] }

/-- `operation.complete()`. -/
def complete : HandlerM E O V Unit := do
  answer (.completed (← get).body)

/-- `operation.fail(error, body)`. -/
def fail (error : Option (Thrown E V)) (body : FailureBody O) : HandlerM E O V Unit :=
  answer (.failed error body)

/-- `operation.setBody(body)`. -/
def setBody (env : Surroundings E O V) (body : Option O) : HandlerM E O V Unit :=
  match env.setBody body with
  | .ok () => modify fun p => { p with body := some body }
  | .error e => throw (.throwable e)

variable [DecidableEq E]

/-- The `HttpError` for violated constraints. -/
def constraintError (env : Surroundings E O V) (violations : List V) : ThrowableObject E O where
  typeName := "com.tteky.xenonext.util.HttpError".toList
  throwableClass := .httpError
    { errorCode := 400
      developerMessage :=
        some "Constraint violations occurred while validating input request".toList
      context := some [("Constraints".toList, env.violationSet violations)]
      originalType := none }
  message := some "Constraint violations occurred while validating input request".toList
  cause := none
  stackTrace := env.stackTrace

/-- `HttpErrorResponse.from(e)`. -/
def responseFrom (env : Surroundings E O V) (e : Option E) :
    HandlerM E O V (HttpErrorResponse O) :=
  match HttpErrorResponse.fromThrowable env.throwables env.stack e with
  | .ok rsp => pure rsp
  | .error .nullPointerException => throw .nullPointerException
  | .error .stackOverflowError => throw .stackOverflowError

/-- `catch (HttpError error)` around `findMethodInputs`; other exceptions pass. -/
def catchHttpError (env : Surroundings E O V) : Thrown E V → HandlerM E O V Unit
  | .constraintViolations violations =>
    fail (some (.constraintViolations violations))
      (.response (HttpErrorResponse.response (constraintError env violations) none))
  | .throwable e =>
    if (env.throwables e).isHttpError then do
      let rsp ← responseFrom env (some e)
      fail (some (.throwable e)) (.response rsp)
    else throw (.throwable e)
  | error => throw error

/-- `instanceof Exception`. -/
def isException (env : Surroundings E O V) : Thrown E V → Bool
  | .throwable e => (env.throwables e).isException
  | .stackOverflowError => false
  | _ => true

/-! ## Invoking the method -/

/-- `Method.invoke`, which wraps what the method throws. -/
def invoke {α : Type} (method : List (Argument O) → Invocation E α)
    (methodInputs : List (Argument O)) : HandlerM E O V α := do
  modify fun p => { p with invocations := p.invocations ++ [methodInputs] }
  match method methodInputs with
  | .refused => throw .invocationRefused
  | .threw e => throw (.invocationTargetException e)
  | .returned value => pure value

/-- `invokeMethodAndSetBody`. -/
def invokeMethodAndSetBody (env : Surroundings E O V) (methodInputs : List (Argument O)) :
    HandlerM E O V Unit := do
  let invocationResult ← invoke env.invoke methodInputs
  if h.hasValidReturnType then setBody env invocationResult

/-- `invokeMethodAndHandleOperationSync`. -/
def invokeMethodAndHandleOperationSync (env : Surroundings E O V)
    (methodInputs : List (Argument O)) : HandlerM E O V Unit := do
  let invocationResult ← invoke env.invoke methodInputs
  if h.hasValidReturnType then setBody env invocationResult
  complete

/-- The throwable that the callback for failures passes to `fail`: the cause of a
`CompletionException` or an `ExecutionException`, else the throwable itself. -/
def failureCause (env : Surroundings E O V) (e : E) : Option E :=
  match (env.throwables e).throwableClass with
  | .completionException | .executionException => (env.throwables e).cause
  | _ => some e

/-- The body of a callback; it does nothing for the outcome that it is not for. -/
def callback (env : Surroundings E O V) : Callback → FutureOutcome E O → HandlerM E O V Unit
  | .exceptionally, .failure e => do
    let rsp ← responseFrom env (failureCause env e)
    fail ((failureCause env e).map .throwable) (.response rsp)
  | .thenAccept, .value value => do
    setBody env value
    complete
  | _, _ => pure ()

/-- Run a callback; the derived future captures what it throws. -/
def runCallback (env : Surroundings E O V) (outcome : FutureOutcome E O) (c : Callback) :
    HandlerM E O V Unit :=
  tryCatch (callback env c outcome) fun _ => pure ()

/-- Attach a callback to the future: it runs at once when the future has completed. -/
def attach (env : Surroundings E O V) (c : Callback) : HandlerM E O V Unit := do
  match (← get).outcome with
  | some outcome => runCallback env outcome c
  | none => modify fun p => { p with callbacks := c :: p.callbacks }

/-- The future completes: the callbacks attached so far run, the last one first. -/
def completeFuture (env : Surroundings E O V) (outcome : FutureOutcome E O) :
    HandlerM E O V Unit := do
  let p ← get
  set { p with outcome := some outcome, callbacks := [] }
  p.callbacks.forM (runCallback env outcome)

/-- The future completes, if this is the moment. -/
def completeAt (env : Surroundings E O V) (future : Future E O) (moment : Moment) :
    HandlerM E O V Unit :=
  match future.completion with
  | some (m, outcome) => if m = moment then completeFuture env outcome else pure ()
  | none => pure ()

/-- Attach both callbacks to the future; it may complete before, between and after that. -/
def attachCallbacks (env : Surroundings E O V) (future : Future E O) : HandlerM E O V Unit := do
  completeAt env future .beforeCallbacks
  attach env .exceptionally
  completeAt env future .betweenCallbacks
  attach env .thenAccept
  modify fun p => { p with later := future.completion.bind fun c =>
    if c.1 = .afterAccept then some c.2 else none }

/-- `invokeMethodAndHandleOperationAsync`; without a future, `future.exceptionally` throws. -/
def invokeMethodAndHandleOperationAsync (env : Surroundings E O V)
    (methodInputs : List (Argument O)) : HandlerM E O V Unit := do
  match ← invoke env.invokeAsync methodInputs with
  | none => throw .nullPointerException
  | some future => attachCallbacks env future

/-! ## The handler -/

/-- The text for an operation that failed with an exception. -/
def failureText (request : Request) : Str :=
  "Failed to execute ".toList ++ request.action.text ++ " handler on ".toList ++
    request.uri.path ++ " ".toList

/-- The body of `accept`, inside its `try`. -/
def tryAccept (env : Surroundings E O V) (request : Request) : HandlerM E O V Unit := do
  doLogging
  let queryParams ← orRaise .malformedQuery (env.uriUtils.parseUriQueryParams request.uri)
  let pathValues := parsePathValues env.uriUtils request.uri
  match h.findMethodInputs env request queryParams pathValues with
  | .error error => catchHttpError env error
  | .ok methodInputs =>
    if h.hasOperationAsAnArgument then h.invokeMethodAndSetBody env methodInputs
    else if h.httpMethod.asyncApi then invokeMethodAndHandleOperationAsync env methodInputs
    else h.invokeMethodAndHandleOperationSync env methodInputs

/-- **`accept`**: an exception fails the operation, an `Error` passes. -/
def accept (env : Surroundings E O V) (request : Request) : HandlerM E O V Unit :=
  tryCatch (h.tryAccept env request) fun e =>
    if isException env e then fail (some e) (.text (failureText request)) else throw e

/-- What happens after `accept`: the completion of a future that is still to come. -/
def afterAccept (env : Surroundings E O V) (p : Progress E O V) : Progress E O V :=
  match p.later with
  | some outcome => finalState ((completeFuture env outcome).run p)
  | none => p

/-- **A whole request**. -/
def handle (env : Surroundings E O V) (request : Request) : Progress E O V :=
  afterAccept env (finalState ((h.accept env request).run .start))

end RoutingOperationHandler

end XenonExt
