import XenonExt.Effects.RelatedLists
import XenonExt.Util.Chains
import XenonExt.Util.HttpErrorResponse

/-! # Errors decoded from responses

`HttpErrorResponse.toError` builds an `HttpError` for a response and one for each of its causes.

* **`HttpErrorResponse.toError`**: the function, on a response with all its causes.
* **`fromThrowable_chain`**, **`toError_chain`**: responses and decoded errors follow the causes of
  the throwable level by level.
* **`toError_fromThrowable`**: what an error keeps on the way out and back. -/

namespace XenonExt

variable {E O : Type}

deriving instance DecidableEq for HttpErrorFields

/-- An `HttpError` together with the errors below it. -/
structure HttpError (O : Type) where
  fields : HttpErrorFields O
  message : JString
  cause : Option (HttpError O)
  stackTrace : List StackTraceElement

namespace HttpError

/-- The class name of an `HttpError`. -/
def typeName : Str := "com.tteky.xenonext.util.HttpError".toList

/-- `new HttpError(errorCode, developerMessage)`; the stack trace is filled in by the runtime. -/
def new (filled : List StackTraceElement) (errorCode : Int) (developerMessage : JString) :
    HttpError O where
  fields :=
    { errorCode := errorCode
      developerMessage := developerMessage
      context := some []
      originalType := none }
  message := developerMessage
  cause := none
  stackTrace := filled

/-- `new HttpError(e, errorCode, developerMessage)`. -/
def newCausedBy (filled : List StackTraceElement) (e : HttpError O) (errorCode : Int)
    (developerMessage : JString) : HttpError O :=
  { new filled errorCode developerMessage with cause := some e }

/-- `setContext`. -/
def setContext (error : HttpError O) (context : Option (List (Str × O))) : HttpError O :=
  { error with fields := { error.fields with context := context } }

/-- `setDeveloperMessage`. -/
def setDeveloperMessage (error : HttpError O) (developerMessage : JString) : HttpError O :=
  { error with fields := { error.fields with developerMessage := developerMessage } }

/-- `setOriginalType`. -/
def setOriginalType (error : HttpError O) (originalType : JString) : HttpError O :=
  { error with fields := { error.fields with originalType := originalType } }

/-- `setStackTrace`. -/
def setStackTrace (error : HttpError O) (stackTrace : List StackTraceElement) : HttpError O :=
  { error with stackTrace := stackTrace }

end HttpError

namespace HttpErrorResponse

/-- `toError`. The runtime fills in a stack trace at each depth of the recursion. -/
def toError (filled : Nat → List StackTraceElement) : Nat → HttpErrorResponse O → HttpError O
  | depth, ⟨errorCode, message, _, _, _, context, stackTraceElements, cause, type⟩ =>
    let error := match cause with
      | none => HttpError.new (filled depth) errorCode message
      | some cause =>
        HttpError.newCausedBy (filled depth) (cause.toError filled (depth + 1)) errorCode message
    let error := match context with
      | some context => error.setContext (some context)
      | none => error
    let error := error.setDeveloperMessage message
    let error := match stackTraceElements with
      | some stackTrace => error.setStackTrace stackTrace
      | none => error
    error.setOriginalType type

section toError

variable (filled : Nat → List StackTraceElement) (depth : Nat) (rsp : HttpErrorResponse O)

/-- The cause is decoded from the cause. -/
@[simp] theorem toError_cause :
    (rsp.toError filled depth).cause = rsp.cause.map (toError filled (depth + 1)) := by
  rcases rsp with ⟨_, _, _, _, _, _ | _, _ | _, _ | _, _⟩ <;> rfl

/-- A response without a context leaves the empty one of the new error. -/
@[simp] theorem toError_fields :
    (rsp.toError filled depth).fields =
      ⟨rsp.errorCode, rsp.message, rsp.context.or (some []), rsp.type⟩ := by
  rcases rsp with ⟨_, _, _, _, _, _ | _, _ | _, _ | _, _⟩ <;> rfl

/-- Without stack trace elements the stack trace is that of the decoding. -/
@[simp] theorem toError_stackTrace :
    (rsp.toError filled depth).stackTrace = rsp.stackTraceElements.getD (filled depth) := by
  rcases rsp with ⟨_, _, _, _, _, _ | _, _ | _, _ | _, _⟩ <;> rfl

end toError

/-- The cause of a response is the response for the cause. -/
@[simp] theorem response_cause (t : ThrowableObject E O) (cause : Option (HttpErrorResponse O)) :
    (response t cause).cause = cause := by
  rw [response]
  cases t.throwableClass <;> rfl

/-- The response is that for the throwable, whatever it says of the cause. -/
def Describes (t : ThrowableObject E O) (rsp : HttpErrorResponse O) : Prop :=
  ∃ cause, rsp = response t cause

/-- What an error says of the throwable it stands for: code, message, context, stack trace and the
name of its class. -/
def KeepsContent (t : ThrowableObject E O) (error : HttpError O) : Prop :=
  error.stackTrace = t.stackTrace ∧ error.fields.originalType = some t.typeName ∧
    match t.throwableClass with
    | .httpError fields =>
      error.fields.errorCode = fields.errorCode ∧
        error.fields.developerMessage = fields.developerMessage ∧
        error.fields.context = fields.context
    | _ => error.fields.errorCode = 55055 ∧ error.fields.developerMessage = t.message

/-- One level out and back. -/
theorem keepsContent_toError (filled : Nat → List StackTraceElement) (depth : Nat)
    {t : ThrowableObject E O} {rsp : HttpErrorResponse O} (h : Describes t rsp)
    (hcontext : ∀ fields, t.throwableClass = .httpError fields → fields.context ≠ none) :
    KeepsContent t (rsp.toError filled depth) := by
  obtain ⟨cause, rfl⟩ := h
  rw [KeepsContent, toError_fields, toError_stackTrace, response]
  cases hclass : t.throwableClass with
  | httpError fields =>
      -- only a missing context would be replaced by an empty one
      obtain ⟨context, hsome⟩ := Option.ne_none_iff_exists'.mp (hcontext fields hclass)
      simp [hsome]
  | completionException => simp
  | executionException => simp
  | otherException => simp
  | error => simp

/-! ## Level by level -/

variable [DecidableEq E] {throwables : E → ThrowableObject E O}

/-- Once `from` returns, it has done so for the cause it followed. -/
theorem fromThrowable_eq_ok {stack : Nat} {e : E} {rsp : HttpErrorResponse O}
    (h : fromThrowable throwables stack (some e) = .ok rsp) :
    (properCause throwables e = none ∧ rsp = response (throwables e) none) ∨
      ∃ c stack' cause, properCause throwables e = some c ∧
        fromThrowable throwables stack' (some c) = .ok cause ∧
        rsp = response (throwables e) (some cause) := by
  cases stack with
  | zero =>
      rw [fromThrowable] at h
      cases hc : properCause throwables e with
      | none =>
          simp only [hc, Except.ok.injEq] at h
          exact .inl ⟨rfl, h.symm⟩
      | some c =>
          simp only [hc] at h
          cases h
  | succ stack =>
      rw [fromThrowable] at h
      cases hc : properCause throwables e with
      | none =>
          simp only [hc, Except.ok.injEq] at h
          exact .inl ⟨rfl, h.symm⟩
      | some c =>
          simp only [hc] at h
          cases hcause : fromThrowable throwables stack (some c) with
          | error failure =>
              rw [hcause] at h
              cases h
          | ok cause =>
              simp only [hcause, Except.map, Except.ok.injEq] at h
              exact .inr ⟨c, stack, cause, rfl, hcause, h.symm⟩

/-- **A response has one level for each throwable that `from` follows.** -/
theorem fromThrowable_chain {stack : Nat} {e : E} {es : List E} {rsp : HttpErrorResponse O}
    (h : fromThrowable throwables stack (some e) = .ok rsp)
    (hes : ChainFrom (properCause throwables) e es) :
    ∃ rsps, ChainFrom HttpErrorResponse.cause rsp rsps ∧
      List.Forall₂ (fun c level => Describes (throwables c) level) es rsps := by
  have hsimulates : ∀ c level,
      (∃ stack, fromThrowable throwables stack (some c) = .ok level) →
        Option.Rel (fun c level => ∃ stack, fromThrowable throwables stack (some c) = .ok level)
          (properCause throwables c) level.cause := by
    rintro c level ⟨stack, hlevel⟩
    rcases fromThrowable_eq_ok hlevel with ⟨hnone, rfl⟩ | ⟨d, stack', cause, hd, hcause, rfl⟩
    · rw [hnone, response_cause]
      exact .none
    · rw [hd, response_cause]
      exact .some ⟨stack', hcause⟩
  obtain ⟨rsps, hrsps, hall⟩ := hes.simulate hsimulates ⟨stack, h⟩
  refine ⟨rsps, hrsps, hall.imp fun c level => ?_⟩
  rintro ⟨stack, hlevel⟩
  rcases fromThrowable_eq_ok hlevel with ⟨-, h⟩ | ⟨-, -, cause, -, -, h⟩
  · exact ⟨none, h⟩
  · exact ⟨some cause, h⟩

/-- **A decoded error has one level for each level of the response.** -/
theorem toError_chain (filled : Nat → List StackTraceElement) (depth : Nat)
    {rsp : HttpErrorResponse O} {rsps : List (HttpErrorResponse O)}
    (h : ChainFrom HttpErrorResponse.cause rsp rsps) :
    ∃ errors, ChainFrom HttpError.cause (rsp.toError filled depth) errors ∧
      List.Forall₂ (fun level error => ∃ depth, error = level.toError filled depth) rsps errors := by
  refine h.simulate (fun level error => ?_) ⟨depth, rfl⟩
  rintro ⟨depth, rfl⟩
  rw [toError_cause]
  cases level.cause with
  | none => exact .none
  | some cause => exact .some ⟨depth + 1, rfl⟩

/-- `from` returns when its calls for the whole chain fit on the stack. -/
theorem exists_fromThrowable_eq_ok {stack : Nat} {e : E} {es : List E}
    (hes : ChainFrom (properCause throwables) e es) (hstack : es.length ≤ stack + 1) :
    ∃ rsp, fromThrowable throwables stack (some e) = .ok rsp := by
  rw [fromThrowable_isOk_iff, CausesEndWithin]
  exact (hes.follow_eq (stack + 1)).trans (List.getElem?_eq_none hstack)

/-- On a chain that ends `from` follows every cause. -/
theorem chainFrom_properCause {e : E} {es : List E}
    (h : ChainFrom (fun c => (throwables c).cause) e es) :
    ChainFrom (properCause throwables) e es := by
  refine h.congr fun c hc => ?_
  have hne := h.next_ne_self hc
  rw [properCause]
  cases hcause : (throwables c).cause with
  | none => rfl
  | some d =>
      have hcd : c ≠ d := fun heq => hne (hcause.trans (congrArg some heq.symm))
      rw [Option.filter_some, if_pos (decide_eq_true hcd)]

/-- **An error keeps its content over the wire**: out with `from` and back with `toError`, level by
level, for a chain of any length. -/
theorem toError_fromThrowable (throwables : E → ThrowableObject E O)
    (filled : Nat → List StackTraceElement) {e : E} {es : List E}
    (hchain : ChainFrom (fun c => (throwables c).cause) e es)
    (hcontext : ∀ c ∈ es, ∀ fields,
      (throwables c).throwableClass = .httpError fields → fields.context ≠ none)
    {stack : Nat} (hstack : es.length ≤ stack + 1) :
    ∃ rsp errors, fromThrowable throwables stack (some e) = .ok rsp ∧
      ChainFrom HttpError.cause (rsp.toError filled 0) errors ∧ errors.length = es.length ∧
      List.Forall₂ (fun c error => KeepsContent (throwables c) error) es errors := by
  have hes := chainFrom_properCause hchain
  obtain ⟨rsp, hrsp⟩ := exists_fromThrowable_eq_ok hes hstack
  obtain ⟨rsps, hrsps, hdescribes⟩ := fromThrowable_chain hrsp hes
  obtain ⟨errors, herrors, hdecodes⟩ := toError_chain filled 0 hrsps
  have hkeeps : List.Forall₂ (fun c error => KeepsContent (throwables c) error) es errors := by
    refine forall₂_comp hdescribes hdecodes fun c hc level error hlevel => ?_
    rintro ⟨depth, rfl⟩
    exact keepsContent_toError filled depth hlevel (hcontext c hc)
  exact ⟨rsp, errors, hrsp, herrors, hkeeps.length_eq.symm, hkeeps⟩

/-- `new HttpError("Simulated NPE", e).addToContext("TestKey", "TestValue")`, for a
`NullPointerException` e. -/
def simulatedNpe : Bool → ThrowableObject Bool Str
  | true =>
    { typeName := HttpError.typeName
      throwableClass := .httpError
        { errorCode := 55055
          developerMessage := some "Simulated NPE".toList
          context := some [("TestKey".toList, "TestValue".toList)]
          originalType := none }
      message := some "Simulated NPE".toList
      cause := some false
      stackTrace := [⟨"Test".toList, "testErrorToResponseAndBack".toList, none, 24⟩] }
  | false =>
    { typeName := "java.lang.NullPointerException".toList
      throwableClass := .otherException
      message := none
      cause := none
      stackTrace := [⟨"Test".toList, "wrapperMethod".toList, none, 40⟩] }

/-- The two errors of the chain. -/
theorem simulatedNpe_chain :
    ChainFrom (fun c => (simulatedNpe c).cause) true [true, false] := .cons rfl (.last rfl)

/-- A wrapped `NullPointerException` keeps its content. -/
theorem toError_fromThrowable_npe :
    ∃ rsp errors, fromThrowable simulatedNpe 1 (some true) = .ok rsp ∧
      ChainFrom HttpError.cause (rsp.toError (fun _ => []) 0) errors ∧ errors.length = 2 ∧
      List.Forall₂ (fun c error => KeepsContent (simulatedNpe c) error) [true, false] errors := by
  refine toError_fromThrowable simulatedNpe (fun _ => []) simulatedNpe_chain ?_ le_rfl
  intro c _ fields hfields
  cases c with
  | true => cases hfields; simp
  | false => exact nomatch hfields

end HttpErrorResponse

end XenonExt
