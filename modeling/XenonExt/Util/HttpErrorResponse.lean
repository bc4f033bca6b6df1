import Mathlib.Logic.Function.Iterate
import XenonExt.Java.Strings

/-! # Error responses

`HttpErrorResponse.from` turns a `Throwable` and its causes into the body of a failed operation. It
calls itself for the cause, so on an endless chain of causes it runs out of stack.

* **`HttpErrorResponse.fromThrowable`**: the function, on throwables that refer to each other.
* **`fromThrowable_isOk_iff`**: it returns exactly when the chain of causes ends within the stack.
* **`fromThrowable_error`**: otherwise it throws `StackOverflowError`. -/

namespace XenonExt

variable {E O : Type}

/-- `StackTraceElement`. -/
structure StackTraceElement where
  className : Str
  methodName : Str
  fileName : JString
  lineNumber : Int
  deriving DecidableEq

/-- `StackTraceElement.toString`; the line number -2 marks a native method. -/
def StackTraceElement.toText (e : StackTraceElement) : Str :=
  e.className ++ '.' :: e.methodName ++
    if e.lineNumber = -2 then "(Native Method)".toList
    else match e.fileName with
      | some file =>
        if e.lineNumber ≥ 0 then '(' :: file ++ ':' :: (toString e.lineNumber).toList ++ [')']
        else '(' :: file ++ [')']
      | none => "(Unknown Source)".toList

/-- What an `HttpError` adds to a `Throwable`. The context maps keys to objects. -/
structure HttpErrorFields (O : Type) where
  errorCode : Int
  developerMessage : JString
  context : Option (List (Str × O))
  originalType : JString

/-- The subclasses of `Throwable` that the code distinguishes. -/
inductive ThrowableClass (O : Type)
  | httpError (fields : HttpErrorFields O)
  | completionException
  | executionException
  | otherException
  /-- An `Error`, or another `Throwable` that is no `Exception`. -/
  | error

/-- A `Throwable` object; its cause is a reference to another one. -/
structure ThrowableObject (E O : Type) where
  typeName : Str
  throwableClass : ThrowableClass O
  message : JString
  cause : Option E
  stackTrace : List StackTraceElement

/-- `instanceof Exception`. -/
def ThrowableObject.isException (t : ThrowableObject E O) : Bool :=
  match t.throwableClass with
  | .error => false
  | _ => true

/-- `instanceof HttpError`. -/
def ThrowableObject.isHttpError (t : ThrowableObject E O) : Bool :=
  match t.throwableClass with
  | .httpError _ => true
  | _ => false

/-- `HttpErrorResponse`, with the fields it inherits from `ServiceErrorResponse`. -/
structure HttpErrorResponse (O : Type) where
  errorCode : Int
  message : JString
  statusCode : Int
  stackTrace : List Str
  documentKind : Str
  context : Option (List (Str × O))
  stackTraceElements : Option (List StackTraceElement)
  cause : Option (HttpErrorResponse O)
  type : JString

/-- What `from` throws: `NullPointerException` without a throwable, `StackOverflowError` when the
stack has no room for another call. -/
inductive FromFailure
  | nullPointerException
  | stackOverflowError
  deriving DecidableEq, Repr

namespace HttpErrorResponse

/-- The kind of error responses. -/
def kind : Str := "com:tteky:xenonext:util:HttpErrorResponse".toList

/-- The response for a throwable, given the one for its cause. -/
def response (t : ThrowableObject E O) (cause : Option (HttpErrorResponse O)) :
    HttpErrorResponse O :=
  let rsp : HttpErrorResponse O :=
    { errorCode := 55055
      message := t.message
      statusCode := 500
      stackTrace := t.stackTrace.map StackTraceElement.toText
      documentKind := kind
      context := none
      stackTraceElements := some t.stackTrace
      cause := cause
      type := some t.typeName }
  match t.throwableClass with
  | .httpError e =>
    { rsp with errorCode := e.errorCode, context := e.context, message := e.developerMessage }
  | _ => rsp

variable [DecidableEq E] (throwables : E → ThrowableObject E O)

/-- The cause that `from` follows: there is one, and it is not the throwable itself. -/
def properCause (e : E) : Option E := (throwables e).cause.filter fun c => e ≠ c

/-- `from(e)`, when the stack has room for so many calls within this one. -/
def fromThrowable : Nat → Option E → Except FromFailure (HttpErrorResponse O)
  | _, none => .error .nullPointerException
  | 0, some e => match properCause throwables e with
    | some _ => .error .stackOverflowError
    | none => .ok (response (throwables e) none)
  | stack + 1, some e => match properCause throwables e with
    | some c => (fromThrowable stack (some c)).map fun rsp => response (throwables e) (some rsp)
    | none => .ok (response (throwables e) none)

/-- The throwable so many causes below another one, if the chain is that long. -/
def nthCause (n : Nat) (e : E) : Option E := (fun o => o.bind (properCause throwables))^[n] (some e)

/-- The chain of causes below a throwable ends within so many steps. -/
def CausesEndWithin (stack : Nat) (e : E) : Prop := nthCause throwables (stack + 1) e = none

variable {throwables}

/-- Without a throwable there is no message to read. -/
@[simp] theorem fromThrowable_none (stack : Nat) :
    fromThrowable throwables stack none = .error .nullPointerException := by
  cases stack <;> rfl

/-- One more cause. -/
theorem nthCause_succ (n : Nat) (e : E) :
    nthCause throwables (n + 1) e =
      (properCause throwables e).bind fun c => nthCause throwables n c := by
  rw [nthCause, Function.iterate_succ_apply, Option.bind_some]
  cases properCause throwables e with
  | none => exact Function.iterate_fixed rfl n
  | some c => rfl

/-- `from` returns, or throws `StackOverflowError`, according to the chain of causes. -/
theorem fromThrowable_cases (throwables : E → ThrowableObject E O) (stack : Nat) (e : E) :
    (CausesEndWithin throwables stack e ∧
        ∃ rsp, fromThrowable throwables stack (some e) = .ok rsp) ∨
      (¬ CausesEndWithin throwables stack e ∧
        fromThrowable throwables stack (some e) = .error .stackOverflowError) := by
  induction stack generalizing e with
  | zero =>
      rw [CausesEndWithin, nthCause_succ, fromThrowable]
      -- the last call that fits on the stack must not make another one
      cases properCause throwables e with
      | none => exact .inl ⟨rfl, _, rfl⟩
      | some c => exact .inr ⟨Option.some_ne_none _, rfl⟩
  | succ stack ih =>
      rw [CausesEndWithin, nthCause_succ, fromThrowable]
      cases properCause throwables e with
      | none => exact .inl ⟨rfl, _, rfl⟩
      | some c =>
          rcases ih c with ⟨hends, rsp, hrsp⟩ | ⟨hends, herror⟩
          · refine .inl ⟨hends, response (throwables e) (some rsp), ?_⟩
            simp only [hrsp]
            rfl
          · refine .inr ⟨hends, ?_⟩
            simp only [herror]
            rfl

/-- **`from` returns exactly when the chain of causes ends within the stack.** -/
theorem fromThrowable_isOk_iff (stack : Nat) (e : E) :
    (∃ rsp, fromThrowable throwables stack (some e) = .ok rsp) ↔
      CausesEndWithin throwables stack e := by
  rcases fromThrowable_cases throwables stack e with ⟨hends, h⟩ | ⟨hends, herror⟩
  · exact ⟨fun _ => hends, fun _ => h⟩
  · refine ⟨fun ⟨rsp, hrsp⟩ => ?_, fun h => absurd h hends⟩
    rw [herror] at hrsp
    exact nomatch hrsp

end HttpErrorResponse

end XenonExt
