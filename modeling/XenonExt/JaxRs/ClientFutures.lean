import XenonExt.Effects.Traced
import XenonExt.JaxRs.ProxyHandler
import XenonExt.JaxRs.ReturnTypes

/-! # The future of a client call

`ProxyHandler.executeOp` sends an operation and returns a future. When the operation has finished,
its completion handler passes the outcome through the interceptors and completes the future, and the
value is decoded from the response. The handler catches exceptions, but no other throwables: Xenon
drops those, and nothing completes the future any more.

* **`InterceptorChain.interceptAfterComplete`**: the loop over the interceptors, `Returned` the runs
  in which all of them return, `interceptAfterComplete_error_iff` the others.
* **`executeOp_eq`**: the future by what the interceptors do.
* **`settles_iff`**: the future ends as it should exactly when no interceptor that is reached throws
  anything but an exception. -/

namespace XenonExt

/-- What is thrown during a call: by the client's own code, or by an interceptor or a decoder, and
then an `Exception` or another `Throwable`, such as an `Error`. -/
inductive ClientThrowable (E : Type)
  | nullPointerException
  | exception (e : E)
  | error (e : E)
  deriving DecidableEq

/-- Whether `catch (Exception e)` catches it. -/
def ClientThrowable.isException {E : Type} : ClientThrowable E → Bool
  | .nullPointerException => true
  | .exception _ => true
  | .error _ => false

/-- `Pair<Operation, Throwable>`, for operations of type `R`. -/
structure CompletedPair (E R : Type) where
  left : Option R
  right : Option (ClientThrowable E)

/-- What the `interceptAfterComplete` of an interceptor does, for the operation sent and a pair, which
may be `null`. -/
abbrev OperationInterceptor (E R : Type) :=
  R → Option (CompletedPair E R) → Except (ClientThrowable E) (Option (CompletedPair E R))

/-- A `CompletableFuture`. The `CompletionException` around a failure is left out. -/
inductive ClientFuture (E V : Type)
  | pending
  | completed (value : V)
  | completedExceptionally (e : ClientThrowable E)

variable {E R O V : Type}

namespace ClientFuture

/-- `complete`, which only changes a pending future. -/
def complete (value : V) : ClientFuture E V → ClientFuture E V
  | .pending => .completed value
  | future => future

/-- `completeExceptionally`, which only changes a pending future. -/
def completeExceptionally (e : ClientThrowable E) : ClientFuture E V → ClientFuture E V
  | .pending => .completedExceptionally e
  | future => future

/-- The future of a function that was called: whatever it throws completes it exceptionally. -/
def ofCall : Except (ClientThrowable E) V → ClientFuture E V
  | .ok value => .completed value
  | .error e => .completedExceptionally e

@[simp] theorem ofCall_eq_completed_iff {result : Except (ClientThrowable E) V} {value : V} :
    ofCall result = .completed value ↔ result = .ok value := by
  cases result <;> simp [ofCall]

/-- A function that was called does not leave its future pending. -/
@[simp] theorem ofCall_ne_pending (result : Except (ClientThrowable E) V) :
    ofCall result ≠ .pending := by
  cases result <;> simp [ofCall]

/-- `thenApply`. -/
def thenApply {V' : Type} (f : V → Except (ClientThrowable E) V') :
    ClientFuture E V → ClientFuture E V'
  | .pending => .pending
  | .completed value => ofCall (f value)
  | .completedExceptionally e => .completedExceptionally e

end ClientFuture

/-! ## The chain of interceptors -/

/-- A chain of interceptors; the array may be `null`. -/
structure InterceptorChain (E R : Type) where
  interceptors : Option (List (OperationInterceptor E R))

namespace InterceptorChain

/-- `interceptAfterComplete`: one interceptor after the other, each with the pair of the one before. -/
def interceptAfterComplete (chain : InterceptorChain E R) (op : R)
    (result : Option (CompletedPair E R)) :
    Except (ClientThrowable E) (Option (CompletedPair E R)) :=
  match chain.interceptors with
  | some interceptors => interceptors.foldlM (fun result interceptor => interceptor op result) result
  | none => .ok result

end InterceptorChain

/-- **Every interceptor of a list returned**, from the first pair to the last. -/
inductive Returned (op : R) : List (OperationInterceptor E R) → Option (CompletedPair E R) →
    Option (CompletedPair E R) → Prop
  | nil (result : Option (CompletedPair E R)) : Returned op [] result result
  | cons {interceptor : OperationInterceptor E R} {interceptors : List (OperationInterceptor E R)}
      {result result' result'' : Option (CompletedPair E R)}
      (head : interceptor op result = .ok result')
      (tail : Returned op interceptors result' result'') :
      Returned op (interceptor :: interceptors) result result''

/-- **An interceptor of a list threw**, after those before it had returned. -/
def Threw (op : R) (interceptors : List (OperationInterceptor E R))
    (result : Option (CompletedPair E R)) (e : ClientThrowable E) : Prop :=
  ∃ before interceptor after result', interceptors = before ++ interceptor :: after ∧
    Returned op before result result' ∧ interceptor op result' = .error e

/-- The loop returns exactly when every interceptor does. -/
theorem foldlM_interceptors_ok_iff {op : R} {interceptors : List (OperationInterceptor E R)}
    {result result' : Option (CompletedPair E R)} :
    interceptors.foldlM (fun result interceptor => interceptor op result) result = .ok result' ↔
      Returned op interceptors result result' := by
  induction interceptors generalizing result with
  | nil =>
      constructor
      · intro h
        cases h
        exact .nil _
      · intro h
        cases h
        rfl
  | cons interceptor interceptors ih =>
      rw [List.foldlM_cons]
      cases hhead : interceptor op result with
      | error e =>
          refine iff_of_false (fun h => by cases h) fun h => ?_
          cases h with
          | cons head tail => cases hhead.symm.trans head
      | ok result₁ =>
          refine Iff.trans ih ⟨fun h => .cons hhead h, fun h => ?_⟩
          cases h with
          | cons head tail =>
              cases hhead.symm.trans head
              exact tail

/-- The loop throws exactly when an interceptor does. -/
theorem foldlM_interceptors_error_iff {op : R} {interceptors : List (OperationInterceptor E R)}
    {result : Option (CompletedPair E R)} {e : ClientThrowable E} :
    interceptors.foldlM (fun result interceptor => interceptor op result) result = .error e ↔
      Threw op interceptors result e := by
  induction interceptors generalizing result with
  | nil =>
      refine iff_of_false (fun h => by cases h) ?_
      rintro ⟨before, interceptor, after, result', happend, -, -⟩
      exact List.append_ne_nil_of_right_ne_nil before (List.cons_ne_nil _ _) happend.symm
  | cons interceptor interceptors ih =>
      rw [List.foldlM_cons]
      cases hhead : interceptor op result with
      | error e' =>
          constructor
          · intro h
            cases h
            exact ⟨[], interceptor, interceptors, result, rfl, .nil result, hhead⟩
          · rintro ⟨before, thrower, after, result', happend, hbefore, hthrow⟩
            cases hbefore with
            | nil =>
                obtain ⟨rfl, -⟩ := List.cons.inj happend
                exact hhead.symm.trans hthrow
            | cons head tail =>
                obtain ⟨rfl, -⟩ := List.cons.inj happend
                cases hhead.symm.trans head
      | ok result₁ =>
          refine Iff.trans ih ⟨?_, ?_⟩
          · rintro ⟨before, thrower, after, result', happend, hbefore, hthrow⟩
            exact ⟨interceptor :: before, thrower, after, result', by rw [happend]; rfl,
              .cons hhead hbefore, hthrow⟩
          · rintro ⟨before, thrower, after, result', happend, hbefore, hthrow⟩
            cases hbefore with
            | nil =>
                obtain ⟨rfl, -⟩ := List.cons.inj happend
                cases hhead.symm.trans hthrow
            | cons head tail =>
                obtain ⟨rfl, htail⟩ := List.cons.inj happend
                cases hhead.symm.trans head
                exact ⟨_, thrower, after, result', htail, tail, hthrow⟩

namespace InterceptorChain

/-- The interceptors of a chain, none for a `null` array. -/
def members (chain : InterceptorChain E R) : List (OperationInterceptor E R) :=
  chain.interceptors.getD []

/-- A `null` array is passed over, like one without elements. -/
theorem interceptAfterComplete_eq (chain : InterceptorChain E R) (op : R)
    (result : Option (CompletedPair E R)) :
    chain.interceptAfterComplete op result =
      chain.members.foldlM (fun result interceptor => interceptor op result) result := by
  unfold interceptAfterComplete members
  cases chain.interceptors <;> rfl

/-- A chain returns exactly when every interceptor does. -/
theorem interceptAfterComplete_ok_iff {chain : InterceptorChain E R} {op : R}
    {result result' : Option (CompletedPair E R)} :
    chain.interceptAfterComplete op result = .ok result' ↔
      Returned op chain.members result result' := by
  rw [interceptAfterComplete_eq, foldlM_interceptors_ok_iff]

/-- A chain throws exactly when an interceptor does. -/
theorem interceptAfterComplete_error_iff {chain : InterceptorChain E R} {op : R}
    {result : Option (CompletedPair E R)} {e : ClientThrowable E} :
    chain.interceptAfterComplete op result = .error e ↔ Threw op chain.members result e := by
  rw [interceptAfterComplete_eq, foldlM_interceptors_error_iff]

end InterceptorChain

/-! ## Values of responses -/

/-- The value of a call. -/
inductive ReturnValue (O : Type)
  | voidType
  | decoded (value : O)
  | emptyList
  | emptySet
  | emptyMap
  | null

/-- What the value of a call is read with: the response decoder of the client, and what is known of
responses and classes. -/
structure ResponseDecoding (E R O : Type) where
  hasBody : R → Bool
  responseDecoder : R → ReturnInfo → Except (ClientThrowable E) O
  isAssignableFrom : JavaClass → JavaClass → Bool

/-- The decoding of a client without a decoder of its own. -/
def ResponseDecoding.default (reader : BodyReader (ClientThrowable E) R O) (hasBody : R → Bool)
    (isAssignableFrom : JavaClass → JavaClass → Bool) : ResponseDecoding E R O where
  hasBody := hasBody
  responseDecoder := operationDecoder reader
  isAssignableFrom := isAssignableFrom

/-- `List.class`. -/
def listClass : JavaClass := .named "java.util.List".toList

/-- `Set.class`. -/
def setClass : JavaClass := .named "java.util.Set".toList

/-- `Map.class`. -/
def mapClass : JavaClass := .named "java.util.Map".toList

namespace ProxyHandler

/-- `getValidReturnValue`. Only a method without a result does without an operation. -/
def getValidReturnValue (decoding : ResponseDecoding E R O) (completedOp : Option R)
    (httpMethod : ReturnInfo) : Except (ClientThrowable E) (ReturnValue O) :=
  if httpMethod.returnType = .void then .ok .voidType
  else match completedOp with
    | none => .error .nullPointerException
    | some completedOp =>
      if decoding.hasBody completedOp then
        (decoding.responseDecoder completedOp httpMethod).map .decoded
      else if decoding.isAssignableFrom listClass httpMethod.returnType then .ok .emptyList
      else if decoding.isAssignableFrom setClass httpMethod.returnType then .ok .emptySet
      else if decoding.isAssignableFrom mapClass httpMethod.returnType then .ok .emptyMap
      else .ok .null

/-! ## The completion handler -/

/-- What runs on the future of `executeOp`, and may throw. -/
abbrev FutureM (E R : Type) := EStateM (ClientThrowable E) (ClientFuture E (Option R))

/-- `catch (Exception e)`: other throwables pass. -/
def catchException (body : FutureM E R Unit) (handler : ClientThrowable E → FutureM E R Unit) :
    FutureM E R Unit :=
  tryCatch body fun e => if e.isException then handler e else throw e

/-- `defaultErrorHandler`. -/
def defaultErrorHandler (failure : ClientThrowable E) : FutureM E R Unit :=
  modify (ClientFuture.completeExceptionally failure)

/-- What the completion handler tries. -/
def tryComplete (interceptor : InterceptorChain E R) (op : R) (completedOp : Option R)
    (failure : Option (ClientThrowable E)) : FutureM E R Unit := do
  let result ← match interceptor.interceptAfterComplete op (some ⟨completedOp, failure⟩) with
    | .ok result => pure result
    | .error e => throw e
  match result with
  | none => throw .nullPointerException
  | some result => match result.right with
    | none => modify (ClientFuture.complete result.left)
    | some failure => defaultErrorHandler failure

/-- **The completion handler** of the operation. -/
def completionHandler (interceptor : InterceptorChain E R) (op : R) (completedOp : Option R)
    (failure : Option (ClientThrowable E)) : FutureM E R Unit :=
  catchException (tryComplete interceptor op completedOp failure) fun e =>
    modify (ClientFuture.completeExceptionally e)

/-- **The future that `executeOp` returns**, when the operation has finished and the completion
handler has run. A throwable that escapes the handler is dropped. -/
def executeOp (decoding : ResponseDecoding E R O) (interceptor : InterceptorChain E R)
    (httpMethod : ReturnInfo) (op : R) (completedOp : Option R)
    (failure : Option (ClientThrowable E)) : ClientFuture E (ReturnValue O) :=
  (finalState ((completionHandler interceptor op completedOp failure).run .pending)).thenApply
    fun completedOp => getValidReturnValue decoding completedOp httpMethod

/-- The future by what the interceptors do. -/
theorem executeOp_eq (decoding : ResponseDecoding E R O) (interceptor : InterceptorChain E R)
    (httpMethod : ReturnInfo) (op : R) (completedOp : Option R)
    (failure : Option (ClientThrowable E)) :
    executeOp decoding interceptor httpMethod op completedOp failure =
      match interceptor.interceptAfterComplete op (some ⟨completedOp, failure⟩) with
      | .error e => if e.isException then .completedExceptionally e else .pending
      | .ok none => .completedExceptionally .nullPointerException
      | .ok (some ⟨_, some failure⟩) => .completedExceptionally failure
      | .ok (some ⟨left, none⟩) => .ofCall (getValidReturnValue decoding left httpMethod) := by
  unfold executeOp completionHandler catchException tryComplete
  cases interceptor.interceptAfterComplete op (some ⟨completedOp, failure⟩) with
  | error e => cases e <;> rfl
  | ok result =>
      match result with
      | none => rfl
      | some ⟨left, some failure⟩ => rfl
      | some ⟨left, none⟩ => rfl

/-! ## No call stays pending -/

/-- **A client call ends as it should**: its future is done, with a value exactly when every
interceptor returned, the last pair has no failure and the value could be read. -/
structure Settles (decoding : ResponseDecoding E R O) (interceptor : InterceptorChain E R)
    (httpMethod : ReturnInfo) (op : R) (completedOp : Option R)
    (failure : Option (ClientThrowable E)) : Prop where
  done : executeOp decoding interceptor httpMethod op completedOp failure ≠ .pending
  completed_iff : ∀ value,
    executeOp decoding interceptor httpMethod op completedOp failure = .completed value ↔
      ∃ left, Returned op interceptor.members (some ⟨completedOp, failure⟩) (some ⟨left, none⟩) ∧
        getValidReturnValue decoding left httpMethod = .ok value

/-- The future has a value exactly when the chain returns a pair without a failure, and the value can
be read. -/
theorem executeOp_eq_completed_iff {decoding : ResponseDecoding E R O}
    {interceptor : InterceptorChain E R} {httpMethod : ReturnInfo} {op : R} {completedOp : Option R}
    {failure : Option (ClientThrowable E)} {value : ReturnValue O} :
    executeOp decoding interceptor httpMethod op completedOp failure = .completed value ↔
      ∃ left, Returned op interceptor.members (some ⟨completedOp, failure⟩) (some ⟨left, none⟩) ∧
        getValidReturnValue decoding left httpMethod = .ok value := by
  simp only [← InterceptorChain.interceptAfterComplete_ok_iff]
  rw [executeOp_eq]
  match interceptor.interceptAfterComplete op (some ⟨completedOp, failure⟩) with
  | .error e => cases e <;> simp [ClientThrowable.isException]
  | .ok none => simp
  | .ok (some ⟨left, some failure'⟩) => simp
  | .ok (some ⟨left, none⟩) => simp

/-- The future stays pending exactly when the chain throws something that is not caught. -/
theorem executeOp_eq_pending_iff {decoding : ResponseDecoding E R O}
    {interceptor : InterceptorChain E R} {httpMethod : ReturnInfo} {op : R} {completedOp : Option R}
    {failure : Option (ClientThrowable E)} :
    executeOp decoding interceptor httpMethod op completedOp failure = .pending ↔
      ∃ e, Threw op interceptor.members (some ⟨completedOp, failure⟩) e ∧ e.isException = false := by
  simp only [← InterceptorChain.interceptAfterComplete_error_iff]
  rw [executeOp_eq]
  match interceptor.interceptAfterComplete op (some ⟨completedOp, failure⟩) with
  | .error e => cases e <;> simp [ClientThrowable.isException]
  | .ok none => simp
  | .ok (some ⟨left, some failure'⟩) => simp
  | .ok (some ⟨left, none⟩) => simp

/-- **A call ends as it should exactly when no interceptor that is reached throws anything but an
exception**: for every chain, method and outcome of the operation. -/
theorem settles_iff (decoding : ResponseDecoding E R O) (interceptor : InterceptorChain E R)
    (httpMethod : ReturnInfo) (op : R) (completedOp : Option R)
    (failure : Option (ClientThrowable E)) :
    Settles decoding interceptor httpMethod op completedOp failure ↔
      ∀ e, Threw op interceptor.members (some ⟨completedOp, failure⟩) e → e.isException = true := by
  constructor
  · intro h e hthrew
    by_contra hexception
    exact h.done (executeOp_eq_pending_iff.mpr ⟨e, hthrew, Bool.eq_false_iff.mpr hexception⟩)
  · intro h
    refine ⟨fun hpending => ?_, fun value => executeOp_eq_completed_iff⟩
    obtain ⟨e, hthrew, hexception⟩ := executeOp_eq_pending_iff.mp hpending
    exact Bool.false_ne_true (hexception.symm.trans (h e hthrew))

/-- **An error of an interceptor leaves the call pending**, although the operation succeeded. -/
theorem not_settles_of_error :
    let decoding : ResponseDecoding Str Unit Unit :=
      ⟨fun _ => true, fun _ _ => .ok (), fun _ _ => false⟩
    let interceptor : InterceptorChain Str Unit :=
      ⟨some [fun _ _ => .error (.error "NoClassDefFoundError".toList)]⟩
    let httpMethod : ReturnInfo := ⟨false, objectClass, .classType objectClass⟩
    executeOp decoding interceptor httpMethod () (some ()) none = .pending ∧
      ¬ Settles decoding interceptor httpMethod () (some ()) none := by
  intro decoding interceptor httpMethod
  have hpending : executeOp decoding interceptor httpMethod () (some ()) none = .pending := rfl
  exact ⟨hpending, fun h => h.done hpending⟩

end ProxyHandler

end XenonExt
