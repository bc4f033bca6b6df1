import XenonExt.JaxRs.CallParts
import XenonExt.JaxRs.ClientFutures

/-! # Remote calls

A method of an interface is called on a proxy, and the service behind it implements the interface.
Between the two there are an operation, a router, the handler of a route, an answer and a future.

* **`InterfaceClient.invoke`**: the call, as `ProxyHandler.invoke` makes it.
* **`RemoteService.serve`**: what the service does for the operation.
* **`remote_call_is_local_call`**: the service invokes the method on the arguments of the call, once
  or not at all, and the call ends with what the service answers to those arguments. -/

namespace XenonExt

variable {C E R O V : Type}

/-! ## The client -/

/-- How the call of a method on a proxy ends. An exception of the client's own code has no object. -/
inductive CallResult (C O : Type)
  | returned (value : ReturnValue O)
  | future (future : ClientFuture C (ReturnValue O))
  | threw (e : Option (ClientThrowable C))
  | executionException (e : ClientThrowable C)
  | blocked

/-- `CompletableFuture.get`, which waits for a pending future. -/
def ClientFuture.get : ClientFuture C (ReturnValue O) → CallResult C O
  | .pending => .blocked
  | .completed value => .returned value
  | .completedExceptionally e => .executionException e

/-- An operation that was sent, and what its completion is called with. -/
structure Sent (C R : Type) where
  op : R
  completedOp : Option R
  failure : Option (ClientThrowable C)

/-- The client of an interface: its base URI and referrer, the methods that `init` has read, what
`parseReturnTypes` has read of them, the interceptors and the decoder. -/
structure InterfaceClient (C R O : Type) where
  handler : ProxyHandler
  httpMethods : List MethodInfo
  returnInfo : Method → ReturnInfo
  interceptBeforeComplete : ClientOperation O → Except (ClientThrowable C) (ClientOperation O)
  interceptor : InterceptorChain C R
  decoding : ResponseDecoding C R O

/-- The info of the method that was called: what `init` has read, or what is read now; `none` when
that throws. -/
def methodInfoFor (httpMethods : List MethodInfo) (method : Method) : Option MethodInfo :=
  match httpMethods.find? fun httpMethod => httpMethod.method = method with
  | some methodInfo => some methodInfo
  | none => (MethodInfoBuilder.generateMethodInfo [method]).bind List.head?

namespace InterfaceClient

/-- How a call ends whose operation was sent. -/
def resultOf (client : InterfaceClient C R O) (methodInfo : MethodInfo) (sent : Sent C R) :
    CallResult C O :=
  let executeOp := ProxyHandler.executeOp client.decoding client.interceptor
    (client.returnInfo methodInfo.method) sent.op sent.completedOp sent.failure
  if methodInfo.asyncApi then .future executeOp else executeOp.get

/-- **`ProxyHandler.invoke`**, for a method that is not a default method. -/
def invoke (client : InterfaceClient C R O) (u : UriUtils) (valueOf : O → Str)
    (sendWith : ClientOperation O → Sent C R) (method : Method) (args : List (Option O)) :
    CallResult C O :=
  match methodInfoFor client.httpMethods method with
  | none => .threw none
  | some methodInfo =>
    match ProxyHandler.buildOperation u valueOf client.handler methodInfo args with
    | none => .threw none
    | some op =>
      match client.interceptBeforeComplete op with
      | .error e => .threw (some e)
      | .ok op => client.resultOf methodInfo (sendWith op)

/-- The operation that `invoke` sends, if it comes so far. -/
def sentOp (client : InterfaceClient C R O) (u : UriUtils) (valueOf : O → Str) (method : Method)
    (args : List (Option O)) : Option (ClientOperation O) := do
  let methodInfo ← methodInfoFor client.httpMethods method
  let op ← ProxyHandler.buildOperation u valueOf client.handler methodInfo args
  (client.interceptBeforeComplete op).toOption

variable {client : InterfaceClient C R O} {u : UriUtils} {valueOf : O → Str} {method : Method}
  {args : List (Option O)} {methodInfo : MethodInfo} {op op' : ClientOperation O}

/-- A call that comes so far sends the operation, and ends as its completion says. -/
theorem invoke_of_built (hinfo : methodInfoFor client.httpMethods method = some methodInfo)
    (hbuild : ProxyHandler.buildOperation u valueOf client.handler methodInfo args = some op)
    (hbefore : client.interceptBeforeComplete op = .ok op') :
    client.sentOp u valueOf method args = some op' ∧
      ∀ sendWith, client.invoke u valueOf sendWith method args =
        client.resultOf methodInfo (sendWith op') := by
  constructor
  · simp only [sentOp, hinfo, Option.bind_eq_bind, Option.bind_some, hbuild, hbefore]
    rfl
  · intro sendWith
    simp only [invoke, hinfo, hbuild, hbefore]

end InterfaceClient

/-- **Reading a method anew or finding it among those read before is the same.** -/
theorem methodInfoFor_eq {methods : List Method} {httpMethods : List MethodInfo}
    (h : MethodInfoBuilder.generateMethodInfo methods = some httpMethods) {method : Method}
    {info : MethodInfo} (hinfo : MethodInfoBuilder.methodInfo method = some info) :
    methodInfoFor httpMethods method = some info := by
  rw [methodInfoFor]
  cases hfind : httpMethods.find? fun httpMethod => httpMethod.method = method with
  | some info' =>
      have hmethod : info'.method = method := by simpa using List.find?_some hfind
      rw [MethodInfoBuilder.generateMethodInfo_eq] at h
      obtain ⟨-, heq⟩ := Option.ite_none_right_eq_some.mp h
      obtain rfl := Option.some.inj heq
      obtain ⟨method', -, hinfo'⟩ := List.mem_filterMap.mp (List.mem_of_find?_eq_some hfind)
      have hmethod' := MethodInfoBuilder.methodInfo_method hinfo'
      obtain rfl : method' = method := hmethod'.symm.trans hmethod
      exact hinfo'.symm.trans hinfo
  | none =>
      have hread : ∀ m ∈ [method], (MethodInfoBuilder.readMethod m).isSome := by
        intro m hm
        obtain rfl := List.mem_singleton.mp hm
        rw [Option.join_eq_some_iff.mp hinfo]
        rfl
      rw [MethodInfoBuilder.generateMethodInfo_eq, if_pos hread, Option.bind_some,
        List.filterMap_cons_some hinfo, List.head?_cons]

/-! ## The service -/

/-- A service that clients can reach: its router, the surroundings of each method, what arrives of an
operation, and what is done with a request that no route takes. -/
structure RemoteService (E O V : Type) where
  router : List Route
  surroundings : Method → Surroundings E O V
  wire : Wire E O
  otherwise : Request → List (Answer E O V)

/-- What a service did for a request: the methods it invoked and the answers it gave. -/
structure ServedRequest (E O V : Type) where
  invocations : List (Method × List (Argument O))
  answers : List (Answer E O V)

/-- How operations and answers travel: the operation that the client keeps, and what its completion
is called with, for the answer of the service, or when there is none and the operation expires. -/
structure Connection (C E R O V : Type) where
  kept : ClientOperation O → R
  completion : Option (Answer E O V) → Option R × Option (ClientThrowable C)

/-- An operation that was sent, once it has its answer or has expired. -/
def Connection.sentOp (connection : Connection C E R O V) (op : ClientOperation O)
    (answer : Option (Answer E O V)) : Sent C R where
  op := connection.kept op
  completedOp := (connection.completion answer).1
  failure := (connection.completion answer).2

section Remote

variable [DecidableEq E]

/-- **A request to a service**: the router picks a route, and its handler handles the request. -/
def RemoteService.serve (service : RemoteService E O V) (op : ClientOperation O) : ServedRequest E O V :=
  let request := requestOf service.wire op
  match RequestRouterBuilder.routeRequest service.router request with
  | some route =>
    let method := route.handler.httpMethod.method
    let handled := route.handler.handle ((service.surroundings method).receiving service.wire op)
      request
    ⟨handled.invocations.map (method, ·), handled.answers⟩
  | none => ⟨[], service.otherwise request⟩

/-- `sendWith` over a connection. The first answer completes the operation. -/
def Connection.sendTo (connection : Connection C E R O V) (service : RemoteService E O V)
    (op : ClientOperation O) : Sent C R :=
  connection.sentOp op (service.serve op).answers.head?

namespace RoutingOperationHandler

/-- The answer to a request with some arguments, or without because they are refused. -/
def answerTo (h : RoutingOperationHandler) (env : Surroundings E O V) (request : Request) :
    Except (Thrown E V) (List (Argument O)) → Option (Answer E O V)
  | .error error => inputErrorAnswer env request error
  | .ok inputs => h.methodAnswer env request inputs

/-- **A handler that finds some arguments** handles the request as it would with these arguments at
hand. -/
theorem handle_of_inputs {h : RoutingOperationHandler} {env : Surroundings E O V}
    {w : Wire E O} {op : ClientOperation O} {request : Request}
    {inputs : Except (Thrown E V) (List (Argument O))} (hop : h.hasOperationAsAnArgument = false)
    (hinputs : h.methodInputs (env.receiving w op) request = inputs) :
    Finished inputs.toOption.toList (h.answerTo env request inputs).toList
      (h.handle (env.receiving w op) request) := by
  cases inputs with
  | error error =>
      have hanswer : inputErrorAnswer (env.receiving w op) request error =
          inputErrorAnswer env request error := by
        cases error <;> rfl
      have hfinished := handle_inputError_finishes (env.receiving w op) hop hinputs
      rwa [hanswer] at hfinished
  | ok inputs =>
      simp only [answerTo, methodAnswer]
      cases hasync : h.httpMethod.asyncApi with
      | true =>
          have hanswer : asyncAnswer (env.receiving w op) request (env.invokeAsync inputs) =
              asyncAnswer env request (env.invokeAsync inputs) := rfl
          have hfinished := handle_async_finishes (env.receiving w op) hop hasync hinputs
          rw [if_pos rfl, ← hanswer]
          exact hfinished
      | false =>
          have hanswer : syncAnswer (env.receiving w op) request h (env.invoke inputs) =
              syncAnswer env request h (env.invoke inputs) := rfl
          have hfinished := handle_sync_finishes (env.receiving w op) hop hasync hinputs
          rw [if_neg Bool.false_ne_true, ← hanswer]
          exact hfinished

end RoutingOperationHandler

end Remote

/-! ## Local calls -/

/-- What a local call passes for one parameter, and the constraints it violates: the object itself,
which is a text if it is a string. -/
def localInput (env : Surroundings E O V) (asString : O → Option Str) (args : List (Option O))
    (p : ParamMetadata) : Except (Thrown E V) (Argument O × List V) :=
  match p.type, args[p.parameterIndex]?.join with
  | .body, body => do
    let violations ← (env.validate body).mapError .throwable
    .ok (.body body, violations)
  | _, none => .ok (.text none, [])
  | _, some arg => match asString arg with
    | some s => .ok (.text (some s), [])
    | none => .ok (.body (some arg), [])

/-- **What a local call passes**, unless a body violates a constraint. -/
def localInputs (env : Surroundings E O V) (asString : O → Option Str) (info : MethodInfo)
    (args : List (Option O)) : Except (Thrown E V) (List (Argument O)) :=
  acceptedInputs (info.parameters.mapM (localInput env asString args))

/-- **Everything but bodies is a string**: the class of the parameter is `String`, and so the argument
is one or `null`. -/
structure StringsButBodies (asString : O → Option Str) (info : MethodInfo) (args : List (Option O)) :
    Prop where
  type_eq : ∀ p ∈ info.parameters, p.type ≠ .body →
    (info.method.parameters[p.parameterIndex]?).map Parameter.type = some "java.lang.String".toList
  isString : ∀ p ∈ info.parameters, p.type ≠ .body → ∀ arg,
    args[p.parameterIndex]? = some (some arg) → (asString arg).isSome

/-- **Strings arrive as they are passed locally**: `String.valueOf` leaves them as they are. -/
theorem arrivedInputs_eq_localInputs {asString : O → Option Str} {valueOf : O → Str}
    {info : MethodInfo} {args : List (Option O)}
    (hvalueOf : ∀ arg s, asString arg = some s → valueOf arg = s)
    (hstrings : StringsButBodies asString info args) (env : Surroundings E O V) :
    arrivedInputs env valueOf info args = localInputs env asString info args := by
  have hinput : ∀ p ∈ info.parameters,
      arrivedInput env valueOf args p = localInput env asString args p := by
    intro p hp
    by_cases hbody : p.type = .body
    · rw [arrivedInput, localInput, hbody]
    · have htext : arrivedInput env valueOf args p = .ok (.text (argumentText valueOf args p), []) := by
        unfold arrivedInput
        split
        · contradiction
        · rfl
      rw [htext, argumentText]
      unfold localInput
      cases harg : args[p.parameterIndex]?.join with
      | none => cases htype : p.type <;> first | rfl | exact absurd htype hbody
      | some arg =>
          obtain ⟨s, hs⟩ := Option.isSome_iff_exists.mp
            (hstrings.isString p hp hbody arg (Option.join_eq_some_iff.mp harg))
          rw [Option.map_some, hvalueOf arg s hs]
          cases htype : p.type <;> first | exact absurd htype hbody | simp only [hs]
  rw [arrivedInputs, localInputs, mapM_congr_mem hinput]

/-! ## Routing the call -/

/-- **A method with a template of its own**: a request that its route takes is taken by the route of
no other method. -/
def TakesAlone (u : UriUtils) (selfLink : Str) (groups : List (List Method)) (method : Method) :
    Prop :=
  ∀ request, RequestRouterBuilder.accepts u selfLink request method →
    ∀ m ∈ groups.flatten, RequestRouterBuilder.accepts u selfLink request m → m = method

/-- **The router picks the route of the method** for a request that this route takes. -/
theorem routeRequest_eq {u : UriUtils} {xenonService : XenonService}
    {interfaces : List (Option Interface)} {router : List Route}
    (hrouter : RequestRouterBuilder.parseJaxRsAnnotations u xenonService interfaces = some router)
    {method : Method}
    (hmem : method ∈ (RequestRouterBuilder.methodGroups xenonService interfaces).flatten)
    (halone : TakesAlone u xenonService.selfLink
      (RequestRouterBuilder.methodGroups xenonService interfaces) method)
    {info : MethodInfo} (hinfo : MethodInfoBuilder.methodInfo method = some info)
    {request : Request}
    (haction : (RequestRouterBuilder.route u xenonService.selfLink info).action = request.action)
    (hpredicate :
      (RequestRouterBuilder.route u xenonService.selfLink info).predicate request.uri = true) :
    RequestRouterBuilder.routeRequest router request =
      some (RequestRouterBuilder.route u xenonService.selfLink info) := by
  rw [RequestRouterBuilder.parseJaxRsAnnotations_eq] at hrouter
  obtain ⟨-, heq⟩ := Option.ite_none_right_eq_some.mp hrouter
  obtain rfl := Option.some.inj heq
  have haccepts : RequestRouterBuilder.accepts u xenonService.selfLink request method := by
    rw [RequestRouterBuilder.accepts, hinfo, Option.any_some]
    exact decide_eq_true ⟨haction, hpredicate⟩
  have hfirst : (RequestRouterBuilder.methodGroups xenonService interfaces).flatten.find?
      (RequestRouterBuilder.accepts u xenonService.selfLink request) = some method :=
    find?_eq_some_of_forall (fun m hm m' hm' h h' =>
      (halone request haccepts m hm h).trans (halone request haccepts m' hm' h').symm) hmem haccepts
  rw [RequestRouterBuilder.routeRequest, RequestRouterBuilder.routesOf, List.find?_map,
    List.find?_filterMap]
  change Option.map _ (((RequestRouterBuilder.methodGroups xenonService interfaces).flatten.find?
    (RequestRouterBuilder.accepts u xenonService.selfLink request)).bind
      MethodInfoBuilder.methodInfo) = _
  rw [hfirst, Option.bind_some, hinfo, Option.map_some]

/-! ## The call -/

/-- **A client and a service that belong together**: the client was built for an interface and a base
URI that lead to the self link of the service, and the service has a router for its methods. -/
structure Connected (resolved ownHeader : Str → Prop) (u : UriUtils) (iFace : Interface)
    (baseUri : Uri) (referrer : Str) (client : InterfaceClient C R O) (link : List Str)
    (xenonService : XenonService) (interfaces : List (Option Interface))
    (service : RemoteService E O V) : Prop where
  lawful : u.Lawful resolved
  wire_lawful : service.wire.Lawful ownHeader
  handler_eq : client.handler = JaxRsServiceClient.build u iFace baseUri referrer
  httpMethods_eq : MethodInfoBuilder.generateMethodInfo iFace.methods = some client.httpMethods
  query_eq : baseUri.query = none
  link_eq : u.buildUriPath baseUri.path iFace.path = xenonService.selfLink
  selfLink_eq : xenonService.selfLink = rooted uriPathChar link
  link_kept : ∀ s ∈ link, Kept resolved s
  router_eq : RequestRouterBuilder.parseJaxRsAnnotations u xenonService interfaces =
    some service.router

/-- A client and a service belong together by the router and the wire of the service. -/
theorem Connected.of_same {resolved ownHeader : Str → Prop} {u : UriUtils} {iFace : Interface}
    {baseUri : Uri} {referrer : Str} {client : InterfaceClient C R O} {link : List Str}
    {xenonService : XenonService} {interfaces : List (Option Interface)}
    {service service' : RemoteService E O V}
    (h : Connected resolved ownHeader u iFace baseUri referrer client link xenonService interfaces
      service)
    (hwire : service'.wire = service.wire) (hrouter : service'.router = service.router) :
    Connected resolved ownHeader u iFace baseUri referrer client link xenonService interfaces
      service' :=
  { h with
    wire_lawful := hwire ▸ h.wire_lawful
    router_eq := hrouter ▸ h.router_eq }

/-- A method that can be called remotely does not receive the operation. -/
theorem Callable.hasOperationAsAnArgument_eq {resolved ownHeader : Str → Prop}
    {template : Option Template} {info : MethodInfo} (h : Callable resolved ownHeader template info)
    (path : Str) : RoutingOperationHandler.hasOperationAsAnArgument ⟨path, info⟩ = false := by
  rw [RoutingOperationHandler.hasOperationAsAnArgument, List.any_eq_false]
  intro p hp
  simpa using h.type_ne p hp

section Call

variable [DecidableEq E] {resolved ownHeader : Str → Prop} {u : UriUtils} {iFace : Interface}
  {baseUri : Uri} {referrer : Str} {client : InterfaceClient C R O} {link : List Str}
  {xenonService : XenonService} {interfaces : List (Option Interface)}
  {service : RemoteService E O V} {method : Method} {info : MethodInfo}
  {template : Option Template} {valueOf : O → Str} {args : List (Option O)}

/-- **What is sent and what is served**, for a method whose client and server agree on the operations
that carry the call: the operation, the method's invocation, and the answer that the service makes of
it. -/
theorem sentOp_served_of_parts
    (hconnected : Connected resolved ownHeader u iFace baseUri referrer client link xenonService
      interfaces service)
    (hmem : method ∈ (RequestRouterBuilder.methodGroups xenonService interfaces).flatten)
    (halone : TakesAlone u xenonService.selfLink
      (RequestRouterBuilder.methodGroups xenonService interfaces) method)
    (hinfo : MethodInfoBuilder.methodInfo method = some info)
    (hop : (RequestRouterBuilder.route u xenonService.selfLink
      info).handler.hasOperationAsAnArgument = false)
    (hutils : (service.surroundings method).uriUtils = u)
    (hbefore : ∀ op, ∃ op', client.interceptBeforeComplete op = .ok op' ∧ Carries info op op')
    (hparts : ∃ op, ProxyHandler.buildOperation u valueOf
        (JaxRsServiceClient.build u iFace baseUri referrer) info args = some op ∧
      ∀ op', Carries info op op' →
        (RequestRouterBuilder.route u xenonService.selfLink info).action = op'.action ∧
        (RequestRouterBuilder.route u xenonService.selfLink info).predicate op'.uri = true ∧
        ∀ env : Surroundings E O V, env.uriUtils = u →
          (RequestRouterBuilder.route u xenonService.selfLink info).handler.methodInputs
              (env.receiving service.wire op') (requestOf service.wire op') =
            arrivedInputs env valueOf info args) :
    ∃ op', client.sentOp u valueOf method args = some op' ∧
      (∀ sendWith, client.invoke u valueOf sendWith method args =
        client.resultOf info (sendWith op')) ∧
      service.serve op' =
        ⟨(arrivedInputs (service.surroundings method) valueOf info args).toOption.toList.map
            (method, ·),
          ((RequestRouterBuilder.route u xenonService.selfLink info).handler.answerTo
            (service.surroundings method) (requestOf service.wire op')
            (arrivedInputs (service.surroundings method) valueOf info args)).toList⟩ := by
  obtain ⟨op, hbuild, hserved⟩ := hparts
  obtain ⟨op', hintercepted, hcarries⟩ := hbefore op
  obtain ⟨haction, hpredicate, hinputs⟩ := hserved op' hcarries
  rw [← hconnected.handler_eq] at hbuild
  obtain ⟨hsent, hinvoke⟩ := InterfaceClient.invoke_of_built
    (methodInfoFor_eq hconnected.httpMethods_eq hinfo) hbuild hintercepted
  refine ⟨op', hsent, hinvoke, ?_⟩
  have hrouted : RequestRouterBuilder.routeRequest service.router (requestOf service.wire op') =
      some (RequestRouterBuilder.route u xenonService.selfLink info) :=
    routeRequest_eq hconnected.router_eq hmem halone hinfo haction hpredicate
  have hmethod_eq : (RequestRouterBuilder.route u xenonService.selfLink
      info).handler.httpMethod.method = method := MethodInfoBuilder.methodInfo_method hinfo
  have hfinished : RoutingOperationHandler.Finished
      (arrivedInputs (service.surroundings method) valueOf info args).toOption.toList _ _ :=
    RoutingOperationHandler.handle_of_inputs hop (hinputs (service.surroundings method) hutils)
  rw [RemoteService.serve]
  simp only [hrouted, hmethod_eq]
  rw [hfinished.invocations_eq, hfinished.answers_eq]

/-- The operation of a call, with the method's invocation and the answer that the service makes of
it. -/
theorem sentOp_served
    (hconnected : Connected resolved ownHeader u iFace baseUri referrer client link xenonService
      interfaces service)
    (hmem : method ∈ (RequestRouterBuilder.methodGroups xenonService interfaces).flatten)
    (halone : TakesAlone u xenonService.selfLink
      (RequestRouterBuilder.methodGroups xenonService interfaces) method)
    (hinfo : MethodInfoBuilder.methodInfo method = some info)
    (hmethod : Callable resolved ownHeader template info)
    (hargs : ArgumentsSendable resolved service.wire valueOf info args)
    (hone : OneArgument .path valueOf args info.parameters)
    (hutils : (service.surroundings method).uriUtils = u)
    (hbefore : ∀ op, ∃ op', client.interceptBeforeComplete op = .ok op' ∧ Carries info op op') :
    ∃ op', client.sentOp u valueOf method args = some op' ∧
      (∀ sendWith, client.invoke u valueOf sendWith method args =
        client.resultOf info (sendWith op')) ∧
      service.serve op' =
        ⟨(arrivedInputs (service.surroundings method) valueOf info args).toOption.toList.map
            (method, ·),
          ((RequestRouterBuilder.route u xenonService.selfLink info).handler.answerTo
            (service.surroundings method) (requestOf service.wire op')
            (arrivedInputs (service.surroundings method) valueOf info args)).toList⟩ := by
  refine sentOp_served_of_parts hconnected hmem halone hinfo
    (hmethod.hasOperationAsAnArgument_eq _) hutils hbefore ?_
  have hlink := hconnected.link_eq.trans hconnected.selfLink_eq
  have hserved := callParts_spec hconnected.lawful hconnected.wire_lawful hinfo
    hmethod hargs hconnected.link_kept hone hconnected.query_eq hlink referrer (E := E) (V := V)
  rw [← hconnected.selfLink_eq] at hserved
  exact hserved

/-- **A remote call is a local call.** For a client and a service that belong together, a method that
can be called remotely, whose parameters but the body are strings, and that no other method stands in
for, arguments that can be sent, and interceptors that leave the operation to carry the call: the
service invokes this method and no other, with what a local call passes it, once or, if that is
refused by a constraint, not at all; and the call ends with what the service would answer locally. -/
theorem remote_call_is_local_call
    (hconnected : Connected resolved ownHeader u iFace baseUri referrer client link xenonService
      interfaces service)
    (hmem : method ∈ (RequestRouterBuilder.methodGroups xenonService interfaces).flatten)
    (halone : TakesAlone u xenonService.selfLink
      (RequestRouterBuilder.methodGroups xenonService interfaces) method)
    (hinfo : MethodInfoBuilder.methodInfo method = some info)
    (hmethod : Callable resolved ownHeader template info)
    (hargs : ArgumentsSendable resolved service.wire valueOf info args)
    (hone : OneArgument .path valueOf args info.parameters)
    (hutils : (service.surroundings method).uriUtils = u)
    (hbefore : ∀ op, ∃ op', client.interceptBeforeComplete op = .ok op' ∧ Carries info op op')
    {asString : O → Option Str} (hvalueOf : ∀ arg s, asString arg = some s → valueOf arg = s)
    (hstrings : StringsButBodies asString info args) (connection : Connection C E R O V) :
    ∃ op, client.sentOp u valueOf method args = some op ∧
      (service.serve op).invocations =
        (localInputs (service.surroundings method) asString info args).toOption.toList.map
          (method, ·) ∧
      client.invoke u valueOf (connection.sendTo service) method args =
        client.resultOf info
          (connection.sentOp op
            ((RequestRouterBuilder.route u xenonService.selfLink info).handler.answerTo
              (service.surroundings method) (requestOf service.wire op)
              (localInputs (service.surroundings method) asString info args))) := by
  obtain ⟨op, hsent, hinvoke, hserve⟩ := sentOp_served hconnected hmem halone hinfo hmethod hargs
    hone hutils hbefore
  rw [arrivedInputs_eq_localInputs hvalueOf hstrings] at hserve
  refine ⟨op, hsent, by rw [hserve], ?_⟩
  rw [hinvoke, Connection.sendTo, hserve, Option.head?_toList]

end Call

/-! ## A wire that behaves as documented -/

/-- Of headers of one name, in upper or lower case, the last one is kept; cookies and bodies arrive as
they are. -/
def Wire.documented : Wire E O where
  requestHeaders sent name :=
    (sent.reverse.find? fun h => ignoringCase h.1 = ignoringCase name).map Prod.snd
  cookies sent := some sent.lookup
  getBody body _ := .ok body

/-- **The documented wire is what the code relies on.** -/
theorem Wire.documented_lawful : (Wire.documented : Wire E O).Lawful fun _ => False where
  requestHeaders_eq sent _ hnodup name _ hsame := by
    have hinj := List.inj_on_of_nodup_map hnodup
    cases hlookup : sent.lookup name with
    | none =>
        rw [List.lookup_eq_none_iff] at hlookup
        have hnone : (sent.reverse.find? fun h => ignoringCase h.1 = ignoringCase name) = none := by
          rw [List.find?_eq_none]
          intro h hh heq
          have hmem := List.mem_reverse.mp hh
          simpa [hsame h hmem (by simpa using heq)] using hlookup h hmem
        exact congrArg (Option.map Prod.snd) hnone
    | some value =>
        obtain ⟨init, rest, heq, -⟩ := List.lookup_eq_some_iff.mp hlookup
        have hmem : (name, value) ∈ sent := heq ▸ List.mem_append_right _ List.mem_cons_self
        -- only this header has the name
        have hfind : (sent.reverse.find? fun h => ignoringCase h.1 = ignoringCase name) =
            some (name, value) :=
          find?_eq_some_of_forall (fun h hh h' hh' hkey hkey' =>
            hinj (List.mem_reverse.mp hh) (List.mem_reverse.mp hh')
              ((of_decide_eq_true hkey).trans (of_decide_eq_true hkey').symm))
            (List.mem_reverse.mpr hmem) (decide_eq_true rfl)
        exact congrArg (Option.map Prod.snd) hfind
  cookies_eq _ _ _ := rfl

/-! ## A service for notes -/

/-- A parameter in a header. -/
def headerParameter (name : String) : Parameter :=
  { pathParameter name with headerParam := some name.toList, pathParam := none }

/-- A parameter in a cookie. -/
def cookieParameter (name : String) : Parameter :=
  { pathParameter name with cookieParam := some name.toList, pathParam := none }

/-- A parameter for the body. -/
def bodyParameter : Parameter := { pathParameter "" with operationBody := true, pathParam := none }

/-- The template `{id}`. -/
def noteTemplate : Template where
  leadingSlash := false
  trailingSlash := false
  segments := [.placeholder "id".toList]
  segments_ne_nil := List.cons_ne_nil _ _

/-- A method that saves a note, with a parameter of each kind. -/
def saveNote : Method where
  name := "save".toList
  isPublic := true
  httpMethodNames := [some "PUT".toList, none]
  path := some noteTemplate.text
  parameters := [bodyParameter, pathParameter "id", queryParameter "tag", headerParameter "X-Owner",
    cookieParameter "session"]
  returnClass := .other

/-- A method that finds one. -/
def findNote : Method :=
  { saveNote with
    name := "find".toList, httpMethodNames := [some "GET".toList, none]
    parameters := [pathParameter "id"] }

/-- The method of the class that implements `saveNote`, without annotations. -/
def saveNoteImpl : Method := { saveNote with httpMethodNames := [], path := none }

/-- What is read from `saveNote`. -/
def saveNoteInfo : MethodInfo where
  method := saveNote
  parameters := [⟨none, 0, .body, some "java.lang.String".toList⟩, ⟨some "id".toList, 1, .path, none⟩,
    ⟨some "tag".toList, 2, .query, none⟩, ⟨some "X-Owner".toList, 3, .header, none⟩,
    ⟨some "session".toList, 4, .cookie, none⟩]
  uriPath := some noteTemplate.text
  action := .put
  pathParamsVsUriIndex := MethodInfoBuilder.parsePathParams (some noteTemplate.text)
  asyncApi := false

/-- The interface of the methods, for a service at `/api/notes`. -/
def noteInterface : Interface :=
  ⟨"Notes".toList, some "/notes".toList, [saveNote, findNote]⟩

/-- The segments of the self link of the service. -/
def noteLink : List Str := ["api".toList, "notes".toList]

/-- The service that implements the interface. -/
def noteService : XenonService where
  selfLink := rooted uriPathChar noteLink
  uriNamespaceOwner := true
  declaredMethods := [saveNoteImpl]
  interfaceNames := ["Notes".toList]

/-- Surroundings in which every note is accepted and saved. -/
def noteSurroundings : Surroundings Unit Str Unit where
  uriUtils := .documented
  getBody _ := .ok none
  validate _ := .ok []
  setBody _ := .ok ()
  invoke _ := .returned (some "saved".toList)
  invokeAsync _ := .refused
  throwables _ := ⟨"java.lang.Exception".toList, .otherException, none, none, []⟩
  violationSet _ := []
  stackTrace := []
  stack := 1000

/-- The service, as clients reach it. -/
def noteRemote : RemoteService Unit Str Unit where
  router := RequestRouterBuilder.routesOf .documented noteService.selfLink
    (RequestRouterBuilder.methodGroups noteService [some noteInterface])
  surroundings _ := noteSurroundings
  wire := .documented
  otherwise _ := []

/-- A client of the interface, with an interceptor that adds a header. -/
def noteClient : InterfaceClient Unit Str Str where
  handler := JaxRsServiceClient.build .documented noteInterface memberBaseUri []
  httpMethods := noteInterface.methods.filterMap MethodInfoBuilder.methodInfo
  returnInfo _ := ⟨false, .named "java.lang.String".toList, .classType (.named "java.lang.String".toList)⟩
  interceptBeforeComplete op :=
    .ok { op with headers := op.headers ++ [("Authorization".toList, "token".toList)] }
  interceptor := ⟨none⟩
  decoding := ⟨fun _ => true, fun body _ => .ok body, fun _ _ => false⟩

/-- A connection that delivers the body of an answer. -/
def noteConnection : Connection Unit Unit Str Str Unit where
  kept _ := []
  completion
    | some (.completed (some (some body))) => (some body, none)
    | _ => (none, some (.exception ()))

/-- Arguments for `saveNote`. -/
def noteArgs : List (Option Str) :=
  [some "milk and bread".toList, some "7".toList, some "red".toList, some "ann".toList,
    some "abc".toList]

/-- What is read from `findNote`. -/
def findNoteInfo : MethodInfo :=
  { saveNoteInfo with
    method := findNote, parameters := [⟨some "id".toList, 0, .path, none⟩], action := .get }

/-- The infos are those of the methods. -/
theorem methodInfo_notes : MethodInfoBuilder.methodInfo saveNote = some saveNoteInfo ∧
    MethodInfoBuilder.methodInfo findNote = some findNoteInfo := by
  simp only [MethodInfoBuilder.methodInfo, MethodInfoBuilder.readMethod,
    MethodInfoBuilder.describeMethod_eq]
  exact ⟨rfl, rfl⟩

/-- All methods can be read. -/
theorem notes_readable :
    RequestRouterBuilder.Readable (RequestRouterBuilder.methodGroups noteService [some noteInterface]) := by
  have hread : ∀ method info, MethodInfoBuilder.methodInfo method = some info →
      (MethodInfoBuilder.readMethod method).isSome := by
    intro method info hinfo
    rw [Option.join_eq_some_iff.mp hinfo]
    rfl
  intro group hgroup method hmethod
  have hmem : method ∈ (RequestRouterBuilder.methodGroups noteService
      [some noteInterface]).flatten := List.mem_flatten_of_mem hgroup hmethod
  change method ∈ [saveNoteImpl, saveNote, findNote] at hmem
  simp only [List.mem_cons, List.not_mem_nil, or_false] at hmem
  rcases hmem with rfl | rfl | rfl
  · rfl
  · exact hread _ _ methodInfo_notes.1
  · exact hread _ _ methodInfo_notes.2

/-- The client and the service belong together. -/
theorem notes_connected : Connected (fun _ => False) (fun _ => False) .documented noteInterface
    memberBaseUri [] noteClient noteLink noteService [some noteInterface] noteRemote where
  lawful := UriUtils.documented_lawful
  wire_lawful := Wire.documented_lawful
  handler_eq := rfl
  httpMethods_eq := by
    rw [MethodInfoBuilder.generateMethodInfo_eq, if_pos]
    · rfl
    · exact notes_readable _ (List.mem_cons_of_mem _ List.mem_cons_self)
  query_eq := rfl
  link_eq := by decide
  selfLink_eq := rfl
  link_kept := kept_of_unreserved (by decide)
  router_eq := by
    rw [RequestRouterBuilder.parseJaxRsAnnotations_eq, if_pos ⟨rfl, notes_readable⟩]
    rfl

/-- The other methods have another action, or none. -/
theorem saveNote_takesAlone : TakesAlone .documented noteService.selfLink
    (RequestRouterBuilder.methodGroups noteService [some noteInterface]) saveNote := by
  intro request haccepts method hmem hmethod
  change method ∈ [saveNoteImpl, saveNote, findNote] at hmem
  simp only [List.mem_cons, List.not_mem_nil, or_false] at hmem
  rcases hmem with rfl | rfl | rfl
  · exact absurd hmethod Bool.false_ne_true
  · rfl
  · rw [RequestRouterBuilder.accepts, methodInfo_notes.1, Option.any_some] at haccepts
    rw [RequestRouterBuilder.accepts, methodInfo_notes.2, Option.any_some] at hmethod
    have hput : Action.put = request.action := (of_decide_eq_true haccepts).1
    have hget : Action.get = request.action := (of_decide_eq_true hmethod).1
    cases hput.trans hget.symm

/-- The method can be called remotely. -/
theorem saveNote_callable :
    Callable (fun _ => False) (fun _ => False) (some noteTemplate) saveNoteInfo where
  pathOrQuery := by
    refine ⟨rfl, ?_, ?_, by decide, ?_, ?_, ?_, by decide⟩
    · simp [Template.segmentsOf, noteTemplate]
    · simp [Template.segmentsOf, noteTemplate]
      decide
    · simp [MethodInfo.inPathOrQuery, saveNoteInfo, Template.segmentsOf, noteTemplate]
    · simp [MethodInfo.inPathOrQuery, saveNoteInfo, Template.segmentsOf, noteTemplate]
    · simp [MethodInfo.inPathOrQuery, saveNoteInfo]
      decide
  type_ne := by decide
  header_named := by
    simp [saveNoteInfo]
    decide
  header_nodup := by decide
  cookie_named := by
    simp [saveNoteInfo]
    decide
  cookie_nodup := by decide
  body_eq := by decide

/-- The arguments can be sent. -/
theorem noteArgs_sendable :
    ArgumentsSendable (fun _ => False) noteRemote.wire id saveNoteInfo noteArgs where
  fit :=
    { length_eq := rfl
      path_kept := by
        simp [saveNoteInfo, argumentText, noteArgs, Kept]
        decide
      query_unreserved := by
        simp [saveNoteInfo, argumentText, noteArgs]
        decide }
  unreserved := by
    simp [saveNoteInfo, argumentText, noteArgs]
    decide
  body_read := by
    simp [saveNoteInfo, noteArgs, noteRemote, Wire.documented]

/-- They are strings. -/
theorem noteArgs_strings : StringsButBodies some saveNoteInfo noteArgs where
  type_eq := by decide
  isString _ _ _ _ _ := rfl

/-- A note is saved: the method gets an argument of each kind, and the client its result. -/
theorem remote_call_is_local_call_note : ∃ op,
    noteClient.sentOp .documented id saveNote noteArgs = some op ∧
    (noteRemote.serve op).invocations = [(saveNote, [.body (some "milk and bread".toList),
      .text (some "7".toList), .text (some "red".toList), .text (some "ann".toList),
      .text (some "abc".toList)])] ∧
    noteClient.invoke .documented id (noteConnection.sendTo noteRemote) saveNote noteArgs =
      .returned (.decoded "saved".toList) := by
  have hadded : AddedHeaders saveNoteInfo [("Authorization".toList, "token".toList)] := by
    refine ⟨by decide, by decide, ?_⟩
    simp [saveNoteInfo]
    decide
  have hbefore : ∀ op, ∃ op', noteClient.interceptBeforeComplete op = .ok op' ∧
      Carries saveNoteInfo op op' :=
    fun op => ⟨_, rfl, rfl, rfl, rfl, rfl, _, rfl, hadded⟩
  obtain ⟨op, hsent, hinvocations, hresult⟩ := remote_call_is_local_call notes_connected
    (by decide) saveNote_takesAlone methodInfo_notes.1 saveNote_callable noteArgs_sendable
    (by decide) rfl hbefore (fun arg s hs => Option.some.inj hs) noteArgs_strings noteConnection
  exact ⟨op, hsent, hinvocations, hresult⟩

end XenonExt
