import XenonExt.Dispatch.FirstMatch
import XenonExt.JaxRs.RoutingOperationHandler

/-! # Routing requests

`RequestRouterBuilder` registers one route for each annotated method: those that the class of the
service declares, then those of its contract interfaces. A request goes to the first route of its
action whose predicate holds.

* **`newUriMatcher`**: the predicate of a route.
* **`parseJaxRsAnnotations`**: the routes of a service.
* **`routedMethod_eq_firstMatch`**: the method to which a request is routed is the first match in
  the groups of methods. -/

namespace XenonExt

/-- A route: the action and the predicate with which it is registered, and its handler. -/
structure Route where
  action : Action
  predicate : Uri → Bool
  handler : RoutingOperationHandler

/-- A contract interface: its `Path`, and what `getMethods` lists. -/
structure Interface where
  name : Str
  path : JString
  methods : List Method
  deriving DecidableEq

/-- A service: its self link, an option, what `getDeclaredMethods` lists for its class, and the
interfaces that the class implements. -/
structure XenonService where
  selfLink : Str
  uriNamespaceOwner : Bool
  declaredMethods : List Method
  interfaceNames : List Str
  deriving DecidableEq

/-- `iFace.isAssignableFrom(xenonService.getClass())`. -/
def Interface.isAssignableFrom (iFace : Interface) (service : XenonService) : Bool :=
  iFace.name ∈ service.interfaceNames

namespace RequestRouterBuilder

/-- The loop of `DynamicPathParamMatcher.test` over two arrays of tokens, which must be of one
length: tokens that differ have to be path params. -/
def tokensMatch : List Str → List Str → Bool
  | [], [] => true
  | pathParam :: expectedTokens, token :: actualTokens =>
    (pathParam = token ∨ MethodInfoBuilder.isPlaceholder pathParam) ∧
      tokensMatch expectedTokens actualTokens
  | _, _ => false

/-- `newUriMatcher`: paths with params match token by token, other paths as a whole. -/
def newUriMatcher (u : UriUtils) (pathWithParams : Str) (uri : Uri) : Bool :=
  if '\x7b' ∈ pathWithParams ∧ '\x7d' ∈ pathWithParams then
    tokensMatch (split uriPathChar pathWithParams) (split uriPathChar uri.path)
  else u.normalizeUriPath uri.path = pathWithParams

/-- The route that `registerRoutes` makes for a method. -/
def route (u : UriUtils) (selfLink : Str) (methodInfo : MethodInfo) : Route :=
  let path := u.buildUriPath selfLink methodInfo.uriPath
  { action := methodInfo.action
    predicate := newUriMatcher u path
    handler := ⟨path, methodInfo⟩ }

/-- `registerRoutes`. -/
def registerRoutes (u : UriUtils) (selfLink : Str) (router : List Route)
    (httpMethods : List MethodInfo) : List Route :=
  httpMethods.foldl (fun router methodInfo => router ++ [route u selfLink methodInfo]) router

/-- The contract interfaces that count: those that are not `null` and that the service
implements. -/
def contractInterfaces (service : XenonService) (interfaces : List (Option Interface)) :
    List Interface :=
  interfaces.reduceOption.filter fun iFace => iFace.isAssignableFrom service

/-- Register the routes of a list of methods; `none` when one of them cannot be read. -/
def registerMethods (u : UriUtils) (selfLink : Str) (router : List Route)
    (methods : List Method) : Option (List Route) :=
  (MethodInfoBuilder.generateMethodInfo methods).map (registerRoutes u selfLink router)

/-- `parseJaxRsAnnotations`; `none` when it throws. -/
def parseJaxRsAnnotations (u : UriUtils) (service : XenonService)
    (interfaces : List (Option Interface)) : Option (List Route) :=
  if service.uriNamespaceOwner then do
    let router ← registerMethods u service.selfLink [] service.declaredMethods
    (contractInterfaces service interfaces).foldlM
      (fun router iFace => registerMethods u service.selfLink router iFace.methods) router
  else none

/-- The router runs the first route of the action of a request whose predicate holds. -/
def routeRequest (router : List Route) (request : Request) : Option Route :=
  router.find? fun r => r.action = request.action ∧ r.predicate request.uri

/-- The method to which a service routes a request; `none` when the service has no router, `some
none` when no route accepts the request. -/
def routedMethod (u : UriUtils) (service : XenonService) (interfaces : List (Option Interface))
    (request : Request) : Option (Option Method) :=
  (parseJaxRsAnnotations u service interfaces).map fun router =>
    (routeRequest router request).map fun r => r.handler.httpMethod.method

/-! ## Groups of methods -/

/-- The groups in which the methods of a service are listed. -/
def methodGroups (service : XenonService) (interfaces : List (Option Interface)) :
    List (List Method) :=
  service.declaredMethods :: (contractInterfaces service interfaces).map Interface.methods

/-- All methods of the groups can be read. -/
def Readable (groups : List (List Method)) : Prop :=
  ∀ group ∈ groups, ∀ method ∈ group, (MethodInfoBuilder.readMethod method).isSome

instance (groups : List (List Method)) : Decidable (Readable groups) := by
  unfold Readable
  infer_instance

/-- The route of a method takes a request. -/
def accepts (u : UriUtils) (selfLink : Str) (request : Request) (method : Method) : Bool :=
  (MethodInfoBuilder.methodInfo method).any fun methodInfo =>
    (route u selfLink methodInfo).action = request.action ∧
      (route u selfLink methodInfo).predicate request.uri

/-- The routes of the methods of some groups. -/
def routesOf (u : UriUtils) (selfLink : Str) (groups : List (List Method)) : List Route :=
  (groups.flatten.filterMap MethodInfoBuilder.methodInfo).map (route u selfLink)

variable {u : UriUtils} {selfLink : Str}

/-- The routes of methods are added at the end. -/
theorem registerRoutes_eq (router : List Route) (httpMethods : List MethodInfo) :
    registerRoutes u selfLink router httpMethods = router ++ httpMethods.map (route u selfLink) := by
  induction httpMethods generalizing router with
  | nil => rw [registerRoutes, List.foldl_nil, List.map_nil, List.append_nil]
  | cons methodInfo httpMethods ih =>
      rw [registerRoutes, List.foldl_cons, ← registerRoutes, ih, List.append_assoc]
      rfl

/-- The routes of a group are added at the end, unless a method of it cannot be read. -/
theorem registerMethods_eq (router : List Route) (methods : List Method) :
    registerMethods u selfLink router methods =
      if Readable [methods] then some (router ++ routesOf u selfLink [methods]) else none := by
  rw [registerMethods, MethodInfoBuilder.generateMethodInfo_eq]
  by_cases hmethods : ∀ method ∈ methods, (MethodInfoBuilder.readMethod method).isSome
  · have hreadable : Readable [methods] := by simpa [Readable] using hmethods
    rw [if_pos hmethods, if_pos hreadable, Option.map_some, registerRoutes_eq, routesOf,
      List.flatten_singleton]
  · have hreadable : ¬ Readable [methods] := by simpa [Readable] using hmethods
    rw [if_neg hmethods, if_neg hreadable]
    rfl

/-- The routes of groups are added one group after the other. -/
theorem foldlM_registerMethods (u : UriUtils) (selfLink : Str) (router : List Route)
    (groups : List (List Method)) :
    groups.foldlM (registerMethods u selfLink) router =
      if Readable groups then some (router ++ routesOf u selfLink groups) else none := by
  induction groups generalizing router with
  | nil => simp [Readable, routesOf]
  | cons methods groups ih =>
      have hcons : Readable (methods :: groups) ↔ Readable [methods] ∧ Readable groups := by
        simp [Readable]
      rw [List.foldlM_cons, registerMethods_eq]
      -- one method that cannot be read ends the registration
      by_cases hmethods : Readable [methods]
      · rw [if_pos hmethods, Option.bind_eq_bind, Option.bind_some, ih]
        by_cases hgroups : Readable groups
        · rw [if_pos hgroups, if_pos (hcons.mpr ⟨hmethods, hgroups⟩), List.append_assoc]
          simp [routesOf]
        · rw [if_neg hgroups, if_neg fun h => hgroups (hcons.mp h).2]
      · rw [if_neg hmethods, if_neg fun h => hmethods (hcons.mp h).1]
        rfl

/-- **The routes of a service** are those of its methods, group by group. -/
theorem parseJaxRsAnnotations_eq (u : UriUtils) (service : XenonService)
    (interfaces : List (Option Interface)) :
    parseJaxRsAnnotations u service interfaces =
      if service.uriNamespaceOwner ∧ Readable (methodGroups service interfaces) then
        some (routesOf u service.selfLink (methodGroups service interfaces))
      else none := by
  rw [parseJaxRsAnnotations]
  by_cases howner : service.uriNamespaceOwner
  · have hgroups := foldlM_registerMethods u service.selfLink [] (methodGroups service interfaces)
    simp only [methodGroups, List.foldlM_cons, List.foldlM_map] at hgroups
    simp only [howner, if_true, true_and]
    exact hgroups
  · rw [if_neg howner, if_neg fun h => howner h.1]

/-- **The method to which a request is routed** is the first match in the groups of methods. -/
theorem routedMethod_eq_firstMatch (u : UriUtils) (service : XenonService)
    (interfaces : List (Option Interface)) (request : Request) :
    routedMethod u service interfaces request =
      if service.uriNamespaceOwner ∧ Readable (methodGroups service interfaces) then
        some (firstMatch (accepts u service.selfLink request) (methodGroups service interfaces))
      else none := by
  rw [routedMethod, parseJaxRsAnnotations_eq]
  split
  · rw [Option.map_some, routeRequest, routesOf, List.find?_map, List.find?_filterMap]
    -- the first route that takes the request is that of the first method that does
    change some (Option.map _ (Option.map _ ((firstMatch (accepts u service.selfLink request)
      (methodGroups service interfaces)).bind MethodInfoBuilder.methodInfo))) = _
    cases hfirst : firstMatch (accepts u service.selfLink request)
        (methodGroups service interfaces) with
    | none => rfl
    | some method =>
        have haccepts : accepts u service.selfLink request method := List.find?_some hfirst
        obtain ⟨methodInfo, hinfo, -⟩ := (Option.any_eq_true _ _).mp haccepts
        rw [Option.bind_some, hinfo, Option.map_some, Option.map_some]
        exact congrArg (some ∘ some) (MethodInfoBuilder.methodInfo_method hinfo)
  · rfl

end RequestRouterBuilder

end XenonExt
