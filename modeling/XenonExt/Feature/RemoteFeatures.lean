import XenonExt.Effects.Network
import XenonExt.Feature.Replication
import XenonExt.JaxRs.ContractService
import XenonExt.JaxRs.PathAndBody

/-! # Features over the network

`FeatureServiceImpl` serves the interface `FeatureService`, and clients anywhere call its methods on
proxies. The methods do nothing to the store themselves: they send a request of their own to
`FeatureDao` and return. The operations of the clients and these requests travel, overtake each other
and may get lost.

* **`FeatureService.methods`**: the interface, as reflection shows it.
* **`FeatureCall`**: the calls, the request that each makes, and what that does at the store.
* **`FeatureEndpoint.perform`**: the service sends requests for an operation that arrives.
* **`FeatureStore.perform`**: what the store does for a request that arrives.
* **`remote_features_refine`**: clients do to the features what their calls do where their requests
  arrive at the store. -/

namespace XenonExt

/-! ## The interface -/

/-- What goes over the wire: texts and features. -/
abbrev FeatureValue : Type := WireValue Feature

namespace FeatureService

/-- `SELF_LINK`. -/
def selfLink : Str := "/common/feature".toList

/-- The class of features. -/
def featureClass : String := "com.tteky.xenonext.util.feature.Feature"

/-- A template of a literal segment and `{group}/{name}`. -/
def pairTemplate (verb : String) : Template where
  leadingSlash := true
  trailingSlash := false
  segments := [.literal verb.toList, .placeholder "group".toList, .placeholder "name".toList]
  segments_ne_nil := List.cons_ne_nil _ _

/-- A `GET` of a group and a name. -/
def pairMethod (name verb : String) : Method :=
  asyncMethod name [some "GET".toList, none] (some (pairTemplate verb).text)
    [pathParameter "group", pathParameter "name"]

def listAll : Method := asyncMethod "listAll" [some "GET".toList] none []

def newFeature : Method :=
  asyncMethod "newFeature" [some "POST".toList] none [operationBody featureClass]

def findByGroupAndName : Method := pairMethod "findByGroupAndName" "find"

def enableFeature : Method := pairMethod "enableFeature" "enable"

def disableFeature : Method := pairMethod "disableFeature" "disable"

/-- The default method, which has no annotations. -/
def findFeature : Method := asyncMethod "findFeature" [] none [plainParameter featureClass]

/-- The static method. -/
def create : Method :=
  { asyncMethod "create" [] none [plainParameter "com.vmware.xenon.common.ServiceHost"] with
    returnClass := .other }

/-- The methods of the interface, in the order of the source. -/
def methods : List Method :=
  [create, listAll, newFeature, findByGroupAndName, findFeature, enableFeature, disableFeature]

/-- The interface, its methods listed in some order. -/
def iFace (methods : List Method) : Interface :=
  ⟨"com.tteky.xenonext.util.feature.FeatureService".toList, some selfLink, methods⟩

end FeatureService

/-- `FeatureServiceImpl`, its class listing some methods. -/
def FeatureServiceImpl.xenonService (declaredMethods : List Method) : XenonService where
  selfLink := FeatureService.selfLink
  uriNamespaceOwner := true
  declaredMethods := declaredMethods
  interfaceNames := [(FeatureService.iFace []).name]

/-! ## Requests to the store -/

namespace FeatureServiceImpl

/-- What `newFeature` posts: the id of the feature is its self link. -/
def posted (f : Feature) : Feature := { f with documentSelfLink := some f.id }

/-- What `enableFeature(group, name, isEnabled)` sends: a patch with nothing but the flag. -/
def patchRequest (group name : JString) (isEnabled : Bool) : DocumentCall Feature :=
  .patch (Feature.formId group name) (some { Feature.new with enable := isEnabled })

/-- **What an invoked method asks of `featureSvc`**, the client for the documents of `FeatureDao`.
`listAll` asks the query service. -/
def requestOf : Method × List (Argument FeatureValue) → Option (DocumentCall Feature)
  | (method, [.body (some (.body f))]) =>
    if method = FeatureService.newFeature then some (.post (some (posted f))) else none
  | (method, [.text group, .text name]) =>
    if method = FeatureService.findByGroupAndName then some (.get (Feature.formId group name))
    else if method = FeatureService.enableFeature then some (patchRequest group name true)
    else if method = FeatureService.disableFeature then some (patchRequest group name false)
    else none
  | _ => none

end FeatureServiceImpl

/-- `FACTORY_LINK`, by its segments. -/
def FeatureDao.factory : List Str := ["common".toList, "persistence".toList, "feature".toList]

/-- The store of features: how bodies are read, and what is done with other requests. -/
structure FeatureStore where
  getBody : Option FeatureValue → Option Feature
  otherwise : FeatureHost → ClientOperation FeatureValue → FeatureHost

/-- **What the store does for a request that arrives**: the factory starts a feature under the id that
is its self link, a feature is patched, and reading changes nothing. -/
def FeatureStore.perform (p : FeatureStore) (h : FeatureHost) (op : ClientOperation FeatureValue) :
    FeatureHost :=
  match op.action, p.getBody op.body with
  | .get, _ => h
  | .post, some f =>
    if op.uri.path = rooted uriPathChar FeatureDao.factory ∧ f.documentSelfLink = some f.id then
      h.post f
    else p.otherwise h op
  | .patch, some recv =>
    let id := ServiceClientUtil.selfLinkToId op.uri.path
    if op.uri.path = childLink FeatureDao.factory id then h.patchDocument id recv
    else p.otherwise h op
  | _, _ => p.otherwise h op

/-! ## Calls -/

/-- The calls of clients. -/
inductive FeatureCall
  | listAll
  | newFeature (f : Feature)
  | findByGroupAndName (group name : Str)
  | enableFeature (group name : Str)
  | disableFeature (group name : Str)

namespace FeatureCall

/-- The method that is called. -/
def method : FeatureCall → Method
  | listAll => FeatureService.listAll
  | newFeature _ => FeatureService.newFeature
  | findByGroupAndName _ _ => FeatureService.findByGroupAndName
  | enableFeature _ _ => FeatureService.enableFeature
  | disableFeature _ _ => FeatureService.disableFeature

/-- The action of the method. -/
def action : FeatureCall → Action
  | newFeature _ => .post
  | listAll | findByGroupAndName _ _ | enableFeature _ _ | disableFeature _ _ => .get

/-- The texts for the path. -/
def texts : FeatureCall → List Str
  | listAll | newFeature _ => []
  | findByGroupAndName group name | enableFeature group name | disableFeature group name =>
    [group, name]

/-- The body. -/
def body : FeatureCall → Option Feature
  | newFeature f => some f
  | listAll | findByGroupAndName _ _ | enableFeature _ _ | disableFeature _ _ => none

/-- The arguments of the call. -/
def args (c : FeatureCall) : List (Option (FeatureValue)) :=
  pathAndBodyArgs c.texts (c.body.map some)

/-- The template of the method that is called. -/
def template : FeatureCall → Option Template
  | listAll | newFeature _ => none
  | findByGroupAndName _ _ => some (FeatureService.pairTemplate "find")
  | enableFeature _ _ => some (FeatureService.pairTemplate "enable")
  | disableFeature _ _ => some (FeatureService.pairTemplate "disable")

/-- The placeholders of the method. -/
def names : FeatureCall → List Str
  | listAll | newFeature _ => []
  | findByGroupAndName _ _ | enableFeature _ _ | disableFeature _ _ =>
    ["group".toList, "name".toList]

/-- The class of the body. -/
def bodyType : FeatureCall → Option Str
  | newFeature _ => some FeatureService.featureClass.toList
  | listAll | findByGroupAndName _ _ | enableFeature _ _ | disableFeature _ _ => none

/-- The info of the method that is called. -/
def info (c : FeatureCall) : MethodInfo :=
  asyncInfo c.method c.action (pathAndBody c.names c.bodyType)

/-- The request that the call makes: the constraints on a new feature refuse what has no name or no
group. -/
def request : FeatureCall → Option (DocumentCall Feature)
  | listAll => none
  | newFeature f =>
    if f.name.isSome ∧ f.group.isSome then some (.post (some (FeatureServiceImpl.posted f))) else none
  | findByGroupAndName group name => some (.get (Feature.formId (some group) (some name)))
  | enableFeature group name =>
    some (FeatureServiceImpl.patchRequest (some group) (some name) true)
  | disableFeature group name =>
    some (FeatureServiceImpl.patchRequest (some group) (some name) false)

/-- The call that a request is sent for, if there is a request. -/
def forwarded {ι : Type} (s : ι × FeatureCall) : Option FeatureCall := s.2.request.map fun _ => s.2

/-- What the call does to the store, if it changes it. -/
def event : FeatureCall → Option FeatureEvent
  | listAll | findByGroupAndName _ _ => none
  | newFeature f => some (.newFeature f)
  | enableFeature group name => some (.enableFeature group name)
  | disableFeature group name => some (.disableFeature group name)

/-- **What a call does**, once its request is at the store. -/
def perform (h : FeatureHost) (c : FeatureCall) : FeatureHost := h.run c.event.toList

/-- Texts that can stand in a path. -/
def Sendable (resolved : Str → Prop) (c : FeatureCall) : Prop := ∀ s ∈ c.texts, Kept resolved s

/-- The info is that of the method. -/
theorem methodInfo_eq (c : FeatureCall) : MethodInfoBuilder.methodInfo c.method = some c.info := by
  simp only [MethodInfoBuilder.methodInfo, MethodInfoBuilder.readMethod,
    MethodInfoBuilder.describeMethod_eq]
  cases c <;> rfl

end FeatureCall

/-- The segments that stand before a group and a name. -/
def FeatureService.verbs : List Str := ["find".toList, "enable".toList, "disable".toList]

/-- **Every call is of a method that can be called remotely.** -/
theorem FeatureCall.callable {resolved ownHeader : Str → Prop}
    (hverbs : ∀ verb ∈ FeatureService.verbs, ¬ resolved verb) (c : FeatureCall) :
    Callable resolved ownHeader c.template c.info := by
  have hkept : ∀ verb ∈ FeatureService.verbs, Kept resolved verb := by
    have hunreserved : ∀ verb ∈ FeatureService.verbs, Unreserved verb := by decide
    exact fun verb hverb => ⟨hunreserved verb hverb, hverbs verb hverb⟩
  refine pathAndBody_callable ?_ (fun s hs => hkept s ?_) (fun name => ?_) ?_
  · cases c <;> rfl
  · cases c <;> simp [template, Template.segmentsOf, FeatureService.pairTemplate] at hs
    all_goals simp [hs, FeatureService.verbs]
  · cases c <;> simp [template, Template.segmentsOf, FeatureService.pairTemplate, names]
  · cases c <;> simp only [names] <;> decide

/-! ## The endpoint -/

/-- What serves the interface at the host of the store: the router, what arrives of an operation, the
parts around the handlers, and `featureSvc`, the client for the documents of the store. What the
futures of the methods complete with may depend on the host. -/
structure FeatureEndpoint (C R E V : Type) where
  router : List Route
  wire : Wire E FeatureValue
  env : Surroundings E FeatureValue V
  futures : FeatureHost → Method → List (Argument FeatureValue) →
    Invocation E (Option (Future E FeatureValue))
  otherwise : Request → List (Answer E FeatureValue V)
  featureSvc : InterfaceClient C R FeatureValue
  store : FeatureStore

/-- A host, with the requests that are on their way to its store. -/
abbrev FeatureState : Type := Network FeatureHost (ClientOperation FeatureValue)

namespace FeatureEndpoint

variable {C R E V : Type}

/-- The service, as the host is. -/
def service (p : FeatureEndpoint C R E V) (h : FeatureHost) : RemoteService E FeatureValue V where
  router := p.router
  surroundings method := { p.env with invokeAsync := p.futures h method }
  wire := p.wire
  otherwise := p.otherwise

/-- The operation for a request, as `featureSvc` sends it. -/
def sentRequest (p : FeatureEndpoint C R E V) (u : UriUtils) (valueOf : FeatureValue → Str)
    (request : DocumentCall Feature) : Option (ClientOperation FeatureValue) :=
  p.featureSvc.sentOp u valueOf request.method request.args

/-- **What the service does for an operation that arrives**: the methods that are invoked send their
requests to the store. -/
def perform [DecidableEq E] (p : FeatureEndpoint C R E V) (u : UriUtils)
    (valueOf : FeatureValue → Str) (s : FeatureState) (op : ClientOperation FeatureValue) :
    FeatureState :=
  (((p.service s.state).serve op).invocations.filterMap FeatureServiceImpl.requestOf).foldl
    (fun s request => s.step (p.sentRequest u valueOf) p.store.perform FeatureHost.step (.send request))
    s

/-- What happens at the host without the service: a request arrives at the store or gets lost, or
the host makes a step. -/
def move (p : FeatureEndpoint C R E V) : FeatureState → NetworkEvent Empty FeatureEvent → FeatureState :=
  Network.stepBehind p.store.perform FeatureHost.step

/-- What the code relies on: features are read as they were written, the validator checks the fields
that must not be `null`, and `featureSvc` is a client for the documents of the store. -/
structure Lawful (p : FeatureEndpoint C R E V) (resolved : Str → Prop) (u : UriUtils) : Prop where
  uriUtils_eq : p.env.uriUtils = u
  getBody_eq : ∀ f, p.wire.getBody (some (.body f)) (some FeatureService.featureClass.toList) =
    .ok (some (.body f))
  validate_eq : ∀ f, ∃ violations, p.env.validate (some (.body f)) = .ok violations ∧
    (violations = [] ↔ f.name.isSome ∧ f.group.isSome)
  featureSvc_built : ContractClient resolved u FeatureDao.factory p.featureSvc
  factory_kept : ∀ s ∈ FeatureDao.factory, Kept resolved s
  stored_eq : ∀ f, p.store.getBody (some (.body f)) = some f

end FeatureEndpoint

namespace FeatureCall

variable {resolved : Str → Prop} {u : UriUtils} {valueOf : FeatureValue → Str} {C R E V : Type}
  {p : FeatureEndpoint C R E V}

/-- What the methods of a group and a name get when they are called. -/
theorem arrivedInputs_pair (hvalueOf : ∀ s, valueOf (.text s) = s)
    (env : Surroundings E FeatureValue V) {c : FeatureCall} {group name : Str}
    (hc : c = .findByGroupAndName group name ∨ c = .enableFeature group name ∨
      c = .disableFeature group name) :
    arrivedInputs env valueOf c.info c.args = .ok [.text (some group), .text (some name)] := by
  have hpair : ∀ method, arrivedInputs env valueOf (asyncInfo method .get
      (pathAndBody ["group".toList, "name".toList] none)) (pathAndBodyArgs [group, name] none) =
        .ok [.text (some group), .text (some name)] := by
    intro method
    simp [arrivedInputs, arrivedInput, asyncInfo, pathAndBody, pathAndBodyArgs, argumentText, hvalueOf]
    rfl
  rcases hc with rfl | rfl | rfl <;> exact hpair _

/-- What `newFeature` gets when it is called. -/
theorem arrivedInputs_newFeature (env : Surroundings E FeatureValue V) {f : Feature}
    {violations : List V} (hvalidate : env.validate (some (.body f)) = .ok violations) :
    arrivedInputs env valueOf (newFeature f).info (newFeature f).args =
      if violations = [] then .ok [.body (some (.body f))]
      else .error (.constraintViolations violations) := by
  have hparameters : (newFeature f).info.parameters =
      [⟨none, 0, .body, some FeatureService.featureClass.toList⟩] := rfl
  have hargs : (newFeature f).args = [some (.body f)] := rfl
  rw [arrivedInputs, hparameters, hargs, List.mapM_cons, List.mapM_nil]
  simp only [arrivedInput, List.getElem?_cons_zero, Option.join_some, hvalidate]
  simp [acceptedInputs, Except.mapError, bind, Except.bind, pure, Except.pure]

/-- **What the invocations of a call ask of the store** is the request of the call. -/
theorem requestOf_arrived (hp : p.Lawful resolved u) (hvalueOf : ∀ s, valueOf (.text s) = s)
    (c : FeatureCall) (h : FeatureHost) :
    ((arrivedInputs ((p.service h).surroundings c.method) valueOf c.info
        c.args).toOption.toList.map (c.method, ·)).filterMap FeatureServiceImpl.requestOf =
      c.request.toList := by
  cases c with
  | listAll => rfl
  | newFeature f =>
      obtain ⟨violations, hvalidate, hiff⟩ := hp.validate_eq f
      have henv : ((p.service h).surroundings (newFeature f).method).validate (some (.body f)) =
          .ok violations := hvalidate
      rw [arrivedInputs_newFeature _ henv]
      -- a feature that violates a constraint makes no request
      by_cases hviolations : violations = []
      · rw [if_pos hviolations, request, if_pos (hiff.mp hviolations)]
        rfl
      · rw [if_neg hviolations, request, if_neg (mt hiff.mpr hviolations)]
        rfl
  | findByGroupAndName group name =>
      rw [arrivedInputs_pair hvalueOf _ (.inl rfl)]
      rfl
  | enableFeature group name =>
      rw [arrivedInputs_pair hvalueOf _ (.inr (.inl rfl))]
      rfl
  | disableFeature group name =>
      rw [arrivedInputs_pair hvalueOf _ (.inr (.inr rfl))]
      rfl

/-- The arguments of a call can be sent. -/
theorem argumentsSendable (hp : p.Lawful resolved u) (hvalueOf : ∀ s, valueOf (.text s) = s)
    {c : FeatureCall} (hc : c.Sendable resolved) :
    ArgumentsSendable resolved p.wire valueOf c.info c.args := by
  refine pathAndBody_sendable hvalueOf ?_ ?_ ?_ hc fun f type htype => ?_
  · cases c <;> rfl
  · cases c <;> rfl
  · cases c <;> rfl
  · obtain rfl : type = FeatureService.featureClass.toList := by
      cases c with
      | newFeature f' => exact (Option.some.inj htype).symm
      | _ => cases htype
    exact hp.getBody_eq f

/-- Parameters of one name have one argument. -/
theorem oneArgument (c : FeatureCall) : OneArgument .path valueOf c.args c.info.parameters := by
  refine pathAndBody_oneArgument ?_ c.args
  cases c <;> simp [names]

/-- The id of a group and a name that can stand in a path. -/
theorem withColons_formId {group name : Str} (hgroup : Kept resolved group)
    (hname : Kept resolved name) : WithColons (Feature.formId (some group) (some name)) := by
  constructor
  · exact List.mem_append_left _ (List.mem_append_right _ List.mem_cons_self)
  · intro d hd
    rcases List.mem_append.mp hd with hd | hd
    · rcases List.mem_append.mp hd with hd | hd
      · exact .inl (hgroup.1.2 d hd)
      · rcases List.mem_pair.mp hd with rfl | rfl <;> exact .inr rfl
    · exact .inl (hname.1.2 d hd)

/-- **The request of a call** does at the store what the call is for. -/
theorem perform_request (hu : u.Lawful resolved) (hcolons : u.KeepsColons resolved)
    (hp : p.Lawful resolved u) (hvalueOf : ∀ s, valueOf (.text s) = s) {c : FeatureCall}
    (hc : c.Sendable resolved) {request : DocumentCall Feature} (hrequest : c.request = some request) :
    ∃ op, p.sentRequest u valueOf request = some op ∧ ∀ h, p.store.perform h op = c.perform h := by
  have hsent : ∀ request : DocumentCall Feature, (∀ id ∈ request.id, WithColons id) →
      ∃ op, p.sentRequest u valueOf request = some op ∧ op.action = request.action ∧
        op.uri.path = request.link FeatureDao.factory ∧ op.body = request.body.join.map .body :=
    fun request => sentOp_withColons hu hcolons hp.factory_kept hp.featureSvc_built hvalueOf
  have hpatch : ∀ group name isEnabled, Kept resolved group → Kept resolved name →
      ∃ op, p.sentRequest u valueOf
          (FeatureServiceImpl.patchRequest (some group) (some name) isEnabled) = some op ∧
        ∀ h, p.store.perform h op = h.patch group name isEnabled := by
    intro group name isEnabled hgroup hname
    have hcolon := withColons_formId hgroup hname
    obtain ⟨op, hop, haction, hpath, hbody⟩ :=
      hsent (FeatureServiceImpl.patchRequest (some group) (some name) isEnabled)
        fun id hid => Option.some.inj hid ▸ hcolon
    -- the id means itself as a replacement, and is the last segment of the link of its document
    have hnot : ∀ d, ¬ unreserved d → d ≠ ':' → d ∉ Feature.formId (some group) (some name) :=
      fun d hd hne hmem => (hcolon.2 d hmem).elim hd hne
    have hlink : op.uri.path =
        childLink FeatureDao.factory (Feature.formId (some group) (some name)) := hpath
    have hid : FeatureServiceImpl.requestedId group name =
        some (Feature.formId (some group) (some name)) :=
      StatefulServiceContract.requestedId_eq_self (hnot _ (by decide) (by decide))
        (hnot _ (by decide) (by decide))
    refine ⟨op, hop, fun h => ?_⟩
    have hread : p.store.getBody op.body = some { Feature.new with enable := isEnabled } := by
      rw [hbody]
      exact hp.stored_eq _
    have hself : ServiceClientUtil.selfLinkToId
        (childLink FeatureDao.factory (Feature.formId (some group) (some name))) =
          Feature.formId (some group) (some name) :=
      ServiceClientUtil.selfLinkToId_childLink (hnot _ (by decide) (by decide)) _
    simp only [FeatureStore.perform, haction, FeatureServiceImpl.patchRequest, DocumentCall.action,
      hread, hlink, hself, if_true, FeatureHost.patch, hid]
  cases c with
  | listAll => exact absurd hrequest.symm (Option.some_ne_none _)
  | newFeature f =>
      obtain ⟨-, heq⟩ := Option.ite_none_right_eq_some.mp hrequest
      obtain rfl := Option.some.inj heq
      obtain ⟨op, hop, haction, hpath, hbody⟩ :=
        hsent (.post (some (FeatureServiceImpl.posted f))) fun id hid => absurd hid (Option.not_mem_none id)
      refine ⟨op, hop, fun h => ?_⟩
      have hread : p.store.getBody op.body = some (FeatureServiceImpl.posted f) := by
        rw [hbody]
        exact hp.stored_eq _
      have hfactory : op.uri.path = rooted uriPathChar FeatureDao.factory :=
        hpath.trans (congrArg _ (List.append_nil _))
      have hself : (FeatureServiceImpl.posted f).documentSelfLink =
          some (FeatureServiceImpl.posted f).id := rfl
      simp only [FeatureStore.perform, haction, DocumentCall.action, hread, hfactory, hself, and_self,
        if_true]
      rfl
  | findByGroupAndName group name =>
      obtain rfl := Option.some.inj hrequest
      obtain ⟨op, hop, haction, -, -⟩ := hsent (.get (Feature.formId (some group) (some name)))
        fun id hid => Option.some.inj hid ▸
          withColons_formId (hc group List.mem_cons_self) (hc name (by simp [texts]))
      refine ⟨op, hop, fun h => ?_⟩
      simp only [FeatureStore.perform, haction, DocumentCall.action]
      rfl
  | enableFeature group name =>
      obtain rfl := Option.some.inj hrequest
      exact hpatch group name true (hc group List.mem_cons_self) (hc name (by simp [texts]))
  | disableFeature group name =>
      obtain rfl := Option.some.inj hrequest
      exact hpatch group name false (hc group List.mem_cons_self) (hc name (by simp [texts]))

end FeatureCall

/-! ## The routes of the interface -/

section Routes

variable {resolved : Str → Prop} {u : UriUtils} {declared listed : List Method}

/-- The paths of the interface are templates. -/
theorem FeatureService.templated : ∀ m ∈ methods, RequestRouterBuilder.Templated m := by
  have hnone : ∀ m : Method, m.path = none → RequestRouterBuilder.Templated m :=
    fun m hpath => ⟨none, hpath, fun s hs => absurd hs List.not_mem_nil⟩
  have hpair : ∀ name, ∀ verb : String, (Segment.literal verb.toList).Plain →
      RequestRouterBuilder.Templated (pairMethod name verb) := by
    intro name verb hverb
    refine RequestRouterBuilder.templated_of_text (pairTemplate verb) rfl fun s hs => ?_
    simp only [pairTemplate, List.mem_cons, List.not_mem_nil, or_false] at hs
    rcases hs with rfl | rfl | rfl
    · exact hverb
    · decide
    · decide
  intro m hm
  simp only [methods, List.mem_cons, List.not_mem_nil, or_false] at hm
  rcases hm with rfl | rfl | rfl | rfl | rfl | rfl | rfl
  · exact hnone _ rfl
  · exact hnone _ rfl
  · exact hnone _ rfl
  · exact hpair _ _ (by decide)
  · exact hnone _ rfl
  · exact hpair _ _ (by decide)
  · exact hpair _ _ (by decide)

/-- **The templates of the interface do not overlap.** -/
theorem FeatureService.apart : ∀ a ∈ methods, ∀ b ∈ methods, a ≠ b →
    (RequestRouterBuilder.actionOf b).isSome →
      RequestRouterBuilder.actionOf a = RequestRouterBuilder.actionOf b →
        Pattern.meet (RequestRouterBuilder.pattern a) (RequestRouterBuilder.pattern b) = none := by
  decide +kernel

/-- **Every call takes its requests alone**, in whatever order the methods are listed. -/
theorem FeatureCall.takesAlone (hu : u.Lawful resolved)
    (hlisted : listed.Perm FeatureService.methods) (hdeclared : ∀ m ∈ declared, m.Unannotated)
    (c : FeatureCall) :
    c.method ∈ (RequestRouterBuilder.methodGroups (FeatureServiceImpl.xenonService declared)
        [some (FeatureService.iFace listed)]).flatten ∧
      TakesAlone u FeatureService.selfLink
        (RequestRouterBuilder.methodGroups (FeatureServiceImpl.xenonService declared)
          [some (FeatureService.iFace listed)]) c.method := by
  have hmethod : c.method ∈ FeatureService.methods := by
    cases c <;> simp [FeatureCall.method, FeatureService.methods]
  have hsome : (RequestRouterBuilder.actionOf c.method).isSome := by
    rw [RequestRouterBuilder.actionOf, c.methodInfo_eq]
    rfl
  have hself : ∀ s ∈ ["common".toList, "feature".toList], (Segment.literal s).Whole := by
    have hplain : ∀ s ∈ ["common".toList, "feature".toList], (Segment.literal s).Plain := by decide
    exact fun s hs => (hplain s hs).whole
  have hlink : FeatureService.selfLink =
      rooted uriPathChar ["common".toList, "feature".toList] := by decide
  have hname : (FeatureService.iFace listed).isAssignableFrom
      (FeatureServiceImpl.xenonService declared) = true := decide_eq_true List.mem_cons_self
  exact takesAlone_of_contract hu hself hlink hname hdeclared
    (fun m hm => FeatureService.templated m (hlisted.mem_iff.mp hm)) (hlisted.mem_iff.mpr hmethod)
    hsome fun m hm hne =>
      FeatureService.apart m (hlisted.mem_iff.mp hm) c.method hmethod hne hsome

end Routes

/-! ## Clients -/

section Clients

variable {C R C' R' E V ι : Type} [DecidableEq E] {resolved ownHeader : Str → Prop} {u : UriUtils}
  {declared listed : List Method} {valueOf : FeatureValue → Str} {p : FeatureEndpoint C' R' E V}
  {client : InterfaceClient C R FeatureValue}

/-- **A client of the interface** at the service, each listing the methods in its own order; its
interceptors leave an operation to carry its call. -/
structure FeatureEndpoint.HasClient (resolved ownHeader : Str → Prop) (u : UriUtils)
    (declared listed : List Method) (p : FeatureEndpoint C' R' E V)
    (client : InterfaceClient C R FeatureValue) : Prop where
  connected : ∃ listing baseUri referrer link, Connected resolved ownHeader u
    (FeatureService.iFace listing) baseUri referrer client link
    (FeatureServiceImpl.xenonService declared) [some (FeatureService.iFace listed)]
    (p.service .empty)
  before : ∀ (c : FeatureCall) op, ∃ op', client.interceptBeforeComplete op = .ok op' ∧
    Carries c.info op op'

/-- The operation for the request of a call, if there is one. -/
def FeatureEndpoint.sentFor (p : FeatureEndpoint C' R' E V) (u : UriUtils)
    (valueOf : FeatureValue → Str) (c : FeatureCall) : Option (ClientOperation FeatureValue) :=
  c.request.bind (p.sentRequest u valueOf)

/-- **The operation of a call** makes the service send the request of the call. -/
theorem FeatureEndpoint.HasClient.perform_eq
    (hclient : p.HasClient resolved ownHeader u declared listed client)
    (hp : p.Lawful resolved u) (hvalueOf : ∀ s, valueOf (.text s) = s)
    (hverbs : ∀ verb ∈ FeatureService.verbs, ¬ resolved verb)
    (hlisted : listed.Perm FeatureService.methods) (hdeclared : ∀ m ∈ declared, m.Unannotated)
    {c : FeatureCall} (hc : c.Sendable resolved) (i : ι) :
    ∃ op, client.sentOp u valueOf c.method c.args = some op ∧
      ∀ s, p.perform u valueOf s op = ((FeatureCall.forwarded (i, c)).toList.map .send).foldl
        (Network.step (p.sentFor u valueOf) p.store.perform FeatureHost.step) s := by
  obtain ⟨listing, baseUri, referrer, link, hconnected⟩ := hclient.connected
  obtain ⟨hmem, halone⟩ := c.takesAlone hconnected.lawful hlisted hdeclared
  have hserved : ∀ h, ∃ op, client.sentOp u valueOf c.method c.args = some op ∧
      ((p.service h).serve op).invocations =
        (arrivedInputs ((p.service h).surroundings c.method) valueOf c.info
          c.args).toOption.toList.map (c.method, ·) := by
    intro h
    -- the router and the wire are the same for every state of the host
    have hconnected' : Connected resolved ownHeader u (FeatureService.iFace listing) baseUri
        referrer client link (FeatureServiceImpl.xenonService declared)
        [some (FeatureService.iFace listed)] (p.service h) := hconnected.of_same rfl rfl
    obtain ⟨op, hsent, -, hserve⟩ := sentOp_served hconnected' hmem halone c.methodInfo_eq
      (c.callable hverbs) (FeatureCall.argumentsSendable hp hvalueOf hc) c.oneArgument
      hp.uriUtils_eq (hclient.before c)
    exact ⟨op, hsent, by rw [hserve]⟩
  obtain ⟨op, hsent, -⟩ := hserved .empty
  refine ⟨op, hsent, fun s => ?_⟩
  obtain ⟨op', hsent', hserve⟩ := hserved s.state
  obtain rfl := Option.some.inj (hsent.symm.trans hsent')
  rw [FeatureEndpoint.perform, hserve, FeatureCall.requestOf_arrived hp hvalueOf,
    FeatureCall.forwarded]
  cases hrequest : c.request with
  | none => rfl
  | some request =>
      have hfor : p.sentFor u valueOf c = p.sentRequest u valueOf request := by
        rw [FeatureEndpoint.sentFor, hrequest, Option.bind_some]
      simp only [Option.map_some, Option.toList_some, List.map_cons, List.map_nil, List.foldl_cons,
        List.foldl_nil, Network.step, hfor]

/-- What happens at a store, as events of the host: a call is what it does there. -/
def FeatureCall.eventsOf : FeatureCall ⊕ FeatureEvent → List FeatureEvent :=
  Sum.elim (fun c => c.event.toList) fun e => [e]

/-- What happens at a store is a run of the host. -/
theorem FeatureHost.foldl_happened (h : FeatureHost) (l : List (FeatureCall ⊕ FeatureEvent)) :
    l.foldl (fun h => Sum.elim (fun c => c.perform h) h.step) h =
      h.run (l.flatMap FeatureCall.eventsOf) := by
  rw [run, List.foldl_flatMap]
  refine List.foldl_ext _ _ _ fun h x _ => ?_
  cases x <;> rfl

/-- **What happens at the store** in a run of the clients: the calls whose requests arrive there, in
this order, and the events of the host. -/
def happenedAtStore (events : List (NetworkEvent (ι × FeatureCall) (NetworkEvent Empty FeatureEvent))) :
    List (FeatureCall ⊕ FeatureEvent) :=
  Network.happened [] ((Network.happened [] events).flatMap (Network.relayed FeatureCall.forwarded))

/-- **Remote features are local features.** Any number of clients call the methods of the interface.
Their operations travel to the service, which sends a request to the store for each that arrives; the
operations, and the requests behind them, overtake each other and may get lost; and the host goes on
by itself, with deletions, notifications and lookups of the cache. What becomes of the host is its run
over what the calls do, each where its request arrives at the store, and over its own events; and a
call happens once at most. -/
theorem remote_features_refine {clients : ι → InterfaceClient C R FeatureValue}
    (hclients : ∀ i, p.HasClient resolved ownHeader u declared listed (clients i))
    (hu : u.Lawful resolved) (hcolons : u.KeepsColons resolved) (hp : p.Lawful resolved u)
    (hvalueOf : ∀ s, valueOf (.text s) = s)
    (hverbs : ∀ verb ∈ FeatureService.verbs, ¬ resolved verb)
    (hlisted : listed.Perm FeatureService.methods) (hdeclared : ∀ m ∈ declared, m.Unannotated)
    {events : List (NetworkEvent (ι × FeatureCall) (NetworkEvent Empty FeatureEvent))}
    (hsendable : ∀ i c, .send (i, c) ∈ events → c.Sendable resolved) (h : FeatureHost) :
    (Network.run (fun s : ι × FeatureCall => (clients s.1).sentOp u valueOf s.2.method s.2.args)
        (p.perform u valueOf) p.move ⟨h, []⟩ events).state.state =
      h.run ((happenedAtStore events).flatMap FeatureCall.eventsOf) ∧
    ((happenedAtStore events).filterMap Sum.getLeft?).Subperm
      ((Network.sent events).filterMap FeatureCall.forwarded) := by
  have hrelayed := Network.sent_relayed FeatureCall.forwarded (Network.happened [] events)
  have harrived := Network.happened_subperm [] events
  constructor
  · -- the service is a relay, and behind it the requests are a network of their own
    rw [FeatureEndpoint.move, Network.state_run_relay FeatureCall.forwarded (p.sentFor u valueOf),
      happenedAtStore, ← FeatureHost.foldl_happened]
    · refine Network.state_run_encode (fun c hc => ?_) h
      -- a request is sent for a call that a client has sent
      rw [← Network.mem_sent_iff, hrelayed] at hc
      obtain ⟨⟨i, c'⟩, hmem, hforwarded⟩ := List.mem_filterMap.mp hc
      obtain ⟨request, hrequest, rfl⟩ := Option.map_eq_some_iff.mp hforwarded
      have hsend := hsendable i c' (Network.mem_sent_iff.mp (harrived.subset hmem))
      obtain ⟨op, hop, hperform⟩ :=
        FeatureCall.perform_request hu hcolons hp hvalueOf hsend hrequest
      exact ⟨op, by rw [FeatureEndpoint.sentFor, hrequest, Option.bind_some, hop], hperform⟩
    · rintro ⟨i, c⟩ hs
      exact (hclients i).perform_eq hp hvalueOf hverbs hlisted hdeclared (hsendable i c hs) i
  · -- what happens at the store was sent by the service, for a call that arrived there
    have hstore := Network.happened_subperm []
      ((Network.happened [] events).flatMap (Network.relayed FeatureCall.forwarded))
    rw [List.nil_append, hrelayed] at hstore
    exact hstore.trans (subperm_filterMap _ harrived)

end Clients

/-! ## Two clients -/

/-- An endpoint whose validator checks names and groups, and whose futures never complete. -/
def sampleEndpoint : FeatureEndpoint Unit Unit Unit Unit where
  router := RequestRouterBuilder.routesOf .documented FeatureService.selfLink
    [[], FeatureService.methods]
  wire := .documented
  env :=
    { uriUtils := .documented
      getBody := fun _ => .ok none
      validate := fun body => match body with
        | some (.body f) => .ok (if f.name.isSome ∧ f.group.isSome then [] else [()])
        | _ => .ok []
      setBody := fun _ => .ok ()
      invoke := fun _ => .refused
      invokeAsync := fun _ => .refused
      throwables := fun _ => ⟨"java.lang.Exception".toList, .otherException, none, none, []⟩
      violationSet := fun _ => .text []
      stackTrace := []
      stack := 1000 }
  futures _ _ _ := .returned (some ⟨none⟩)
  otherwise _ := []
  featureSvc := contractClientAt _ "http://localhost:8000".toList FeatureDao.factory
  store :=
    { getBody := fun body => match body with
        | some (.body f) => some f
        | _ => none
      otherwise := fun h _ => h }

/-- A client at the host. -/
def featureClient : InterfaceClient Unit Unit FeatureValue where
  handler := JaxRsServiceClient.build .documented (FeatureService.iFace FeatureService.methods)
    ⟨"http://localhost:8000".toList, [], none⟩ []
  httpMethods := FeatureService.methods.filterMap MethodInfoBuilder.methodInfo
  returnInfo _ := ⟨true, .named FeatureService.featureClass.toList,
    .classType (.named FeatureService.featureClass.toList)⟩
  interceptBeforeComplete op := .ok op
  interceptor := ⟨none⟩
  decoding := ⟨fun _ => true, fun _ _ => .error (.exception ()), fun _ _ => false⟩

/-- A feature is created; then one client enables it and the other one disables it. Their operations
arrive in the order in which they were sent, and the requests behind them do not. -/
def overtakenCalls : List (NetworkEvent (Bool × FeatureCall) (NetworkEvent Empty FeatureEvent)) :=
  [.send (true, .newFeature
      { Feature.new with group := some "Test".toList, name := some "Enabled".toList }),
    .arrive 0, .move (.arrive 0), .send (true, .enableFeature "Test".toList "Enabled".toList),
    .send (false, .disableFeature "Test".toList "Enabled".toList), .arrive 0, .arrive 0,
    .move (.arrive 1), .move (.arrive 0)]

/-- The parts of the endpoint are as the code relies on. -/
theorem sampleEndpoint_lawful : sampleEndpoint.Lawful (fun _ => False) .documented where
  uriUtils_eq := rfl
  getBody_eq f := rfl
  validate_eq f := by
    refine ⟨_, rfl, ?_⟩
    by_cases hf : f.name.isSome ∧ f.group.isSome
    · rw [if_pos hf]
      exact iff_of_true rfl hf
    · rw [if_neg hf]
      exact iff_of_false (List.cons_ne_nil _ _) hf
  featureSvc_built := contractClientAt_contractClient _ _ _
  factory_kept := kept_of_unreserved (by decide)
  stored_eq f := rfl

/-- The client and the endpoint belong together. -/
theorem featureClient_hasClient : sampleEndpoint.HasClient (fun _ => False) (fun _ => False)
    .documented [] FeatureService.methods featureClient where
  connected := by
    have hreadable : RequestRouterBuilder.Readable [[], FeatureService.methods] := by decide
    refine ⟨FeatureService.methods, ⟨"http://localhost:8000".toList, [], none⟩, [],
      ["common".toList, "feature".toList], UriUtils.documented_lawful, Wire.documented_lawful, rfl,
      ?_, rfl, by decide, by decide, ?_, ?_⟩
    · rw [MethodInfoBuilder.generateMethodInfo_eq, if_pos]
      · rfl
      · exact hreadable _ (List.mem_cons_of_mem _ List.mem_cons_self)
    · exact kept_of_unreserved (by decide)
    · rw [RequestRouterBuilder.parseJaxRsAnnotations_eq, if_pos ⟨rfl, hreadable⟩]
      rfl
  before c op := ⟨op, rfl, .refl _ _⟩

/-- The feature ends enabled, as the host's own run over the calls says, taken in the order in which
their requests arrive at the store. -/
theorem remote_features_refine_overtaken :
    ((Network.run (fun s : Bool × FeatureCall =>
        featureClient.sentOp .documented WireValue.valueOf s.2.method s.2.args)
      (sampleEndpoint.perform .documented WireValue.valueOf) sampleEndpoint.move ⟨.empty, []⟩
        overtakenCalls).state.state.store.lookup "Test::Enabled".toList).map Feature.enable =
      some true := by
  have hvalueOf : ∀ s, WireValue.valueOf (.text s : FeatureValue) = s := fun _ => rfl
  have hkept : ∀ s ∈ ["Test".toList, "Enabled".toList], Kept (fun _ => False) s :=
    kept_of_unreserved (by decide)
  have hsendable : ∀ (i : Bool) c, .send (i, c) ∈ overtakenCalls → c.Sendable fun _ => False := by
    intro i c hsend
    simp only [overtakenCalls, List.mem_cons, List.not_mem_nil, NetworkEvent.send.injEq,
      Prod.mk.injEq, reduceCtorEq, false_or, or_false] at hsend
    rcases hsend with ⟨-, rfl⟩ | ⟨-, rfl⟩ | ⟨-, rfl⟩
    · exact fun s hs => absurd hs List.not_mem_nil
    · exact hkept
    · exact hkept
  obtain ⟨hstate, -⟩ := remote_features_refine (fun _ : Bool => featureClient_hasClient)
    UriUtils.documented_lawful UriUtils.documented_keepsColons sampleEndpoint_lawful hvalueOf
    (fun _ _ => not_false) (List.Perm.refl _) (by simp) hsendable .empty
  rw [hstate]
  decide +kernel

end XenonExt
