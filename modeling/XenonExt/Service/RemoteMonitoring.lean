import XenonExt.Effects.Network
import XenonExt.JaxRs.ContractService
import XenonExt.JaxRs.PathAndBody
import XenonExt.JaxRs.QueryCalls
import XenonExt.Service.Monitoring

/-! # Monitoring over the network

The services of documents register through its interface with the stats service of their host. The
requests overtake each other and may get lost, and so do those of the pages.

* **`FSMStatsService.methods`**: the interface, as reflection shows it.
* **`StatsCall`**: the calls; `StatsEndpoint.HasClient.perform_eq` says what each does where it
  arrives.
* **`monitoring_settled_iff`**: when the page of a service shows its own graph, in whatever order
  the registrations arrive. -/

namespace XenonExt

/-! ## The interface -/

namespace FSMStatsService

/-- `SELF_LINK`. -/
def selfLink : Str := "/fsm/monitoring".toList

/-- A template of literal segments. -/
def literals (first : String) (rest : List String) : Template where
  leadingSlash := true
  trailingSlash := false
  segments := .literal first.toList :: rest.map fun s => .literal s.toList
  segments_ne_nil := List.cons_ne_nil _ _

/-- A `GET` with parameters in the query. -/
def getMethod (name : String) (template : Template) (parameters : List String)
    (returnClass : ReturnClass) : Method where
  name := name.toList
  isPublic := true
  httpMethodNames := [none, some "GET".toList]
  path := some template.text
  parameters := parameters.map queryParameter
  returnClass := returnClass

def allServices : Method := getMethod "allServices" (literals "list" []) [] .other

def registerSvc : Method :=
  getMethod "registerSvc" (literals "register" []) ["uri", "className"] .other

def svcGraphson : Method :=
  getMethod "svcGraphson" (literals "svc" ["graphson"]) ["uri"] .other

def docGraphson : Method :=
  getMethod "docGraphson" (literals "doc" ["graphson"]) ["uri"] .completableFuture

/-- The methods of the interface, in the order of the source. -/
def methods : List Method := [allServices, registerSvc, svcGraphson, docGraphson]

/-- The interface, its methods listed in some order. -/
def iFace (methods : List Method) : Interface :=
  ⟨"com.tteky.xenonext.fsm.stats.FSMStatsService".toList, some selfLink, methods⟩

end FSMStatsService

/-- `FSMStatsServiceImpl`, its class listing some methods. -/
def FSMStatsServiceImpl.xenonService (declaredMethods : List Method) : XenonService where
  selfLink := FSMStatsService.selfLink
  uriNamespaceOwner := true
  declaredMethods := declaredMethods
  interfaceNames := [(FSMStatsService.iFace []).name]

/-! ## Calls -/

/-- The calls of the interface. -/
inductive StatsCall
  | allServices
  | registerSvc (r : Registration)
  | svcGraphson (uri : Str)
  | docGraphson (uri : Str)

namespace StatsCall

/-- The method that is called. -/
def method : StatsCall → Method
  | allServices => FSMStatsService.allServices
  | registerSvc _ => FSMStatsService.registerSvc
  | svcGraphson _ => FSMStatsService.svcGraphson
  | docGraphson _ => FSMStatsService.docGraphson

/-- The texts that it is called with. -/
def texts : StatsCall → List Str
  | allServices => []
  | registerSvc r => [r.uri, r.className]
  | svcGraphson uri | docGraphson uri => [uri]

/-- The arguments of the method. -/
def args {T : Type} (c : StatsCall) : List (Option (WireValue T)) :=
  c.texts.map fun s => some (.text s)

/-- The template of the method. -/
def template : StatsCall → Template
  | allServices => FSMStatsService.literals "list" []
  | registerSvc _ => FSMStatsService.literals "register" []
  | svcGraphson _ => FSMStatsService.literals "svc" ["graphson"]
  | docGraphson _ => FSMStatsService.literals "doc" ["graphson"]

/-- The names of the parameters. -/
def names : StatsCall → List Str
  | allServices => []
  | registerSvc _ => ["uri".toList, "className".toList]
  | svcGraphson _ | docGraphson _ => ["uri".toList]

/-- The info of the method. -/
def info (c : StatsCall) : MethodInfo where
  method := c.method
  parameters := c.names.zipIdx.map fun name => ⟨some name.1, name.2, .query, none⟩
  uriPath := some c.template.text
  action := .get
  pathParamsVsUriIndex := MethodInfoBuilder.parsePathParams (some c.template.text)
  asyncApi := c.method.returnClass = .completableFuture

/-- The registration that a call is, if it is one. -/
def registration? : StatsCall → Option Registration
  | registerSvc r => some r
  | allServices | svcGraphson _ | docGraphson _ => none

/-- A call whose texts can stand in a query. -/
def Sendable (c : StatsCall) : Prop := ∀ s ∈ c.texts, InQueryText s

/-- The info is that of the method. -/
theorem methodInfo_eq (c : StatsCall) : MethodInfoBuilder.methodInfo c.method = some c.info := by
  simp only [MethodInfoBuilder.methodInfo, MethodInfoBuilder.readMethod,
    MethodInfoBuilder.describeMethod_eq]
  cases c <;> rfl

/-- The methods of the interface have queries only. -/
theorem inQuery {resolved : Str → Prop}
    (hsegments : ∀ s ∈ ["list", "register", "svc", "doc", "graphson"], ¬ resolved s.toList)
    (c : StatsCall) : InQuery resolved (some c.template) c.info where
  uriPath_eq := rfl
  literal s hs := by
    have hunreserved : ∀ s ∈ ["list", "register", "svc", "doc", "graphson"],
        Unreserved s.toList := by decide
    have hkept : ∀ s ∈ ["list", "register", "svc", "doc", "graphson"], Kept resolved s.toList :=
      fun s hs => ⟨hunreserved s hs, hsegments s hs⟩
    have hliteral : ∃ t ∈ ["list", "register", "svc", "doc", "graphson"],
        s = .literal t.toList := by
      cases c <;>
        simp only [Template.segmentsOf, template, FSMStatsService.literals, Option.map_some,
          Option.getD_some, List.map_cons, List.map_nil, List.mem_cons, List.not_mem_nil,
          or_false] at hs
      case allServices => exact ⟨"list", by simp, hs⟩
      case registerSvc => exact ⟨"register", by simp, hs⟩
      case svcGraphson =>
          rcases hs with hs | hs
          · exact ⟨"svc", by simp, hs⟩
          · exact ⟨"graphson", by simp, hs⟩
      case docGraphson =>
          rcases hs with hs | hs
          · exact ⟨"doc", by simp, hs⟩
          · exact ⟨"graphson", by simp, hs⟩
    obtain ⟨t, ht, rfl⟩ := hliteral
    exact ⟨_, rfl, hkept t ht⟩
  type_eq p hp := by
    obtain ⟨name, -, rfl⟩ := List.mem_map.mp hp
    rfl
  named p hp := by
    have hunreserved : ∀ name ∈ ["uri".toList, "className".toList], Unreserved name := by decide
    have hnames : ∀ name ∈ c.names, name ∈ ["uri".toList, "className".toList] := by
      cases c <;> simp [names]
    obtain ⟨name, hname, rfl⟩ := List.mem_map.mp hp
    exact ⟨name.1, rfl, hunreserved _ (hnames _ (List.fst_mem_of_mem_zipIdx hname))⟩
  nodup := by cases c <;> simp [info, names]

/-- The texts of a call fit its method. -/
theorem queriesFit {T : Type} {valueOf : WireValue T → Str} (hvalueOf : ∀ s, valueOf (.text s) = s)
    {c : StatsCall} (hc : c.Sendable) : QueriesFit valueOf c.info c.args where
  index_lt p hp := by
    obtain ⟨name, hname, rfl⟩ := List.mem_map.mp hp
    have hlength : c.texts.length = c.names.length := by cases c <;> rfl
    rw [args, List.length_map, hlength]
    exact List.snd_lt_of_mem_zipIdx hname
  inQuery p hp value hvalue := by
    rw [argumentText, args, List.getElem?_map] at hvalue
    cases htext : c.texts[p.parameterIndex]? with
    | none => simp [htext] at hvalue
    | some s =>
        rw [htext, Option.map_some, Option.join_some, Option.map_some, hvalueOf,
          Option.some_inj] at hvalue
        exact hvalue ▸ hc s (List.mem_of_getElem? htext)

end StatsCall

/-! ## The endpoint -/

/-- The registration that an invocation of a method of `FSMStatsServiceImpl` is, if it is one. -/
def FSMStatsServiceImpl.registrationOf {O : Type} : Method × List (Argument O) → Option Registration
  | (method, [.text (some uri), .text (some className)]) =>
    if method = FSMStatsService.registerSvc then some ⟨uri, className⟩ else none
  | _ => none

/-- What serves the interface: the classes that can be loaded, the router, what arrives of an
operation, and the parts around the handlers. What the methods return may depend on what the service
knows. -/
structure StatsEndpoint (G A E T V : Type) where
  forName : Str → Option (ServiceClass G A)
  router : List Route
  wire : Wire E (WireValue T)
  env : Surroundings E (WireValue T) V
  results : FSMStatsServiceImpl G A → Method → List (Argument (WireValue T)) →
    Invocation E (Option (WireValue T))
  futures : FSMStatsServiceImpl G A → Method → List (Argument (WireValue T)) →
    Invocation E (Option (Future E (WireValue T)))
  otherwise : Request → List (Answer E (WireValue T) V)

namespace StatsEndpoint

variable {G A E T V : Type}

/-- The service, with what it knows. -/
def service (p : StatsEndpoint G A E T V) (stats : FSMStatsServiceImpl G A) :
    RemoteService E (WireValue T) V where
  router := p.router
  surroundings method :=
    { p.env with
      invoke := p.results stats method
      invokeAsync := p.futures stats method }
  wire := p.wire
  otherwise := p.otherwise

/-- **What the stats service does for an operation that arrives**: it remembers what the methods
that are invoked register. -/
def perform [DecidableEq E] (p : StatsEndpoint G A E T V) (stats : FSMStatsServiceImpl G A)
    (op : ClientOperation (WireValue T)) : FSMStatsServiceImpl G A :=
  (((p.service stats).serve op).invocations.filterMap FSMStatsServiceImpl.registrationOf).foldl
    (FSMStatsServiceImpl.register p.forName) stats

/-- **A client of the interface** at the service, each listing the methods in its own order; its
interceptors leave an operation to carry its call. -/
structure HasClient {C R : Type} (resolved ownHeader : Str → Prop) (u : UriUtils)
    (declared listed : List Method) (p : StatsEndpoint G A E T V)
    (client : InterfaceClient C R (WireValue T)) : Prop where
  connected : ∃ listing baseUri referrer link, Connected resolved ownHeader u
    (FSMStatsService.iFace listing) baseUri referrer client link
    (FSMStatsServiceImpl.xenonService declared) [some (FSMStatsService.iFace listed)]
    (p.service ⟨∅⟩)
  before : ∀ (c : StatsCall) op, ∃ op', client.interceptBeforeComplete op = .ok op' ∧
    Carries c.info op op'

end StatsEndpoint

/-! ## The routes of the interface -/

/-- The paths of the interface are templates. -/
theorem FSMStatsService.templated : ∀ m ∈ methods, RequestRouterBuilder.Templated m := by
  have hliterals : ∀ name first rest parameters returnClass,
      (∀ s ∈ first :: rest, (Segment.literal s.toList).Plain) → RequestRouterBuilder.Templated
        (getMethod name (literals first rest) parameters returnClass) := by
    intro name first rest parameters returnClass hplain
    refine RequestRouterBuilder.templated_of_text (literals first rest) rfl fun s hs => ?_
    have hs : s ∈ (first :: rest).map fun s => Segment.literal s.toList := hs
    obtain ⟨t, ht, rfl⟩ := List.mem_map.mp hs
    exact hplain t ht
  intro m hm
  simp only [methods, List.mem_cons, List.not_mem_nil, or_false] at hm
  rcases hm with rfl | rfl | rfl | rfl <;> exact hliterals _ _ _ _ _ (by decide)

/-- **The templates of the interface do not overlap.** -/
theorem FSMStatsService.apart : ∀ a ∈ methods, ∀ b ∈ methods, a ≠ b →
    Pattern.meet (RequestRouterBuilder.pattern a) (RequestRouterBuilder.pattern b) = none := by
  decide +kernel

section Clients

variable {C E G A R T V ι : Type} [DecidableEq E] {resolved ownHeader : Str → Prop} {u : UriUtils}
  {declared listed : List Method} {valueOf : WireValue T → Str} {p : StatsEndpoint G A E T V}
  {client : InterfaceClient C R (WireValue T)}

/-- **Every call takes its requests alone**, in whatever order the methods are listed. -/
theorem StatsCall.takesAlone (hu : u.Lawful resolved)
    (hlisted : listed.Perm FSMStatsService.methods) (hdeclared : ∀ m ∈ declared, m.Unannotated)
    (c : StatsCall) :
    c.method ∈ (RequestRouterBuilder.methodGroups (FSMStatsServiceImpl.xenonService declared)
        [some (FSMStatsService.iFace listed)]).flatten ∧
      TakesAlone u FSMStatsService.selfLink
        (RequestRouterBuilder.methodGroups (FSMStatsServiceImpl.xenonService declared)
          [some (FSMStatsService.iFace listed)]) c.method := by
  have hmethod : c.method ∈ FSMStatsService.methods := by
    cases c <;> simp [StatsCall.method, FSMStatsService.methods]
  have hsome : (RequestRouterBuilder.actionOf c.method).isSome := by
    rw [RequestRouterBuilder.actionOf, c.methodInfo_eq]
    rfl
  have hself : ∀ s ∈ ["fsm".toList, "monitoring".toList], (Segment.literal s).Whole := by
    have hplain : ∀ s ∈ ["fsm".toList, "monitoring".toList], (Segment.literal s).Plain := by decide
    exact fun s hs => (hplain s hs).whole
  have hlink : FSMStatsService.selfLink =
      rooted uriPathChar ["fsm".toList, "monitoring".toList] := by decide
  have hname : (FSMStatsService.iFace listed).isAssignableFrom
      (FSMStatsServiceImpl.xenonService declared) = true := decide_eq_true List.mem_cons_self
  exact takesAlone_of_contract hu hself hlink hname hdeclared
    (fun m hm => FSMStatsService.templated m (hlisted.mem_iff.mp hm)) (hlisted.mem_iff.mpr hmethod)
    hsome fun m hm hne _ => FSMStatsService.apart m (hlisted.mem_iff.mp hm) c.method hmethod hne

/-- What the invocation of a call registers. -/
theorem StatsCall.registrationOf_eq (hvalueOf : ∀ s, valueOf (.text s) = s) (c : StatsCall) :
    FSMStatsServiceImpl.registrationOf (c.method, c.info.parameters.map fun p =>
      (.text (argumentText valueOf c.args p) : Argument (WireValue T))) = c.registration? := by
  cases c <;>
    simp [FSMStatsServiceImpl.registrationOf, info, names, args, texts, argumentText, hvalueOf,
      registration?, method]

/-- **The operation of a call** does at the stats service what the call is for. -/
theorem StatsEndpoint.HasClient.perform_eq
    (hclient : p.HasClient resolved ownHeader u declared listed client)
    (hreads : u.ReadsQueries) (hutils : p.env.uriUtils = u) (hvalueOf : ∀ s, valueOf (.text s) = s)
    (hsegments : ∀ s ∈ ["list", "register", "svc", "doc", "graphson"], ¬ resolved s.toList)
    (hlisted : listed.Perm FSMStatsService.methods) (hdeclared : ∀ m ∈ declared, m.Unannotated)
    {c : StatsCall} (hc : c.Sendable) :
    ∃ op, client.sentOp u valueOf c.method c.args = some op ∧
      ∀ stats, p.perform stats op =
        c.registration?.toList.foldl (FSMStatsServiceImpl.register p.forName) stats := by
  obtain ⟨listing, baseUri, referrer, link, hconnected⟩ := hclient.connected
  obtain ⟨hmem, halone⟩ := c.takesAlone hconnected.lawful hlisted hdeclared
  have hquery := c.inQuery hsegments
  have hserved : ∀ stats, ∃ op, client.sentOp u valueOf c.method c.args = some op ∧
      ((p.service stats).serve op).invocations = [(c.method, c.info.parameters.map fun p =>
        .text (argumentText valueOf c.args p))] := by
    intro stats
    -- the router and the wire are the same, whatever the service knows
    have hconnected' : Connected resolved ownHeader u (FSMStatsService.iFace listing) baseUri
        referrer client link (FSMStatsServiceImpl.xenonService declared)
        [some (FSMStatsService.iFace listed)] (p.service stats) := hconnected.of_same rfl rfl
    have hparts := queryParts_spec hconnected.lawful hreads (w := p.wire) hquery
      (StatsCall.queriesFit hvalueOf hc) hconnected.link_kept hconnected.query_eq
      (hconnected.link_eq.trans hconnected.selfLink_eq) referrer (V := V)
    rw [← hconnected.selfLink_eq] at hparts
    obtain ⟨op, hsent, -, hserve⟩ := sentOp_served_of_parts hconnected' hmem halone
      c.methodInfo_eq (hquery.hasOperationAsAnArgument_eq _) hutils (hclient.before c) hparts
    refine ⟨op, hsent, ?_⟩
    rw [hserve, hquery.arrivedInputs_eq]
    rfl
  obtain ⟨op, hsent, -⟩ := hserved ⟨∅⟩
  refine ⟨op, hsent, fun stats => ?_⟩
  obtain ⟨op', hsent', hserve⟩ := hserved stats
  obtain rfl := Option.some.inj (hsent.symm.trans hsent')
  rw [StatsEndpoint.perform, hserve, List.filterMap_cons, List.filterMap_nil,
    StatsCall.registrationOf_eq hvalueOf]
  cases c.registration? <;> rfl

/-! ## Runs -/

/-- The registrations among some calls. -/
def registrationsOf (calls : List (ι × StatsCall)) : List Registration :=
  calls.filterMap fun s => s.2.registration?

/-- **The stats service after a run**: clients send calls, which arrive in any order or get lost. -/
def StatsEndpoint.after (p : StatsEndpoint G A E T V)
    (clients : ι → InterfaceClient C R (WireValue T)) (u : UriUtils) (valueOf : WireValue T → Str)
    (events : List (NetworkEvent (ι × StatsCall) Empty)) : FSMStatsServiceImpl G A :=
  (Network.run (fun s : ι × StatsCall => (clients s.1).sentOp u valueOf s.2.method s.2.args)
    p.perform (fun _ e => e.elim) ⟨∅⟩ events).state

/-- The calls that arrive, in their order. -/
def arrivedCalls (events : List (NetworkEvent (ι × StatsCall) Empty)) : List (ι × StatsCall) :=
  (Network.happened [] events).filterMap Sum.getLeft?

/-- **Remote registrations are registrations**, in the order in which they arrive. -/
theorem StatsEndpoint.after_eq {clients : ι → InterfaceClient C R (WireValue T)}
    (hclients : ∀ i, p.HasClient resolved ownHeader u declared listed (clients i))
    (hreads : u.ReadsQueries) (hutils : p.env.uriUtils = u) (hvalueOf : ∀ s, valueOf (.text s) = s)
    (hsegments : ∀ s ∈ ["list", "register", "svc", "doc", "graphson"], ¬ resolved s.toList)
    (hlisted : listed.Perm FSMStatsService.methods) (hdeclared : ∀ m ∈ declared, m.Unannotated)
    {events : List (NetworkEvent (ι × StatsCall) Empty)}
    (hsendable : ∀ i c, .send (i, c) ∈ events → c.Sendable) :
    p.after clients u valueOf events =
      (registrationsOf (arrivedCalls events)).foldl (FSMStatsServiceImpl.register p.forName) ⟨∅⟩ := by
  have hrun : ∀ (l : List ((ι × StatsCall) ⊕ Empty)) stats,
      l.foldl (fun stats => Sum.elim (fun s : ι × StatsCall =>
        s.2.registration?.toList.foldl (FSMStatsServiceImpl.register p.forName) stats)
          fun e => e.elim) stats =
        (registrationsOf (l.filterMap Sum.getLeft?)).foldl
          (FSMStatsServiceImpl.register p.forName) stats := by
    intro l
    induction l with
    | nil => exact fun stats => rfl
    | cons x l ih =>
        intro stats
        cases x with
        | inr e => exact e.elim
        | inl s =>
            have hleft : (Sum.inl s :: l).filterMap Sum.getLeft? = s :: l.filterMap Sum.getLeft? :=
              rfl
            rw [List.foldl_cons, ih, hleft, registrationsOf, registrationsOf, List.filterMap_cons]
            cases h : s.2.registration? <;> simp [h]
  rw [StatsEndpoint.after, arrivedCalls, ← hrun]
  refine Network.state_run_encode (fun s hs => ?_) _
  obtain ⟨i, c⟩ := s
  exact (hclients i).perform_eq hreads hutils hvalueOf hsegments hlisted hdeclared
    (hsendable i c hs)

/-- **A run in which documents are created**: every registration is that of a document, each
document registers at most once, and the other calls are those of the pages. -/
structure Registers (getSelfId classOf : Str → Str) (created : List Creation)
    (events : List (NetworkEvent (ι × StatsCall) Empty)) : Prop where
  sendable : ∀ i c, .send (i, c) ∈ events → c.Sendable
  registrations : (registrationsOf (Network.sent events)).Subperm
    (created.filterMap (Creation.registration getSelfId classOf))

/-- Every registration has arrived. -/
def AllArrived (getSelfId classOf : Str → Str) (created : List Creation)
    (events : List (NetworkEvent (ι × StatsCall) Empty)) : Prop :=
  (registrationsOf (arrivedCalls events)).Perm
    (created.filterMap (Creation.registration getSelfId classOf))

/-- Only documents have registered what has arrived. -/
theorem Registers.arrived {getSelfId classOf : Str → Str} {created : List Creation}
    {events : List (NetworkEvent (ι × StatsCall) Empty)}
    (h : Registers getSelfId classOf created events) :
    (registrationsOf (arrivedCalls events)).Subperm
      (created.filterMap (Creation.registration getSelfId classOf)) :=
  (subperm_filterMap _ (Network.happened_subperm [] events)).trans h.registrations

/-- What some documents register. -/
theorem mem_registrations_iff {getSelfId classOf : Str → Str} (hself : ReturnsLastSegment getSelfId)
    {created : List Creation} {r : Registration} :
    r ∈ created.filterMap (Creation.registration getSelfId classOf) ↔
      ∃ c ∈ created, c.registeredUri = r.uri ∧ classOf (factoryLink c.factory) = r.className := by
  rw [List.mem_filterMap]
  refine exists_congr fun c => and_congr_right fun _ => ?_
  rw [Creation.registration_eq hself, Option.some_inj]
  constructor
  · rintro rfl
    exact ⟨rfl, rfl⟩
  · rintro ⟨huri, hclass⟩
    rw [huri, hclass]

/-- Documents may register in any order, as far as they register at all. -/
theorem exists_registers {getSelfId classOf : Str → Str} (hself : ReturnsLastSegment getSelfId)
    {created registered : List Creation} (hsub : registered.Subperm created) (i : ι)
    (htexts : ∀ c ∈ created, InQueryText (factoryLink c.factory) ∧
      InQueryText (classOf (factoryLink c.factory))) :
    ∃ events : List (NetworkEvent (ι × StatsCall) Empty),
      Registers getSelfId classOf created events ∧
        registrationsOf (arrivedCalls events) =
          registered.filterMap (Creation.registration getSelfId classOf) := by
  let calls := registered.map fun c =>
    (i, StatsCall.registerSvc ⟨c.registeredUri, classOf (factoryLink c.factory)⟩)
  have hcalls : registrationsOf calls =
      registered.filterMap (Creation.registration getSelfId classOf) := by
    rw [registrationsOf, List.filterMap_map]
    exact List.filterMap_congr fun c _ => (Creation.registration_eq hself classOf c).symm
  have harrived : arrivedCalls (Network.inOrder calls) = calls := by
    rw [arrivedCalls, Network.happened_inOrder, List.filterMap_map]
    exact List.filterMap_some
  refine ⟨Network.inOrder calls, ⟨fun j call hsend => ?_, ?_⟩, by rw [harrived, hcalls]⟩
  · obtain ⟨c, hc, heq⟩ := List.mem_map.mp (Network.send_mem_inOrder_iff.mp hsend)
    obtain ⟨-, rfl⟩ := Prod.mk.inj heq
    obtain ⟨hlink, hclass⟩ := htexts c (hsub.subset hc)
    intro s hs
    rcases List.mem_cons.mp hs with rfl | hs
    · exact fun x hx => hlink x (Creation.mem_factoryLink_of_mem_registeredUri hx)
    · exact List.mem_singleton.mp hs ▸ hclass
  · rw [Network.sent_inOrder, hcalls]
    exact subperm_filterMap _ hsub

/-- **When the page of a service shows its own graph.** Documents are created on the
host of the stats service; their registrations and the requests of the pages overtake each other and
may get lost. The characters of the links and the ids stand for themselves in a regular expression,
and the links and the names of the classes stand in a query as they are.

In all such runs the page of a service shows its own graph, if any, exactly when no document
registers another graph under the link of the service; it shows a graph in all runs in which every
registration arrives exactly when one is registered under this link; and if no segment of a factory
starts with the id of one of its documents, every service that is listed is the factory of a
document, and has its own graph. -/
theorem monitoring_settled_iff {clients : ι → InterfaceClient C R (WireValue T)} (i : ι)
    (hclients : ∀ i, p.HasClient resolved ownHeader u declared listed (clients i))
    (hreads : u.ReadsQueries) (hutils : p.env.uriUtils = u) (hvalueOf : ∀ s, valueOf (.text s) = s)
    (hsegments : ∀ s ∈ ["list", "register", "svc", "doc", "graphson"], ¬ resolved s.toList)
    (hlisted : listed.Perm FSMStatsService.methods) (hdeclared : ∀ m ∈ declared, m.Unannotated)
    {getSelfId classOf : Str → Str} (hself : ReturnsLastSegment getSelfId) {created : List Creation}
    (htexts : ∀ c ∈ created, InQueryText (factoryLink c.factory) ∧
      InQueryText (classOf (factoryLink c.factory))) (link : Str) :
    let graphOf := fun link => graphFor p.forName (classOf link)
    ((∀ events, Registers getSelfId classOf created events →
        ∀ shown ∈ (p.after clients u valueOf events).svcGraphson link,
          graphOf link = some shown.2) ↔
      ∀ c ∈ created, c.registeredUri = link →
        ∀ graph ∈ graphOf (factoryLink c.factory), graphOf link = some graph) ∧
    ((∀ events, Registers getSelfId classOf created events →
        AllArrived getSelfId classOf created events →
          ((p.after clients u valueOf events).svcGraphson link).isSome) ↔
      ∃ c ∈ created, c.registeredUri = link ∧ (graphOf (factoryLink c.factory)).isSome) ∧
    ((∀ c ∈ created, c.NoSegmentStartsWithId) →
      ∀ events, Registers getSelfId classOf created events →
        ∀ uri ∈ (p.after clients u valueOf events).allServices,
          (∃ c ∈ created, factoryLink c.factory = uri) ∧
            (p.after clients u valueOf events).svcGraphson uri = (graphOf uri).map (uri, ·)) := by
  intro graphOf
  have hafter : ∀ events, Registers getSelfId classOf created events →
      p.after clients u valueOf events = (registrationsOf (arrivedCalls events)).foldl
        (FSMStatsServiceImpl.register p.forName) ⟨∅⟩ := fun events hevents =>
    StatsEndpoint.after_eq hclients hreads hutils hvalueOf hsegments hlisted hdeclared
      hevents.sendable
  -- what is shown is the graph of a document that was created
  have hshown : ∀ events, Registers getSelfId classOf created events → ∀ uri,
      ∀ shown ∈ (p.after clients u valueOf events).svcGraphson uri, shown.1 = uri ∧
        ∃ c ∈ created, c.registeredUri = uri ∧ graphOf (factoryLink c.factory) = some shown.2 := by
    intro events hevents uri shown hgraphson
    rw [hafter events hevents] at hgraphson
    obtain ⟨hfst, r, hr, rfl, hgraph⟩ := FSMStatsServiceImpl.svcGraphson_register hgraphson
    obtain ⟨c, hc, huri, hclass⟩ :=
      (mem_registrations_iff hself).mp (hevents.arrived.subset hr)
    exact ⟨hfst, c, hc, huri, by rw [← hclass] at hgraph; exact hgraph⟩
  refine ⟨⟨fun h c hc huri graph hgraph => ?_, fun h events hevents shown hgraphson => ?_⟩,
    ⟨fun h => ?_, ?_⟩, fun h events hevents uri huri => ?_⟩
  · -- the document alone registers
    obtain ⟨events, hevents, harrived⟩ :=
      exists_registers hself (List.singleton_subperm_iff.mpr hc) i htexts
    have hsome : ((p.after clients u valueOf events).svcGraphson link).isSome := by
      rw [hafter events hevents, harrived, FSMStatsServiceImpl.svcGraphson_register_isSome_iff]
      refine ⟨⟨link, classOf (factoryLink c.factory)⟩, ?_, rfl, ?_⟩
      · exact (mem_registrations_iff hself).mpr ⟨c, List.mem_singleton_self c, huri, rfl⟩
      · exact Option.isSome_of_mem hgraph
    obtain ⟨shown, hgraphson⟩ := Option.isSome_iff_exists.mp hsome
    have hown := h events hevents shown hgraphson
    rw [hafter events hevents, harrived] at hgraphson
    obtain ⟨-, r, hr, -, hregistered⟩ := FSMStatsServiceImpl.svcGraphson_register hgraphson
    obtain ⟨c', hc', -, hclass⟩ := (mem_registrations_iff hself).mp hr
    obtain rfl := List.mem_singleton.mp hc'
    rw [hown, ← hregistered, ← hclass]
    exact hgraph
  · obtain ⟨-, c, hc, huri, hgraph⟩ := hshown events hevents link shown hgraphson
    exact h c hc huri shown.2 hgraph
  · obtain ⟨events, hevents, harrived⟩ :=
      exists_registers hself (List.Subperm.refl created) i htexts
    have hsome := h events hevents (.of_eq harrived)
    obtain ⟨shown, hgraphson⟩ := Option.isSome_iff_exists.mp hsome
    obtain ⟨-, c, hc, huri, hgraph⟩ := hshown events hevents link shown hgraphson
    exact ⟨c, hc, huri, hgraph ▸ rfl⟩
  · rintro ⟨c, hc, rfl, hgraph⟩ events hevents harrived
    rw [hafter events hevents, FSMStatsServiceImpl.svcGraphson_register_isSome_iff]
    refine ⟨⟨c.registeredUri, classOf (factoryLink c.factory)⟩, harrived.symm.subset ?_, rfl, hgraph⟩
    exact (mem_registrations_iff hself).mpr ⟨c, hc, rfl, rfl⟩
  · rw [← FSMStatsServiceImpl.svcGraphson_isSome_iff] at huri
    obtain ⟨shown, hgraphson⟩ := Option.isSome_iff_exists.mp huri
    obtain ⟨hfst, c, hc, hregistered, hgraph⟩ := hshown events hevents uri shown hgraphson
    have hlink : factoryLink c.factory = uri :=
      ((Creation.registeredUri_eq_iff c).mpr (h c hc)).symm.trans hregistered
    refine ⟨⟨c, hc, hlink⟩, ?_⟩
    rw [hlink] at hgraph
    rw [hgraphson, hgraph, Option.map_some, ← hfst]

end Clients

/-! ## Two services -/

/-- A stats service that knows a phone, served at `/a`, and an empty machine for all other links. -/
def statsEndpoint : StatsEndpoint Empty Nat Unit Unit Unit where
  forName name := some ⟨false, some (.build (some "OffHook".toList)
    (if name = "/a".toList then phoneCalls fun n => n else []))⟩
  router := RequestRouterBuilder.routesOf .documented FSMStatsService.selfLink
    [[], FSMStatsService.methods]
  wire := .documented
  env :=
    { uriUtils := .documented
      getBody := fun _ => .ok none
      validate := fun _ => .ok []
      setBody := fun _ => .ok ()
      invoke := fun _ => .refused
      invokeAsync := fun _ => .refused
      throwables := fun _ => ⟨"java.lang.Exception".toList, .otherException, none, none, []⟩
      violationSet := fun _ => .text []
      stackTrace := []
      stack := 1000 }
  results _ _ _ := .returned none
  futures _ _ _ := .returned (some ⟨none⟩)
  otherwise _ := []

/-- A client at the host. -/
def statsClient : InterfaceClient Unit Unit (WireValue Unit) where
  handler := JaxRsServiceClient.build .documented (FSMStatsService.iFace FSMStatsService.methods)
    ⟨"http://localhost:8000".toList, [], none⟩ []
  httpMethods := FSMStatsService.methods.filterMap MethodInfoBuilder.methodInfo
  returnInfo _ := ⟨true, .named "java.util.Map".toList, .classType (.named "java.util.Map".toList)⟩
  interceptBeforeComplete op := .ok op
  interceptor := ⟨none⟩
  decoding := ⟨fun _ => true, fun _ _ => .error (.exception ()), fun _ _ => false⟩

/-- The client and the stats service belong together. -/
theorem statsClient_hasClient : statsEndpoint.HasClient (fun _ => False) (fun _ => False)
    .documented [] FSMStatsService.methods statsClient where
  connected := by
    have hreadable : RequestRouterBuilder.Readable [[], FSMStatsService.methods] := by decide
    refine ⟨FSMStatsService.methods, ⟨"http://localhost:8000".toList, [], none⟩, [],
      ["fsm".toList, "monitoring".toList], UriUtils.documented_lawful, Wire.documented_lawful, rfl,
      ?_, rfl, by decide, by decide, ?_, ?_⟩
    · rw [MethodInfoBuilder.generateMethodInfo_eq, if_pos]
      · rfl
      · exact hreadable _ (List.mem_cons_of_mem _ List.mem_cons_self)
    · exact kept_of_unreserved (by decide)
    · rw [RequestRouterBuilder.parseJaxRsAnnotations_eq, if_pos ⟨rfl, hreadable⟩]
      rfl
  before c op := ⟨op, rfl, .refl _ _⟩

/-- The documents `/a/7` and `/a/b/b`. -/
def nestedCreations : List Creation :=
  [⟨[⟨"a".toList, by decide, by decide⟩], Creation.sevenSegment⟩,
    ⟨[⟨"a".toList, by decide, by decide⟩, ⟨"b".toList, by decide, by decide⟩],
      ⟨"b".toList, by decide, by decide⟩⟩]

/-- **A service can be shown the graph of another**: `/a/b/b` registers its service under `/a`, so
the page of `/a` shows a graph when all registrations have arrived, but it may be another one. -/
theorem monitoring_settled_iff_nested :
    (¬ ∀ events : List (NetworkEvent (Bool × StatsCall) Empty),
      Registers Creation.lastSegment id nestedCreations events →
        ∀ shown ∈ (statsEndpoint.after (fun _ => statsClient) .documented WireValue.valueOf
          events).svcGraphson "/a".toList,
            graphFor statsEndpoint.forName "/a".toList = some shown.2) ∧
    ∀ events : List (NetworkEvent (Bool × StatsCall) Empty),
      Registers Creation.lastSegment id nestedCreations events →
        AllArrived Creation.lastSegment id nestedCreations events →
          ((statsEndpoint.after (fun _ => statsClient) .documented WireValue.valueOf
            events).svcGraphson "/a".toList).isSome := by
  have htexts : ∀ c ∈ nestedCreations, InQueryText (factoryLink c.factory) ∧
      InQueryText (id (factoryLink c.factory)) := by decide
  have hvalueOf : ∀ s, WireValue.valueOf (.text s : WireValue Unit) = s := fun _ => rfl
  obtain ⟨hown, harrived, -⟩ := monitoring_settled_iff true (fun _ => statsClient_hasClient)
    UriUtils.documented_readsQueries rfl hvalueOf (fun _ _ => not_false) (List.Perm.refl _)
    (by simp) Creation.lastSegment_returns htexts "/a".toList
  constructor
  · exact fun hall => absurd (hown.mp hall) (by decide +kernel)
  · exact harrived.mpr (by decide +kernel)

end XenonExt
