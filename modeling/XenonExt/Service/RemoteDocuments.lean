import XenonExt.Client.StatefulServiceContract
import XenonExt.Effects.Network
import XenonExt.Service.Causes

/-! # Documents over the network

Clients anywhere create the documents of a host and patch them through the contract of stateful
services, by id or by self link. Their operations travel to the host, overtake each other and may get
lost, while the timers and the self-patches of the host go on.

* **`DocumentEndpoint.perform`**: what the host does for an operation that arrives.
* **`DocumentCall.event`**: the request that a call is for.
* **`remote_documents_run`**: clients do to the documents what their calls do where they arrive.
* **`remote_documents_asked`**: so the state of a document is explained by the calls for its link, its
  post, and the expiries of its states. -/

namespace XenonExt

variable {X O : Type}

/-! ## The host -/

/-- Where the documents of a service are: the link of their factory, how bodies are read, and what is
done with requests that neither create nor patch nor read a document. -/
structure DocumentEndpoint (X O : Type) where
  svc : FSMService X O
  factory : List Str
  getBody : Option (WireValue (FSMServiceDoc X)) → Option (FSMServiceDoc X)
  otherwise : FSMHost X → ClientOperation (WireValue (FSMServiceDoc X)) → FSMHost X

/-- The conditions that a request meets where it arrives: the id that the factory gives a new
document, and those of a patch. -/
structure Conditions (X O : Type) where
  id : Str
  outside : O
  late : List (HandlerOp X O)
  version : Int

/-- A post of a document. -/
def startPost (d : FSMServiceDoc X) : Operation X where
  linkedState := d
  body := some d
  statusCode := 200
  outcome := .pending

/-- A patch under some conditions. -/
def Conditions.patch (k : Conditions X O) (body : FSMServiceDoc X) : PatchEvent X O where
  body := some body
  outside := k.outside
  late := k.late
  version := k.version

/-- **What the host does for an operation that arrives**: the factory starts a document, a document is
patched, and reading changes nothing. -/
def DocumentEndpoint.perform (p : DocumentEndpoint X O) (h : FSMHost X)
    (arrived : ClientOperation (WireValue (FSMServiceDoc X)) × Conditions X O) : FSMHost X :=
  let (op, k) := arrived
  match op.action, p.getBody op.body with
  | .get, _ => h
  | .post, some d =>
    if op.uri.path = rooted uriPathChar p.factory then
      p.svc.postAt h (childLink p.factory k.id) (startPost d)
    else p.otherwise h op
  | .patch, some d => p.svc.patchAt h op.uri.path (k.patch d)
  | _, _ => p.otherwise h op

/-! ## Calls -/

namespace DocumentCall

/-- A call that the service handles itself: it has a body if it creates or patches, and it neither
replaces nor deletes. -/
def Handled {T : Type} : DocumentCall T → Prop
  | get _ | getBySelfLink _ => True
  | post body | patch _ body | patchBySelfLink _ body => body.isSome
  | put _ _ | putBySelfLink _ _ | delete _ _ => False

/-- **The request that a call is for**, if it is for one that changes documents. -/
def event (factory : List Str) (c : DocumentCall (FSMServiceDoc X)) (k : Conditions X O) :
    Option (HostEvent X O) :=
  match c.action, c.body.join with
  | .post, some d => some (.post (childLink factory k.id) (startPost d))
  | .patch, some d => some (.clientPatch (c.link factory) (k.patch d))
  | _, _ => none

/-- The operation of a call does at the host what the call is for. -/
theorem perform_eq {p : DocumentEndpoint X O} (hread : ∀ d, p.getBody (some (.body d)) = some d)
    {c : DocumentCall (FSMServiceDoc X)} (hc : c.Handled)
    {op : ClientOperation (WireValue (FSMServiceDoc X))} (haction : op.action = c.action)
    (hpath : op.uri.path = c.link p.factory) (hbody : op.body = c.body.join.map .body)
    (k : Conditions X O) (h : FSMHost X) :
    p.perform h (op, k) = p.svc.hostRun h (c.event p.factory k).toList := by
  simp only [DocumentEndpoint.perform, haction, hbody, hpath]
  cases c with
  | get id => rfl
  | getBySelfLink docLink => rfl
  | post body =>
      obtain ⟨d, rfl⟩ := Option.isSome_iff_exists.mp hc
      have hfactory : (post (some d)).link p.factory = rooted uriPathChar p.factory :=
        congrArg _ (List.append_nil _)
      simp only [action, DocumentCall.body, Option.join_some, Option.map_some, hread, hfactory,
        if_true]
      rfl
  | patch id body =>
      obtain ⟨d, rfl⟩ := Option.isSome_iff_exists.mp hc
      simp only [action, DocumentCall.body, Option.join_some, Option.map_some, hread]
      rfl
  | patchBySelfLink docLink body =>
      obtain ⟨d, rfl⟩ := Option.isSome_iff_exists.mp hc
      simp only [action, DocumentCall.body, Option.join_some, Option.map_some, hread]
      rfl
  | put id body => exact hc.elim
  | putBySelfLink docLink body => exact hc.elim
  | delete id body => exact hc.elim

end DocumentCall

/-! ## Runs -/

section Runs

variable {C R ι : Type} {resolved : Str → Prop} {u : UriUtils} {p : DocumentEndpoint X O}
  {valueOf : WireValue (FSMServiceDoc X) → Str}
  {clients : ι → InterfaceClient C R (WireValue (FSMServiceDoc X))}

/-- A call that a client makes, with the conditions that it will meet. -/
abbrev SentCall (ι X O : Type) : Type := ι × DocumentCall (FSMServiceDoc X) × Conditions X O

/-- The operation of a call. -/
def sentDocumentOp (clients : ι → InterfaceClient C R (WireValue (FSMServiceDoc X))) (u : UriUtils)
    (valueOf : WireValue (FSMServiceDoc X) → Str) (s : SentCall ι X O) :
    Option (ClientOperation (WireValue (FSMServiceDoc X)) × Conditions X O) :=
  ((clients s.1).sentOp u valueOf s.2.1.method s.2.1.args).map (·, s.2.2)

/-- What happens at a host, as events of it. -/
def documentEvents (factory : List Str) : SentCall ι X O ⊕ HostEvent X O → List (HostEvent X O) :=
  Sum.elim (fun s => (s.2.1.event factory s.2.2).toList) fun e => [e]

/-- The requests of some calls. -/
def requestsOf (factory : List Str) (calls : List (SentCall ι X O)) : List (HostEvent X O) :=
  calls.filterMap fun s => s.2.1.event factory s.2.2

/-- **Remote documents are local documents**: what becomes of the host is its run over the requests of
the calls, each where its operation arrives, and over its own events. -/
theorem remote_documents_run (hclients : ∀ i, ContractClient resolved u p.factory (clients i))
    (hu : u.Lawful resolved) (hfactory : ∀ s ∈ p.factory, Kept resolved s)
    (hvalueOf : ∀ s, valueOf (.text s) = s) (hread : ∀ d, p.getBody (some (.body d)) = some d)
    {events : List (NetworkEvent (SentCall ι X O) (HostEvent X O))}
    (hcalls : ∀ i c k, .send (i, c, k) ∈ events → c.Sendable resolved ∧ c.Handled)
    (h : FSMHost X) :
    (Network.run (sentDocumentOp clients u valueOf) p.perform p.svc.hostStep h events).state =
      p.svc.hostRun h ((Network.happened [] events).flatMap (documentEvents p.factory)) := by
  have hencode : ∀ s : SentCall ι X O, .send s ∈ events →
      ∃ arrived, sentDocumentOp clients u valueOf s = some arrived ∧
        ∀ h, p.perform h arrived =
          p.svc.hostRun h (s.2.1.event p.factory s.2.2).toList := by
    rintro ⟨i, c, k⟩ hs
    obtain ⟨hsendable, hhandled⟩ := hcalls i c k hs
    obtain ⟨op, hsent, haction, hpath, hbody⟩ :=
      sentOp_document hu hfactory (hclients i) hvalueOf hsendable
    refine ⟨(op, k), by rw [sentDocumentOp, hsent, Option.map_some], fun h => ?_⟩
    exact DocumentCall.perform_eq hread hhandled haction hpath hbody k h
  have hrun : ∀ (l : List (SentCall ι X O ⊕ HostEvent X O)) h,
      l.foldl (fun h => Sum.elim (fun s : SentCall ι X O =>
        p.svc.hostRun h (s.2.1.event p.factory s.2.2).toList) (p.svc.hostStep h)) h =
          p.svc.hostRun h (l.flatMap (documentEvents p.factory)) := by
    intro l h
    rw [FSMService.hostRun, List.foldl_flatMap]
    refine List.foldl_ext _ _ _ fun h x _ => ?_
    cases x <;> rfl
  rw [← hrun]
  exact Network.state_run_encode hencode h

theorem requestsOf_cons (factory : List Str) (s : SentCall ι X O) (calls : List (SentCall ι X O)) :
    requestsOf factory (s :: calls) =
      (s.2.1.event factory s.2.2).toList ++ requestsOf factory calls := by
  rw [requestsOf, List.filterMap_cons]
  cases s.2.1.event factory s.2.2 <;> rfl

/-- A request that happens is one of a call, if the host makes none itself. -/
theorem mem_requestsOf {factory : List Str} {l : List (SentCall ι X O ⊕ HostEvent X O)}
    (hown : ∀ e, .inr e ∈ l → e.IsOwn) {e : HostEvent X O}
    (he : e ∈ l.flatMap (documentEvents factory)) (hrequest : ¬ e.IsOwn) :
    e ∈ requestsOf factory (l.filterMap Sum.getLeft?) := by
  obtain ⟨x, hx, he⟩ := List.mem_flatMap.mp he
  cases x with
  | inl s =>
      exact List.mem_filterMap.mpr
        ⟨s, List.mem_filterMap.mpr ⟨.inl s, hx, rfl⟩, Option.mem_toList.mp he⟩
  | inr e' =>
      obtain rfl := List.mem_singleton.mp he
      exact absurd (hown e hx) hrequest

/-- What clients ask is read off the requests of the calls, if the host makes none itself. -/
theorem filterMap_clientLabel (factory : List Str) (link : Str)
    {l : List (SentCall ι X O ⊕ HostEvent X O)} (hown : ∀ e, .inr e ∈ l → e.IsOwn) :
    (l.flatMap (documentEvents factory)).filterMap (clientLabel link) =
      (requestsOf factory (l.filterMap Sum.getLeft?)).filterMap (clientLabel link) := by
  induction l with
  | nil => rfl
  | cons x l ih =>
      have ih := ih fun e he => hown e (List.mem_cons_of_mem _ he)
      rw [List.flatMap_cons, List.filterMap_append, ih]
      cases x with
      | inl s =>
          have hleft : (Sum.inl s :: l).filterMap Sum.getLeft? = s :: l.filterMap Sum.getLeft? := rfl
          rw [hleft, requestsOf_cons, List.filterMap_append]
          rfl
      | inr e =>
          have hnone : clientLabel link e = none := by
            have he := hown e List.mem_cons_self
            cases e <;> first | rfl | exact he.elim
          have hleft : (Sum.inr e :: l).filterMap Sum.getLeft? = l.filterMap Sum.getLeft? := rfl
          have hown : (documentEvents factory (.inr e : SentCall ι X O ⊕ HostEvent X O)).filterMap
              (clientLabel link) = [] := List.filterMap_cons_none hnone
          rw [hleft, hown, List.nil_append]

/-- **The state of a remote document is explained by the calls for it.** Clients create and patch the
documents of a service through the contract, by id or by self link; operations overtake each other and
may get lost; the timers and the self-patches of the host go on. In every such run every document was
created by a post that a client sent, and its state is that of the automaton after the labels that it
was asked for: those of calls for its link, each at most as often as it was called, and labels that
the host has sent itself, the initial trigger of a post of the document or an expiry of the state that
the label names. -/
theorem remote_documents_asked {v : GuardValuation (ServiceGuard O)}
    (hclients : ∀ i, ContractClient resolved u p.factory (clients i))
    (hu : u.Lawful resolved) (hfactory : ∀ s ∈ p.factory, Kept resolved s)
    (hvalueOf : ∀ s, valueOf (.text s) = s) (hread : ∀ d, p.getBody (some (.body d)) = some d)
    (hvalidates : p.svc.ValidatesOnly) (hpure : p.svc.GuardsArePure v)
    (hdiligent : p.svc.Diligent)
    {events : List (NetworkEvent (SentCall ι X O) (HostEvent X O))}
    (hcalls : ∀ i c k, .send (i, c, k) ∈ events → c.Sendable resolved ∧ c.Handled)
    (hown : ∀ e, .move e ∈ events → e.IsOwn) (now : Int) {link : Str} {hosted : HostedDocument X}
    (hdoc : (Network.run (sentDocumentOp clients u valueOf) p.perform p.svc.hostStep
      (.empty now) events).state.documents link = some hosted) :
    let requests := requestsOf p.factory (Network.sent events)
    ∃ op d₀, ∃ asked : List Asked, .post link op ∈ requests ∧
      (p.svc.handleStart op.unanswered).1.outcome = .completed d₀ ∧
      hosted.doc.state = (asked.map Asked.label).foldl (moveOrStay (destinationOf v p.svc.calls))
        d₀.state ∧
      (asked.filterMap Asked.client?).Subperm (requests.filterMap (clientLabel link)) ∧
      ∀ a ∈ asked, p.svc.Caused requests link a := by
  intro requests
  rw [remote_documents_run hclients hu hfactory hvalueOf hread hcalls] at hdoc
  have hmoves : ∀ e, .inr e ∈ Network.happened [] events → e.IsOwn :=
    fun e he => hown e (Network.move_mem_of_mem_happened he)
  have hsent := Network.happened_subperm [] events
  have hrequests : ∀ e ∈ (Network.happened [] events).flatMap (documentEvents p.factory),
      ¬ e.IsOwn → e ∈ requests := by
    intro e he hrequest
    obtain ⟨s, hs, hevent⟩ := List.mem_filterMap.mp (mem_requestsOf hmoves he hrequest)
    exact List.mem_filterMap.mpr ⟨s, hsent.subset hs, hevent⟩
  obtain ⟨op, d₀, asked, hop, hcompleted, hstate, hsub, hcaused⟩ :=
    FSMService.state_eq_asked hvalidates hpure hdiligent now _ hdoc
  refine ⟨op, d₀, asked, hrequests _ hop not_false, hcompleted, hstate, ?_,
    fun a ha => (hcaused a ha).mono hrequests⟩
  rw [filterMap_clientLabel p.factory link hmoves] at hsub
  exact hsub.subperm.trans (subperm_filterMap _ (subperm_filterMap _ hsent))

end Runs

/-! ## A remote door -/

/-- The doors of a host, at `/doors`. -/
def doorEndpoint : DocumentEndpoint Unit Bool where
  svc := FSMService.openingDoor
  factory := ["doors".toList]
  getBody body := match body with
    | some (.body d) => some d
    | _ => none
  otherwise h _ := h

/-- A client of the doors. -/
def doorClient : InterfaceClient Unit Unit (WireValue (FSMServiceDoc Unit)) :=
  contractClientAt _ "http://localhost:8000".toList doorEndpoint.factory

/-- The client is one of the contract. -/
theorem doorClient_contractClient :
    ContractClient (fun _ => False) .documented doorEndpoint.factory doorClient :=
  contractClientAt_contractClient _ _ _

/-- A door is posted and opens; it is closed by self link, and another push gets lost. -/
def remoteDoor : List (NetworkEvent (SentCall Bool Unit Bool) (HostEvent Unit Bool)) :=
  [.send (true, .post (some (phoneDoc none none)), ⟨"1".toList, true, [], 1⟩), .arrive 0,
    .send (true, .patchBySelfLink "/doors/1".toList (some (phoneDoc none (some "Close".toList))),
      ⟨[], true, [], 1⟩),
    .move (.deliverSelfPatch 0 ⟨none, true, [], 1⟩), .arrive 0,
    .send (false, .patch "1".toList (some (phoneDoc none (some "Push".toList))), ⟨[], true, [], 1⟩),
    .lose 0]

/-- The clients have asked the door to be closed and to be pushed, once each. -/
theorem remote_documents_asked_door : ∃ hosted, ∃ asked : List Asked,
    (Network.run (sentDocumentOp (fun _ => doorClient) .documented WireValue.valueOf)
      doorEndpoint.perform doorEndpoint.svc.hostStep (.empty 0) remoteDoor).state.documents
        "/doors/1".toList = some hosted ∧
    hosted.doc.state = (asked.map Asked.label).foldl
      (moveOrStay (destinationOf (fun _ _ => true) FSMService.openingDoor.calls))
        (some "Closed".toList) ∧
    (asked.filterMap Asked.client?).Subperm
      [⟨some "Close".toList, none⟩, ⟨some "Push".toList, none⟩] := by
  have hkept : ∀ s ∈ ["doors".toList, "1".toList], Kept (fun _ => False) s :=
    kept_of_unreserved (by decide)
  have hfactory : ∀ s ∈ doorEndpoint.factory, Kept (fun _ => False) s :=
    fun s hs => hkept s (List.mem_cons.mpr (.inl (List.mem_singleton.mp hs)))
  have hcalls : ∀ (i : Bool) c k, .send (i, c, k) ∈ remoteDoor →
      c.Sendable (fun _ => False) ∧ c.Handled := by
    intro i c k hsend
    simp only [remoteDoor, List.mem_cons, List.not_mem_nil, NetworkEvent.send.injEq,
      Prod.mk.injEq, reduceCtorEq, false_or, or_false] at hsend
    rcases hsend with ⟨-, rfl, -⟩ | ⟨-, rfl, -⟩ | ⟨-, rfl, -⟩
    · exact ⟨fun id hid => absurd hid (Option.not_mem_none id), rfl⟩
    · refine ⟨fun id hid => ?_, rfl⟩
      obtain rfl : "1".toList = id := Option.some.inj hid
      exact hkept _ (by simp)
    · refine ⟨fun id hid => ?_, rfl⟩
      obtain rfl : "1".toList = id := Option.some.inj hid
      exact hkept _ (by simp)
  have hown : ∀ e, .move e ∈ remoteDoor → e.IsOwn := by
    intro e he
    simp only [remoteDoor, List.mem_cons, List.not_mem_nil, NetworkEvent.move.injEq,
      reduceCtorEq, false_or, or_false] at he
    exact he ▸ trivial
  have hread : ∀ d, doorEndpoint.getBody (some (.body d)) = some d := fun d => rfl
  have hvalueOf : ∀ s, WireValue.valueOf (.text s : WireValue (FSMServiceDoc Unit)) = s :=
    fun s => rfl
  have hthere : ((Network.run (sentDocumentOp (fun _ => doorClient) .documented WireValue.valueOf)
      doorEndpoint.perform doorEndpoint.svc.hostStep (.empty 0) remoteDoor).state.documents
        "/doors/1".toList).isSome := by
    rw [remote_documents_run (fun _ => doorClient_contractClient) UriUtils.documented_lawful hfactory
      hvalueOf hread hcalls]
    decide +kernel
  obtain ⟨hosted, hdoc⟩ := Option.isSome_iff_exists.mp hthere
  obtain ⟨op, d₀, asked, hop, hcompleted, hstate, hclients, -⟩ := remote_documents_asked
    (fun _ => doorClient_contractClient) UriUtils.documented_lawful hfactory hvalueOf hread
    FSMService.validatesOnly_openingDoor (v := fun _ _ => true) FSMService.guardsArePure_door
    FSMService.diligent_openingDoor hcalls hown 0 hdoc
  refine ⟨hosted, asked, hdoc, ?_, hclients⟩
  -- the only post has no state, so the door was created closed
  obtain rfl : op = startPost (phoneDoc none none) := by
    have hop : HostEvent.post "/doors/1".toList op ∈
        [HostEvent.post "/doors/1".toList (startPost (phoneDoc none none)),
          .clientPatch "/doors/1".toList ⟨some (phoneDoc none (some "Close".toList)), true, [], 1⟩,
          .clientPatch "/doors/1".toList ⟨some (phoneDoc none (some "Push".toList)), true, [], 1⟩] :=
      hop
    simpa using hop
  obtain rfl := Outcome.completed.inj hcompleted
  exact hstate

end XenonExt
