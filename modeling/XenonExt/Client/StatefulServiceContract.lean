import Mathlib.Data.List.DropRight
import XenonExt.JaxRs.ClientBuilder
import XenonExt.JaxRs.PathAndBody

/-! # The contract of stateful services

`StatefulServiceContract` is one interface for every stateful service: a client posts documents to a
factory and addresses them by an id, or by a self link of which the last segment is taken.

* **`selfLinkToId`**: the last segment of a link.
* **`requestedId`**: the id in the path of a request, which reads the given one as a replacement.
* **`newStatefulSvcContract`**: the client, as the builder makes it.
* **`DocumentCall`**: the calls, those by self link included.
* **`sentOp_document`**, **`sentOp_withColons`**: the operation of a call has the link of the document
  in its path. -/

namespace XenonExt

/-! ## Self links -/

/-- `selfLinkToId`: what stands after the last slash. -/
def ServiceClientUtil.selfLinkToId (selfLink : Str) : Str :=
  selfLink.rtakeWhile fun c => c ≠ uriPathChar

/-- The link of a document of a factory. -/
def childLink (factory : List Str) (id : Str) : Str := rooted uriPathChar (factory ++ [id])

namespace ServiceClientUtil

/-- A text without slashes is its own id. -/
theorem selfLinkToId_append {id : Str} (hid : uriPathChar ∉ id) (parent : Str) :
    selfLinkToId (parent ++ uriPathChar :: id) = id := by
  induction id using List.reverseRecOn with
  | nil => exact List.rtakeWhile_concat_neg _ _ _ (by simp)
  | append_singleton id c ih =>
      rw [List.mem_append, not_or] at hid
      have hc : c ≠ uriPathChar := fun h => hid.2 (h ▸ List.mem_cons_self)
      rw [← List.cons_append, ← List.append_assoc, selfLinkToId,
        List.rtakeWhile_concat_pos _ _ _ (by simpa using hc)]
      exact congrArg (· ++ [c]) (ih hid.1)

/-- **The link of a document gives its id back.** -/
theorem selfLinkToId_childLink {id : Str} (hid : uriPathChar ∉ id) (factory : List Str) :
    selfLinkToId (childLink factory id) = id := by
  rw [childLink, rooted_append, rooted_cons, rooted_nil, List.append_nil]
  exact selfLinkToId_append hid _

end ServiceClientUtil

/-! ## The interface -/

namespace StatefulServiceContract

/-- The erased class of a document. -/
def documentClass : String := "java.lang.Object"

/-- `{id}`. -/
def idTemplate : Template where
  leadingSlash := false
  trailingSlash := false
  segments := [.placeholder "id".toList]
  segments_ne_nil h := List.cons_ne_nil _ _ h

/-- A method for a document by its id. -/
def idMethod (name verb : String) (parameters : List Parameter) : Method :=
  asyncMethod name [some verb.toList, none] (some idTemplate.text)
    (pathParameter "id" :: parameters)

/-- A default method, without annotations. -/
def defaultMethod (name : String) (parameters : List Parameter) : Method :=
  asyncMethod name [] none (plainParameter "java.lang.String" :: parameters)

def get : Method := idMethod "get" "GET" []

def getBySelfLink : Method := defaultMethod "getBySelfLink" []

def post : Method :=
  asyncMethod "post" [some "POST".toList] none [operationBody documentClass]

def patch : Method := idMethod "patch" "PATCH" [operationBody documentClass]

def patchBySelfLink : Method := defaultMethod "patchBySelfLink" [plainParameter documentClass]

def put : Method := idMethod "put" "PUT" [operationBody documentClass]

def putBySelfLink : Method := defaultMethod "putBySelfLink" [plainParameter documentClass]

def delete : Method := idMethod "delete" "DELETE" [operationBody documentClass]

/-- The methods of the interface, in the order of the source. -/
def methods : List Method :=
  [get, getBySelfLink, post, patch, patchBySelfLink, put, putBySelfLink, delete]

/-- The interface, its methods listed in some order. It has no `Path`. -/
def iFace (methods : List Method) : Interface :=
  ⟨"com.tteky.xenonext.client.StatefulServiceContract".toList, none, methods⟩

/-- **The id in the path of a request**: `buildOperation` puts the id that is asked for into `{id}` as a
replacement, in which backslashes and dollars have a meaning; `none` when that throws. -/
def requestedId (id : Str) : Option Str :=
  replaceAll (ProxyHandler.placeholder (some "id".toList)) id idTemplate.text

/-- The id is what the id that is asked for stands for as a replacement. -/
theorem requestedId_eq (id : Str) :
    requestedId id =
      expandReplacement (ProxyHandler.placeholder (some "id".toList)) false id := by
  have htext : idTemplate.text = '\x7b' :: ("id".toList ++ ['\x7d']) ++ [] := by decide
  have hself := @replaceAll_self_append ("id".toList ++ ['\x7d']) id '\x7b' []
  rw [← htext] at hself
  rw [requestedId]
  exact hself.trans (by simp [ProxyHandler.placeholder, text])

/-- An id without backslashes and dollars is asked for as it is. -/
theorem requestedId_eq_self {id : Str} (hescape : '\\' ∉ id) (hreference : '$' ∉ id) :
    requestedId id = some id := by
  rw [requestedId_eq, expandReplacement_eq_self _ _ hescape hreference rfl]

end StatefulServiceContract

/-! ## Calls -/

/-- The calls of the contract. -/
inductive DocumentCall (T : Type)
  | get (id : Str)
  | getBySelfLink (docLink : Str)
  | post (postBody : Option T)
  | patch (id : Str) (patchBody : Option T)
  | patchBySelfLink (docLink : Str) (patchBody : Option T)
  | put (id : Str) (putBody : Option T)
  | putBySelfLink (docLink : Str) (putBody : Option T)
  | delete (id : Str) (deleteBody : Option T)

namespace DocumentCall

variable {T : Type}

/-- The method that sends the operation: the default methods call others. -/
def method : DocumentCall T → Method
  | get _ | getBySelfLink _ => StatefulServiceContract.get
  | post _ => StatefulServiceContract.post
  | patch _ _ | patchBySelfLink _ _ => StatefulServiceContract.patch
  | put _ _ | putBySelfLink _ _ => StatefulServiceContract.put
  | delete _ _ => StatefulServiceContract.delete

/-- The action of the method. -/
def action : DocumentCall T → Action
  | get _ | getBySelfLink _ => .get
  | post _ => .post
  | patch _ _ | patchBySelfLink _ _ => .patch
  | put _ _ | putBySelfLink _ _ => .put
  | delete _ _ => .delete

/-- The id that the method is called with. -/
def id : DocumentCall T → Option Str
  | get id | patch id _ | put id _ | delete id _ => some id
  | getBySelfLink docLink | patchBySelfLink docLink _ | putBySelfLink docLink _ =>
    some (ServiceClientUtil.selfLinkToId docLink)
  | post _ => none

/-- The body that the method is called with. -/
def body : DocumentCall T → Option (Option T)
  | get _ | getBySelfLink _ => none
  | post body | patch _ body | patchBySelfLink _ body | put _ body | putBySelfLink _ body
  | delete _ body => some body

/-- The arguments of the method. -/
def args (c : DocumentCall T) : List (Option (WireValue T)) :=
  pathAndBodyArgs c.id.toList c.body

/-- The placeholders of the method. -/
def names : DocumentCall T → List Str
  | post _ => []
  | _ => ["id".toList]

/-- The class of the body. -/
def bodyType : DocumentCall T → Option Str
  | get _ | getBySelfLink _ => none
  | _ => some StatefulServiceContract.documentClass.toList

/-- The info of the method. -/
def info (c : DocumentCall T) : MethodInfo :=
  asyncInfo c.method c.action (pathAndBody c.names c.bodyType)

/-- The info is that of the method. -/
theorem methodInfo_eq (c : DocumentCall T) :
    MethodInfoBuilder.methodInfo c.method = some c.info := by
  simp only [MethodInfoBuilder.methodInfo, MethodInfoBuilder.readMethod,
    MethodInfoBuilder.describeMethod_eq]
  cases c <;> rfl

/-- The path of the method with the id of the call; `none` when it throws. -/
def methodUri (c : DocumentCall T) : Option JString :=
  match c.id with
  | some id => (StatefulServiceContract.requestedId id).map some
  | none => some none

/-- An id without backslashes and dollars is the path of the method. -/
theorem methodUri_eq_id {c : DocumentCall T} (h : ∀ id ∈ c.id, '\\' ∉ id ∧ '$' ∉ id) :
    c.methodUri = some c.id := by
  rw [methodUri]
  cases hid : c.id with
  | none => rfl
  | some id =>
      have hplain := h id hid
      simp only [StatefulServiceContract.requestedId_eq_self hplain.1 hplain.2, Option.map_some]

/-- **The operation of a call**: the id goes into the path, and the body is that of the call. -/
theorem buildOperation_eq {u : UriUtils} {valueOf : WireValue T → Str}
    (hvalueOf : ∀ s, valueOf (.text s) = s) (handler : ProxyHandler) (c : DocumentCall T) :
    ProxyHandler.buildOperation u valueOf handler c.info c.args = c.methodUri.map fun methodUri =>
      { action := c.action
        uri := u.extendUriWithQuery (u.extendUri handler.baseUri methodUri) []
        body := c.body.join.map .body
        headers := []
        cookies := ∅
        referer := handler.referrer } := by
  -- the id is put in first
  have hfirst : ∀ id rest parameters,
      (⟨some "id".toList, 0, .path, none⟩ :: parameters).foldlM
          (ProxyHandler.collect valueOf (some (.text id) :: rest))
          ⟨some StatefulServiceContract.idTemplate.text, [], none, [], ∅⟩ =
        (StatefulServiceContract.requestedId id).bind fun path =>
          parameters.foldlM (ProxyHandler.collect valueOf (some (.text id) :: rest))
            ⟨some path, [], none, [], ∅⟩ := by
    intro id rest parameters
    simp only [List.foldlM_cons, ProxyHandler.collect, List.getElem?_cons_zero,
      ProxyHandler.collectArgument, hvalueOf, Option.bind_eq_bind, Option.bind_some,
      Option.bind_assoc, StatefulServiceContract.requestedId]
  have hloop : c.info.parameters.foldlM (ProxyHandler.collect valueOf c.args)
      ⟨c.info.uriPath, [], none, [], ∅⟩ =
        c.methodUri.map fun methodUri => ⟨methodUri, [], c.body.join.map .body, [], ∅⟩ := by
    cases c with
    | post body => cases body <;> rfl
    | get id | getBySelfLink docLink =>
        refine (hfirst _ [] []).trans ?_
        simp only [methodUri, DocumentCall.id]
        generalize StatefulServiceContract.requestedId _ = path
        cases path <;> rfl
    | patch id body | patchBySelfLink id body | put id body | putBySelfLink id body
    | delete id body =>
        refine (hfirst _ [body.map .body]
          [⟨none, 1, .body, some StatefulServiceContract.documentClass.toList⟩]).trans ?_
        simp only [methodUri, DocumentCall.id]
        generalize StatefulServiceContract.requestedId _ = path
        cases path <;> cases body <;> rfl
  rw [ProxyHandler.buildOperation, hloop, Option.map_map]
  rfl

/-- The link of the document that a call is for, at a factory. -/
def link (factory : List Str) (c : DocumentCall T) : Str :=
  rooted uriPathChar (factory ++ c.id.toList)

/-- An id that can stand in a path. -/
def Sendable (resolved : Str → Prop) (c : DocumentCall T) : Prop := ∀ id ∈ c.id, Kept resolved id

end DocumentCall

/-! ## Clients -/

/-- **`newStatefulSvcContract`**: the builder and the client that it makes. -/
def ServiceClientUtil.newStatefulSvcContract (u : UriUtils)
    (buildUri : JString → Option (Option Uri)) (host : ServiceHost) (publicUri : Uri)
    (listing : List Method) (baseUri : Str) : JaxRsServiceClient × Option ServiceProxy :=
  (JaxRsServiceClient.newBuilder.run buildUri
    [.withHost (some host), .withBaseUri (some (u.extendUri publicUri (some baseUri))),
      .withResourceInterface (some (StatefulServiceContract.iFace listing))]).buildProxy true

/-- What the builder makes: its fields stay, and the client reads its base URI from them. -/
theorem ServiceClientUtil.newStatefulSvcContract_eq (u : UriUtils)
    (buildUri : JString → Option (Option Uri)) (host : ServiceHost) (publicUri : Uri)
    (listing : List Method) (baseUri : Str) :
    newStatefulSvcContract u buildUri host publicUri listing baseUri =
      (⟨some (StatefulServiceContract.iFace listing), some host, some .ofBuilder,
          some (u.extendUri publicUri (some baseUri))⟩,
        (MethodInfoBuilder.generateMethodInfo listing).map fun _ =>
          ⟨StatefulServiceContract.iFace listing, .ofBuilder, host.publicUri⟩) := rfl

section Clients

variable {C R T : Type} {resolved : Str → Prop} {u : UriUtils} {factory : List Str}
  {valueOf : WireValue T → Str}

/-- **A client of the contract** for the documents of a factory; its interceptors leave an operation
to carry its call. -/
structure ContractClient (resolved : Str → Prop) (u : UriUtils) (factory : List Str)
    (client : InterfaceClient C R (WireValue T)) : Prop where
  built : ∃ buildUri host publicUri listing proxy moment,
    publicUri.path = [] ∧ publicUri.query = none ∧
    (ServiceClientUtil.newStatefulSvcContract u buildUri host publicUri listing
      (rooted uriPathChar factory)).2 = some proxy ∧
    proxy.handler u (ServiceClientUtil.newStatefulSvcContract u buildUri host publicUri listing
      (rooted uriPathChar factory)).1 moment = some client.handler ∧
    MethodInfoBuilder.generateMethodInfo listing = some client.httpMethods
  before : ∀ (c : DocumentCall T) op, ∃ op', client.interceptBeforeComplete op = .ok op' ∧
    Carries c.info op op'

/-- The handler of the contract, which is the same at every moment. -/
theorem ServiceClientUtil.handler_newStatefulSvcContract {buildUri : JString → Option (Option Uri)}
    {host : ServiceHost} {publicUri : Uri} {listing : List Method} {baseUri : Str}
    {proxy : ServiceProxy}
    (hproxy : (newStatefulSvcContract u buildUri host publicUri listing baseUri).2 = some proxy)
    (moment : Nat) :
    proxy.handler u (newStatefulSvcContract u buildUri host publicUri listing baseUri).1 moment =
      some (JaxRsServiceClient.build u (StatefulServiceContract.iFace listing)
        (u.extendUri publicUri (some baseUri)) host.publicUri) := by
  rw [newStatefulSvcContract_eq] at hproxy ⊢
  obtain ⟨methods, -, rfl⟩ := Option.map_eq_some_iff.mp hproxy
  rfl

/-- The client of the contract at a host, without interceptors; its responses have a body that cannot
be read. -/
def contractClientAt (T : Type) (publicHost : Str) (factory : List Str) :
    InterfaceClient Unit Unit (WireValue T) where
  handler := JaxRsServiceClient.build .documented
    (StatefulServiceContract.iFace StatefulServiceContract.methods)
    (UriUtils.documented.extendUri ⟨publicHost, [], none⟩ (some (rooted uriPathChar factory)))
    publicHost
  httpMethods := StatefulServiceContract.methods.filterMap MethodInfoBuilder.methodInfo
  returnInfo _ := ⟨true, .named "java.lang.Object".toList,
    .classType (.named "java.lang.Object".toList)⟩
  interceptBeforeComplete op := .ok op
  interceptor := ⟨none⟩
  decoding := .default
    ⟨fun _ => .error (.exception ()), fun _ _ => .error (.exception ()),
      fun _ _ => .error (.exception ())⟩
    (fun _ => true) fun _ _ => false

/-- It is what the contract makes. -/
theorem contractClientAt_contractClient (T : Type) (publicHost : Str) (factory : List Str) :
    ContractClient resolved .documented factory (contractClientAt T publicHost factory) where
  built := by
    have hreadable : ∀ m ∈ StatefulServiceContract.methods,
        (MethodInfoBuilder.readMethod m).isSome := by decide
    have hinfos : MethodInfoBuilder.generateMethodInfo StatefulServiceContract.methods =
        some (contractClientAt T publicHost factory).httpMethods := by
      rw [MethodInfoBuilder.generateMethodInfo_eq, if_pos hreadable]
      rfl
    -- the builder is given no text of a URI, so how one is parsed does not matter
    let publicUri : Uri := ⟨publicHost, [], none⟩
    refine ⟨fun _ => none, ⟨publicUri, publicHost⟩, publicUri, StatefulServiceContract.methods,
      ⟨StatefulServiceContract.iFace StatefulServiceContract.methods, .ofBuilder, publicHost⟩, 0,
      rfl, rfl, ?_, rfl, hinfos⟩
    rw [ServiceClientUtil.newStatefulSvcContract_eq, hinfos]
    rfl
  before c op := ⟨op, rfl, .refl _ _⟩

/-- The path of a call, added to the link of the factory, is the link of its document. -/
theorem DocumentCall.buildUriPath_id (hu : u.Lawful resolved) (hfactory : ∀ s ∈ factory, Kept resolved s)
    {c : DocumentCall T} (hid : ∀ id ∈ c.id, uriPathChar ∉ id ∧ id ≠ []) :
    u.buildUriPath (rooted uriPathChar factory) c.id = c.link factory := by
  rw [hu.buildUriPath_eq, DocumentCall.link, rooted_append,
    normalized_rooted (fun s hs => (hfactory s hs).segment.1) fun s hs => (hfactory s hs).segment.2]
  cases hc : c.id with
  | none => rfl
  | some id =>
      obtain ⟨hsep, hne⟩ := hid id hc
      have hnormal : normalized (rooted uriPathChar [id]).tail = rooted uriPathChar [id] :=
        normalized_tail_rooted (by simpa using hsep) (by simpa using hne)
      have htail : (rooted uriPathChar [id]).tail = id := List.append_nil id
      rw [htail] at hnormal
      rw [Option.map_some, Option.getD_some, hnormal]
      rfl

/-- The segments of the link of a document. -/
theorem DocumentCall.link_segments (hfactory : ∀ s ∈ factory, Kept resolved s) {c : DocumentCall T}
    (hid : ∀ id ∈ c.id, uriPathChar ∉ id ∧ id ≠ [] ∧ ¬ resolved id) :
    ∀ s ∈ factory ++ c.id.toList, uriPathChar ∉ s ∧ s ≠ [] ∧ ¬ resolved s := by
  intro s hs
  rcases List.mem_append.mp hs with hs | hs
  · exact ⟨(hfactory s hs).segment.1, (hfactory s hs).segment.2, (hfactory s hs).2⟩
  · exact hid s (Option.mem_toList.mp hs)

/-- The tokens of the link of a document are not resolved. -/
theorem DocumentCall.not_resolved_link (hu : u.Lawful resolved)
    (hfactory : ∀ s ∈ factory, Kept resolved s) {c : DocumentCall T}
    (hid : ∀ id ∈ c.id, uriPathChar ∉ id ∧ id ≠ [] ∧ ¬ resolved id) :
    ∀ s ∈ split uriPathChar (c.link factory), ¬ resolved s := by
  have hsegments := DocumentCall.link_segments hfactory hid
  rw [DocumentCall.link, split_rooted (fun s hs => (hsegments s hs).1) fun s hs => (hsegments s hs).2.1]
  exact List.forall_mem_cons.mpr ⟨hu.not_resolved_nil, fun s hs => (hsegments s hs).2.2⟩

/-- **The operation of a call** goes to the link of its document, with the action and the body of
the call, if the id stands in the path as it is. -/
theorem sentOp_of_extended (hu : u.Lawful resolved) (hfactory : ∀ s ∈ factory, Kept resolved s)
    {client : InterfaceClient C R (WireValue T)}
    (hclient : ContractClient resolved u factory client) (hvalueOf : ∀ s, valueOf (.text s) = s)
    {c : DocumentCall T} (hplain : ∀ id ∈ c.id, '\\' ∉ id ∧ '$' ∉ id)
    (hsegment : ∀ id ∈ c.id, uriPathChar ∉ id ∧ id ≠ [] ∧ ¬ resolved id)
    (hextended : ∀ uri : Uri, uri.path = rooted uriPathChar factory → uri.query = none →
      (u.extendUri uri c.id).path = c.link factory) :
    ∃ op, client.sentOp u valueOf c.method c.args = some op ∧ op.action = c.action ∧
      op.uri.path = c.link factory ∧ op.body = c.body.join.map .body := by
  obtain ⟨buildUri, host, publicUri, listing, proxy, moment, hpath, hquery, hproxy, hhandler,
    hread⟩ := hclient.built
  rw [ServiceClientUtil.handler_newStatefulSvcContract hproxy] at hhandler
  have hnormal : normalized (rooted uriPathChar factory) = rooted uriPathChar factory :=
    normalized_rooted (fun s hs => (hfactory s hs).segment.1) fun s hs => (hfactory s hs).segment.2
  have hbase : u.buildUriPath publicUri.path (some (rooted uriPathChar factory)) =
      rooted uriPathChar factory := by
    rw [hu.buildUriPath_eq, hpath, Option.map_some, Option.getD_some, hnormal]
    rfl
  obtain ⟨hpublic, hpublicQuery⟩ := extendUri_of_kept hu hbase hfactory hquery
  have hlink : u.buildUriPath (u.extendUri publicUri (some (rooted uriPathChar factory))).path
      (StatefulServiceContract.iFace listing).path = rooted uriPathChar factory := by
    rw [hpublic, hu.buildUriPath_eq, hnormal]
    exact List.append_nil _
  -- the base URI of the client is the link of the factory
  obtain ⟨hbasePath, hbaseQuery⟩ := extendUri_of_kept hu hlink hfactory hpublicQuery
  have hbuild := c.buildOperation_eq (u := u) hvalueOf client.handler
  rw [DocumentCall.methodUri_eq_id hplain, Option.map_some] at hbuild
  obtain ⟨op, hbefore, hcarries⟩ := hclient.before c _
  refine ⟨op, (client.invoke_of_built (methodInfoFor_eq hread c.methodInfo_eq) hbuild hbefore).1,
    hcarries.action_eq, ?_, hcarries.body_eq⟩
  have hpath : (u.extendUri client.handler.baseUri c.id).path = c.link factory := by
    rw [← Option.some.inj hhandler]
    exact hextended _ hbasePath hbaseQuery
  have hsegments := DocumentCall.link_segments hfactory hsegment
  rw [hcarries.uri_eq]
  refine (hu.extendUriWithQuery_path _ [] ?_ ?_).trans hpath
  · rw [hpath]
    exact normalized_rooted (fun s hs => (hsegments s hs).1) fun s hs => (hsegments s hs).2.1
  · rw [hpath]
    exact DocumentCall.not_resolved_link hu hfactory hsegment

/-- **The operation of a call** with an id that can stand in a path. -/
theorem sentOp_document (hu : u.Lawful resolved) (hfactory : ∀ s ∈ factory, Kept resolved s)
    {client : InterfaceClient C R (WireValue T)}
    (hclient : ContractClient resolved u factory client) (hvalueOf : ∀ s, valueOf (.text s) = s)
    {c : DocumentCall T} (hc : c.Sendable resolved) :
    ∃ op, client.sentOp u valueOf c.method c.args = some op ∧ op.action = c.action ∧
      op.uri.path = c.link factory ∧ op.body = c.body.join.map .body := by
  have hsegment : ∀ id ∈ c.id, uriPathChar ∉ id ∧ id ≠ [] ∧ ¬ resolved id :=
    fun id hid => ⟨(hc id hid).segment.1, (hc id hid).segment.2, (hc id hid).2⟩
  refine sentOp_of_extended hu hfactory hclient hvalueOf
    (fun id hid => ⟨(hc id hid).1.not_mem (by decide), (hc id hid).1.not_mem (by decide)⟩) hsegment
    fun uri hpath hquery => (extendUri_of_kept hu ?_ ?_ hquery).1
  · rw [hpath]
    exact DocumentCall.buildUriPath_id hu hfactory fun id hid =>
      ⟨(hsegment id hid).1, (hsegment id hid).2.1⟩
  · intro s hs
    rcases List.mem_append.mp hs with hs | hs
    · exact hfactory s hs
    · exact hc s (Option.mem_toList.mp hs)

/-- An id that can stand in a path, and may have colons. -/
def WithColons (id : Str) : Prop := ':' ∈ id ∧ ∀ c ∈ id, unreserved c ∨ c = ':'

/-- **The operation of a call** with an id that has colons. -/
theorem sentOp_withColons (hu : u.Lawful resolved) (hcolons : u.KeepsColons resolved)
    (hfactory : ∀ s ∈ factory, Kept resolved s) {client : InterfaceClient C R (WireValue T)}
    (hclient : ContractClient resolved u factory client) (hvalueOf : ∀ s, valueOf (.text s) = s)
    {c : DocumentCall T} (hc : ∀ id ∈ c.id, WithColons id) :
    ∃ op, client.sentOp u valueOf c.method c.args = some op ∧ op.action = c.action ∧
      op.uri.path = c.link factory ∧ op.body = c.body.join.map .body := by
  have hnot : ∀ id ∈ c.id, ∀ d, ¬ unreserved d → d ≠ ':' → d ∉ id :=
    fun id hid d hd hcolon hmem => ((hc id hid).2 d hmem).elim hd hcolon
  have hsegment : ∀ id ∈ c.id, uriPathChar ∉ id ∧ id ≠ [] ∧ ¬ resolved id := fun id hid =>
    ⟨hnot id hid _ (by decide) (by decide), List.ne_nil_of_mem (hc id hid).1,
      hcolons.not_resolved id (hc id hid).1⟩
  have hbuild := DocumentCall.buildUriPath_id hu hfactory fun id hid =>
    ⟨(hsegment id hid).1, (hsegment id hid).2.1⟩
  refine sentOp_of_extended hu hfactory hclient hvalueOf
    (fun id hid => ⟨hnot id hid _ (by decide) (by decide), hnot id hid _ (by decide) (by decide)⟩)
    hsegment fun uri hpath _ => ?_
  rw [hcolons.extendUri_path, hpath, hbuild]
  · intro id hid d hd
    rcases (hc id hid).2 d hd with hd | hd
    · exact .inl hd
    · exact .inr (.inr hd)
  · rw [hpath, hbuild]
    exact DocumentCall.not_resolved_link hu hfactory hsegment

end Clients

end XenonExt
