import XenonExt.JaxRs.ProxyHandler

/-! # The builder of clients

`JaxRsServiceClient` is a builder: it is given an interface and a base URI, and makes a client of
them. Unless the caller gave a supplier of the base URI, the supplier of the client reads the fields
of the builder when a method is invoked. The builder keeps it, and may be used again.

* **`ClientBuilderCall`**: the calls of a builder, and `step` what they change.
* **`address_step_iff`**: the calls that keep what the fields stand for.
* **`independent_iff`**: the runs of later calls that leave a client alone. -/

namespace XenonExt

/-- A host: its URI, and the text of its public URI. -/
structure ServiceHost where
  uri : Uri
  publicUri : Str

/-- A supplier of base URIs: one of the caller, by what it gives at each moment, or the one that the
builder makes; `none` when it throws. -/
inductive BaseUriSupplier
  | ofCaller (get : Nat → Option Uri)
  | ofBuilder

/-- **The builder**, with the fields that base URIs are read from; `none` stands for `null`. -/
structure JaxRsServiceClient where
  resourceInterface : Option Interface
  host : Option ServiceHost
  baseUriSupplier : Option BaseUriSupplier
  baseUri : Option Uri

/-- A client: its interface, its supplier and its referrer. -/
structure ServiceProxy where
  resourceInterface : Interface
  baseUriSupplier : BaseUriSupplier
  referrer : Str

/-- A call of the builder. `build` may have to create a service client, which may fail. -/
inductive ClientBuilderCall
  | withResourceInterface (resourceInterface : Option Interface)
  | withHost (host : Option ServiceHost)
  | withBaseUriText (baseUri : JString)
  | withBaseUriSupplier (baseUriSupplier : Option (Nat → Option Uri))
  | withBaseUri (baseUri : Option Uri)
  | build (serviceClientCreated : Bool)

/-- The referrer of a client without a host. -/
def defaultReferrer : Str := "/jaxrs/xenon/client".toList

namespace JaxRsServiceClient

/-- `newBuilder`. -/
def newBuilder : JaxRsServiceClient := ⟨none, none, none, none⟩

/-- What an interface and a base URI stand for: the base URI with the `Path` of the interface; `none`
when one of them is missing, which throws. -/
def addressOf (u : UriUtils) (resourceInterface : Option Interface) (baseUri : Option Uri) :
    Option Uri := do
  let element ← resourceInterface
  let parent ← baseUri
  return addPathFromAnnotation u element parent

/-- What the fields of the builder stand for. -/
def address (u : UriUtils) (b : JaxRsServiceClient) : Option Uri :=
  addressOf u b.resourceInterface b.baseUri

/-- The proxy that `build` makes, when the methods of the interface can be read. -/
def newProxy (b : JaxRsServiceClient) (resourceInterface : Interface)
    (baseUriSupplier : BaseUriSupplier) : Option ServiceProxy :=
  (MethodInfoBuilder.generateMethodInfo resourceInterface.methods).map fun _ =>
    { resourceInterface := resourceInterface
      baseUriSupplier := baseUriSupplier
      referrer := (b.host.map ServiceHost.publicUri).getD defaultReferrer }

/-- The second half of `build`: the service client, the supplier and the proxy; no client when it
throws. The supplier is kept, whether or not the methods can be read. -/
def createProxy (b : JaxRsServiceClient) (resourceInterface : Interface)
    (serviceClientCreated : Bool) : JaxRsServiceClient × Option ServiceProxy :=
  if b.host.isNone ∧ ¬ serviceClientCreated then (b, none)
  else
    let baseUriSupplier := b.baseUriSupplier.getD .ofBuilder
    ({ b with baseUriSupplier := some baseUriSupplier },
      b.newProxy resourceInterface baseUriSupplier)

/-- **`build`**: without any base URI that of the host is taken; no client when it throws. -/
def buildProxy (b : JaxRsServiceClient) (serviceClientCreated : Bool) :
    JaxRsServiceClient × Option ServiceProxy :=
  match b.resourceInterface with
  | none => (b, none)
  | some resourceInterface =>
    if b.baseUri.isNone ∧ b.baseUriSupplier.isNone then
      match b.host with
      | none => (b, none)
      | some host =>
        { b with baseUri := some host.uri }.createProxy resourceInterface serviceClientCreated
    else b.createProxy resourceInterface serviceClientCreated

/-- **What a call changes**, given Xenon's `buildUri`, which may give `null` and may throw. -/
def step (buildUri : JString → Option (Option Uri)) (b : JaxRsServiceClient) :
    ClientBuilderCall → JaxRsServiceClient
  | .withResourceInterface resourceInterface => { b with resourceInterface := resourceInterface }
  | .withHost host => { b with host := host }
  | .withBaseUriText baseUri => match buildUri baseUri with
    | some uri => { b with baseUri := uri }
    | none => b
  | .withBaseUriSupplier baseUriSupplier =>
    { b with baseUriSupplier := baseUriSupplier.map .ofCaller }
  | .withBaseUri baseUri => { b with baseUri := baseUri }
  | .build serviceClientCreated => (b.buildProxy serviceClientCreated).1

/-- A run of calls. -/
def run (buildUri : JString → Option (Option Uri)) (b : JaxRsServiceClient)
    (calls : List ClientBuilderCall) : JaxRsServiceClient :=
  calls.foldl (step buildUri) b

end JaxRsServiceClient

namespace ServiceProxy

/-- **The base URI of an invocation**, at a moment and with the builder as it is then; `none` when the
supplier throws. -/
def baseUri (u : UriUtils) (client : ServiceProxy) (b : JaxRsServiceClient) (moment : Nat) :
    Option Uri :=
  match client.baseUriSupplier with
  | .ofCaller get => get moment
  | .ofBuilder => b.address u

/-- The handler of an invocation. -/
def handler (u : UriUtils) (client : ServiceProxy) (b : JaxRsServiceClient) (moment : Nat) :
    Option ProxyHandler :=
  (client.baseUri u b moment).map fun baseUri => ⟨baseUri, client.referrer⟩

end ServiceProxy

/-! ## What a build changes -/

namespace JaxRsServiceClient

variable {u : UriUtils} {buildUri : JString → Option (Option Uri)}

/-- A build that finds neither a base URI nor a supplier, but a host; it writes a base URI. -/
def TakesBaseUriOfHost (b : JaxRsServiceClient) : Prop :=
  b.resourceInterface.isSome ∧ b.baseUri.isNone ∧ b.baseUriSupplier.isNone ∧ b.host.isSome

/-- **What a `build` does**: it throws at once, or makes a proxy with the fields as they are, or takes
the base URI of the host before. -/
theorem buildProxy_cases (b : JaxRsServiceClient) (created : Bool) :
    (¬ b.TakesBaseUriOfHost ∧ b.buildProxy created = (b, none)) ∨
    (∃ element, ¬ b.TakesBaseUriOfHost ∧ b.resourceInterface = some element ∧
      b.buildProxy created = b.createProxy element created) ∨
    ∃ (element : Interface) (host : ServiceHost),
      b.TakesBaseUriOfHost ∧ b.resourceInterface = some element ∧
      b.buildProxy created = { b with baseUri := some host.uri }.createProxy element created := by
  obtain ⟨resourceInterface, host, baseUriSupplier, baseUri⟩ := b
  cases resourceInterface with
  | none => exact .inl ⟨fun h => absurd h.1 Bool.false_ne_true, rfl⟩
  | some element =>
      by_cases hnone : baseUri.isNone ∧ baseUriSupplier.isNone
      · cases host with
        | none =>
            refine .inl ⟨fun h => absurd h.2.2.2 Bool.false_ne_true, ?_⟩
            simp only [buildProxy, if_pos hnone]
        | some host =>
            refine .inr (.inr ⟨element, host, ⟨rfl, hnone.1, hnone.2, rfl⟩, rfl, ?_⟩)
            simp only [buildProxy, if_pos hnone]
      · refine .inr (.inl ⟨element, fun h => hnone ⟨h.2.1, h.2.2.1⟩, rfl, ?_⟩)
        simp only [buildProxy, if_neg hnone]

/-- The second half of `build` touches neither the interface nor the base URI. -/
theorem address_createProxy (u : UriUtils) (b : JaxRsServiceClient) (element : Interface)
    (created : Bool) : (b.createProxy element created).1.address u = b.address u := by
  unfold createProxy
  split <;> rfl

/-- What the fields stand for after a `build`. -/
theorem address_buildProxy_iff (u : UriUtils) (b : JaxRsServiceClient) (created : Bool) :
    (b.buildProxy created).1.address u = b.address u ↔ ¬ b.TakesBaseUriOfHost := by
  obtain ⟨htakes, hbuild⟩ | ⟨element, htakes, -, hbuild⟩ |
    ⟨element, host, htakes, helement, hbuild⟩ := b.buildProxy_cases created
  · rw [hbuild]
    exact iff_of_true rfl htakes
  · rw [hbuild, address_createProxy]
    exact iff_of_true rfl htakes
  · -- there was no base URI before, and there is one now
    rw [hbuild, address_createProxy, address, address, helement,
      Option.isNone_iff_eq_none.mp htakes.2.1]
    exact iff_of_false (fun h => by cases h) (not_not_intro htakes)

/-- The second half of a `build` that makes a client. -/
theorem createProxy_eq_some {b : JaxRsServiceClient} {element : Interface} {created : Bool}
    {client : ServiceProxy} (h : (b.createProxy element created).2 = some client) :
    client.resourceInterface = element ∧
      client.baseUriSupplier = b.baseUriSupplier.getD .ofBuilder ∧
      (b.createProxy element created).1.resourceInterface = b.resourceInterface := by
  unfold createProxy at h ⊢
  split at h
  · cases h
  · rename_i hclient
    rw [if_neg hclient]
    obtain ⟨methods, -, rfl⟩ := Option.map_eq_some_iff.mp h
    exact ⟨rfl, rfl, rfl⟩

/-- **A `build` that makes a client** makes it for the interface of the builder, and gives it the
supplier of the builder, if it has one. -/
theorem buildProxy_eq_some {b : JaxRsServiceClient} {created : Bool} {client : ServiceProxy}
    (h : (b.buildProxy created).2 = some client) :
    (b.buildProxy created).1.resourceInterface = some client.resourceInterface ∧
      client.baseUriSupplier = b.baseUriSupplier.getD .ofBuilder := by
  obtain ⟨-, hbuild⟩ | ⟨element, -, helement, hbuild⟩ | ⟨element, host, -, helement, hbuild⟩ :=
    b.buildProxy_cases created
  · rw [hbuild] at h
    cases h
  · rw [hbuild] at h ⊢
    obtain ⟨hclient, hsupplier, hkept⟩ := createProxy_eq_some h
    exact ⟨by rw [hkept, hclient, helement], hsupplier⟩
  · rw [hbuild] at h ⊢
    obtain ⟨hclient, hsupplier, hkept⟩ := createProxy_eq_some h
    exact ⟨by rw [hkept, hclient, helement], hsupplier⟩

/-! ## The calls that keep what the fields stand for -/

/-- **A call that keeps what the fields stand for**: another interface must extend the base URI to the
same URI, another base URI must be extended to the same URI, and a `build` must not take the base URI
of the host. -/
def KeepsAddress (u : UriUtils) (buildUri : JString → Option (Option Uri))
    (b : JaxRsServiceClient) : ClientBuilderCall → Prop
  | .withResourceInterface resourceInterface => ∀ baseUri ∈ b.baseUri,
      (resourceInterface.map fun element => addPathFromAnnotation u element baseUri) =
        b.resourceInterface.map fun element => addPathFromAnnotation u element baseUri
  | .withBaseUriText text => ∀ baseUri ∈ buildUri text, ∀ element ∈ b.resourceInterface,
      (baseUri.map fun parent => addPathFromAnnotation u element parent) =
        b.baseUri.map fun parent => addPathFromAnnotation u element parent
  | .withBaseUri baseUri => ∀ element ∈ b.resourceInterface,
      (baseUri.map fun parent => addPathFromAnnotation u element parent) =
        b.baseUri.map fun parent => addPathFromAnnotation u element parent
  | .build _ => ¬ b.TakesBaseUriOfHost
  | .withHost _ => True
  | .withBaseUriSupplier _ => True

/-- Two interfaces stand for the same with a base URI. -/
theorem addressOf_left_iff (u : UriUtils) (element element' : Option Interface)
    (baseUri : Option Uri) :
    addressOf u element' baseUri = addressOf u element baseUri ↔ ∀ uri ∈ baseUri,
      (element'.map fun element => addPathFromAnnotation u element uri) =
        element.map fun element => addPathFromAnnotation u element uri := by
  cases baseUri with
  | none => cases element <;> cases element' <;> simp [addressOf]
  | some uri => cases element <;> cases element' <;> simp [addressOf]

/-- Two base URIs stand for the same with an interface. -/
theorem addressOf_right_iff (u : UriUtils) (resourceInterface : Option Interface)
    (baseUri baseUri' : Option Uri) :
    addressOf u resourceInterface baseUri' = addressOf u resourceInterface baseUri ↔
      ∀ element ∈ resourceInterface,
        (baseUri'.map fun parent => addPathFromAnnotation u element parent) =
          baseUri.map fun parent => addPathFromAnnotation u element parent := by
  cases resourceInterface with
  | none => simp [addressOf]
  | some element => cases baseUri <;> cases baseUri' <;> simp [addressOf]

/-- **One call** keeps what the fields stand for exactly when `KeepsAddress` says so. -/
theorem address_step_iff (u : UriUtils) (buildUri : JString → Option (Option Uri))
    (b : JaxRsServiceClient) (call : ClientBuilderCall) :
    (b.step buildUri call).address u = b.address u ↔ b.KeepsAddress u buildUri call := by
  cases call with
  | withResourceInterface resourceInterface => exact addressOf_left_iff u _ _ _
  | withHost host => exact iff_of_true rfl trivial
  | withBaseUriText text =>
      cases htext : buildUri text with
      | none => simp [step, KeepsAddress, htext]
      | some baseUri =>
          simp only [step, KeepsAddress, htext, Option.mem_some_iff, forall_eq']
          exact addressOf_right_iff u _ _ _
  | withBaseUriSupplier supplier => exact iff_of_true rfl trivial
  | withBaseUri baseUri => exact addressOf_right_iff u _ _ _
  | build created => exact address_buildProxy_iff u b created

@[simp] theorem run_nil (b : JaxRsServiceClient) : b.run buildUri [] = b := rfl

theorem run_append (b : JaxRsServiceClient) (calls calls' : List ClientBuilderCall) :
    b.run buildUri (calls ++ calls') = (b.run buildUri calls).run buildUri calls' :=
  List.foldl_append

theorem run_concat (b : JaxRsServiceClient) (calls : List ClientBuilderCall)
    (call : ClientBuilderCall) :
    b.run buildUri (calls ++ [call]) = (b.run buildUri calls).step buildUri call :=
  run_append b calls [call]

/-- **A run of calls**: after each of them the fields stand for the same exactly when each of them
keeps what they stand for. -/
theorem address_run_iff (b : JaxRsServiceClient) (calls : List ClientBuilderCall) :
    (∀ passed, passed <+: calls → (b.run buildUri passed).address u = b.address u) ↔
      ∀ passed call rest, calls = passed ++ call :: rest →
        (b.run buildUri passed).KeepsAddress u buildUri call := by
  constructor
  · rintro h passed call rest rfl
    have hbefore := h passed (List.prefix_append _ _)
    have hafter := h (passed ++ [call]) ⟨rest, by simp⟩
    rw [run_concat] at hafter
    exact (address_step_iff u buildUri _ call).mp (hafter.trans hbefore.symm)
  · intro h passed
    induction passed using List.reverseRecOn with
    | nil => exact fun _ => rfl
    | append_singleton passed call ih =>
        rintro ⟨rest, hrest⟩
        have hcalls : calls = passed ++ call :: rest := by rw [← hrest]; simp
        have hstep := (address_step_iff u buildUri _ call).mpr (h passed call rest hcalls)
        rw [run_concat, hstep]
        exact ih ⟨call :: rest, hcalls.symm⟩

end JaxRsServiceClient

/-! ## The client and the builder -/

namespace ServiceProxy

/-- **A client does not depend on its builder**: whatever part of the later calls has been made, the
base URI of an invocation is that of an invocation right after the client was built. -/
def Independent (u : UriUtils) (buildUri : JString → Option (Option Uri)) (client : ServiceProxy)
    (b : JaxRsServiceClient) (later : List ClientBuilderCall) : Prop :=
  ∀ passed, passed <+: later → ∀ moment,
    client.baseUri u (b.run buildUri passed) moment = client.baseUri u b moment

/-- A client with a supplier of the caller does not depend on the builder. -/
theorem independent_ofCaller {u : UriUtils} {buildUri : JString → Option (Option Uri)}
    {client : ServiceProxy} {get : Nat → Option Uri} (h : client.baseUriSupplier = .ofCaller get)
    (b : JaxRsServiceClient) (later : List ClientBuilderCall) :
    client.Independent u buildUri b later := by
  intro passed _ moment
  simp only [baseUri, h]

/-- A client with the supplier of the builder gets what the fields of the builder stand for. -/
theorem independent_ofBuilder_iff {u : UriUtils} {buildUri : JString → Option (Option Uri)}
    {client : ServiceProxy} (h : client.baseUriSupplier = .ofBuilder) (b : JaxRsServiceClient)
    (later : List ClientBuilderCall) :
    client.Independent u buildUri b later ↔
      ∀ passed, passed <+: later → (b.run buildUri passed).address u = b.address u := by
  simp only [Independent, baseUri, h, forall_const]

/-- Right after its build, a client without a supplier of the caller gets the base URI of the builder,
with the `Path` of its own interface. -/
theorem baseUri_built (u : UriUtils) {b : JaxRsServiceClient} {created : Bool}
    {client : ServiceProxy} (hbuild : (b.buildProxy created).2 = some client)
    (hsupplier : ∀ get, b.baseUriSupplier ≠ some (.ofCaller get)) (moment : Nat) :
    client.baseUri u (b.buildProxy created).1 moment =
      (b.buildProxy created).1.baseUri.map fun parent =>
        addPathFromAnnotation u client.resourceInterface parent := by
  obtain ⟨hinterface, hclient⟩ := JaxRsServiceClient.buildProxy_eq_some hbuild
  have hown : client.baseUriSupplier = .ofBuilder := by
    rw [hclient]
    cases hb : b.baseUriSupplier with
    | none => rfl
    | some supplier =>
        cases supplier with
        | ofBuilder => rfl
        | ofCaller get => exact absurd hb (hsupplier get)
  simp only [baseUri, hown, JaxRsServiceClient.address, JaxRsServiceClient.addressOf, hinterface]
  exact (Option.map_eq_bind).symm

/-- **When a client is independent of its builder**: exactly when it was built with a supplier of the
caller, or every later call keeps what the fields of the builder stand for. Right after its build a
client without a supplier of the caller is sent to the base URI with the `Path` of its interface. -/
theorem independent_iff (u : UriUtils) (buildUri : JString → Option (Option Uri))
    (before later : List ClientBuilderCall) (created : Bool)
    {b kept : JaxRsServiceClient} {client : ServiceProxy}
    (hb : JaxRsServiceClient.newBuilder.run buildUri before = b)
    (hbuild : b.buildProxy created = (kept, some client)) :
    ((∀ get, b.baseUriSupplier ≠ some (.ofCaller get)) → ∀ moment,
      client.baseUri u kept moment =
        kept.baseUri.map fun parent =>
          addPathFromAnnotation u client.resourceInterface parent) ∧
    (client.Independent u buildUri kept later ↔
      (∃ get, b.baseUriSupplier = some (.ofCaller get)) ∨
        ∀ passed call rest, later = passed ++ call :: rest →
          (kept.run buildUri passed).KeepsAddress u buildUri call) := by
  subst hb
  have hkept := congrArg Prod.fst hbuild
  have hsome := congrArg Prod.snd hbuild
  simp only at hkept hsome
  subst hkept
  refine ⟨fun hsupplier moment => baseUri_built u hsome hsupplier moment, ?_⟩
  obtain ⟨-, hclient⟩ := JaxRsServiceClient.buildProxy_eq_some hsome
  generalize JaxRsServiceClient.newBuilder.run buildUri before = b at hclient ⊢
  cases hsupplier : b.baseUriSupplier with
  | none =>
      have hown : client.baseUriSupplier = .ofBuilder := by rw [hclient, hsupplier]; rfl
      rw [independent_ofBuilder_iff hown, JaxRsServiceClient.address_run_iff]
      simp
  | some supplier =>
      cases supplier with
      | ofBuilder =>
          have hown : client.baseUriSupplier = .ofBuilder := by rw [hclient, hsupplier]; rfl
          rw [independent_ofBuilder_iff hown, JaxRsServiceClient.address_run_iff]
          simp
      | ofCaller get =>
          have hcaller : client.baseUriSupplier = .ofCaller get := by rw [hclient, hsupplier]; rfl
          exact iff_of_true (independent_ofCaller hcaller _ later) (.inl ⟨get, rfl⟩)

/-- A second client of the same interface, on a host, leaves the first client alone. -/
theorem independent_iff_members :
    let baseUri : Uri := ⟨"http://localhost:8000".toList, [], none⟩
    let members : Interface := ⟨"Members".toList, some "/members".toList, []⟩
    let later : List ClientBuilderCall :=
      [.withHost (some ⟨baseUri, "http://localhost:8000".toList⟩), .build true]
    let b := JaxRsServiceClient.newBuilder.run (fun _ => none)
      [.withBaseUri (some baseUri), .withResourceInterface (some members)]
    let client : ServiceProxy := ⟨members, .ofBuilder, defaultReferrer⟩
    client.Independent UriUtils.documented (fun _ => none) (b.buildProxy true).1 later ∧
      ∀ moment, client.baseUri UriUtils.documented (b.buildProxy true).1 moment =
        some ⟨"http://localhost:8000".toList, "/members".toList, none⟩ := by
  intro baseUri members later b client
  have hbuild : b.buildProxy true = ((b.buildProxy true).1, some client) := rfl
  obtain ⟨hbuilt, hiff⟩ := independent_iff UriUtils.documented (fun _ => none)
    [.withBaseUri (some baseUri), .withResourceInterface (some members)] later true rfl hbuild
  refine ⟨hiff.mpr (.inr fun passed call rest hlater => ?_), fun moment => ?_⟩
  · match passed, hlater with
    | [], hlater =>
        obtain ⟨rfl, -⟩ := List.cons.inj hlater
        trivial
    | [first], hlater =>
        obtain ⟨rfl, htail⟩ := List.cons.inj hlater
        obtain ⟨rfl, -⟩ := List.cons.inj htail
        rintro ⟨-, hbase, -⟩
        cases hbase
    | first :: second :: passed, hlater => simp [later] at hlater
  · rw [hbuilt (fun get hget => by cases hget) moment]
    decide

/-- **A client is not independent of its builder**: after `withResourceInterface` for a second client,
the first client is sent to the path of the second interface. -/
theorem not_independent_members :
    let baseUri : Uri := ⟨"http://localhost:8000".toList, [], none⟩
    let members : Interface := ⟨"Members".toList, some "/members".toList, []⟩
    let tickets : Interface := ⟨"Tickets".toList, some "/tickets".toList, []⟩
    let later : List ClientBuilderCall :=
      [.withResourceInterface (some tickets), .build true]
    let b := JaxRsServiceClient.newBuilder.run (fun _ => none)
      [.withBaseUri (some baseUri), .withResourceInterface (some members)]
    ∃ kept client, b.buildProxy true = (kept, some client) ∧
      client.baseUri UriUtils.documented kept 0 =
        some ⟨"http://localhost:8000".toList, "/members".toList, none⟩ ∧
      client.baseUri UriUtils.documented (kept.run (fun _ => none) later) 1 =
        some ⟨"http://localhost:8000".toList, "/tickets".toList, none⟩ ∧
      ¬ client.Independent UriUtils.documented (fun _ => none) kept later := by
  intro baseUri members tickets later b
  refine ⟨_, ⟨members, .ofBuilder, defaultReferrer⟩, rfl, by decide, by decide, fun h => ?_⟩
  exact absurd (h later (List.prefix_refl _) 1) (by decide)

end ServiceProxy

end XenonExt
