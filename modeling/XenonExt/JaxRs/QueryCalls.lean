import XenonExt.JaxRs.RemoteCalls

/-! # Methods with queries only

A method of an interface without placeholders, whose parameters are all in the query, can be called
with links and class names: slashes and dollar signs stand in a query as they are.

* **`UriUtils.ReadsQueries`**: such values are read back.
* **`InQuery`, `QueriesFit`**: the methods and the arguments.
* **`queryParts_spec`**: client and server agree on the operations that carry a call. -/

namespace XenonExt

variable {E O V : Type}

/-! ## Values -/

/-- A character that stands in a query as it is. -/
def queryChar (c : Char) : Prop := unreserved c ∨ c = uriPathChar ∨ c = '$'

instance (c : Char) : Decidable (queryChar c) := by
  unfold queryChar
  infer_instance

/-- A text that stands in a query as it is. -/
def InQueryText (s : Str) : Prop := ∀ c ∈ s, queryChar c

instance (s : Str) : Decidable (InQueryText s) := List.decidableBAll queryChar s

/-- **Queries are read back**: what the code relies on for values with slashes. -/
structure UriUtils.ReadsQueries (u : UriUtils) : Prop where
  parse_eq : ∀ uri pairs, uri.query = none → (∀ p ∈ pairs, Unreserved p.1 ∧ InQueryText p.2) →
    (pairs.map Prod.fst).Nodup →
      ∃ params, u.parseUriQueryParams (u.extendUriWithQuery uri (keyValues pairs)) = some params ∧
        ∀ name, params name = pairs.lookup name

/-! ## Methods and arguments -/

/-- **A method with queries only**: a template without placeholders, and parameters of the query with
different names. -/
structure InQuery (resolved : Str → Prop) (template : Option Template) (info : MethodInfo) : Prop where
  uriPath_eq : info.uriPath = template.map Template.text
  literal : ∀ s ∈ Template.segmentsOf template, ∃ t, s = .literal t ∧ Kept resolved t
  type_eq : ∀ p ∈ info.parameters, p.type = .query
  named : ∀ p ∈ info.parameters, ∃ name, p.name = some name ∧ Unreserved name
  nodup : (info.parameters.map ParamMetadata.name).Nodup

/-- Arguments for the query, which may be `null`. -/
structure QueriesFit (valueOf : O → Str) (info : MethodInfo) (args : List (Option O)) : Prop where
  index_lt : ∀ p ∈ info.parameters, p.parameterIndex < args.length
  inQuery : ∀ p ∈ info.parameters, ∀ value, argumentText valueOf args p = some value →
    InQueryText value

section Queries

variable {resolved : Str → Prop} {template : Option Template} {info : MethodInfo}
  {valueOf : O → Str} {args : List (Option O)} {u : UriUtils} {self : List Str}

/-- Nothing of a call is in a part of another type. -/
theorem InQuery.given_eq_nil (h : InQuery resolved template info) {type : ParamType}
    (htype : type ≠ .query) : info.parameters.filterMap (given type valueOf args) = [] := by
  rw [List.filterMap_eq_nil_iff]
  intro p hp
  rw [given, if_neg (by rw [h.type_eq p hp]; exact Ne.symm htype)]

/-- The segments of the template are plain. -/
theorem InQuery.plain (h : InQuery resolved template info) :
    ∀ s ∈ Template.segmentsOf template, s.Plain := by
  intro s hs
  obtain ⟨t, rfl, hkept⟩ := h.literal s hs
  exact plain_of_unreserved hkept.1

/-- The path of a call is that of the route. -/
theorem InQuery.pathSegments_kept (h : InQuery resolved template info)
    (hself : ∀ s ∈ self, Kept resolved s) : ∀ s ∈ pathSegments self template [], Kept resolved s := by
  intro s hs
  rcases List.mem_append.mp hs with hs | hs
  · exact hself s hs
  · rw [Segment.map_fillAll_nil] at hs
    obtain ⟨segment, hsegment, rfl⟩ := List.mem_map.mp hs
    obtain ⟨t, rfl, hkept⟩ := h.literal segment hsegment
    exact hkept

/-- The loop of the client can collect every argument. -/
theorem InQuery.collects (h : InQuery resolved template info) (hargs : QueriesFit valueOf info args) :
    ∀ p ∈ info.parameters, ProxyHandler.Collects template valueOf args p := by
  intro p hp
  have htype := h.type_eq p hp
  exact ⟨hargs.index_lt p hp, by simp [htype], fun hpath => by simp [htype] at hpath⟩

/-- What is given for the query can be read back. -/
theorem InQuery.given_query (h : InQuery resolved template info)
    (hargs : QueriesFit valueOf info args) :
    (∀ v ∈ info.parameters.filterMap (given .query valueOf args),
        Unreserved v.1 ∧ InQueryText v.2) ∧
      ((info.parameters.filterMap (given .query valueOf args)).map Prod.fst).Nodup := by
  have hname : ∀ p ∈ info.parameters, p.type = .query → p.name.isSome := by
    intro p hp _
    obtain ⟨name, hname, -⟩ := h.named p hp
    rw [hname]
    rfl
  constructor
  · rintro ⟨_, _⟩ hv
    obtain ⟨p, hp, hgiven⟩ := List.mem_filterMap.mp hv
    obtain ⟨-, rfl, hvalue⟩ := given_eq_some_iff.mp hgiven
    obtain ⟨name, hname, hunreserved⟩ := h.named p hp
    exact ⟨hname ▸ hunreserved, hargs.inQuery p hp _ hvalue⟩
  · refine nodup_given_query ?_ hname
    exact h.nodup.sublist (List.filter_sublist.map _)

/-- **The server finds the argument of the client** for every parameter. -/
theorem InQuery.findMethodInput_eq (h : InQuery resolved template info) {params : Str → JString}
    (hparams : ∀ name,
      params name = (info.parameters.filterMap (given .query valueOf args)).lookup name)
    (handler : RoutingOperationHandler) (env env' : Surroundings E O V) (request : Request)
    (pathValues : List Str) {p : ParamMetadata} (hp : p ∈ info.parameters) :
    handler.findMethodInput env request params pathValues p = arrivedInput env' valueOf args p := by
  obtain ⟨name, hname, -⟩ := h.named p hp
  have hone : OneArgument .query valueOf args info.parameters := by
    intro q hq q' hq' _ _ heq
    rw [List.inj_on_of_nodup_map h.nodup hq hq' heq]
  have hnamed : ∀ q ∈ info.parameters, q.type = .query → q.name.isSome := by
    intro q hq _
    obtain ⟨name, hname, -⟩ := h.named q hq
    rw [hname]
    rfl
  have hlookup := (lookup_given_iff hnamed).mpr hone p hp (h.type_eq p hp)
  rw [hname, text_some] at hlookup
  simp only [RoutingOperationHandler.findMethodInput, arrivedInput, h.type_eq p hp, hname,
    Option.bind_some, hparams, hlookup]

/-- **The server reads from the client's operation what it would read from the arguments.** -/
theorem queryParts_spec (hu : u.Lawful resolved) (hreads : u.ReadsQueries) {w : Wire E O}
    (hmethod : InQuery resolved template info) (hargs : QueriesFit valueOf info args)
    (hself : ∀ s ∈ self, Kept resolved s) {iFace : Interface} {baseUri : Uri}
    (hquery : baseUri.query = none)
    (hlink : u.buildUriPath baseUri.path iFace.path = rooted uriPathChar self) (referrer : Str) :
    ∃ op, ProxyHandler.buildOperation u valueOf (JaxRsServiceClient.build u iFace baseUri referrer)
        info args = some op ∧
      ∀ op', Carries info op op' →
        (RequestRouterBuilder.route u (rooted uriPathChar self) info).action = op'.action ∧
        (RequestRouterBuilder.route u (rooted uriPathChar self) info).predicate op'.uri = true ∧
        ∀ env : Surroundings E O V, env.uriUtils = u →
          (RequestRouterBuilder.route u (rooted uriPathChar self) info).handler.methodInputs
              (env.receiving w op') (requestOf w op') = arrivedInputs env valueOf info args := by
  have hnone : info.parameters.filterMap (given .path valueOf args) = [] :=
    hmethod.given_eq_nil (by decide)
  have hkept := hmethod.pathSegments_kept hself
  have hfilled : ∀ s ∈ (Template.segmentsOf template).map (Segment.fillAll []), s.Plain := by
    rw [Segment.map_fillAll_nil]
    exact hmethod.plain
  obtain ⟨uri, op, huriQuery, hbuild, haction, huri, hpath, -⟩ := buildOperation_kept hu
    hmethod.uriPath_eq (hmethod.collects hargs) hmethod.plain (by rwa [hnone]) (by rwa [hnone]) hself
    hquery hlink referrer
  rw [hnone] at hpath
  obtain ⟨hvalues, hnodup⟩ := hmethod.given_query hargs
  obtain ⟨params, hparse, hparams⟩ := hreads.parse_eq uri _ huriQuery hvalues hnodup
  rw [← huri] at hparse
  have hroute : u.buildUriPath (rooted uriPathChar self) info.uriPath =
      rooted uriPathChar (pathSegments self template []) := by
    rw [hmethod.uriPath_eq]
    exact buildUriPath_textWith hu hself hfilled
  have hsegments := fun s hs => (hkept s hs).segment
  refine ⟨op, hbuild, fun op' hcarries => ⟨(hcarries.action_eq.trans haction).symm, ?_,
    fun env henv => ?_⟩⟩
  · rw [hcarries.uri_eq]
    simp only [RequestRouterBuilder.route, hroute]
    exact RequestRouterBuilder.newUriMatcher_rooted hu (forall₂_fits self [] hmethod.plain)
      hsegments hsegments hpath
  · have hread : (env.receiving w op').uriUtils.parseUriQueryParams (requestOf w op').uri =
        some params := by
      rw [show (env.receiving w op').uriUtils = u from henv,
        show (requestOf w op').uri = op.uri from hcarries.uri_eq]
      exact hparse
    simp only [RoutingOperationHandler.methodInputs, hread, RoutingOperationHandler.findMethodInputs]
    rw [show (RequestRouterBuilder.route u (rooted uriPathChar self) info).handler.httpMethod =
      info from rfl, mapM_congr_mem fun p hp => hmethod.findMethodInput_eq hparams _ _ env _ _ hp]
    rfl

/-- A method with queries only does not receive the operation. -/
theorem InQuery.hasOperationAsAnArgument_eq (h : InQuery resolved template info) (path : Str) :
    RoutingOperationHandler.hasOperationAsAnArgument ⟨path, info⟩ = false := by
  rw [RoutingOperationHandler.hasOperationAsAnArgument, List.any_eq_false]
  intro p hp
  simp [h.type_eq p hp]

/-- What a method with queries only gets of the arguments of a call. -/
theorem InQuery.arrivedInputs_eq (h : InQuery resolved template info) (env : Surroundings E O V) :
    arrivedInputs env valueOf info args =
      .ok (info.parameters.map fun p => .text (argumentText valueOf args p)) := by
  have hinputs : info.parameters.mapM (arrivedInput env valueOf args) =
      .ok (info.parameters.map fun p => (.text (argumentText valueOf args p), [])) := by
    refine mapM_eq_ok_iff.mpr (List.forall₂_map_right_iff.mpr (List.forall₂_same.mpr fun p hp => ?_))
    rw [arrivedInput, h.type_eq p hp]
  have hviolations : (info.parameters.map fun p =>
      ((.text (argumentText valueOf args p), []) : Argument O × List V)).flatMap Prod.snd = [] := by
    rw [List.flatMap_eq_nil_iff, List.forall_mem_map]
    exact fun p _ => rfl
  rw [arrivedInputs, hinputs]
  simp only [acceptedInputs, bind, Except.bind, hviolations, if_true, List.map_map]
  rfl

end Queries

/-! ## The documented functions -/

/-- **The documented functions read queries back.** -/
theorem UriUtils.documented_readsQueries : documented.ReadsQueries where
  parse_eq uri pairs hquery hpairs _ := by
    refine ⟨fun name => pairs.lookup name, ?_, fun _ => rfl⟩
    have hread : ∀ p ∈ pairs, '&' ∉ p.1 ∧ '=' ∉ p.1 ∧ '&' ∉ p.2 := fun p hp =>
      ⟨(hpairs p hp).1.not_mem (by decide), (hpairs p hp).1.not_mem (by decide),
        fun hmem => absurd ((hpairs p hp).2 _ hmem) (by decide)⟩
    cases pairs with
    | nil => simp [documented, keyValues, hquery]
    | cons p pairs =>
        have hne : keyValues (p :: pairs) ≠ [] := List.cons_ne_nil _ _
        simp only [documented, if_neg hne, hquery, pairsOf_keyValues, Option.map_none,
          Option.getD_none, List.nil_append, Option.map_some, Option.getD_some,
          queryPairs_of_not_mem (List.cons_ne_nil p pairs) hread]

end XenonExt
