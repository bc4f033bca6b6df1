import XenonExt.JaxRs.ClientArguments
import XenonExt.JaxRs.DynamicRoutes

/-! # The wire form of a call

A call of a method whose parameters all stand in the path or the query, followed from the client's
arguments to the arguments that the server finds.

* **`newUriMatcher_rooted`**: the predicate of a route takes a path whose segments fit.
* **`buildOperation_spec`**: the path and the query of the client's operation.
* **`findMethodInput_eq`**: the argument that the server finds for a parameter.
* **`wireForm_iff`**: the predicate takes the URI of the call, and the server finds the arguments of
  the client when path parameters of one name have one argument. -/

namespace XenonExt

variable {E O V : Type}

/-! ## The server's predicate -/

namespace RequestRouterBuilder

/-- **The predicate of a route** takes a path whose segments fit. -/
theorem newUriMatcher_rooted {u : UriUtils} {resolved : Str → Prop} (hu : u.Lawful resolved)
    {expected actual : List Str} (hfits : List.Forall₂ Fits expected actual)
    (hexpected : ∀ s ∈ expected, uriPathChar ∉ s ∧ s ≠ [])
    (hactual : ∀ s ∈ actual, uriPathChar ∉ s ∧ s ≠ []) {uri : Uri}
    (hpath : uri.path = rooted uriPathChar actual) :
    newUriMatcher u (rooted uriPathChar expected) uri = true := by
  have hsplit : split uriPathChar (rooted uriPathChar actual) = [] :: actual :=
    split_rooted (fun s hs => (hactual s hs).1) fun s hs => (hactual s hs).2
  have hnormalized : normalized (rooted uriPathChar actual) = rooted uriPathChar actual :=
    normalized_rooted (fun s hs => (hactual s hs).1) fun s hs => (hactual s hs).2
  rw [newUriMatcher, hpath, hsplit, hu.normalizeUriPath_eq, hnormalized,
    split_rooted (fun s hs => (hexpected s hs).1) fun s hs => (hexpected s hs).2]
  split
  · exact (tokensMatch_iff _ _).mpr (.cons (.inl rfl) hfits)
  · -- without braces there are no placeholders, and the segments are the same
    rename_i hbraces
    have hliteral : ∀ s ∈ expected, ¬ MethodInfoBuilder.isPlaceholder s := fun s hs hplaceholder =>
      hbraces ((mem_of_isPlaceholder hplaceholder).imp
        (fun hc => mem_rooted hs hc) fun hc => mem_rooted hs hc)
    have heq : List.Forall₂ Eq expected actual :=
      ((List.forall₂_and_left expected actual).mpr ⟨hliteral, hfits⟩).imp fun _ _ h => h.2.resolve_right h.1
    rw [List.forall₂_eq_eq_eq] at heq
    exact decide_eq_true (congrArg _ heq.symm)

end RequestRouterBuilder

/-! ## The path of a call -/

section Path

variable {u : UriUtils} {resolved : Str → Prop} {template : Option Template} {self : List Str}
  {values : List (Str × Str)}

/-- Kept segments are not empty and have no slash. -/
theorem Kept.segment {s : Str} (h : Kept resolved s) : uriPathChar ∉ s ∧ s ≠ [] :=
  ⟨h.1.not_mem (by decide), h.1.1⟩

/-- The segments of the path of a call. -/
def pathSegments (self : List Str) (template : Option Template) (values : List (Str × Str)) :
    List Str :=
  self ++ ((Template.segmentsOf template).map (Segment.fillAll values)).map Segment.text

/-- The segments of the path of a route fit those of a call. -/
theorem forall₂_fits (self : List Str) (values : List (Str × Str))
    (hsegments : ∀ s ∈ Template.segmentsOf template, s.Plain) :
    List.Forall₂ RequestRouterBuilder.Fits (pathSegments self template [])
      (pathSegments self template values) := by
  refine List.rel_append (List.forall₂_same.mpr fun s _ => .inl rfl) ?_
  rw [Segment.map_fillAll_nil, List.forall₂_map_left_iff, List.forall₂_map_right_iff,
    List.forall₂_map_right_iff, List.forall₂_same]
  intro s hs
  cases s with
  | literal s => exact .inl rfl
  | placeholder name =>
      exact .inr ((MethodInfoBuilder.isPlaceholder_text_iff (hsegments _ hs).whole).mpr ⟨name, rfl⟩)

/-- The segments of a path are not empty and have no slash. -/
theorem pathSegments_segment (hself : ∀ s ∈ self, Kept resolved s)
    (hfilled : ∀ s ∈ (Template.segmentsOf template).map (Segment.fillAll values), s.Plain) :
    ∀ s ∈ pathSegments self template values, uriPathChar ∉ s ∧ s ≠ [] := by
  intro s hs
  rcases List.mem_append.mp hs with hs | hs
  · exact (hself s hs).segment
  · exact ⟨forall_text_not_mem (forall_whole hfilled) s hs,
      forall_text_ne_nil (forall_whole hfilled) s hs⟩

/-- The path that is built from a self link and a template. -/
theorem buildUriPath_textWith (hu : u.Lawful resolved) (hself : ∀ s ∈ self, Kept resolved s)
    (hfilled : ∀ s ∈ (Template.segmentsOf template).map (Segment.fillAll values), s.Plain) :
    u.buildUriPath (rooted uriPathChar self) (template.map (Template.textWith values)) =
      rooted uriPathChar (pathSegments self template values) := by
  have hlink : normalized (rooted uriPathChar self) = rooted uriPathChar self :=
    normalized_rooted (fun s hs => (hself s hs).segment.1) fun s hs => (hself s hs).segment.2
  rw [hu.buildUriPath_eq, hlink, pathSegments, rooted_append]
  refine congrArg (rooted uriPathChar self ++ ·) ?_
  cases template with
  | none => rfl
  | some t =>
      have hnil : (t.segments.map (Segment.fillAll values)).map Segment.text ≠ [] := by
        simpa using t.segments_ne_nil
      exact normalized_slashed (forall_text_not_mem (forall_whole hfilled))
        (forall_text_ne_nil (forall_whole hfilled)) hnil

/-- **Extending a URI** by a path whose segments are kept. -/
theorem extendUri_of_kept (hu : u.Lawful resolved) {uri : Uri} {segment : JString}
    {segments : List Str} (hpath : u.buildUriPath uri.path segment = rooted uriPathChar segments)
    (hkept : ∀ s ∈ segments, Kept resolved s) (hquery : uri.query = none) :
    (u.extendUri uri segment).path = rooted uriPathChar segments ∧
      (u.extendUri uri segment).query = none := by
  -- the characters of the segment occur in the path that is built from it
  have hchars : ∀ s ∈ segment, ∀ c ∈ s, unreserved c ∨ c = uriPathChar := by
    intro s hs c hc
    by_cases hslash : c = uriPathChar
    · exact .inr hslash
    · have hmem : c ∈ rooted uriPathChar segments := by
        rw [← hpath, hu.buildUriPath_eq, Option.mem_def.mp hs]
        exact List.mem_append_right _ (mem_normalized hc hslash)
      obtain ⟨s', hs', hmem⟩ := List.mem_flatMap.mp hmem
      exact .inl ((hkept s' hs').1.2 c ((List.mem_cons.mp hmem).resolve_left hslash))
  refine ⟨(hu.extendUri_path uri segment hchars ?_).trans hpath,
    hu.extendUri_query uri segment hchars hquery⟩
  rw [hpath, split_rooted (fun s hs => (hkept s hs).segment.1) fun s hs => (hkept s hs).segment.2]
  exact List.forall_mem_cons.mpr ⟨hu.not_resolved_nil, fun s hs => (hkept s hs).2⟩

/-- A query does not change a path whose segments are kept. -/
theorem extendUriWithQuery_of_kept (hu : u.Lawful resolved) {uri : Uri} {segments : List Str}
    (hpath : uri.path = rooted uriPathChar segments) (hkept : ∀ s ∈ segments, Kept resolved s)
    (query : List Str) :
    (u.extendUriWithQuery uri query).path = rooted uriPathChar segments := by
  have hsep : ∀ s ∈ segments, uriPathChar ∉ s := fun s hs => (hkept s hs).segment.1
  have hne : ∀ s ∈ segments, s ≠ [] := fun s hs => (hkept s hs).segment.2
  refine (hu.extendUriWithQuery_path uri query ?_ ?_).trans hpath
  · rw [hpath, normalized_rooted hsep hne]
  · rw [hpath, split_rooted hsep hne]
    exact List.forall_mem_cons.mpr ⟨hu.not_resolved_nil, fun s hs => (hkept s hs).2⟩

end Path

/-! ## A call -/

section Call

variable {u : UriUtils} {resolved : Str → Prop} {template : Option Template} {self : List Str}
  {method : Method} {info : MethodInfo} {valueOf : O → Str} {args : List (Option O)}

/-- The path of a method is the text of its template. -/
theorem InPathOrQuery.uriPath_eq (hinfo : MethodInfoBuilder.methodInfo method = some info)
    (hmethod : InPathOrQuery resolved template info) :
    info.uriPath = template.map Template.text := by
  rw [(MethodInfoBuilder.methodInfo_spec hinfo).1, ← MethodInfoBuilder.methodInfo_method hinfo,
    hmethod.path_eq]

/-- The loop can collect every argument. -/
theorem InPathOrQuery.collectable (hinfo : MethodInfoBuilder.methodInfo method = some info)
    (hmethod : InPathOrQuery resolved template info)
    (hargs : ArgumentsFit resolved valueOf info args) :
    ∀ p ∈ info.parameters, ProxyHandler.Collectable template valueOf args p := by
  intro p hp
  refine ⟨?_, hmethod.type_eq p hp, fun hpath => ?_⟩
  · have hmem : p.parameterIndex ∈ info.parameters.map ParamMetadata.parameterIndex :=
      List.mem_map_of_mem hp
    rw [(MethodInfoBuilder.methodInfo_spec hinfo).2.2, List.mem_range] at hmem
    rw [hargs.length_eq, MethodInfoBuilder.methodInfo_method hinfo]
    exact hmem
  · obtain ⟨name, hname, hplaceholder⟩ := hmethod.path_placeholder p hp hpath
    obtain ⟨value, hvalue, hkept⟩ := hargs.path_kept p hp hpath
    refine ⟨?_, ?_, value, hvalue, hkept.1⟩
    · cases template with
      | none => exact absurd hplaceholder List.not_mem_nil
      | some t => rfl
    · rw [hname]
      exact hmethod.placeholder_plain name hplaceholder

/-- The names of the parameters of the path and the query are not `null`. -/
theorem InPathOrQuery.name_isSome (hmethod : InPathOrQuery resolved template info) :
    ∀ p ∈ info.parameters, p.name.isSome := by
  intro p hp
  rcases hmethod.type_eq p hp with hpath | hquery
  · obtain ⟨name, hname, -⟩ := hmethod.path_placeholder p hp hpath
    rw [hname]
    rfl
  · obtain ⟨name, hname, -⟩ := hmethod.query_unreserved p hp hquery
    rw [hname]
    rfl

/-- The values of the path are kept. -/
theorem given_path_kept (hargs : ArgumentsFit resolved valueOf info args) :
    ∀ v ∈ info.parameters.filterMap (given .path valueOf args), Kept resolved v.2 := by
  intro v hv
  obtain ⟨p, hp, hgiven⟩ := List.mem_filterMap.mp hv
  obtain ⟨hpath, -, hvalue⟩ := given_eq_some_iff.mp hgiven
  obtain ⟨value, hvalue', hkept⟩ := hargs.path_kept p hp hpath
  obtain rfl := Option.some.inj (hvalue.symm.trans hvalue')
  exact hkept

/-- Every parameter of the path has a value. -/
theorem lookup_path_kept (hargs : ArgumentsFit resolved valueOf info args) {p : ParamMetadata}
    (hp : p ∈ info.parameters) (hpath : p.type = .path) :
    ∃ value, (info.parameters.filterMap (given .path valueOf args)).lookup (text p.name) =
      some value ∧ Kept resolved value := by
  obtain ⟨value, hvalue, -⟩ := hargs.path_kept p hp hpath
  cases hlookup : (info.parameters.filterMap (given .path valueOf args)).lookup (text p.name) with
  | none =>
      rw [lookup_given_none hlookup p hp hpath rfl] at hvalue
      exact nomatch hvalue
  | some value' =>
      obtain ⟨init, rest, hmem, -⟩ := List.lookup_eq_some_iff.mp hlookup
      have hv : (text p.name, value') ∈ info.parameters.filterMap (given .path valueOf args) :=
        hmem ▸ List.mem_append_right _ List.mem_cons_self
      exact ⟨value', rfl, given_path_kept hargs _ hv⟩

/-- **Building the path of a call** leaves its segments as they are. -/
theorem pathSegments_kept (hmethod : InPathOrQuery resolved template info)
    (hargs : ArgumentsFit resolved valueOf info args) (hself : ∀ s ∈ self, Kept resolved s) :
    ∀ s ∈ pathSegments self template (info.parameters.filterMap (given .path valueOf args)),
      Kept resolved s := by
  intro s hs
  rcases List.mem_append.mp hs with hs | hs
  · exact hself s hs
  · rw [List.map_map] at hs
    obtain ⟨segment, hsegment, rfl⟩ := List.mem_map.mp hs
    cases segment with
    | literal s => exact hmethod.literal_kept s hsegment
    | placeholder name =>
        -- every placeholder has been filled in
        obtain ⟨p, hp, hpath, hname⟩ := hmethod.placeholder_path name hsegment
        obtain ⟨value, hvalue, hkept⟩ := lookup_path_kept hargs hp hpath
        rw [hname, text_some] at hvalue
        rw [Function.comp, Segment.fillAll, hvalue]
        exact hkept

/-- **The client's operation**: its path is that of the service and of the filled in template, and
its query has the arguments of the query. -/
theorem buildOperation_spec (hu : u.Lawful resolved)
    (hinfo : MethodInfoBuilder.methodInfo method = some info)
    (hmethod : InPathOrQuery resolved template info)
    (hargs : ArgumentsFit resolved valueOf info args) (hself : ∀ s ∈ self, Kept resolved s)
    {iFace : Interface} {baseUri : Uri} (hquery : baseUri.query = none)
    (hlink : u.buildUriPath baseUri.path iFace.path = rooted uriPathChar self) (referrer : Str) :
    ∃ op, ProxyHandler.buildOperation u valueOf (JaxRsServiceClient.build u iFace baseUri referrer)
        info args = some op ∧ op.action = info.action ∧
      op.uri.path = rooted uriPathChar
        (pathSegments self template (info.parameters.filterMap (given .path valueOf args))) ∧
      ∃ params, u.parseUriQueryParams op.uri = some params ∧ ∀ name,
        params name = (info.parameters.filterMap (given .query valueOf args)).lookup name := by
  have hloop : info.parameters.foldlM (ProxyHandler.collect valueOf args)
      ⟨info.uriPath, [], none, [], ∅⟩ =
        some (ProxyHandler.collected template (info.parameters.filterMap (given .path valueOf args))
          (info.parameters.filterMap (given .query valueOf args))) := by
    rw [hmethod.uriPath_eq hinfo]
    exact ProxyHandler.foldlM_collect (hmethod.collectable hinfo hargs) hmethod.plain [] []
      (List.forall_mem_nil _)
  have hkept := pathSegments_kept hmethod hargs hself
  have hfilled : ∀ s ∈ (Template.segmentsOf template).map
      (Segment.fillAll (info.parameters.filterMap (given .path valueOf args))), s.Plain :=
    List.forall_mem_map.mpr fun s hs => (hmethod.plain s hs).fillAll fun v hv =>
      plain_of_unreserved (given_path_kept hargs v hv).1
  -- the base URI is extended twice: by the path of the interface, then by that of the method
  obtain ⟨hbase, hbaseQuery⟩ := extendUri_of_kept hu hlink hself hquery
  have hbuild : u.buildUriPath (u.extendUri baseUri iFace.path).path _ = _ :=
    hbase.symm ▸ buildUriPath_textWith hu hself hfilled
  obtain ⟨hcall, hcallQuery⟩ := extendUri_of_kept hu hbuild hkept hbaseQuery
  refine ⟨_, by rw [ProxyHandler.buildOperation, hloop]; rfl, rfl, ?_, ?_⟩
  · exact extendUriWithQuery_of_kept hu hcall hkept _
  · refine hu.parse_extendUriWithQuery _ _ hcallQuery ?_ ?_
    · rintro ⟨_, _⟩ hv
      obtain ⟨p, hp, hgiven⟩ := List.mem_filterMap.mp hv
      obtain ⟨htype, rfl, hvalue⟩ := given_eq_some_iff.mp hgiven
      obtain ⟨name, hname, hunreserved⟩ := hmethod.query_unreserved p hp htype
      exact ⟨hname ▸ hunreserved, hargs.query_unreserved p hp htype _ hvalue⟩
    · exact nodup_given_query hmethod.query_nodup fun p hp _ => hmethod.name_isSome p hp

/-- Without values the segments of a template are plain. -/
theorem InPathOrQuery.plain_fillAll_nil (hmethod : InPathOrQuery resolved template info) :
    ∀ s ∈ (Template.segmentsOf template).map (Segment.fillAll []), s.Plain := by
  rw [Segment.map_fillAll_nil]
  exact hmethod.plain

/-- The path of the route of a method. -/
theorem route_path (hu : u.Lawful resolved)
    (hinfo : MethodInfoBuilder.methodInfo method = some info)
    (hmethod : InPathOrQuery resolved template info) (hself : ∀ s ∈ self, Kept resolved s) :
    u.buildUriPath (rooted uriPathChar self) info.uriPath =
      rooted uriPathChar (pathSegments self template []) := by
  rw [hmethod.uriPath_eq hinfo]
  exact buildUriPath_textWith hu hself hmethod.plain_fillAll_nil

/-- How many tokens of the path of a route come before those of the template. -/
theorem resourcePathOffset_eq {t : Template} (hmethod : InPathOrQuery resolved (some t) info)
    (hself : ∀ s ∈ self, Kept resolved s) (hpath : info.uriPath = some t.text) :
    RoutingOperationHandler.resourcePathOffset
        ⟨rooted uriPathChar (pathSegments self (some t) []), info⟩ =
      self.length + 1 - if t.leadingSlash then 1 else 0 := by
  have hwhole : ∀ s ∈ t.segments, s.Whole := forall_whole hmethod.plain
  have hlink : ∀ s ∈ self, (Segment.literal s).Whole :=
    fun s hs => (plain_of_unreserved (hself s hs).1).whole
  have hroute : pathSegments self (some t) [] =
      (self.map Segment.literal ++ t.segments).map Segment.text := by
    rw [pathSegments, Segment.map_fillAll_nil, List.map_append, List.map_map]
    exact congrArg (· ++ _) (List.map_id self).symm
  have htext : t.text =
      slashed t.leadingSlash t.trailingSlash (t.segments.map Segment.text) := by
    rw [Template.text, Template.textWith, Segment.map_fillAll_nil]
  exact RoutingOperationHandler.resourcePathOffset_slashed hlink hwhole t.segments_ne_nil
    (congrArg (rooted uriPathChar) hroute) (hpath.trans (congrArg some htext))

/-- **The server finds the value** that the client has put into the path for a parameter. -/
theorem pathValue_eq {t : Template} {values : List (Str × Str)} {name value : Str}
    (hvalue : values.lookup name = some value) {j : Nat}
    (hj : t.segments[j]? = some (.placeholder name)) :
    RoutingOperationHandler.pathValue ([] :: pathSegments self (some t) values)
      (j + (self.length + 1)) = some value := by
  have hnonneg : (0 : Int) ≤ j + (self.length + 1) := by omega
  have hindex : ((j : Int) + (self.length + 1)).toNat = self.length + j + 1 := by omega
  rw [RoutingOperationHandler.pathValue, if_pos hnonneg, hindex, List.getElem?_cons_succ,
    pathSegments, List.getElem?_append_right (Nat.le_add_right _ _), Nat.add_sub_cancel_left,
    List.getElem?_map, List.getElem?_map, Template.segmentsOf, Option.map_some, Option.getD_some,
    hj, Option.map_some, Option.map_some, Segment.fillAll, hvalue]
  rfl

/-- **The argument that the server finds** for a parameter. -/
theorem findMethodInput_eq (hinfo : MethodInfoBuilder.methodInfo method = some info)
    (hmethod : InPathOrQuery resolved template info)
    (hargs : ArgumentsFit resolved valueOf info args) (hself : ∀ s ∈ self, Kept resolved s)
    (env : Surroundings E O V) (request : Request) {params : Str → JString}
    (hparams : ∀ name,
      params name = (info.parameters.filterMap (given .query valueOf args)).lookup name)
    {p : ParamMetadata} (hp : p ∈ info.parameters) :
    RoutingOperationHandler.findMethodInput ⟨rooted uriPathChar (pathSegments self template []), info⟩
        env request params ([] :: pathSegments self template
          (info.parameters.filterMap (given .path valueOf args))) p =
      .ok (.text ((info.parameters.filterMap (given p.type valueOf args)).lookup (text p.name)),
        []) := by
  rcases hmethod.type_eq p hp with hpath | hquery
  · obtain ⟨name, hname, hplaceholder⟩ := hmethod.path_placeholder p hp hpath
    obtain ⟨value, hvalue, -⟩ := lookup_path_kept hargs hp hpath
    rw [hname, text_some] at hvalue
    cases template with
    | none => exact absurd hplaceholder List.not_mem_nil
    | some t =>
        have htext : info.uriPath = some t.text := hmethod.uriPath_eq hinfo
        have hsegments : ∀ s ∈ t.segments, s.Plain := hmethod.plain
        obtain ⟨j, hj, -, hindex⟩ := MethodInfoBuilder.lookup_parsePathParams t.leadingSlash
          t.trailingSlash (forall_whole hsegments) hplaceholder
        have hlookup : info.pathParamsVsUriIndex.lookup name =
            some (j + if t.leadingSlash then 1 else 0) := by
          rw [(MethodInfoBuilder.methodInfo_spec hinfo).2.1,
            ← (MethodInfoBuilder.methodInfo_spec hinfo).1, htext]
          simpa [Template.text, Template.textWith, Segment.map_fillAll_nil] using hindex
        have hoffset := resourcePathOffset_eq hmethod hself htext
        -- the index counts the slash in front of the template, and the offset takes it off again
        have hposition : ((j + if t.leadingSlash then 1 else 0 : Nat) : Int) +
            (self.length + 1 - if t.leadingSlash then 1 else 0) = j + (self.length + 1) := by
          cases t.leadingSlash with
          | true => simp only [if_true]; omega
          | false => simp
        simp only [RoutingOperationHandler.findMethodInput, hpath, hname, Option.bind_some, hlookup,
          Option.map_some, Option.getD_some, hoffset, Int.ofNat_eq_natCast, hposition,
          pathValue_eq hvalue hj, text_some, hvalue]
  · obtain ⟨name, hname, -⟩ := hmethod.query_unreserved p hp hquery
    simp only [RoutingOperationHandler.findMethodInput, hquery, hname, Option.bind_some, hparams,
      text_some]

/-- **The server finds an argument for every parameter.** -/
theorem findMethodInputs_eq (h : RoutingOperationHandler) (env : Surroundings E O V)
    (request : Request) (params : Str → JString) (pathValues : List Str)
    {found : ParamMetadata → JString} (hfound : ∀ p ∈ h.httpMethod.parameters,
      h.findMethodInput env request params pathValues p = .ok (.text (found p), [])) :
    h.findMethodInputs env request params pathValues =
      .ok (h.httpMethod.parameters.map fun p => .text (found p)) := by
  have hinputs : h.httpMethod.parameters.mapM (h.findMethodInput env request params pathValues) =
      .ok (h.httpMethod.parameters.map fun p => (.text (found p), [])) := by
    rw [mapM_eq_ok_iff, List.forall₂_map_right_iff, List.forall₂_same]
    exact hfound
  rw [RoutingOperationHandler.findMethodInputs, hinputs]
  simp [Bind.bind, Except.bind, Function.comp_def]

/-- The arguments of the client, listed by parameter. -/
theorem map_argumentText (hinfo : MethodInfoBuilder.methodInfo method = some info)
    (hargs : ArgumentsFit resolved valueOf info args) :
    info.parameters.map (argumentText valueOf args) = args.map (Option.map valueOf) := by
  have hindex : info.parameters.map ParamMetadata.parameterIndex = List.range args.length := by
    rw [(MethodInfoBuilder.methodInfo_spec hinfo).2.2, hargs.length_eq,
      MethodInfoBuilder.methodInfo_method hinfo]
  have hcomp : argumentText valueOf args =
      (fun i => args[i]?.join.map valueOf) ∘ ParamMetadata.parameterIndex := rfl
  rw [hcomp, ← List.map_map, hindex]
  refine List.ext_getElem? fun i => ?_
  rw [List.getElem?_map, List.getElem?_map]
  by_cases hi : i < args.length
  · rw [List.getElem?_range hi, Option.map_some, List.getElem?_eq_getElem hi]
    rfl
  · rw [List.getElem?_eq_none (Nat.le_of_not_lt hi),
      List.getElem?_eq_none (by simpa using Nat.le_of_not_lt hi)]
    rfl

/-- **The server's arguments are the client's** when parameters of the path with one name have one
argument. -/
theorem arguments_eq_iff (hinfo : MethodInfoBuilder.methodInfo method = some info)
    (hmethod : InPathOrQuery resolved template info)
    (hargs : ArgumentsFit resolved valueOf info args) :
    (info.parameters.map fun p => Argument.text
        ((info.parameters.filterMap (given p.type valueOf args)).lookup (text p.name))) =
      args.map (fun arg => (.text (arg.map valueOf) : Argument O)) ↔
      OneArgument .path valueOf args info.parameters := by
  have hclient : args.map (fun arg => (.text (arg.map valueOf) : Argument O)) =
      info.parameters.map fun p => .text (argumentText valueOf args p) := by
    have htexts : (args.map (Option.map valueOf)).map (Argument.text (O := O)) =
        (info.parameters.map (argumentText valueOf args)).map Argument.text := by
      rw [map_argumentText hinfo hargs]
    rw [List.map_map, List.map_map] at htexts
    exact htexts
  have hname : ∀ type, ∀ p ∈ info.parameters, p.type = type → p.name.isSome :=
    fun _ p hp _ => hmethod.name_isSome p hp
  have hquery : ∀ p ∈ info.parameters, p.type = .query →
      (info.parameters.filterMap (given .query valueOf args)).lookup (text p.name) =
        argumentText valueOf args p :=
    (lookup_given_iff (hname .query)).mpr (oneArgument_of_nodup hmethod.query_nodup)
  rw [hclient, List.map_inj_left, ← lookup_given_iff (hname .path)]
  constructor
  · intro h p hp htype
    rw [← htype]
    exact Argument.text.inj (h p hp)
  · intro h p hp
    rcases hmethod.type_eq p hp with htype | htype
    · rw [htype, h p hp htype]
    · rw [htype, hquery p hp htype]

/-- The tokens of a path of segments. -/
theorem parsePathValues_rooted (hu : u.Lawful resolved) {segments : List Str}
    (hsegments : ∀ s ∈ segments, uriPathChar ∉ s ∧ s ≠ []) {uri : Uri}
    (hpath : uri.path = rooted uriPathChar segments) :
    RoutingOperationHandler.parsePathValues u uri = [] :: segments := by
  have hsep : ∀ s ∈ segments, uriPathChar ∉ s := fun s hs => (hsegments s hs).1
  have hne : ∀ s ∈ segments, s ≠ [] := fun s hs => (hsegments s hs).2
  rw [RoutingOperationHandler.parsePathValues, hpath, hu.normalizeUriPath_eq,
    normalized_rooted hsep hne, split_rooted hsep hne]

/-- **What client and server make of a call**: the predicate of the route takes the URI that the
client builds, and the server finds for each parameter the first value of its name and type. -/
theorem wireForm_spec (hu : u.Lawful resolved)
    (hinfo : MethodInfoBuilder.methodInfo method = some info)
    (hmethod : InPathOrQuery resolved template info)
    (hargs : ArgumentsFit resolved valueOf info args) (hself : ∀ s ∈ self, Kept resolved s)
    {iFace : Interface} {baseUri : Uri} (hquery : baseUri.query = none)
    (hlink : u.buildUriPath baseUri.path iFace.path = rooted uriPathChar self) (referrer : Str) :
    ∃ op, ProxyHandler.buildOperation u valueOf (JaxRsServiceClient.build u iFace baseUri referrer)
        info args = some op ∧
      op.action = (RequestRouterBuilder.route u (rooted uriPathChar self) info).action ∧
      (RequestRouterBuilder.route u (rooted uriPathChar self) info).predicate op.uri = true ∧
      ∀ (env : Surroundings E O V) (request : Request), env.uriUtils = u → request.uri = op.uri →
        (RequestRouterBuilder.route u (rooted uriPathChar self) info).handler.methodInputs env
            request = .ok (info.parameters.map fun p => .text
              ((info.parameters.filterMap (given p.type valueOf args)).lookup (text p.name))) := by
  obtain ⟨op, hbuild, haction, hpath, params, hparse, hparams⟩ :=
    buildOperation_spec hu hinfo hmethod hargs hself hquery hlink referrer
  have hroute := route_path hu hinfo hmethod hself
  have hexpected := pathSegments_segment hself hmethod.plain_fillAll_nil
  have hactual := fun s hs => (pathSegments_kept hmethod hargs hself s hs).segment
  refine ⟨op, hbuild, haction, ?_, fun env request henv hrequest => ?_⟩
  · simp only [RequestRouterBuilder.route, hroute]
    exact RequestRouterBuilder.newUriMatcher_rooted hu (forall₂_fits self _ hmethod.plain)
      hexpected hactual hpath
  · have hvalues := parsePathValues_rooted hu hactual hpath
    have hfound := findMethodInputs_eq ⟨rooted uriPathChar (pathSegments self template []), info⟩
      env request params _ fun p hp =>
        findMethodInput_eq hinfo hmethod hargs hself env request hparams hp
    simp only [RequestRouterBuilder.route, hroute, RoutingOperationHandler.methodInputs, henv,
      hrequest, hparse, hvalues, hfound]

/-- **Client and server agree on the wire form of a call.** The predicate of the route takes the URI
that the client builds, and the server finds the client's arguments, if and only if parameters of
the path with one name have one argument. -/
theorem wireForm_iff (hu : u.Lawful resolved)
    (hinfo : MethodInfoBuilder.methodInfo method = some info)
    (hmethod : InPathOrQuery resolved template info)
    (hargs : ArgumentsFit resolved valueOf info args) (hself : ∀ s ∈ self, Kept resolved s)
    {iFace : Interface} {baseUri : Uri} (hquery : baseUri.query = none)
    (hlink : u.buildUriPath baseUri.path iFace.path = rooted uriPathChar self) (referrer : Str) :
    ∃ op, ProxyHandler.buildOperation u valueOf (JaxRsServiceClient.build u iFace baseUri referrer)
        info args = some op ∧
      op.action = (RequestRouterBuilder.route u (rooted uriPathChar self) info).action ∧
      (RequestRouterBuilder.route u (rooted uriPathChar self) info).predicate op.uri = true ∧
      ∀ (env : Surroundings E O V) (request : Request), env.uriUtils = u → request.uri = op.uri →
        ((RequestRouterBuilder.route u (rooted uriPathChar self) info).handler.methodInputs env
            request = .ok (args.map fun arg => .text (arg.map valueOf)) ↔
          OneArgument .path valueOf args info.parameters) := by
  obtain ⟨op, hbuild, haction, hpredicate, hinputs⟩ :=
    wireForm_spec hu hinfo hmethod hargs hself hquery hlink referrer
  refine ⟨op, hbuild, haction, hpredicate, fun env request henv hrequest => ?_⟩
  rw [hinputs env request henv hrequest, Except.ok.injEq]
  exact arguments_eq_iff hinfo hmethod hargs

end Call

/-! ## A method with two parameters of one name -/

/-- The interface of the method, for a service at `/api/members`. -/
def memberInterface : Interface := ⟨"Members".toList, some "/members/".toList, [memberMethod]⟩

/-- The base URI of the client. -/
def memberBaseUri : Uri := ⟨"http://localhost:8000".toList, "/api".toList, none⟩

/-- Arguments for the method, of which the last one is `null`. -/
def memberArgs (group group' : String) : List (Option Str) :=
  [some "ann".toList, some "x".toList, some group.toList, some group'.toList, none]

/-- The method has its parameters in the path or the query. -/
theorem member_inPathOrQuery :
    InPathOrQuery (fun _ => False) (some memberTemplate) memberInfo where
  path_eq := rfl
  literal_kept := by
    intro s hs
    simp only [Template.segmentsOf, memberTemplate, Option.map_some, Option.getD_some,
      List.mem_cons, reduceCtorEq, Segment.literal.injEq, List.not_mem_nil, or_false,
      false_or] at hs
    subst hs
    exact ⟨by decide, not_false⟩
  placeholder_plain := by
    intro name hname
    simp only [Template.segmentsOf, memberTemplate, Option.map_some, Option.getD_some,
      List.mem_cons, reduceCtorEq, Segment.placeholder.injEq, List.not_mem_nil, or_false,
      false_or] at hname
    rcases hname with rfl | rfl | rfl <;> decide
  type_eq := by decide
  path_placeholder := by
    simp [memberInfo, Template.segmentsOf, memberTemplate]
  placeholder_path := by
    simp [memberInfo, Template.segmentsOf, memberTemplate]
  query_unreserved := by
    simp [memberInfo]
    decide
  query_nodup := by decide

/-- The arguments fit the method. -/
theorem member_argumentsFit {group group' : String} (h : Unreserved group.toList)
    (h' : Unreserved group'.toList) :
    ArgumentsFit (fun _ => False) id memberInfo (memberArgs group group') where
  length_eq := rfl
  path_kept := by
    simp [memberInfo, argumentText, memberArgs, Kept]
    exact ⟨by decide, h, h'⟩
  query_unreserved := by
    simp [memberInfo, argumentText, memberArgs]
    decide

/-- The client's base URI and the `Path` of the interface make the self link. -/
theorem memberLink_eq : UriUtils.documented.buildUriPath memberBaseUri.path memberInterface.path =
    rooted uriPathChar memberLink := by decide

/-- The segments of the self link are kept. -/
theorem memberLink_kept : ∀ s ∈ memberLink, Kept (fun _ => False) s :=
  kept_of_unreserved (by decide)

/-- With one group the server finds the arguments of the client. -/
theorem wireForm_member : ∃ op,
    ProxyHandler.buildOperation .documented id
        (JaxRsServiceClient.build .documented memberInterface memberBaseUri []) memberInfo
        (memberArgs "a" "a") = some op ∧
      (RequestRouterBuilder.route .documented (rooted uriPathChar memberLink)
        memberInfo).predicate op.uri = true ∧
      ∀ (env : Surroundings Unit Str Unit) (request : Request),
        env.uriUtils = .documented → request.uri = op.uri →
        (RequestRouterBuilder.route .documented (rooted uriPathChar memberLink)
          memberInfo).handler.methodInputs env request =
            .ok ((memberArgs "a" "a").map fun arg => .text (arg.map id)) := by
  have hgroup : Unreserved "a".toList := by decide
  have hone : OneArgument .path id (memberArgs "a" "a") memberInfo.parameters := by decide
  obtain ⟨op, hbuild, -, hpredicate, hinputs⟩ := wireForm_iff UriUtils.documented_lawful
    methodInfo_member member_inPathOrQuery (member_argumentsFit hgroup hgroup) memberLink_kept rfl
    memberLink_eq []
  exact ⟨op, hbuild, hpredicate, fun env request henv hrequest =>
    (hinputs env request henv hrequest).mpr hone⟩

/-- **Two arguments for one name** are more than the path can hold: the server finds the first one
twice. -/
theorem not_wireForm_repeatedName :
    MethodInfoBuilder.methodInfo memberMethod = some memberInfo ∧
      InPathOrQuery (fun _ => False) (some memberTemplate) memberInfo ∧
      ArgumentsFit (fun _ => False) id memberInfo (memberArgs "a" "b") ∧
      (∀ s ∈ memberLink, Kept (fun _ => False) s) ∧
      UriUtils.documented.buildUriPath memberBaseUri.path memberInterface.path =
        rooted uriPathChar memberLink ∧
      ∃ op, ProxyHandler.buildOperation .documented id
          (JaxRsServiceClient.build .documented memberInterface memberBaseUri []) memberInfo
          (memberArgs "a" "b") = some op ∧
        ∀ (env : Surroundings Unit Str Unit) (request : Request),
          env.uriUtils = .documented → request.uri = op.uri →
          (RequestRouterBuilder.route .documented (rooted uriPathChar memberLink)
            memberInfo).handler.methodInputs env request ≠
              .ok ((memberArgs "a" "b").map fun arg => .text (arg.map id)) := by
  have hfits : ArgumentsFit (fun _ => False) id memberInfo (memberArgs "a" "b") :=
    member_argumentsFit (by decide) (by decide)
  have htwo : ¬ OneArgument .path id (memberArgs "a" "b") memberInfo.parameters := by decide
  obtain ⟨op, hbuild, -, -, hinputs⟩ := wireForm_spec UriUtils.documented_lawful
    methodInfo_member member_inPathOrQuery hfits memberLink_kept rfl memberLink_eq []
  refine ⟨methodInfo_member, member_inPathOrQuery, hfits, memberLink_kept, memberLink_eq, op,
    hbuild, fun env request henv hrequest heq => htwo ?_⟩
  rw [hinputs env request henv hrequest] at heq
  exact (arguments_eq_iff methodInfo_member member_inPathOrQuery hfits).mp (Except.ok.inj heq)

end XenonExt
