import XenonExt.Effects.RelatedLists
import XenonExt.JaxRs.Template

/-! # Dynamic routes

A route whose template has placeholders compares a request with it segment by segment, and reads an
argument at the position of the last placeholder of its name.

* **`requestSegments`**: the segments of the path of a request.
* **`newUriMatcher_dynamic`**: the predicate takes a path whose segments fit.
* **`resourcePathOffset_slashed`**: the offset between positions in the template and in the path.
* **`route_accepts_and_binds`**: what a dynamic route accepts, and what it binds. -/

namespace XenonExt

variable {E O V : Type}

/-- How Xenon joins paths, which is all that routing relies on. -/
structure UriUtils.JoinsPaths (u : UriUtils) : Prop where
  normalizeUriPath_eq : ∀ path, u.normalizeUriPath path = normalized path
  buildUriPath_eq : ∀ path segment,
    u.buildUriPath path segment = normalized path ++ (segment.map normalized).getD []

/-- The documented functions join paths so. -/
theorem UriUtils.documented_joinsPaths : documented.JoinsPaths := ⟨fun _ => rfl, fun _ _ => rfl⟩

/-- The segments of a path that starts with a slash, without the slashes at its end. -/
def requestSegments (path : Str) : List Str :=
  ((path.rdropWhile (· = uriPathChar)).splitOn uriPathChar).tail

/-- The segments are the parts after the first slash. -/
theorem requestSegments_cons (rest : Str) : requestSegments (uriPathChar :: rest) =
    (rest.splitOn uriPathChar).rdropWhile List.isEmpty := by
  have hparts : ∀ s ∈ rest.splitOn uriPathChar, uriPathChar ∉ s :=
    fun s hs => not_mem_of_mem_splitOn hs
  rw [requestSegments, ← rooted_splitOn, rdropWhile_rooted hparts, splitOn_rooted, List.tail_cons]
  exact fun s hs => hparts s ((List.rdropWhile_prefix _ _).subset hs)

/-- Normalizing a path that starts with a slash does not change its tokens. -/
theorem split_normalized (rest : Str) :
    split uriPathChar (normalized (uriPathChar :: rest)) = split uriPathChar (uriPathChar :: rest) := by
  rcases List.eq_nil_or_concat' rest with rfl | ⟨init, c, rfl⟩
  · rfl
  · by_cases hc : c = uriPathChar
    · subst hc
      rw [← List.cons_append, split_concat (List.cons_ne_nil _ _), normalized,
        if_neg (List.concat_ne_nil _ _), List.getLast?_concat]
      simp only [if_true, List.dropLast_concat, List.head?_cons]
    · rw [normalized, if_neg (List.cons_ne_nil _ _), ← List.cons_append, List.getLast?_concat]
      simp [hc]

namespace RequestRouterBuilder

/-- A token fits a segment of a path with params. -/
def Fits (segment token : Str) : Prop := segment = token ∨ MethodInfoBuilder.isPlaceholder segment

/-- The loop compares the tokens one by one. -/
theorem tokensMatch_iff (expectedTokens actualTokens : List Str) :
    tokensMatch expectedTokens actualTokens ↔ List.Forall₂ Fits expectedTokens actualTokens := by
  induction expectedTokens generalizing actualTokens with
  | nil => cases actualTokens <;> simp [tokensMatch]
  | cons pathParam expectedTokens ih =>
      cases actualTokens with
      | nil => simp [tokensMatch]
      | cons token actualTokens => simp [tokensMatch, ih, Fits]

/-- A placeholder is in braces. -/
theorem mem_of_isPlaceholder {token : Str} (h : MethodInfoBuilder.isPlaceholder token) :
    '\x7b' ∈ token ∧ '\x7d' ∈ token :=
  ⟨List.mem_of_mem_head? h.2.1, List.mem_of_getLast? h.2.2⟩

/-- A token fits a whole segment when the segment is a placeholder or its text. -/
theorem fits_text_iff {s : Segment} (hs : s.Whole) (token : Str) :
    Fits s.text token ↔ ∀ t, s = .literal t → token = t := by
  rw [Fits, MethodInfoBuilder.isPlaceholder_text_iff hs]
  cases s with
  | literal t => simp [Segment.text, eq_comm]
  | placeholder name => simp

/-- Tokens fit whole segments when they are as many and equal at every literal one. -/
theorem forall₂_fits_iff {segments : List Segment} (hsegments : ∀ s ∈ segments, s.Whole)
    (tokens : List Str) :
    List.Forall₂ Fits (segments.map Segment.text) tokens ↔
      tokens.length = segments.length ∧
        ∀ (i : Nat) (s : Str), segments[i]? = some (.literal s) → tokens[i]? = some s := by
  induction segments generalizing tokens with
  | nil => simp
  | cons segment segments ih =>
      cases tokens with
      | nil => simp
      | cons token tokens =>
          rw [List.map_cons, List.forall₂_cons, fits_text_iff (hsegments _ List.mem_cons_self),
            ih fun s hs => hsegments s (List.mem_cons_of_mem _ hs)]
          constructor
          · rintro ⟨hhead, hlength, hrest⟩
            refine ⟨congrArg Nat.succ hlength, fun i s hs => ?_⟩
            cases i with
            | zero => exact congrArg some (hhead s (Option.some.inj hs))
            | succ i => exact hrest i s hs
          · rintro ⟨hlength, hall⟩
            refine ⟨fun t ht => ?_, Nat.succ.inj hlength, fun i s hs => hall (i + 1) s hs⟩
            exact Option.some.inj (hall 0 t (congrArg some ht))

/-- **The predicate of a dynamic route** takes a path whose segments fit. -/
theorem newUriMatcher_dynamic (u : UriUtils) {expected : List Segment}
    (hexpected : ∀ s ∈ expected, s.Whole) {name : Str} (hname : .placeholder name ∈ expected)
    {uri : Uri} (hpath : uri.path.head? = some uriPathChar) :
    newUriMatcher u (rooted uriPathChar (expected.map Segment.text)) uri = true ↔
      List.Forall₂ Fits (expected.map Segment.text) (requestSegments uri.path) := by
  obtain ⟨rest, hrest⟩ := List.head?_eq_some_iff.mp hpath
  have htext : (Segment.placeholder name).text ∈ expected.map Segment.text :=
    List.mem_map_of_mem hname
  have hbraces : '\x7b' ∈ rooted uriPathChar (expected.map Segment.text) ∧
      '\x7d' ∈ rooted uriPathChar (expected.map Segment.text) :=
    ⟨mem_rooted htext List.mem_cons_self, mem_rooted htext List.mem_concat_self⟩
  rw [newUriMatcher, if_pos hbraces, split_rooted (forall_text_not_mem hexpected)
    (forall_text_ne_nil hexpected), hrest, split_cons_self, requestSegments_cons]
  by_cases hnil : (rest.splitOn uriPathChar).rdropWhile List.isEmpty = []
  · -- a path of slashes only has no tokens at all, not even an empty one
    rw [if_pos hnil, hnil, List.forall₂_nil_right_iff]
    exact iff_of_false Bool.false_ne_true (List.ne_nil_of_mem htext)
  · rw [if_neg hnil, tokensMatch_iff, List.forall₂_cons]
    exact and_iff_right (.inl rfl)

end RequestRouterBuilder

/-! ## Arguments -/

/-- The segments of a self link and of a template, one after the other. -/
theorem forall_whole_append {self : List Str} {segments : List Segment}
    (hself : ∀ s ∈ self, (Segment.literal s).Whole) (hsegments : ∀ s ∈ segments, s.Whole) :
    ∀ s ∈ self.map Segment.literal ++ segments, s.Whole := by
  intro s hs
  rcases List.mem_append.mp hs with hs | hs
  · obtain ⟨t, ht, rfl⟩ := List.mem_map.mp hs
    exact hself t ht
  · exact hsegments s hs

namespace RoutingOperationHandler

/-- How many tokens of the path come before those of the template; a slash in front of the template
makes an empty one, as the path always has. -/
theorem resourcePathOffset_slashed {h : RoutingOperationHandler} {self : List Str}
    {leadingSlash trailingSlash : Bool} {segments : List Segment}
    (hself : ∀ s ∈ self, (Segment.literal s).Whole) (hsegments : ∀ s ∈ segments, s.Whole)
    (hnil : segments ≠ [])
    (hpath : h.path =
      rooted uriPathChar ((self.map Segment.literal ++ segments).map Segment.text))
    (huriPath : h.httpMethod.uriPath =
      some (slashed leadingSlash trailingSlash (segments.map Segment.text))) :
    h.resourcePathOffset = self.length + 1 - if leadingSlash then 1 else 0 := by
  have hall := forall_whole_append hself hsegments
  rw [resourcePathOffset, hpath, huriPath, Option.map_some, Option.getD_some,
    split_rooted (forall_text_not_mem hall) (forall_text_ne_nil hall),
    split_slashed (forall_text_not_mem hsegments) (forall_text_ne_nil hsegments) (by simpa)]
  have hlength : ([] :: (self.map Segment.literal ++ segments).map Segment.text).length =
      self.length + segments.length + 1 := by simp
  rw [hlength]
  cases leadingSlash with
  | true =>
      simp only [if_true, List.length_cons, List.length_map]
      omega
  | false =>
      simp only [Bool.false_eq_true, if_false, List.length_map]
      omega

/-- **The argument for a parameter of the path** is the segment at the position of its last
placeholder. -/
theorem findMethodInput_path {h : RoutingOperationHandler} (env : Surroundings E O V)
    (request : Request) (queryParams : Str → JString) {actual : List Str} {p : ParamMetadata}
    {name : Str} (htype : p.type = .path) (hname : p.name = some name) {index j offset : Nat}
    {lead : Bool} (hindex : h.httpMethod.pathParamsVsUriIndex.lookup name = some index)
    (hj : index = j + if lead then 1 else 0)
    (hoffset : h.resourcePathOffset = offset + 1 - if lead then 1 else 0) :
    h.findMethodInput env request queryParams ([] :: actual) p =
      .ok (.text actual[offset + j]?, []) := by
  -- the index counts a slash in front of the template, and the offset takes it off again
  have hposition : (Int.ofNat index) + h.resourcePathOffset = ((offset + j + 1 : Nat) : Int) := by
    rw [hj, hoffset]
    cases lead <;> simp <;> omega
  simp only [findMethodInput, htype, hname, Option.bind_some, hindex, Option.map_some,
    Option.getD_some, hposition, pathValue, Int.natCast_nonneg, if_true, Int.toNat_natCast,
    List.getElem?_cons_succ]

/-- When all arguments are found, each of them is what is found for its parameter. -/
theorem getElem?_of_findMethodInputs {h : RoutingOperationHandler} {env : Surroundings E O V}
    {request : Request} {queryParams : Str → JString} {pathValues : List Str}
    {arguments : List (Argument O)}
    (harguments : h.findMethodInputs env request queryParams pathValues = .ok arguments) {i : Nat}
    {p : ParamMetadata} (hp : h.httpMethod.parameters[i]? = some p) :
    ∃ input, h.findMethodInput env request queryParams pathValues p = .ok input ∧
      arguments[i]? = some input.1 := by
  rw [findMethodInputs] at harguments
  cases hinputs : h.httpMethod.parameters.mapM
      (h.findMethodInput env request queryParams pathValues) with
  | error e =>
      rw [hinputs] at harguments
      exact nomatch harguments
  | ok inputs =>
      rw [hinputs] at harguments
      change (if inputs.flatMap Prod.snd = [] then _ else _) = _ at harguments
      -- constraints that are violated leave no arguments
      split at harguments
      · obtain ⟨input, hi, hinput⟩ := forall₂_getElem? (mapM_eq_ok_iff.mp hinputs) hp
        refine ⟨input, hinput, ?_⟩
        rw [← Except.ok.inj harguments, List.getElem?_map, hi, Option.map_some]
      · exact nomatch harguments

/-- The tokens of a path that starts with a slash and has more than slashes. -/
theorem parsePathValues_eq {u : UriUtils} (hu : u.JoinsPaths) {uri : Uri}
    (hpath : uri.path.head? = some uriPathChar) (hne : requestSegments uri.path ≠ []) :
    parsePathValues u uri = [] :: requestSegments uri.path := by
  obtain ⟨rest, hrest⟩ := List.head?_eq_some_iff.mp hpath
  rw [hrest, requestSegments_cons] at hne ⊢
  rw [parsePathValues, hu.normalizeUriPath_eq, hrest, split_normalized, split_cons_self, if_neg hne]

end RoutingOperationHandler

/-! ## A dynamic route -/

section Route

variable {u : UriUtils} {selfLink : Str} {self : List Str} {method : Method} {info : MethodInfo}
  {leadingSlash trailingSlash : Bool} {segments : List Segment} {uri : Uri}

/-- The path of a route has the segments of the self link and those of the template. -/
theorem buildUriPath_slashed (hu : u.JoinsPaths)
    (hlink : normalized selfLink = rooted uriPathChar self)
    (hsegments : ∀ s ∈ segments, s.Whole) (hnil : segments ≠ []) :
    u.buildUriPath selfLink (some (slashed leadingSlash trailingSlash
        (segments.map Segment.text))) =
      rooted uriPathChar ((self.map Segment.literal ++ segments).map Segment.text) := by
  have htemplate : normalized (slashed leadingSlash trailingSlash (segments.map Segment.text)) = _ :=
    normalized_slashed (forall_text_not_mem hsegments) (forall_text_ne_nil hsegments) (by simpa)
  have hself : (self.map Segment.literal).map Segment.text = self := by
    rw [List.map_map]
    exact List.map_id self
  rw [hu.buildUriPath_eq, hlink, Option.map_some, Option.getD_some, htemplate, List.map_append,
    rooted_append, hself]

variable (hu : u.JoinsPaths) (hlink : normalized selfLink = rooted uriPathChar self)
  (hself : ∀ s ∈ self, (Segment.literal s).Whole)
  (hinfo : MethodInfoBuilder.methodInfo method = some info)
  (htemplate : method.path =
    some (slashed leadingSlash trailingSlash (segments.map Segment.text)))
  (hsegments : ∀ s ∈ segments, s.Whole)
  (hpath : uri.path.head? = some uriPathChar)

include hu hlink hself hinfo htemplate hsegments hpath

/-- The predicate of a dynamic route compares segments. -/
theorem route_predicate_iff {name : Str} (hname : Segment.placeholder name ∈ segments) :
    (RequestRouterBuilder.route u selfLink info).predicate uri = true ↔
      (requestSegments uri.path).length = (self.map Segment.literal ++ segments).length ∧
        ∀ (i : Nat) (s : Str), (self.map Segment.literal ++ segments)[i]? = some (.literal s) →
          (requestSegments uri.path)[i]? = some s := by
  have hexpected := forall_whole_append hself hsegments
  rw [← RequestRouterBuilder.forall₂_fits_iff hexpected,
    ← RequestRouterBuilder.newUriMatcher_dynamic u hexpected (List.mem_append_right _ hname) hpath,
    ← buildUriPath_slashed hu hlink hsegments (List.ne_nil_of_mem hname), ← htemplate,
    ← (MethodInfoBuilder.methodInfo_spec hinfo).1]
  rfl

/-- What a dynamic route finds for a parameter, when the path has the length of its own. -/
theorem route_finds
    (hlength : (requestSegments uri.path).length = (self.map Segment.literal ++ segments).length)
    (env : Surroundings E O V) (request : Request) (queryParams : Str → JString)
    {p : ParamMetadata} {name : Str} (htype : p.type = .path) (hname : p.name = some name)
    (hoccurs : Segment.placeholder name ∈ segments) :
    ∃ (k : Nat) (value : Str),
      (self.map Segment.literal ++ segments)[k]? = some (.placeholder name) ∧
      (∀ l > k, (self.map Segment.literal ++ segments)[l]? ≠ some (.placeholder name)) ∧
      (requestSegments uri.path)[k]? = some value ∧
      (RequestRouterBuilder.route u selfLink info).handler.findMethodInput env request queryParams
        (RoutingOperationHandler.parsePathValues u uri) p = .ok (.text (some value), []) := by
  obtain ⟨huriPath, hpathParams, -⟩ := MethodInfoBuilder.methodInfo_spec hinfo
  rw [htemplate] at huriPath hpathParams
  obtain ⟨j, hj, hlast, hindex⟩ := MethodInfoBuilder.lookup_parsePathParams leadingSlash
    trailingSlash hsegments hoccurs
  have hnil : segments ≠ [] := List.ne_nil_of_mem hoccurs
  have hroute : (RequestRouterBuilder.route u selfLink info).handler.path =
      rooted uriPathChar ((self.map Segment.literal ++ segments).map Segment.text) := by
    rw [← buildUriPath_slashed hu hlink hsegments hnil, ← huriPath]
    rfl
  have hoffset := RoutingOperationHandler.resourcePathOffset_slashed hself hsegments hnil hroute
    huriPath
  -- the position in the path of the last placeholder of the name
  have hexpected : (self.map Segment.literal ++ segments)[self.length + j]? =
      some (.placeholder name) := by
    rw [List.getElem?_append_right (by simp), List.length_map, Nat.add_sub_cancel_left, hj]
  have hlt : self.length + j < (requestSegments uri.path).length :=
    hlength ▸ (List.getElem?_eq_some_iff.mp hexpected).1
  have hvalues := RoutingOperationHandler.parsePathValues_eq hu hpath
    (List.ne_nil_of_length_pos (Nat.zero_lt_of_lt hlt))
  rw [← hpathParams] at hindex
  refine ⟨self.length + j, _, hexpected, fun l hl => ?_, List.getElem?_eq_getElem hlt, ?_⟩
  · rw [List.getElem?_append_right (by simp; omega), List.length_map]
    exact hlast _ (by omega)
  · -- the offset leads from the index in the template to the position in the path
    rw [hvalues, RoutingOperationHandler.findMethodInput_path
      (h := (RequestRouterBuilder.route u selfLink info).handler) env request queryParams htype hname
      hindex rfl hoffset, List.getElem?_eq_getElem hlt]

/-- **A dynamic route accepts exactly its instances and binds each placeholder to its own segment.**
The self link has the segments `self`, the template has whole segments, at least one of them a
placeholder, and the path of the request starts with a slash. The predicate accepts the path if and
only if it has as many segments as self link and template, and the same at every literal one. Then
for every parameter of the path whose name occurs in the template the segment at the last position of
its placeholder is found, and is its argument when the arguments of the method are found. -/
theorem route_accepts_and_binds (hdynamic : ∃ name, Segment.placeholder name ∈ segments) :
    let route := RequestRouterBuilder.route u selfLink info
    let expected := self.map Segment.literal ++ segments
    let actual := requestSegments uri.path
    (route.predicate uri = true ↔ actual.length = expected.length ∧
      ∀ (i : Nat) (s : Str), expected[i]? = some (.literal s) → actual[i]? = some s) ∧
    (route.predicate uri = true →
      ∀ (env : Surroundings E O V) (request : Request) (queryParams : Str → JString)
        (i : Nat) (p : ParamMetadata) (name : Str), info.parameters[i]? = some p →
          p.type = .path → p.name = some name → Segment.placeholder name ∈ segments →
          ∃ (k : Nat) (value : Str), expected[k]? = some (.placeholder name) ∧
            (∀ l > k, expected[l]? ≠ some (.placeholder name)) ∧ actual[k]? = some value ∧
            route.handler.findMethodInput env request queryParams
              (RoutingOperationHandler.parsePathValues u uri) p = .ok (.text (some value), []) ∧
            ∀ arguments, route.handler.findMethodInputs env request queryParams
              (RoutingOperationHandler.parsePathValues u uri) = .ok arguments →
                arguments[i]? = some (.text (some value))) := by
  intro route expected actual
  obtain ⟨dynamic, hdynamic⟩ := hdynamic
  have hpredicate := route_predicate_iff hu hlink hself hinfo htemplate hsegments hpath hdynamic
  refine ⟨hpredicate, fun haccepts env request queryParams i p name hp htype hname hoccurs => ?_⟩
  obtain ⟨k, value, hexpected, hlast, hactual, hfound⟩ := route_finds hu hlink hself hinfo htemplate
    hsegments hpath (hpredicate.mp haccepts).1 env request queryParams htype hname hoccurs
  refine ⟨k, value, hexpected, hlast, hactual, hfound, fun arguments harguments => ?_⟩
  obtain ⟨input, hinput, hi⟩ := RoutingOperationHandler.getElem?_of_findMethodInputs harguments hp
  rw [hi, Except.ok.inj (hinput.symm.trans hfound)]

end Route

/-! ## A sample method -/

/-- A parameter in the path. -/
def pathParameter (name : String) : Parameter :=
  { queryParam := none, pathParam := some name.toList, headerParam := none, cookieParam := none
    operationBody := false, type := "java.lang.String".toList }

/-- A parameter in the query. -/
def queryParameter (name : String) : Parameter :=
  { pathParameter name with queryParam := some name.toList, pathParam := none }

/-- The template `{group}/of/{name}/{group}/`. -/
def memberTemplate : Template where
  leadingSlash := false
  trailingSlash := true
  segments := [.placeholder "group".toList, .literal "of".toList, .placeholder "name".toList,
    .placeholder "group".toList]
  segments_ne_nil := List.cons_ne_nil _ _

/-- A method whose third and fourth parameters have one name. -/
def memberMethod : Method where
  name := "member".toList
  isPublic := true
  httpMethodNames := [some "GET".toList]
  path := some memberTemplate.text
  parameters := [pathParameter "name", queryParameter "flag", pathParameter "group",
    pathParameter "group", queryParameter "limit"]
  returnClass := .other

/-- What is read from the method. -/
def memberInfo : MethodInfo where
  method := memberMethod
  parameters := [⟨some "name".toList, 0, .path, none⟩, ⟨some "flag".toList, 1, .query, none⟩,
    ⟨some "group".toList, 2, .path, none⟩, ⟨some "group".toList, 3, .path, none⟩,
    ⟨some "limit".toList, 4, .query, none⟩]
  uriPath := some memberTemplate.text
  action := .get
  pathParamsVsUriIndex := MethodInfoBuilder.parsePathParams (some memberTemplate.text)
  asyncApi := false

/-- The segments of the self link of the service. -/
def memberLink : List Str := ["api".toList, "members".toList]

/-- The info is that of the method. -/
theorem methodInfo_member : MethodInfoBuilder.methodInfo memberMethod = some memberInfo := by
  simp only [MethodInfoBuilder.methodInfo, MethodInfoBuilder.readMethod,
    MethodInfoBuilder.describeMethod_eq]
  rfl

/-- A request for a member, with slashes at the end, is taken by the route, all arguments are found, and
the parameter `group` gets the last segment. -/
theorem route_accepts_and_binds_member :
    let route := RequestRouterBuilder.route .documented (rooted uriPathChar memberLink) memberInfo
    let uri : Uri := ⟨[], "/api/members/a/of/ann/b//".toList, none⟩
    let expected := memberLink.map Segment.literal ++ memberTemplate.segments
    route.predicate uri = true ∧
      ∀ (env : Surroundings Unit Str Unit) (request : Request) (queryParams : Str → JString),
        ∃ (arguments : List (Argument Str)) (k : Nat) (value : Str),
          route.handler.findMethodInputs env request queryParams
            (RoutingOperationHandler.parsePathValues .documented uri) = .ok arguments ∧
          expected[k]? = some (.placeholder "group".toList) ∧
          (∀ l > k, expected[l]? ≠ some (.placeholder "group".toList)) ∧
          (requestSegments uri.path)[k]? = some value ∧
          arguments[2]? = some (.text (some value)) := by
  intro route uri expected
  have hself : ∀ s ∈ memberLink, (Segment.literal s).Whole := by
    have hplain : ∀ s ∈ memberLink, (Segment.literal s).Plain := by decide
    exact fun s hs => (hplain s hs).whole
  have hsegments : ∀ s ∈ memberTemplate.segments, s.Whole := by
    have hplain : ∀ s ∈ memberTemplate.segments, s.Plain := by decide
    exact forall_whole hplain
  have hgroup : Segment.placeholder "group".toList ∈ memberTemplate.segments := by decide
  have haccepts : route.predicate uri = true := by decide
  refine ⟨haccepts, fun env request queryParams => ?_⟩
  -- no parameter is a body, so nothing can be missing
  have harguments : ∃ arguments, route.handler.findMethodInputs env request queryParams
      (RoutingOperationHandler.parsePathValues .documented uri) = .ok arguments := ⟨_, rfl⟩
  obtain ⟨arguments, harguments⟩ := harguments
  obtain ⟨k, value, hexpected, hlast, hactual, -, hbinds⟩ :=
    (route_accepts_and_binds UriUtils.documented_joinsPaths rfl hself methodInfo_member rfl
      hsegments rfl ⟨_, hgroup⟩).2 haccepts env request queryParams 2 _ _ rfl rfl rfl hgroup
  exact ⟨arguments, k, value, harguments, hexpected, hlast, hactual, hbinds arguments harguments⟩

end XenonExt
