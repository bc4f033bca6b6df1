import XenonExt.JaxRs.Answers
import XenonExt.JaxRs.WireForm

/-! # All parts of a call

The arguments of a call go over the wire in the path, the query, the headers, the cookies and the
body. The client sorts them by the type of their parameters, and the server puts them together again.

* **`Wire`**: what becomes of the headers, the cookies and the body on their way.
* **`Callable`, `ArgumentsSendable`**: the methods and the arguments.
* **`foldlM_collect_parts`**: the client's loop collects each part by itself.
* **`callParts_spec`**: the server reads from the client's operation what it would read from the
  arguments themselves. -/

namespace XenonExt

variable {E O V : Type}

/-! ## The wire -/

/-- What a service reads of the headers, the cookies and the body that a client has sent. -/
structure Wire (E O : Type) where
  requestHeaders : List (Str × Str) → Str → JString
  cookies : (AList fun _ : Str => Str) → Option (Str → JString)
  getBody : Option O → JString → Except E (Option O)

/-- The name of a header, as headers are compared. -/
def ignoringCase (name : Str) : Str := name.map Char.toLower

/-- What the code relies on: headers and cookies arrive as they were sent. The names for which
`ownHeader` holds are those of headers that the protocol uses itself. -/
structure Wire.Lawful (w : Wire E O) (ownHeader : Str → Prop) : Prop where
  requestHeaders_eq : ∀ sent, (∀ h ∈ sent, Unreserved h.1 ∧ Unreserved h.2) →
    (sent.map fun h => ignoringCase h.1).Nodup → ∀ name, ¬ ownHeader name →
      (∀ h ∈ sent, ignoringCase h.1 = ignoringCase name → h.1 = name) →
        w.requestHeaders sent name = sent.lookup name
  cookies_eq : ∀ sent : AList fun _ : Str => Str,
    (∀ name value, sent.lookup name = some value → Unreserved name ∧ Unreserved value) →
      ∀ name, ((w.cookies sent).bind fun cookies => cookies name) = sent.lookup name

/-- The request that a service receives for an operation. -/
def requestOf (w : Wire E O) (op : ClientOperation O) : Request where
  action := op.action
  uri := op.uri
  cookies := w.cookies op.cookies
  requestHeaders := w.requestHeaders op.headers

/-- The surroundings of the handler for the request of an operation. -/
def Surroundings.receiving (env : Surroundings E O V) (w : Wire E O) (op : ClientOperation O) :
    Surroundings E O V :=
  { env with getBody := w.getBody op.body }

/-! ## Methods and arguments -/

/-- The same info, with the parameters of the path and the query only. -/
def MethodInfo.inPathOrQuery (info : MethodInfo) : MethodInfo :=
  { info with parameters := info.parameters.filter fun p => p.type = .path ∨ p.type = .query }

/-- **A method that can be called remotely**: it does not receive the operation, its path and its
query are as in `InPathOrQuery`, its headers and cookies have different names, and it has one body at
most. -/
structure Callable (resolved ownHeader : Str → Prop) (template : Option Template)
    (info : MethodInfo) : Prop where
  pathOrQuery : InPathOrQuery resolved template info.inPathOrQuery
  type_ne : ∀ p ∈ info.parameters, p.type ≠ .operation
  header_named : ∀ p ∈ info.parameters, p.type = .header →
    ∃ name, p.name = some name ∧ Unreserved name ∧ ¬ ownHeader name
  header_nodup : ((info.parameters.filter (·.type = .header)).map fun p =>
    ignoringCase (text p.name)).Nodup
  cookie_named : ∀ p ∈ info.parameters, p.type = .cookie → ∃ name, p.name = some name ∧ Unreserved name
  cookie_nodup : ((info.parameters.filter (·.type = .cookie)).map fun p => text p.name).Nodup
  body_eq : ∀ p ∈ info.parameters, ∀ q ∈ info.parameters, p.type = .body → q.type = .body → p = q

/-- **Arguments that can be sent**: those of the path and the query as in `ArgumentsFit`, plain texts
for headers and cookies, and a body that is read as it was written. -/
structure ArgumentsSendable (resolved : Str → Prop) (w : Wire E O) (valueOf : O → Str)
    (info : MethodInfo) (args : List (Option O)) : Prop where
  fit : ArgumentsFit resolved valueOf info args
  unreserved : ∀ p ∈ info.parameters, p.type = .header ∨ p.type = .cookie →
    ∀ value, argumentText valueOf args p = some value → Unreserved value
  body_read : ∀ p ∈ info.parameters, p.type = .body →
    ∃ arg, args[p.parameterIndex]? = some (some arg) ∧
      w.getBody (some arg) p.paramterType = .ok (some arg)

/-- Headers that may go with a call: plain texts, of other names than the method's own. -/
structure AddedHeaders (info : MethodInfo) (added : List (Str × Str)) : Prop where
  unreserved : ∀ h ∈ added, Unreserved h.1 ∧ Unreserved h.2
  nodup : (added.map fun h => ignoringCase h.1).Nodup
  name_ne : ∀ h ∈ added, ∀ p ∈ info.parameters, p.type = .header →
    ignoringCase h.1 ≠ ignoringCase (text p.name)

/-- **An operation that carries a call**, as an interceptor may have left it: of what the service
reads, only headers were added. -/
structure Carries (info : MethodInfo) (op op' : ClientOperation O) : Prop where
  action_eq : op'.action = op.action
  uri_eq : op'.uri = op.uri
  body_eq : op'.body = op.body
  cookies_eq : op'.cookies = op.cookies
  headers_eq : ∃ added, op'.headers = op.headers ++ added ∧ AddedHeaders info added

/-- An operation carries its own call. -/
theorem Carries.refl (info : MethodInfo) (op : ClientOperation O) : Carries info op op where
  action_eq := rfl
  uri_eq := rfl
  body_eq := rfl
  cookies_eq := rfl
  headers_eq := ⟨[], (List.append_nil _).symm, by simp, List.nodup_nil, by simp⟩

/-! ## The client's loop -/

/-- The argument of a parameter for the body. -/
def givenBody (args : List (Option O)) (p : ParamMetadata) : Option O :=
  if p.type = .body then args[p.parameterIndex]?.join else none

/-- Put some names and values into a map, one after the other. -/
def insertAll (pairs : List (Str × Str)) : AList fun _ : Str => Str :=
  pairs.foldl (fun map pair => map.insert pair.1 pair.2) ∅

/-- A map made of pairs with different names has the pairs. -/
theorem lookup_insertAll {pairs : List (Str × Str)} (h : (pairs.map Prod.fst).Nodup) (name : Str) :
    (insertAll pairs).lookup name = pairs.lookup name := by
  induction pairs using List.reverseRecOn with
  | nil => rfl
  | append_singleton pairs pair ih =>
      obtain ⟨key, value⟩ := pair
      rw [List.map_append, List.nodup_append'] at h
      obtain ⟨hpairs, -, hdisjoint⟩ := h
      rw [insertAll, List.foldl_concat, ← insertAll, List.lookup_append, ← ih hpairs]
      by_cases hname : name = key
      · subst hname
        have hfresh : pairs.lookup name = none := by
          rw [List.lookup_eq_none_iff]
          intro p hp
          have hne : p.1 ≠ name := fun heq =>
            hdisjoint (List.mem_map_of_mem hp) (heq ▸ List.mem_singleton_self _)
          simpa using hne.symm
        rw [AList.lookup_insert, ih hpairs, hfresh]
        simp
      · rw [AList.lookup_insert_ne hname]
        simp [hname]

namespace ProxyHandler

variable {valueOf : O → Str} {args : List (Option O)} {template : Option Template}

/-- What the loop has collected after some parameters. -/
def parts (template : Option Template) (valueOf : O → Str) (args : List (Option O))
    (parameters : List ParamMetadata) : Collected O where
  methodUri := template.map (Template.textWith (parameters.filterMap (given .path valueOf args)))
  queryUri := keyValues (parameters.filterMap (given .query valueOf args))
  body := (parameters.filterMap (givenBody args)).getLast?
  headers := parameters.filterMap (given .header valueOf args)
  cookies := insertAll (parameters.filterMap (given .cookie valueOf args))

/-- A parameter whose argument the loop can collect. -/
structure Collects (template : Option Template) (valueOf : O → Str) (args : List (Option O))
    (p : ParamMetadata) : Prop where
  index_lt : p.parameterIndex < args.length
  type_ne : p.type ≠ .operation
  path_fits : p.type = .path → template.isSome ∧ (Segment.placeholder (text p.name)).Plain ∧
    ∃ value, argumentText valueOf args p = some value ∧ Unreserved value

/-- **One round of the loop** adds the argument to the part of its type. -/
theorem collect_parts {parameters : List ParamMetadata} {p : ParamMetadata}
    (hp : Collects template valueOf args p)
    (hbefore : ∀ q ∈ parameters, Collects template valueOf args q)
    (hsegments : ∀ s ∈ Template.segmentsOf template, s.Plain) :
    collect valueOf args (parts template valueOf args parameters) p =
      some (parts template valueOf args (parameters ++ [p])) := by
  obtain ⟨arg, harg⟩ : ∃ arg, args[p.parameterIndex]? = some arg :=
    ⟨_, List.getElem?_eq_getElem hp.index_lt⟩
  have htext : argumentText valueOf args p = arg.map valueOf := by
    rw [argumentText, harg, Option.join_some]
  cases arg with
  | none =>
      -- `null` is in no part
      have hgiven : ∀ type, given type valueOf args p = none := fun type => by simp [given, htext]
      have hbody : givenBody args p = none := by simp [givenBody, harg]
      simp [collect, harg, parts, hgiven, hbody]
  | some arg =>
      rw [collect, harg]
      have hvalues : ∀ v ∈ parameters.filterMap (given .path valueOf args), Unreserved v.2 := by
        intro v hv
        obtain ⟨q, hq, hgiven⟩ := List.mem_filterMap.mp hv
        obtain ⟨hpath, -, hvalue⟩ := given_eq_some_iff.mp hgiven
        obtain ⟨-, -, value, hvalue', hunreserved⟩ := (hbefore q hq).path_fits hpath
        exact Option.some.inj (hvalue.symm.trans hvalue') ▸ hunreserved
      cases htype : p.type with
      | operation => exact absurd htype hp.type_ne
      | path =>
          obtain ⟨hsome, hname, value, hvalue, hunreserved⟩ := hp.path_fits htype
          obtain ⟨t, rfl⟩ := Option.isSome_iff_exists.mp hsome
          obtain rfl : valueOf arg = value := Option.some.inj (htext.symm.trans hvalue)
          have hreplaced : replaceAll (placeholder p.name) (valueOf arg)
              (t.textWith (parameters.filterMap (given .path valueOf args))) = _ :=
            Template.replaceAll_textWith hname hsegments
              (fun v hv => plain_of_unreserved (hvalues v hv)) (hunreserved.not_mem (by decide))
              (hunreserved.not_mem (by decide))
          simp [collectArgument, htype, parts, given, givenBody, htext, hreplaced]
      | query => simp [collectArgument, htype, parts, given, givenBody, htext, keyValues]
      | header => simp [collectArgument, htype, parts, given, givenBody, htext]
      | cookie => simp [collectArgument, htype, parts, given, givenBody, htext, insertAll]
      | body => simp [collectArgument, htype, parts, given, givenBody, harg]

/-- **The loop** collects each part of a call by itself. -/
theorem foldlM_collect_parts {parameters : List ParamMetadata}
    (hparameters : ∀ p ∈ parameters, Collects template valueOf args p)
    (hsegments : ∀ s ∈ Template.segmentsOf template, s.Plain) :
    parameters.foldlM (collect valueOf args) (parts template valueOf args []) =
      some (parts template valueOf args parameters) := by
  induction parameters using List.reverseRecOn with
  | nil => rfl
  | append_singleton parameters p ih =>
      have hbefore : ∀ q ∈ parameters, Collects template valueOf args q :=
        fun q hq => hparameters q (List.mem_append_left _ hq)
      rw [List.foldlM_append, ih hbefore, Option.bind_eq_bind, Option.bind_some, List.foldlM_cons,
        collect_parts (hparameters p (List.mem_append_right _ List.mem_cons_self)) hbefore hsegments]
      rfl

end ProxyHandler

/-! ## The parameters of each part -/

section Parts

variable {resolved ownHeader : Str → Prop} {template : Option Template} {method : Method}
  {info : MethodInfo} {valueOf : O → Str} {args : List (Option O)} {w : Wire E O}

/-- The parameters of the path and the query give the same path and the same query. -/
theorem filterMap_given_inPathOrQuery (info : MethodInfo) (valueOf : O → Str)
    (args : List (Option O)) {type : ParamType} (htype : type = .path ∨ type = .query) :
    info.inPathOrQuery.parameters.filterMap (given type valueOf args) =
      info.parameters.filterMap (given type valueOf args) := by
  rw [MethodInfo.inPathOrQuery, List.filterMap_filter]
  refine List.filterMap_congr fun p _ => ?_
  by_cases hp : p.type = type
  · rw [if_pos (by simpa [hp] using htype)]
  · split
    · rfl
    · rw [given, if_neg hp]

/-- The arguments of the path and the query fit the method without its other parameters. -/
theorem ArgumentsFit.inPathOrQuery (h : ArgumentsFit resolved valueOf info args) :
    ArgumentsFit resolved valueOf info.inPathOrQuery args where
  length_eq := h.length_eq
  path_kept p hp := h.path_kept p (List.mem_of_mem_filter hp)
  query_unreserved p hp := h.query_unreserved p (List.mem_of_mem_filter hp)

/-- A parameter of the path or the query is one of those. -/
theorem mem_inPathOrQuery {p : ParamMetadata} (hp : p ∈ info.parameters)
    (htype : p.type = .path ∨ p.type = .query) : p ∈ info.inPathOrQuery.parameters :=
  List.mem_filter.mpr ⟨hp, by simpa using htype⟩

/-- The path of the method is the text of its template. -/
theorem Callable.uriPath_eq (hinfo : MethodInfoBuilder.methodInfo method = some info)
    (hmethod : Callable resolved ownHeader template info) :
    info.uriPath = template.map Template.text := by
  rw [(MethodInfoBuilder.methodInfo_spec hinfo).1, ← MethodInfoBuilder.methodInfo_method hinfo]
  exact hmethod.pathOrQuery.path_eq

/-- The loop can collect every argument. -/
theorem Callable.collects (hinfo : MethodInfoBuilder.methodInfo method = some info)
    (hmethod : Callable resolved ownHeader template info)
    (hargs : ArgumentsFit resolved valueOf info args) :
    ∀ p ∈ info.parameters, ProxyHandler.Collects template valueOf args p := by
  intro p hp
  refine ⟨?_, hmethod.type_ne p hp, fun hpath => ?_⟩
  · have hmem : p.parameterIndex ∈ info.parameters.map ParamMetadata.parameterIndex :=
      List.mem_map_of_mem hp
    rw [(MethodInfoBuilder.methodInfo_spec hinfo).2.2, List.mem_range] at hmem
    rw [hargs.length_eq, MethodInfoBuilder.methodInfo_method hinfo]
    exact hmem
  · have hmem := mem_inPathOrQuery hp (.inl hpath)
    obtain ⟨name, hname, hplaceholder⟩ := hmethod.pathOrQuery.path_placeholder p hmem hpath
    obtain ⟨value, hvalue, hkept⟩ := hargs.path_kept p hp hpath
    refine ⟨?_, ?_, value, hvalue, hkept.1⟩
    · cases template with
      | none => exact absurd hplaceholder List.not_mem_nil
      | some t => rfl
    · rw [hname]
      exact hmethod.pathOrQuery.placeholder_plain name hplaceholder

/-- Parameters of a type whose names are told apart by a key have one argument for one name. -/
theorem oneArgument_of_nodup_key {κ : Type} {type : ParamType} (key : JString → κ)
    (h : ((info.parameters.filter (·.type = type)).map fun p => key p.name).Nodup) :
    OneArgument type valueOf args info.parameters := by
  intro p hp q hq hptype hqtype hname
  have hinj := List.inj_on_of_nodup_map h
  rw [hinj (List.mem_filter.mpr ⟨hp, decide_eq_true hptype⟩)
    (List.mem_filter.mpr ⟨hq, decide_eq_true hqtype⟩) (congrArg key hname)]

/-- The names of what is given are told apart by a key, if those of the parameters are. -/
theorem nodup_given_key {κ : Type} {type : ParamType} (key : Str → κ)
    (h : ((info.parameters.filter (·.type = type)).map fun p => key (text p.name)).Nodup) :
    ((info.parameters.filterMap (given type valueOf args)).map fun v => key v.1).Nodup := by
  rw [List.Nodup, List.pairwise_map, List.pairwise_filter] at h
  rw [List.Nodup, List.pairwise_map, List.pairwise_filterMap]
  refine h.imp ?_
  rintro p q hne ⟨_, _⟩ hpgiven ⟨_, _⟩ hqgiven heq
  obtain ⟨hptype, rfl, -⟩ := given_eq_some_iff.mp hpgiven
  obtain ⟨hqtype, rfl, -⟩ := given_eq_some_iff.mp hqgiven
  exact hne (decide_eq_true hptype) (decide_eq_true hqtype) heq

/-- What is given for headers and cookies is plain text. -/
theorem given_unreserved (hargs : ArgumentsSendable resolved w valueOf info args)
    {type : ParamType} (htype : type = .header ∨ type = .cookie)
    (hnamed : ∀ p ∈ info.parameters, p.type = type → ∃ name, p.name = some name ∧ Unreserved name) :
    ∀ v ∈ info.parameters.filterMap (given type valueOf args), Unreserved v.1 ∧ Unreserved v.2 := by
  rintro ⟨_, value⟩ hv
  obtain ⟨p, hp, hgiven⟩ := List.mem_filterMap.mp hv
  obtain ⟨hptype, rfl, hvalue⟩ := given_eq_some_iff.mp hgiven
  obtain ⟨name, hname, hunreserved⟩ := hnamed p hp hptype
  refine ⟨by rw [hname]; exact hunreserved, hargs.unreserved p hp ?_ value hvalue⟩
  rwa [hptype]

/-- **The client's operation** has each part of the call in its place, and its query is written to a
URI without one. -/
theorem buildOperation_kept {u : UriUtils} (hu : u.Lawful resolved) {self : List Str}
    (huriPath : info.uriPath = template.map Template.text)
    (hcollects : ∀ p ∈ info.parameters, ProxyHandler.Collects template valueOf args p)
    (hplain : ∀ s ∈ Template.segmentsOf template, s.Plain)
    (hfilled : ∀ s ∈ (Template.segmentsOf template).map
      (Segment.fillAll (info.parameters.filterMap (given .path valueOf args))), s.Plain)
    (hkept : ∀ s ∈ pathSegments self template (info.parameters.filterMap (given .path valueOf args)),
      Kept resolved s)
    (hself : ∀ s ∈ self, Kept resolved s) {iFace : Interface} {baseUri : Uri}
    (hquery : baseUri.query = none)
    (hlink : u.buildUriPath baseUri.path iFace.path = rooted uriPathChar self) (referrer : Str) :
    ∃ uri op, uri.query = none ∧
      ProxyHandler.buildOperation u valueOf (JaxRsServiceClient.build u iFace baseUri referrer)
        info args = some op ∧ op.action = info.action ∧
      op.uri = u.extendUriWithQuery uri
        (keyValues (info.parameters.filterMap (given .query valueOf args))) ∧
      op.uri.path = rooted uriPathChar
        (pathSegments self template (info.parameters.filterMap (given .path valueOf args))) ∧
      op.body = (info.parameters.filterMap (givenBody args)).getLast? ∧
      op.headers = info.parameters.filterMap (given .header valueOf args) ∧
      op.cookies = insertAll (info.parameters.filterMap (given .cookie valueOf args)) := by
  have hloop : info.parameters.foldlM (ProxyHandler.collect valueOf args)
      ⟨info.uriPath, [], none, [], ∅⟩ =
        some (ProxyHandler.parts template valueOf args info.parameters) := by
    rw [huriPath]
    exact ProxyHandler.foldlM_collect_parts hcollects hplain
  -- the base URI is extended twice: by the path of the interface, then by that of the method
  obtain ⟨hbase, hbaseQuery⟩ := extendUri_of_kept hu hlink hself hquery
  have hbuild : u.buildUriPath (u.extendUri baseUri iFace.path).path _ = _ :=
    hbase.symm ▸ buildUriPath_textWith hu hself hfilled
  obtain ⟨hcall, hcallQuery⟩ := extendUri_of_kept hu hbuild hkept hbaseQuery
  exact ⟨_, _, hcallQuery, by rw [ProxyHandler.buildOperation, hloop]; rfl, rfl, rfl,
    extendUriWithQuery_of_kept hu hcall hkept _, rfl, rfl, rfl⟩

/-- The client's operation of a method that can be called remotely. -/
theorem buildOperation_parts {u : UriUtils} (hu : u.Lawful resolved) {self : List Str}
    (hinfo : MethodInfoBuilder.methodInfo method = some info)
    (hmethod : Callable resolved ownHeader template info)
    (hargs : ArgumentsFit resolved valueOf info args) (hself : ∀ s ∈ self, Kept resolved s)
    {iFace : Interface} {baseUri : Uri} (hquery : baseUri.query = none)
    (hlink : u.buildUriPath baseUri.path iFace.path = rooted uriPathChar self) (referrer : Str) :
    ∃ op, ProxyHandler.buildOperation u valueOf (JaxRsServiceClient.build u iFace baseUri referrer)
        info args = some op ∧ op.action = info.action ∧
      op.uri.path = rooted uriPathChar
        (pathSegments self template (info.parameters.filterMap (given .path valueOf args))) ∧
      (∃ params, u.parseUriQueryParams op.uri = some params ∧ ∀ name,
        params name = (info.parameters.filterMap (given .query valueOf args)).lookup name) ∧
      op.body = (info.parameters.filterMap (givenBody args)).getLast? ∧
      op.headers = info.parameters.filterMap (given .header valueOf args) ∧
      op.cookies = insertAll (info.parameters.filterMap (given .cookie valueOf args)) := by
  have hpaths := filterMap_given_inPathOrQuery info valueOf args
    (.inl rfl : ParamType.path = .path ∨ _)
  have hqueries := filterMap_given_inPathOrQuery info valueOf args
    (.inr rfl : _ ∨ ParamType.query = .query)
  have hfit := hargs.inPathOrQuery
  have hkept := pathSegments_kept hmethod.pathOrQuery hfit hself
  have hpathKept := given_path_kept hfit
  rw [hpaths] at hkept hpathKept
  have hfilled : ∀ s ∈ (Template.segmentsOf template).map
      (Segment.fillAll (info.parameters.filterMap (given .path valueOf args))), s.Plain :=
    List.forall_mem_map.mpr fun s hs => (hmethod.pathOrQuery.plain s hs).fillAll fun v hv =>
      plain_of_unreserved (hpathKept v hv).1
  obtain ⟨uri, op, hnone, hbuild, haction, huri, hpath, hbody, hheaders, hcookies⟩ :=
    buildOperation_kept hu (hmethod.uriPath_eq hinfo) (hmethod.collects hinfo hargs)
      hmethod.pathOrQuery.plain hfilled hkept hself hquery hlink referrer
  refine ⟨op, hbuild, haction, hpath, ?_, hbody, hheaders, hcookies⟩
  rw [huri]
  refine hu.parse_extendUriWithQuery _ _ hnone ?_ ?_
  · rintro ⟨_, _⟩ hv
    obtain ⟨p, hp, hgiven⟩ := List.mem_filterMap.mp hv
    obtain ⟨htype, rfl, hvalue⟩ := given_eq_some_iff.mp hgiven
    obtain ⟨name, hname, hunreserved⟩ :=
      hmethod.pathOrQuery.query_unreserved p (mem_inPathOrQuery hp (.inr htype)) htype
    exact ⟨hname ▸ hunreserved, hargs.query_unreserved p hp htype _ hvalue⟩
  · rw [← hqueries]
    exact nodup_given_query hmethod.pathOrQuery.query_nodup
      fun p hp _ => hmethod.pathOrQuery.name_isSome p hp

/-! ## The server's arguments -/

/-- The argument for one parameter and the constraints it violates, as they arrive: a body is as it
was, and everything else is the text that `String.valueOf` made of it. -/
def arrivedInput (env : Surroundings E O V) (valueOf : O → Str) (args : List (Option O))
    (p : ParamMetadata) : Except (Thrown E V) (Argument O × List V) :=
  match p.type with
  | .body => do
    let body := args[p.parameterIndex]?.join
    let violations ← (env.validate body).mapError .throwable
    .ok (.body body, violations)
  | _ => .ok (.text (argumentText valueOf args p), [])

/-- What is passed on, unless a body among it violates a constraint. -/
def acceptedInputs (inputs : Except (Thrown E V) (List (Argument O × List V))) :
    Except (Thrown E V) (List (Argument O)) := do
  let inputs ← inputs
  let violations := inputs.flatMap Prod.snd
  if violations = [] then .ok (inputs.map Prod.fst) else .error (.constraintViolations violations)

/-- **What a method gets of the arguments of a call**, as they arrive. -/
def arrivedInputs (env : Surroundings E O V) (valueOf : O → Str) (info : MethodInfo)
    (args : List (Option O)) : Except (Thrown E V) (List (Argument O)) :=
  acceptedInputs (info.parameters.mapM (arrivedInput env valueOf args))

/-- **The body arrives**: the only one that is given is the last one. -/
theorem getLast?_givenBody (hmethod : Callable resolved ownHeader template info) {p : ParamMetadata}
    (hp : p ∈ info.parameters) (htype : p.type = .body) {arg : O}
    (harg : args[p.parameterIndex]? = some (some arg)) :
    (info.parameters.filterMap (givenBody args)).getLast? = some arg := by
  have hmem : arg ∈ info.parameters.filterMap (givenBody args) :=
    List.mem_filterMap.mpr ⟨p, hp, by rw [givenBody, if_pos htype, harg, Option.join_some]⟩
  have hall : ∀ body ∈ info.parameters.filterMap (givenBody args), body = arg := by
    intro body hbody
    obtain ⟨q, hq, hgiven⟩ := List.mem_filterMap.mp hbody
    obtain ⟨hqtype, hgiven⟩ := Option.ite_none_right_eq_some.mp hgiven
    obtain rfl := hmethod.body_eq q hq p hp hqtype htype
    rw [harg, Option.join_some] at hgiven
    exact (Option.some.inj hgiven).symm
  have hne := List.ne_nil_of_mem hmem
  rw [List.getLast?_eq_getLast_of_ne_nil hne]
  exact congrArg some (hall _ (List.getLast_mem hne))

/-- **The server finds the argument of the client for a parameter of the path.** -/
theorem findMethodInput_path_eq {self : List Str}
    (hinfo : MethodInfoBuilder.methodInfo method = some info)
    (hmethod : Callable resolved ownHeader template info)
    (hargs : ArgumentsFit resolved valueOf info args) (hself : ∀ s ∈ self, Kept resolved s)
    (hone : OneArgument .path valueOf args info.parameters) (env : Surroundings E O V)
    (request : Request) (params : Str → JString) {p : ParamMetadata} (hp : p ∈ info.parameters)
    (htype : p.type = .path) :
    RoutingOperationHandler.findMethodInput ⟨rooted uriPathChar (pathSegments self template []), info⟩
        env request params ([] :: pathSegments self template
          (info.parameters.filterMap (given .path valueOf args))) p =
      .ok (.text (argumentText valueOf args p), []) := by
  have hmem := mem_inPathOrQuery hp (.inl htype)
  obtain ⟨name, hname, hplaceholder⟩ := hmethod.pathOrQuery.path_placeholder p hmem htype
  obtain ⟨value, hvalue, -⟩ := hargs.path_kept p hp htype
  have hnamed : ∀ q ∈ info.parameters, q.type = .path → q.name.isSome := fun q hq hqtype =>
    hmethod.pathOrQuery.name_isSome q (mem_inPathOrQuery hq (.inl hqtype))
  have hlookup := (lookup_given_iff hnamed).mpr hone p hp htype
  rw [hname, text_some, hvalue] at hlookup
  cases template with
  | none => exact absurd hplaceholder List.not_mem_nil
  | some t =>
      have htext : info.uriPath = some t.text := hmethod.uriPath_eq hinfo
      have hsegments : ∀ s ∈ t.segments, s.Plain := hmethod.pathOrQuery.plain
      obtain ⟨j, hj, -, hindex⟩ := MethodInfoBuilder.lookup_parsePathParams t.leadingSlash
        t.trailingSlash (forall_whole hsegments) hplaceholder
      have hindex' : info.pathParamsVsUriIndex.lookup name =
          some (j + if t.leadingSlash then 1 else 0) := by
        rw [(MethodInfoBuilder.methodInfo_spec hinfo).2.1,
          ← (MethodInfoBuilder.methodInfo_spec hinfo).1, htext]
        simpa [Template.text, Template.textWith, Segment.map_fillAll_nil] using hindex
      have hoffset := resourcePathOffset_eq hmethod.pathOrQuery hself htext
      change RoutingOperationHandler.resourcePathOffset
        ⟨rooted uriPathChar (pathSegments self (some t) []), info⟩ = _ at hoffset
      rw [RoutingOperationHandler.findMethodInput_path env request params htype hname hindex' rfl
        hoffset, pathSegments, List.getElem?_append_right (Nat.le_add_right _ _),
        Nat.add_sub_cancel_left, List.getElem?_map, List.getElem?_map, Template.segmentsOf,
        Option.map_some, Option.getD_some, hj, Option.map_some, Option.map_some, Segment.fillAll,
        hlookup, hvalue]
      rfl

/-- **A header arrives** with the argument of its parameter, also among headers of other names. -/
theorem header_arrives {ownHeader : Str → Prop} (hw : w.Lawful ownHeader)
    (hmethod : Callable resolved ownHeader template info)
    (hargs : ArgumentsSendable resolved w valueOf info args) {added : List (Str × Str)}
    (hadded : AddedHeaders info added) {p : ParamMetadata} (hp : p ∈ info.parameters)
    (htype : p.type = .header) {name : Str} (hname : p.name = some name) (hown : ¬ ownHeader name) :
    w.requestHeaders (info.parameters.filterMap (given .header valueOf args) ++ added) name =
      argumentText valueOf args p := by
  have hnamed : ∀ q ∈ info.parameters, q.type = .header → ∃ name, q.name = some name ∧
      Unreserved name := fun q hq hqtype =>
    (hmethod.header_named q hq hqtype).imp fun _ h => ⟨h.1, h.2.1⟩
  have hplain := given_unreserved hargs (.inl rfl) hnamed
  have hnodup : ((info.parameters.filterMap (given .header valueOf args)).map fun h =>
      ignoringCase h.1).Nodup := nodup_given_key ignoringCase hmethod.header_nodup
  -- an added header has a name of its own
  have hforeign : ∀ h ∈ added, ignoringCase h.1 ≠ ignoringCase name := by
    intro h hh
    have hne := hadded.name_ne h hh p hp htype
    rwa [hname] at hne
  -- a header of the same name is that of the same parameter
  have hsame : ∀ h ∈ info.parameters.filterMap (given .header valueOf args),
      ignoringCase h.1 = ignoringCase name → h.1 = name := by
    rintro ⟨_, _⟩ hv heq
    obtain ⟨q, hq, hgiven⟩ := List.mem_filterMap.mp hv
    obtain ⟨hqtype, rfl, -⟩ := given_eq_some_iff.mp hgiven
    have hinj := List.inj_on_of_nodup_map hmethod.header_nodup
    have hqp : q = p := hinj (List.mem_filter.mpr ⟨hq, decide_eq_true hqtype⟩)
      (List.mem_filter.mpr ⟨hp, decide_eq_true htype⟩) (by rw [hname]; exact heq)
    rw [hqp, hname, text_some]
  have hdisjoint : List.Disjoint
      ((info.parameters.filterMap (given .header valueOf args)).map fun h => ignoringCase h.1)
      (added.map fun h => ignoringCase h.1) := by
    rintro _ hkey hkey'
    obtain ⟨h, hh, rfl⟩ := List.mem_map.mp hkey'
    obtain ⟨⟨_, _⟩, hv, heq⟩ := List.mem_map.mp hkey
    obtain ⟨q, hq, hgiven⟩ := List.mem_filterMap.mp hv
    obtain ⟨hqtype, rfl, -⟩ := given_eq_some_iff.mp hgiven
    exact hadded.name_ne h hh q hq hqtype heq.symm
  have harrived := hw.requestHeaders_eq
    (info.parameters.filterMap (given .header valueOf args) ++ added)
    (List.forall_mem_append.mpr ⟨hplain, hadded.unreserved⟩)
    (by rw [List.map_append]; exact hnodup.append hadded.nodup hdisjoint) name hown
    (List.forall_mem_append.mpr ⟨hsame, fun h hh heq => absurd heq (hforeign h hh)⟩)
  have habsent : added.lookup name = none := by
    rw [List.lookup_eq_none_iff]
    intro h hh
    have hne : h.1 ≠ name := fun heq => hforeign h hh (congrArg ignoringCase heq)
    simpa using hne.symm
  have hone : OneArgument .header valueOf args info.parameters :=
    oneArgument_of_nodup_key (fun name => ignoringCase (text name)) hmethod.header_nodup
  have hsome : ∀ q ∈ info.parameters, q.type = .header → q.name.isSome := by
    intro q hq hqtype
    obtain ⟨name, hname, -⟩ := hnamed q hq hqtype
    rw [hname]
    rfl
  have hlookup := (lookup_given_iff hsome).mpr hone p hp htype
  rw [harrived, List.lookup_append, habsent, Option.or_none, ← hlookup, hname, text_some]

variable {self : List Str} {u : UriUtils} {op : ClientOperation O} {env : Surroundings E O V}
  {added : List (Str × Str)}

/-- **The server finds the argument of the client for every parameter.** -/
theorem findMethodInput_parts {ownHeader : Str → Prop} (hw : w.Lawful ownHeader)
    (hinfo : MethodInfoBuilder.methodInfo method = some info)
    (hmethod : Callable resolved ownHeader template info)
    (hargs : ArgumentsSendable resolved w valueOf info args) (hself : ∀ s ∈ self, Kept resolved s)
    (hone : OneArgument .path valueOf args info.parameters) {params : Str → JString}
    (hparams : ∀ name,
      params name = (info.parameters.filterMap (given .query valueOf args)).lookup name)
    (hbody : op.body = (info.parameters.filterMap (givenBody args)).getLast?)
    (hheaders : op.headers = info.parameters.filterMap (given .header valueOf args) ++ added)
    (hadded : AddedHeaders info added)
    (hcookies : op.cookies = insertAll (info.parameters.filterMap (given .cookie valueOf args)))
    {p : ParamMetadata} (hp : p ∈ info.parameters) :
    RoutingOperationHandler.findMethodInput ⟨rooted uriPathChar (pathSegments self template []), info⟩
        (env.receiving w op) (requestOf w op) params ([] :: pathSegments self template
          (info.parameters.filterMap (given .path valueOf args))) p =
      arrivedInput env valueOf args p := by
  have hfound : ∀ type, (∀ q ∈ info.parameters, q.type = type → q.name.isSome) →
      OneArgument type valueOf args info.parameters → p.type = type →
        (info.parameters.filterMap (given type valueOf args)).lookup (text p.name) =
          argumentText valueOf args p :=
    fun type hnamed hone htype => (lookup_given_iff hnamed).mpr hone p hp htype
  cases htype : p.type with
  | operation => exact absurd htype (hmethod.type_ne p hp)
  | path =>
      rw [arrivedInput, htype]
      exact findMethodInput_path_eq hinfo hmethod hargs.fit hself hone _ _ _ hp htype
  | query =>
      obtain ⟨name, hname, -⟩ :=
        hmethod.pathOrQuery.query_unreserved p (mem_inPathOrQuery hp (.inr htype)) htype
      have hnamed : ∀ q ∈ info.parameters, q.type = .query → q.name.isSome := fun q hq hqtype =>
        hmethod.pathOrQuery.name_isSome q (mem_inPathOrQuery hq (.inr hqtype))
      have hqueries : OneArgument .query valueOf args info.parameters := by
        intro q hq q' hq' hqtype hqtype' heq
        exact oneArgument_of_nodup hmethod.pathOrQuery.query_nodup q
          (mem_inPathOrQuery hq (.inr hqtype)) q' (mem_inPathOrQuery hq' (.inr hqtype')) hqtype
          hqtype' heq
      have hlookup := hfound .query hnamed hqueries htype
      rw [hname, text_some] at hlookup
      simp only [RoutingOperationHandler.findMethodInput, arrivedInput, htype, hname,
        Option.bind_some, hparams, hlookup]
  | header =>
      obtain ⟨name, hname, -, hown⟩ := hmethod.header_named p hp htype
      have harrived := header_arrives hw hmethod hargs hadded hp htype hname hown
      simp only [RoutingOperationHandler.findMethodInput, arrivedInput, htype, hname,
        Option.bind_some, requestOf, hheaders, harrived]
  | cookie =>
      obtain ⟨name, hname, -⟩ := hmethod.cookie_named p hp htype
      have hnamed : ∀ q ∈ info.parameters, q.type = .cookie → q.name.isSome := by
        intro q hq hqtype
        obtain ⟨name, hname, -⟩ := hmethod.cookie_named q hq hqtype
        rw [hname]
        rfl
      have hlookup := hfound .cookie hnamed
        (oneArgument_of_nodup_key text hmethod.cookie_nodup) htype
      have hplain := given_unreserved hargs (.inr rfl) hmethod.cookie_named
      have hnodup : ((info.parameters.filterMap (given .cookie valueOf args)).map Prod.fst).Nodup :=
        nodup_given_key id hmethod.cookie_nodup
      have hinserted := lookup_insertAll hnodup
      have harrived := hw.cookies_eq op.cookies (fun name value hvalue => by
        rw [hcookies, hinserted] at hvalue
        obtain ⟨init, rest, heq, -⟩ := List.lookup_eq_some_iff.mp hvalue
        exact hplain (name, value) (heq ▸ List.mem_append_right _ List.mem_cons_self)) name
      rw [hname, text_some] at hlookup
      rw [hcookies, hinserted, hlookup, ← hcookies] at harrived
      simp only [RoutingOperationHandler.findMethodInput, arrivedInput, htype, hname,
        Option.bind_some, requestOf, harrived]
  | body =>
      obtain ⟨arg, harg, hread⟩ := hargs.body_read p hp htype
      have hsent := hbody.trans (getLast?_givenBody hmethod hp htype harg)
      simp only [RoutingOperationHandler.findMethodInput, arrivedInput, htype, harg,
        Option.join_some, Surroundings.receiving, hsent, hread]
      rfl

/-- **The server reads from the client's operation what it would read from the arguments.** For a
method that can be called remotely and arguments that can be sent, of which those for path parameters
of one name are one: the client builds an operation, and for every operation that carries the call,
the route of the method takes it, and the handler finds the arguments of the client, or the
constraints that they violate. -/
theorem callParts_spec {ownHeader : Str → Prop} (hu : u.Lawful resolved) (hw : w.Lawful ownHeader)
    (hinfo : MethodInfoBuilder.methodInfo method = some info)
    (hmethod : Callable resolved ownHeader template info)
    (hargs : ArgumentsSendable resolved w valueOf info args) (hself : ∀ s ∈ self, Kept resolved s)
    (hone : OneArgument .path valueOf args info.parameters) {iFace : Interface} {baseUri : Uri}
    (hquery : baseUri.query = none)
    (hlink : u.buildUriPath baseUri.path iFace.path = rooted uriPathChar self) (referrer : Str) :
    ∃ op, ProxyHandler.buildOperation u valueOf (JaxRsServiceClient.build u iFace baseUri referrer)
        info args = some op ∧
      ∀ op', Carries info op op' →
        (RequestRouterBuilder.route u (rooted uriPathChar self) info).action = op'.action ∧
        (RequestRouterBuilder.route u (rooted uriPathChar self) info).predicate op'.uri = true ∧
        ∀ env : Surroundings E O V, env.uriUtils = u →
          (RequestRouterBuilder.route u (rooted uriPathChar self) info).handler.methodInputs
              (env.receiving w op') (requestOf w op') = arrivedInputs env valueOf info args := by
  obtain ⟨op, hbuild, haction, hpath, ⟨params, hparse, hparams⟩, hbody, hheaders, hcookies⟩ :=
    buildOperation_parts hu hinfo hmethod hargs.fit hself hquery hlink referrer
  have hroute : u.buildUriPath (rooted uriPathChar self) info.uriPath =
      rooted uriPathChar (pathSegments self template []) := by
    rw [hmethod.uriPath_eq hinfo]
    exact buildUriPath_textWith hu hself hmethod.pathOrQuery.plain_fillAll_nil
  have hpaths := filterMap_given_inPathOrQuery info valueOf args
    (.inl rfl : ParamType.path = .path ∨ _)
  have hkept := pathSegments_kept hmethod.pathOrQuery hargs.fit.inPathOrQuery hself
  rw [hpaths] at hkept
  have hexpected := pathSegments_segment hself hmethod.pathOrQuery.plain_fillAll_nil
  have hactual := fun s hs => (hkept s hs).segment
  refine ⟨op, hbuild, fun op' hcarries => ⟨(hcarries.action_eq.trans haction).symm, ?_,
    fun env henv => ?_⟩⟩
  · rw [hcarries.uri_eq]
    simp only [RequestRouterBuilder.route, hroute]
    exact RequestRouterBuilder.newUriMatcher_rooted hu
      (forall₂_fits self _ hmethod.pathOrQuery.plain) hexpected hactual hpath
  · have hvalues := parsePathValues_rooted hu hactual hpath
    obtain ⟨added, hadded_eq, hadded⟩ := hcarries.headers_eq
    have hfound : info.parameters.mapM (RoutingOperationHandler.findMethodInput
        ⟨rooted uriPathChar (pathSegments self template []), info⟩ (env.receiving w op')
        (requestOf w op') params ([] :: pathSegments self template
          (info.parameters.filterMap (given .path valueOf args)))) =
        info.parameters.mapM (arrivedInput env valueOf args) :=
      mapM_congr_mem fun p hp => findMethodInput_parts hw hinfo hmethod hargs hself hone hparams
        (hcarries.body_eq.trans hbody) (by rw [hadded_eq, hheaders]) hadded
        (hcarries.cookies_eq.trans hcookies) hp
    have hreads : (env.receiving w op').uriUtils.parseUriQueryParams (requestOf w op').uri =
        some params := by
      rw [show (env.receiving w op').uriUtils = u from henv,
        show (requestOf w op').uri = op.uri from hcarries.uri_eq]
      exact hparse
    have htokens : RoutingOperationHandler.parsePathValues (env.receiving w op').uriUtils
        (requestOf w op').uri = [] :: pathSegments self template
          (info.parameters.filterMap (given .path valueOf args)) := by
      rw [show (env.receiving w op').uriUtils = u from henv,
        show (requestOf w op').uri = op.uri from hcarries.uri_eq]
      exact hvalues
    simp only [RequestRouterBuilder.route, hroute, RoutingOperationHandler.methodInputs, hreads,
      htokens, RoutingOperationHandler.findMethodInputs, hfound]
    rfl

end Parts

end XenonExt
