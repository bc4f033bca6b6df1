import XenonExt.JaxRs.Template

/-! # The arguments of a client

A client puts the arguments of a call into the template of the method and into the query. This
module says which methods and arguments are meant to go over the wire so, and what the loop of
`buildOperation` makes of them.

* **`InPathOrQuery`, `ArgumentsFit`**: the methods and the arguments.
* **`lookup_given_iff`**: a list of names and values gives every parameter its argument back when
  parameters of one name have one argument.
* **`foldlM_collect`**: the loop fills in the template and collects the query. -/

namespace XenonExt

variable {O : Type}

/-- A segment that stands in a path as it is. -/
def Kept (resolved : Str → Prop) (s : Str) : Prop := Unreserved s ∧ ¬ resolved s

/-- Where nothing is resolved, plain texts stand in a path as they are. -/
theorem kept_of_unreserved {l : List Str} (h : ∀ s ∈ l, Unreserved s) :
    ∀ s ∈ l, Kept (fun _ => False) s :=
  fun s hs => ⟨h s hs, not_false⟩

/-- A method with a template, or without a `Path`, whose parameters are in the path or the query. -/
structure InPathOrQuery (resolved : Str → Prop) (template : Option Template) (info : MethodInfo) :
    Prop where
  path_eq : info.method.path = template.map Template.text
  literal_kept : ∀ s, .literal s ∈ Template.segmentsOf template → Kept resolved s
  placeholder_plain : ∀ name, .placeholder name ∈ Template.segmentsOf template →
    (Segment.placeholder name).Plain
  type_eq : ∀ p ∈ info.parameters, p.type = .path ∨ p.type = .query
  path_placeholder : ∀ p ∈ info.parameters, p.type = .path →
    ∃ name, p.name = some name ∧ .placeholder name ∈ Template.segmentsOf template
  placeholder_path : ∀ name, .placeholder name ∈ Template.segmentsOf template →
    ∃ p ∈ info.parameters, p.type = .path ∧ p.name = some name
  query_unreserved : ∀ p ∈ info.parameters, p.type = .query →
    ∃ name, p.name = some name ∧ Unreserved name
  query_nodup : ((info.parameters.filter (·.type = .query)).map ParamMetadata.name).Nodup

/-- Segments of unreserved characters are plain. -/
theorem plain_of_unreserved {s : Str} (h : Unreserved s) : (Segment.literal s).Plain :=
  ⟨h.1, fun c hc => ⟨fun he => h.not_mem (by decide) (he ▸ hc),
    fun he => h.not_mem (by decide) (he ▸ hc), fun he => h.not_mem (by decide) (he ▸ hc)⟩⟩

/-- The segments of the template of a method are plain. -/
theorem InPathOrQuery.plain {resolved : Str → Prop} {template : Option Template} {info : MethodInfo}
    (h : InPathOrQuery resolved template info) : ∀ s ∈ Template.segmentsOf template, s.Plain := by
  intro s hs
  cases s with
  | literal s => exact plain_of_unreserved (h.literal_kept s hs).1
  | placeholder name => exact h.placeholder_plain name hs

/-- The text of the argument for a parameter, unless it is `null`. -/
def argumentText (valueOf : O → Str) (args : List (Option O)) (p : ParamMetadata) : JString :=
  args[p.parameterIndex]?.join.map valueOf

/-- One argument for each parameter: for the path a segment, for the query a text or `null`. -/
structure ArgumentsFit (resolved : Str → Prop) (valueOf : O → Str) (info : MethodInfo)
    (args : List (Option O)) : Prop where
  length_eq : args.length = info.method.parameters.length
  path_kept : ∀ p ∈ info.parameters, p.type = .path →
    ∃ value, argumentText valueOf args p = some value ∧ Kept resolved value
  query_unreserved : ∀ p ∈ info.parameters, p.type = .query →
    ∀ value, argumentText valueOf args p = some value → Unreserved value

/-- Parameters of one name and type have one argument. -/
def OneArgument (type : ParamType) (valueOf : O → Str) (args : List (Option O))
    (parameters : List ParamMetadata) : Prop :=
  ∀ p ∈ parameters, ∀ q ∈ parameters, p.type = type → q.type = type → p.name = q.name →
    argumentText valueOf args p = argumentText valueOf args q

instance (type : ParamType) (valueOf : O → Str) (args : List (Option O))
    (parameters : List ParamMetadata) : Decidable (OneArgument type valueOf args parameters) := by
  unfold OneArgument
  infer_instance

/-! ## What the parameters of one type are given -/

/-- Strings that are not `null` are equal when their texts are. -/
theorem text_inj {s t : JString} (hs : s.isSome) (ht : t.isSome) (h : text s = text t) : s = t := by
  obtain ⟨s, rfl⟩ := Option.isSome_iff_exists.mp hs
  obtain ⟨t, rfl⟩ := Option.isSome_iff_exists.mp ht
  exact congrArg some h

section Given

variable {type : ParamType} {valueOf : O → Str} {args : List (Option O)}

/-- The name and the argument of a parameter of a type, unless the argument is `null`. -/
def given (type : ParamType) (valueOf : O → Str) (args : List (Option O)) (p : ParamMetadata) :
    Option (Str × Str) :=
  if p.type = type then (argumentText valueOf args p).map (text p.name, ·) else none

/-- What a parameter is given. -/
theorem given_eq_some_iff {p : ParamMetadata} {name value : Str} :
    given type valueOf args p = some (name, value) ↔
      p.type = type ∧ text p.name = name ∧ argumentText valueOf args p = some value := by
  rw [given, Option.ite_none_right_eq_some, Option.map_eq_some_iff]
  constructor
  · rintro ⟨htype, value', hvalue, heq⟩
    obtain ⟨rfl, rfl⟩ := Prod.mk.inj heq
    exact ⟨htype, rfl, hvalue⟩
  · rintro ⟨htype, rfl, hvalue⟩
    exact ⟨htype, value, hvalue, rfl⟩

/-- A value in a list of names and values belongs to a parameter. -/
theorem lookup_given_some {parameters : List ParamMetadata} {name value : Str}
    (h : (parameters.filterMap (given type valueOf args)).lookup name = some value) :
    ∃ p ∈ parameters, p.type = type ∧ text p.name = name ∧
      argumentText valueOf args p = some value := by
  obtain ⟨init, rest, heq, -⟩ := List.lookup_eq_some_iff.mp h
  have hmem : (name, value) ∈ parameters.filterMap (given type valueOf args) :=
    heq ▸ List.mem_append_right _ List.mem_cons_self
  obtain ⟨p, hp, hgiven⟩ := List.mem_filterMap.mp hmem
  exact ⟨p, hp, given_eq_some_iff.mp hgiven⟩

/-- A name without a value in a list of names and values belongs to `null` arguments. -/
theorem lookup_given_none {parameters : List ParamMetadata} {name : Str}
    (h : (parameters.filterMap (given type valueOf args)).lookup name = none) :
    ∀ p ∈ parameters, p.type = type → text p.name = name → argumentText valueOf args p = none := by
  intro p hp hptype hname
  rw [List.lookup_eq_none_iff] at h
  cases hvalue : argumentText valueOf args p with
  | none => rfl
  | some value =>
      have hmem := List.mem_filterMap.mpr ⟨p, hp, given_eq_some_iff.mpr ⟨hptype, hname, hvalue⟩⟩
      simpa using h _ hmem

/-- **Every parameter gets its argument back** when parameters of one name have one argument. -/
theorem lookup_given_iff {parameters : List ParamMetadata}
    (hname : ∀ p ∈ parameters, p.type = type → p.name.isSome) :
    (∀ p ∈ parameters, p.type = type →
      (parameters.filterMap (given type valueOf args)).lookup (text p.name) =
        argumentText valueOf args p) ↔ OneArgument type valueOf args parameters := by
  constructor
  · intro h p hp q hq hptype hqtype heq
    rw [← h p hp hptype, ← h q hq hqtype, heq]
  · intro h p hp hptype
    cases hlookup : (parameters.filterMap (given type valueOf args)).lookup (text p.name) with
    | some value =>
        -- the value found belongs to some parameter of the name, perhaps another one
        obtain ⟨q, hq, hqtype, hqname, hvalue⟩ := lookup_given_some hlookup
        have heq := text_inj (hname q hq hqtype) (hname p hp hptype) hqname
        rw [← hvalue, h q hq p hp hqtype hptype heq]
    | none => exact (lookup_given_none hlookup p hp hptype rfl).symm

end Given

/-- A list without repetitions of names gives no parameter of the query another's argument. -/
theorem oneArgument_of_nodup {valueOf : O → Str} {args : List (Option O)}
    {parameters : List ParamMetadata}
    (h : ((parameters.filter (·.type = .query)).map ParamMetadata.name).Nodup) :
    OneArgument .query valueOf args parameters := by
  intro p hp q hq hptype hqtype hname
  have hinj := List.inj_on_of_nodup_map h
  rw [hinj (List.mem_filter.mpr ⟨hp, decide_eq_true hptype⟩)
    (List.mem_filter.mpr ⟨hq, decide_eq_true hqtype⟩) hname]

/-- The keys of the query are not repeated. -/
theorem nodup_given_query {valueOf : O → Str} {args : List (Option O)}
    {parameters : List ParamMetadata}
    (h : ((parameters.filter (·.type = .query)).map ParamMetadata.name).Nodup)
    (hname : ∀ p ∈ parameters, p.type = .query → p.name.isSome) :
    ((parameters.filterMap (given .query valueOf args)).map Prod.fst).Nodup := by
  rw [List.Nodup, List.pairwise_map, List.pairwise_filter] at h
  rw [List.Nodup, List.pairwise_map, List.pairwise_filterMap]
  refine h.imp_of_mem ?_
  rintro p q hp hq hne ⟨_, _⟩ hpgiven ⟨_, _⟩ hqgiven heq
  obtain ⟨hptype, rfl, -⟩ := given_eq_some_iff.mp hpgiven
  obtain ⟨hqtype, rfl, -⟩ := given_eq_some_iff.mp hqgiven
  have hname := text_inj (hname p hp hptype) (hname q hq hqtype) heq
  exact hne (decide_eq_true hptype) (decide_eq_true hqtype) hname

/-! ## The client's loop -/

namespace ProxyHandler

/-- What the loop has collected, given what it has put into the path and the query. -/
def collected (template : Option Template) (path query : List (Str × Str)) : Collected O :=
  ⟨template.map (Template.textWith path), keyValues query, none, [], ∅⟩

variable {valueOf : O → Str} {args : List (Option O)} {template : Option Template}

/-- A parameter that the loop can put into the template or the query. -/
structure Collectable (template : Option Template) (valueOf : O → Str) (args : List (Option O))
    (p : ParamMetadata) : Prop where
  index_lt : p.parameterIndex < args.length
  type_eq : p.type = .path ∨ p.type = .query
  path_fits : p.type = .path → template.isSome ∧ (Segment.placeholder (text p.name)).Plain ∧
    ∃ value, argumentText valueOf args p = some value ∧ Unreserved value

/-- What is put into the path is unreserved. -/
theorem given_path_unreserved {p : ParamMetadata} (hp : Collectable template valueOf args p)
    {v : Str × Str} (hv : v ∈ given .path valueOf args p) : Unreserved v.2 := by
  obtain ⟨hpath, -, hvalue⟩ := given_eq_some_iff.mp hv
  obtain ⟨-, -, value, hvalue', hunreserved⟩ := hp.path_fits hpath
  rw [hvalue] at hvalue'
  exact Option.some.inj hvalue' ▸ hunreserved

/-- **One round of the loop.** -/
theorem collect_collected {p : ParamMetadata} (hp : Collectable template valueOf args p)
    (hsegments : ∀ s ∈ Template.segmentsOf template, s.Plain) {path query : List (Str × Str)}
    (hvalues : ∀ v ∈ path, Unreserved v.2) :
    collect valueOf args (collected template path query) p =
      some (collected template (path ++ (given .path valueOf args p).toList)
        (query ++ (given .query valueOf args p).toList)) := by
  obtain ⟨arg, harg⟩ : ∃ arg, args[p.parameterIndex]? = some arg :=
    ⟨_, List.getElem?_eq_getElem hp.index_lt⟩
  have htext : argumentText valueOf args p = arg.map valueOf := by
    rw [argumentText, harg, Option.join_some]
  cases arg with
  | none => simp [collect, harg, given, htext]
  | some arg =>
      rw [collect, harg]
      rcases hp.type_eq with hpath | hquery
      · obtain ⟨hsome, hname, value, hvalue, hunreserved⟩ := hp.path_fits hpath
        obtain ⟨t, rfl⟩ := Option.isSome_iff_exists.mp hsome
        obtain rfl : valueOf arg = value := Option.some.inj (htext.symm.trans hvalue)
        -- an unreserved value has no escapes and no references
        have hreplaced : replaceAll (placeholder p.name) (valueOf arg) (t.textWith path) = _ :=
          Template.replaceAll_textWith hname hsegments
            (fun v hv => plain_of_unreserved (hvalues v hv)) (hunreserved.not_mem (by decide))
            (hunreserved.not_mem (by decide))
        simp [collectArgument, hpath, collected, given, htext, hreplaced]
      · simp [collectArgument, hquery, collected, given, htext, keyValues]

/-- **The loop** fills in the template and collects the query. -/
theorem foldlM_collect {parameters : List ParamMetadata}
    (hparameters : ∀ p ∈ parameters, Collectable template valueOf args p)
    (hsegments : ∀ s ∈ Template.segmentsOf template, s.Plain) (path query : List (Str × Str))
    (hvalues : ∀ v ∈ path, Unreserved v.2) :
    parameters.foldlM (collect valueOf args) (collected template path query) =
      some (collected template (path ++ parameters.filterMap (given .path valueOf args))
        (query ++ parameters.filterMap (given .query valueOf args))) := by
  -- over the parameters, for whatever the loop has collected before
  induction parameters generalizing path query with
  | nil => simp
  | cons p parameters ih =>
      have hp := hparameters p List.mem_cons_self
      have hvalues' : ∀ v ∈ path ++ (given .path valueOf args p).toList, Unreserved v.2 := by
        intro v hv
        rcases List.mem_append.mp hv with hv | hv
        · exact hvalues v hv
        · exact given_path_unreserved hp (Option.mem_toList.mp hv)
      have hcons : ∀ type, (p :: parameters).filterMap (given type valueOf args) =
          (given type valueOf args p).toList ++ parameters.filterMap (given type valueOf args) := by
        intro type
        rw [List.filterMap_cons]
        cases given type valueOf args p <;> rfl
      rw [List.foldlM_cons, collect_collected hp hsegments hvalues, Option.bind_eq_bind,
        Option.bind_some, ih (fun q hq => hparameters q (List.mem_cons_of_mem _ hq)) _ _ hvalues',
        hcons, hcons, List.append_assoc, List.append_assoc]

end ProxyHandler

end XenonExt
