import XenonExt.JaxRs.RemoteCalls

/-! # Methods with a path and a body

The methods of an interface take texts for the placeholders of their paths, and after them a body if
they have one. This module says once and for all that they can be called remotely.

* **`asyncMethod`, `asyncInfo`**: such methods, as reflection shows them and as they are read.
* **`pathAndBody`, `pathAndBodyArgs`**: their parameters and the arguments of a call.
* **`pathAndBody_callable`**, **`pathAndBody_sendable`**: texts that can stand in a path, and a body
  that is read as it was written, arrive. -/

namespace XenonExt

variable {E T : Type}

/-! ## Methods -/

/-- What goes over the wire: texts, and values that are bodies. -/
inductive WireValue (T : Type)
  | text (s : Str)
  | body (value : T)

/-- Texts are themselves. -/
def WireValue.valueOf : WireValue T → Str
  | .text s => s
  | .body _ => []

/-- A method of an interface that returns a future: its annotations, its `Path` and its
parameters. -/
def asyncMethod (name : String) (httpMethodNames : List JString) (path : JString)
    (parameters : List Parameter) : Method where
  name := name.toList
  isPublic := true
  httpMethodNames := httpMethodNames
  path := path
  parameters := parameters
  returnClass := .completableFuture

/-- A parameter without annotations. -/
def plainParameter (type : String) : Parameter :=
  { pathParameter "" with pathParam := none, type := type.toList }

/-- A parameter for the body. -/
def operationBody (type : String) : Parameter :=
  { plainParameter type with operationBody := true }

/-- What is read from a method that returns a future. -/
def asyncInfo (method : Method) (action : Action) (parameters : List ParamMetadata) :
    MethodInfo where
  method := method
  parameters := parameters
  uriPath := method.path
  action := action
  pathParamsVsUriIndex := MethodInfoBuilder.parsePathParams method.path
  asyncApi := true

/-- Parameters for placeholders, and one for the body if there is one. -/
def pathAndBody (names : List Str) (bodyType : Option Str) : List ParamMetadata :=
  (names.zipIdx.map fun name => ⟨some name.1, name.2, .path, none⟩) ++
    bodyType.toList.map fun type => ⟨none, names.length, .body, some type⟩

/-- Texts for the placeholders, and a body, which may be `null`. -/
def pathAndBodyArgs (texts : List Str) (body : Option (Option T)) : List (Option (WireValue T)) :=
  (texts.map fun s => some (.text s)) ++ body.toList.map (Option.map .body)

/-! ## Parameters and arguments -/

section Parameters

variable {names texts : List Str} {bodyType : Option Str} {body : Option (Option T)}
  {p : ParamMetadata}

/-- A parameter is for a placeholder or for the body. -/
theorem mem_pathAndBody (hp : p ∈ pathAndBody names bodyType) :
    (∃ i name, names[i]? = some name ∧ p = ⟨some name, i, .path, none⟩) ∨
      ∃ type, bodyType = some type ∧ p = ⟨none, names.length, .body, some type⟩ := by
  rcases List.mem_append.mp hp with hp | hp
  · obtain ⟨⟨name, i⟩, hname, rfl⟩ := List.mem_map.mp hp
    exact .inl ⟨i, name, List.mem_zipIdx_iff_getElem?.mp hname, rfl⟩
  · obtain ⟨type, htype, rfl⟩ := List.mem_map.mp hp
    exact .inr ⟨type, Option.mem_toList.mp htype, rfl⟩

/-- A parameter of the path is for a placeholder. -/
theorem mem_pathAndBody_path (hp : p ∈ pathAndBody names bodyType) (htype : p.type = .path) :
    ∃ i name, names[i]? = some name ∧ p = ⟨some name, i, .path, none⟩ := by
  rcases mem_pathAndBody hp with h | ⟨type, -, rfl⟩
  · exact h
  · cases htype

/-- A parameter of the body is the last one. -/
theorem mem_pathAndBody_body (hp : p ∈ pathAndBody names bodyType) (htype : p.type = .body) :
    ∃ type, bodyType = some type ∧ p = ⟨none, names.length, .body, some type⟩ := by
  rcases mem_pathAndBody hp with ⟨i, name, -, rfl⟩ | h
  · cases htype
  · exact h

/-- Every placeholder has a parameter. -/
theorem exists_mem_pathAndBody (bodyType : Option Str) {name : Str} (hname : name ∈ names) :
    ∃ p ∈ pathAndBody names bodyType, p.type = .path ∧ p.name = some name := by
  obtain ⟨i, hi⟩ := List.mem_iff_getElem?.mp hname
  refine ⟨⟨some name, i, .path, none⟩, List.mem_append_left _ (List.mem_map.mpr ?_), rfl, rfl⟩
  exact ⟨(name, i), List.mem_zipIdx_iff_getElem?.mpr hi, rfl⟩

/-- No parameter is of another type. -/
theorem filter_pathAndBody_eq_nil {type : ParamType} (hpath : type ≠ .path) (hbody : type ≠ .body) :
    (pathAndBody names bodyType).filter (·.type = type) = [] := by
  rw [List.filter_eq_nil_iff]
  intro p hp htype
  obtain rfl := of_decide_eq_true htype
  rcases mem_pathAndBody hp with ⟨i, name, -, rfl⟩ | ⟨type, -, rfl⟩
  · exact hpath rfl
  · exact hbody rfl

/-- The argument of a placeholder. -/
theorem getElem?_pathAndBodyArgs {i : Nat} (hi : i < texts.length) :
    (pathAndBodyArgs texts body)[i]? = some (some (.text texts[i])) := by
  rw [pathAndBodyArgs, List.getElem?_append_left (by simpa using hi), List.getElem?_map,
    List.getElem?_eq_getElem hi, Option.map_some]

/-- The argument of the body. -/
theorem getElem?_pathAndBodyArgs_length :
    (pathAndBodyArgs texts body)[texts.length]? = body.map (Option.map .body) := by
  rw [pathAndBodyArgs, List.getElem?_append_right (by simp)]
  cases body <;> simp

end Parameters

/-! ## Calls -/

section Calls

variable {resolved ownHeader : Str → Prop} {template : Option Template} {method : Method}
  {action : Action} {names texts : List Str} {bodyType : Option Str} {body : Option (Option T)}
  {valueOf : WireValue T → Str}

/-- **A method with a path and a body can be called remotely**, if its parameters are for its
placeholders. -/
theorem pathAndBody_callable (hpath : method.path = template.map Template.text)
    (hliteral : ∀ s, .literal s ∈ Template.segmentsOf template → Kept resolved s)
    (hplaceholder : ∀ name, .placeholder name ∈ Template.segmentsOf template ↔ name ∈ names)
    (hplain : ∀ name ∈ names, (Segment.placeholder name).Plain) :
    Callable resolved ownHeader template
      (asyncInfo method action (pathAndBody names bodyType)) := by
  have hnone : ∀ type, type ≠ .path → type ≠ .body →
      (pathAndBody names bodyType).filter (·.type = type) = [] :=
    fun type => filter_pathAndBody_eq_nil
  have htype : ∀ type, type ≠ .path → type ≠ .body → ∀ p ∈ pathAndBody names bodyType,
      p.type ≠ type := by
    intro type hpath hbody p hp
    simpa using List.filter_eq_nil_iff.mp (hnone type hpath hbody) p hp
  have hmem : ∀ p, p ∈ (asyncInfo method action
      (pathAndBody names bodyType)).inPathOrQuery.parameters →
        p ∈ pathAndBody names bodyType ∧ (p.type = .path ∨ p.type = .query) :=
    fun p hp => ⟨List.mem_of_mem_filter hp, of_decide_eq_true (List.mem_filter.mp hp).2⟩
  refine
    { pathOrQuery :=
        { path_eq := hpath
          literal_kept := hliteral
          placeholder_plain := fun name hname => hplain name ((hplaceholder name).mp hname)
          type_eq := fun p hp => (hmem p hp).2
          path_placeholder := fun p hp hppath => ?_
          placeholder_path := fun name hname => ?_
          query_unreserved := fun p hp hquery =>
            absurd hquery (htype _ (by decide) (by decide) p (hmem p hp).1)
          query_nodup := ?_ }
      type_ne := htype _ (by decide) (by decide)
      header_named := fun p hp h => absurd h (htype _ (by decide) (by decide) p hp)
      header_nodup := ?_
      cookie_named := fun p hp h => absurd h (htype _ (by decide) (by decide) p hp)
      cookie_nodup := ?_
      body_eq := fun p hp q hq hpbody hqbody => ?_ }
  · obtain ⟨i, name, hname, rfl⟩ := mem_pathAndBody_path (hmem p hp).1 hppath
    exact ⟨name, rfl, (hplaceholder name).mpr (List.mem_of_getElem? hname)⟩
  · obtain ⟨p, hp, hppath, hpname⟩ :=
      exists_mem_pathAndBody bodyType ((hplaceholder name).mp hname)
    exact ⟨p, List.mem_filter.mpr ⟨hp, decide_eq_true (.inl hppath)⟩, hppath, hpname⟩
  · rw [MethodInfo.inPathOrQuery, List.filter_filter]
    have hquery : ∀ p ∈ pathAndBody names bodyType, p.type ≠ .query :=
      htype _ (by decide) (by decide)
    rw [List.filter_eq_nil_iff.mpr fun p hp => by simp [hquery p hp]]
    exact List.nodup_nil
  · rw [show (asyncInfo method action (pathAndBody names bodyType)).parameters.filter
      (·.type = .header) = [] from hnone .header (by decide) (by decide)]
    exact List.nodup_nil
  · rw [show (asyncInfo method action (pathAndBody names bodyType)).parameters.filter
      (·.type = .cookie) = [] from hnone .cookie (by decide) (by decide)]
    exact List.nodup_nil
  · obtain ⟨type, htype, rfl⟩ := mem_pathAndBody_body hp hpbody
    obtain ⟨type', htype', rfl⟩ := mem_pathAndBody_body hq hqbody
    rw [Option.some.inj (htype.symm.trans htype')]

/-- **Texts that can stand in a path** fit a method with a path and a body. -/
theorem pathAndBody_fit (hvalueOf : ∀ s, valueOf (.text s) = s)
    (hparameters : method.parameters.length = names.length + bodyType.toList.length)
    (htexts : texts.length = names.length) (hbody : body.isSome = bodyType.isSome)
    (hkept : ∀ s ∈ texts, Kept resolved s) :
    ArgumentsFit resolved valueOf (asyncInfo method action (pathAndBody names bodyType))
      (pathAndBodyArgs texts body) where
  length_eq := by
    have hlength : body.toList.length = bodyType.toList.length := by
      cases body <;> cases bodyType <;> simp_all
    rw [pathAndBodyArgs, List.length_append, List.length_map, List.length_map, hlength, htexts]
    exact hparameters.symm
  path_kept p hp hppath := by
    obtain ⟨i, name, hname, rfl⟩ := mem_pathAndBody_path hp hppath
    obtain ⟨hi, -⟩ := List.getElem?_eq_some_iff.mp hname
    have hi : i < texts.length := htexts ▸ hi
    refine ⟨texts[i], ?_, hkept _ (List.getElem_mem hi)⟩
    rw [argumentText, getElem?_pathAndBodyArgs hi, Option.join_some, Option.map_some, hvalueOf]
  query_unreserved p hp hquery := by
    rcases mem_pathAndBody hp with ⟨i, name, -, rfl⟩ | ⟨type, -, rfl⟩ <;> cases hquery

/-- **Texts that can stand in a path, and a body that is read as it was written**, can be sent. -/
theorem pathAndBody_sendable {w : Wire E (WireValue T)} {body : Option T}
    (hvalueOf : ∀ s, valueOf (.text s) = s)
    (hparameters : method.parameters.length = names.length + bodyType.toList.length)
    (htexts : texts.length = names.length) (hbody : body.isSome = bodyType.isSome)
    (hkept : ∀ s ∈ texts, Kept resolved s)
    (hread : ∀ b type, bodyType = some type → w.getBody (some (.body b)) (some type) =
      .ok (some (.body b))) :
    ArgumentsSendable resolved w valueOf (asyncInfo method action (pathAndBody names bodyType))
      (pathAndBodyArgs texts (body.map some)) where
  fit := pathAndBody_fit hvalueOf hparameters htexts (by rw [Option.isSome_map, hbody]) hkept
  unreserved p hp htype := by
    rcases mem_pathAndBody hp with ⟨i, name, -, rfl⟩ | ⟨type, -, rfl⟩ <;> simp at htype
  body_read p hp hpbody := by
    obtain ⟨type, rfl, rfl⟩ := mem_pathAndBody_body hp hpbody
    obtain ⟨b, rfl⟩ := Option.isSome_iff_exists.mp (hbody.trans rfl)
    refine ⟨.body b, ?_, hread b type rfl⟩
    rw [← htexts]
    exact getElem?_pathAndBodyArgs_length

/-- Different names tell the parameters of the path apart. -/
theorem pathAndBody_oneArgument (hnodup : names.Nodup) (args : List (Option (WireValue T))) :
    OneArgument .path valueOf args (pathAndBody names bodyType) := by
  intro p hp q hq hppath hqpath hname
  obtain ⟨i, name, hi, rfl⟩ := mem_pathAndBody_path hp hppath
  obtain ⟨j, name', hj, rfl⟩ := mem_pathAndBody_path hq hqpath
  obtain rfl : name = name' := Option.some.inj hname
  obtain ⟨hlt, -⟩ := List.getElem?_eq_some_iff.mp hi
  rw [(List.getElem?_inj hlt hnodup).mp (hi.trans hj.symm)]

end Calls

end XenonExt
