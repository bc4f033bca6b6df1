import Mathlib.Data.List.AList
import Mathlib.Data.List.ReduceOption
import Mathlib.Data.List.Sort
import XenonExt.JaxRs.UriUtils

/-! # Annotated methods

`MethodInfoBuilder` reads the annotations of methods once; the client's proxy and the server's
routes are both made from the `MethodInfo` it gives.

* **`parsePathParams`**: the positions of the placeholders of a template.
* **`generateMethodInfo`**: the annotated public methods, in the order in which they are listed.
* **`generateMethodInfo_eq`**: every method is read by itself. -/

namespace XenonExt

/-- `Service.Action`. -/
inductive Action
  | post
  | patch
  | put
  | delete
  | get
  | options
  deriving DecidableEq, Repr

/-- `Service.Action.valueOf`, which throws when there is no such action. -/
def Action.valueOf (name : Str) : Option Action :=
  if name = "POST".toList then some .post
  else if name = "PATCH".toList then some .patch
  else if name = "PUT".toList then some .put
  else if name = "DELETE".toList then some .delete
  else if name = "GET".toList then some .get
  else if name = "OPTIONS".toList then some .options
  else none

/-- The class a method returns, as far as the code distinguishes them. -/
inductive ReturnClass
  | void
  | completableFuture
  | other
  deriving DecidableEq, Repr

/-- A parameter of a method: the values of its annotations and its class. -/
structure Parameter where
  queryParam : JString
  pathParam : JString
  headerParam : JString
  cookieParam : JString
  operationBody : Bool
  type : Str
  deriving DecidableEq

/-- A method as reflection shows it: of each annotation the value of `HttpMethod` on its type, if
there is one, and the value of `Path`. -/
structure Method where
  name : Str
  isPublic : Bool
  httpMethodNames : List JString
  path : JString
  parameters : List Parameter
  returnClass : ReturnClass
  deriving DecidableEq

/-- `ParamMetadata.Type`. -/
inductive ParamType
  | path
  | query
  | body
  | operation
  | header
  | cookie
  deriving DecidableEq, Repr

/-- `ParamMetadata`. -/
structure ParamMetadata where
  name : JString
  parameterIndex : Nat
  type : ParamType
  paramterType : JString
  deriving DecidableEq

/-- `MethodInfo`. -/
structure MethodInfo where
  method : Method
  parameters : List ParamMetadata
  uriPath : JString
  action : Action
  pathParamsVsUriIndex : AList fun _ : Str => Nat
  asyncApi : Bool

/-- The class of `Operation` parameters. -/
def operationClass : Str := "com.vmware.xenon.common.Operation".toList

namespace MethodInfoBuilder

/-- `parseAction`: the first annotation with an HTTP method decides; `none` when the method is not
an action of Xenon, which throws, and `some none` when there is no such annotation. -/
def parseAction (publicMethod : Method) : Option (Option Action) :=
  match publicMethod.httpMethodNames.findSome? id with
  | some httpMethod => (Action.valueOf httpMethod).map some
  | none => some none

/-- Braces around a whole token make a placeholder. -/
def isPlaceholder (token : Str) : Prop :=
  token.length > 0 ∧ token.head? = some '\x7b' ∧ token.getLast? = some '\x7d'

instance (token : Str) : Decidable (isPlaceholder token) := by
  unfold isPlaceholder
  infer_instance

/-- `parsePathParams`: the last position of every placeholder. -/
def parsePathParams (uri : JString) : AList fun _ : Str => Nat :=
  match uri with
  | some uri =>
    if '\x7b' ∈ uri ∧ '\x7d' ∈ uri then
      (split uriPathChar uri).zipIdx.foldl (fun pathParams token =>
        if isPlaceholder token.1 then pathParams.insert token.1.tail.dropLast token.2
        else pathParams) ∅
    else ∅
  | none => ∅

/-- The metadata of one parameter; `none` for one without a supported annotation that is not an
operation either, which throws. -/
def extractParamMetadata (parameter : Parameter) (parameterIndex : Nat) : Option ParamMetadata :=
  match parameter.queryParam, parameter.pathParam, parameter.headerParam, parameter.cookieParam with
  | some name, _, _, _ => some ⟨some name, parameterIndex, .query, none⟩
  | none, some name, _, _ => some ⟨some name, parameterIndex, .path, none⟩
  | none, none, some name, _ => some ⟨some name, parameterIndex, .header, none⟩
  | none, none, none, some name => some ⟨some name, parameterIndex, .cookie, none⟩
  | none, none, none, none =>
    if parameter.operationBody then some ⟨none, parameterIndex, .body, some parameter.type⟩
    else if parameter.type = operationClass then some ⟨none, parameterIndex, .operation, none⟩
    else none

/-- `extractParamMetadatas`. -/
def extractParamMetadatas (publicMethod : Method) : Option (List ParamMetadata) :=
  publicMethod.parameters.zipIdx.mapM fun p => extractParamMetadata p.1 p.2

/-- What the stream of `generateMethodInfo` makes of a method: its action and its path, nothing when
it is not public or has no HTTP method; `none` when it throws. -/
def selectMethod (method : Method) : Option (Option (Method × Action)) :=
  if method.isPublic then (parseAction method).map fun action => action.map (method, ·)
  else some none

/-- What the loop of `generateMethodInfo` adds to a selected method. -/
def describeMethod (selected : Method × Action) : Option MethodInfo :=
  (extractParamMetadatas selected.1).map fun parameters =>
    { method := selected.1
      parameters := parameters.mergeSort (·.parameterIndex ≤ ·.parameterIndex)
      uriPath := selected.1.path
      action := selected.2
      pathParamsVsUriIndex := parsePathParams selected.1.path
      asyncApi := selected.1.returnClass = .completableFuture }

/-- `generateMethodInfo`; `none` when it throws. -/
def generateMethodInfo (methods : List Method) : Option (List MethodInfo) :=
  (methods.mapM selectMethod).bind fun selected => selected.reduceOption.mapM describeMethod

end MethodInfoBuilder

/-! ## One method at a time -/

/-- A partial function succeeds on a list when it succeeds on every element. -/
theorem mapM_eq_ite {α β : Type} (f : α → Option β) (l : List α) :
    l.mapM f = if ∀ a ∈ l, (f a).isSome then some (l.filterMap f) else none := by
  induction l with
  | nil => simp
  | cons a l ih =>
      rw [List.mapM_cons, ih]
      cases hf : f a with
      | none => simp [hf]
      | some b =>
          by_cases hl : ∀ a ∈ l, (f a).isSome
          · have hal : ∀ a' ∈ a :: l, (f a').isSome :=
              List.forall_mem_cons.mpr ⟨hf ▸ rfl, hl⟩
            rw [if_pos hl, if_pos hal, List.filterMap_cons_some hf]
            rfl
          · have hal : ¬ ∀ a' ∈ a :: l, (f a').isSome := fun h =>
              hl (List.forall_mem_cons.mp h).2
            rw [if_neg hl, if_neg hal]
            rfl

namespace MethodInfoBuilder

/-- What `generateMethodInfo` makes of one method; `none` when it throws. -/
def readMethod (method : Method) : Option (Option MethodInfo) :=
  (selectMethod method).bind fun selected => match selected with
    | some selected => (describeMethod selected).map some
    | none => some none

/-- The info of a method, if it gets one. -/
def methodInfo (method : Method) : Option MethodInfo := (readMethod method).join

/-- The info of a method is read from that method. -/
theorem methodInfo_cases {method : Method} {info : MethodInfo} (h : methodInfo method = some info) :
    ∃ action, describeMethod (method, action) = some info := by
  obtain ⟨selected, hselected, hinfo⟩ := Option.bind_eq_some_iff.mp (Option.join_eq_some_iff.mp h)
  cases selected with
  | none => exact nomatch Option.some.inj hinfo
  | some selected =>
      obtain ⟨info', hdescribe, hinfo⟩ := Option.map_eq_some_iff.mp hinfo
      obtain rfl := Option.some.inj hinfo
      rw [selectMethod] at hselected
      split at hselected
      · obtain ⟨action, _, haction⟩ := Option.map_eq_some_iff.mp hselected
        obtain ⟨_, _, rfl⟩ := Option.map_eq_some_iff.mp haction
        exact ⟨_, hdescribe⟩
      · exact nomatch Option.some.inj hselected

/-- The info of a method is about that method. -/
theorem methodInfo_method {method : Method} {info : MethodInfo}
    (h : methodInfo method = some info) : info.method = method := by
  obtain ⟨action, hdescribe⟩ := methodInfo_cases h
  obtain ⟨parameters, _, rfl⟩ := Option.map_eq_some_iff.mp hdescribe
  rfl

/-- The metadata of a parameter have its index. -/
theorem extractParamMetadata_parameterIndex {parameter : Parameter} {i : Nat} {p : ParamMetadata}
    (h : extractParamMetadata parameter i = some p) : p.parameterIndex = i := by
  rw [extractParamMetadata] at h
  repeat' split at h
  all_goals cases h
  all_goals rfl

/-- The metadata of the parameters are listed in order. -/
theorem extractParamMetadatas_parameterIndex {method : Method} {parameters : List ParamMetadata}
    (h : extractParamMetadatas method = some parameters) :
    parameters.map ParamMetadata.parameterIndex = List.range method.parameters.length := by
  rw [extractParamMetadatas, mapM_eq_ite] at h
  obtain ⟨hsome, hparameters⟩ := Option.ite_none_right_eq_some.mp h
  obtain rfl := Option.some.inj hparameters
  have hindex : ∀ p ∈ method.parameters.zipIdx,
      (extractParamMetadata p.1 p.2).map ParamMetadata.parameterIndex = some p.2 := by
    intro p hp
    obtain ⟨q, hq⟩ := Option.isSome_iff_exists.mp (hsome p hp)
    rw [hq, Option.map_some, extractParamMetadata_parameterIndex hq]
  rw [List.map_filterMap, List.filterMap_congr hindex, List.filterMap_eq_map', List.zipIdx_map_snd,
    List.range_eq_range']

/-- Sorting the metadata of the parameters changes nothing. -/
theorem describeMethod_eq (selected : Method × Action) :
    describeMethod selected = (extractParamMetadatas selected.1).map fun parameters =>
      { method := selected.1
        parameters := parameters
        uriPath := selected.1.path
        action := selected.2
        pathParamsVsUriIndex := parsePathParams selected.1.path
        asyncApi := selected.1.returnClass = .completableFuture } := by
  rw [describeMethod]
  cases hparameters : extractParamMetadatas selected.1 with
  | none => rfl
  | some parameters =>
      have hrange : (parameters.map ParamMetadata.parameterIndex).Pairwise (· ≤ ·) :=
        extractParamMetadatas_parameterIndex hparameters ▸ List.pairwise_le_range
      have hsorted : parameters.Pairwise fun p q =>
          decide (p.parameterIndex ≤ q.parameterIndex) = true :=
        (List.pairwise_map.mp hrange).imp decide_eq_true
      simp only [Option.map_some, List.mergeSort_of_pairwise hsorted]

/-- **The info of a method** has its path, the positions of the placeholders in it, and the metadata
of its parameters in order. -/
theorem methodInfo_spec {method : Method} {info : MethodInfo} (h : methodInfo method = some info) :
    info.uriPath = method.path ∧ info.pathParamsVsUriIndex = parsePathParams method.path ∧
      info.parameters.map ParamMetadata.parameterIndex = List.range method.parameters.length := by
  obtain ⟨action, hdescribe⟩ := methodInfo_cases h
  rw [describeMethod_eq] at hdescribe
  obtain ⟨parameters, hparameters, rfl⟩ := Option.map_eq_some_iff.mp hdescribe
  exact ⟨rfl, rfl, extractParamMetadatas_parameterIndex hparameters⟩

/-- Selecting all methods first makes no difference. -/
theorem generateMethodInfo_eq_mapM (methods : List Method) :
    generateMethodInfo methods = (methods.mapM readMethod).map List.reduceOption := by
  induction methods with
  | nil => rfl
  | cons method methods ih =>
      rw [generateMethodInfo] at ih ⊢
      rw [List.mapM_cons, List.mapM_cons, readMethod]
      cases selectMethod method with
      | none => rfl
      | some selected =>
          simp only [Option.bind_eq_bind, Option.bind_some, Option.pure_def, Option.bind_assoc,
            Option.map_bind, Function.comp_def, Option.map_some]
          cases selected with
          | none =>
              simp only [List.reduceOption_cons_of_none, ih, Option.bind_some]
              exact Option.map_eq_bind
          | some selected =>
              -- the method is described after the others have been selected
              simp only [List.reduceOption_cons_of_some, List.mapM_cons, Option.bind_eq_bind,
                Option.pure_def, Option.bind_map]
              rw [Option.bind_comm]
              refine congrArg (describeMethod selected).bind (funext fun info => ?_)
              rw [← Option.bind_assoc, ih, Option.bind_map]
              rfl

/-- **The infos of a list of methods** are those of its methods, unless one of them throws. -/
theorem generateMethodInfo_eq (methods : List Method) :
    generateMethodInfo methods =
      if ∀ method ∈ methods, (readMethod method).isSome then some (methods.filterMap methodInfo)
      else none := by
  rw [generateMethodInfo_eq_mapM, mapM_eq_ite]
  split
  · rw [Option.map_some, List.reduceOption, List.filterMap_filterMap]
    rfl
  · rfl

end MethodInfoBuilder

end XenonExt
