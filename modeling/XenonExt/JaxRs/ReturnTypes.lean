import XenonExt.JaxRs.MethodInfo

/-! # The result types of methods

A method of a contract interface returns its result, or a `CompletableFuture` of it.
`MethodInfoBuilder.parseReturnTypes` finds the class and the type to decode the result to in two
ways: for the one from the erased type and the form of the generic type, for the other from the form
of the type argument.

* **`TypeExpr`**: the types a method is declared with, `erase` and `reify` what reflection shows.
* **`parseReturnTypes`**: the class and the type of the result, and `operationDecoder` their use.
* **`parseReturnTypes_sync`, `parseReturnTypes_async`**: both by the form of the result type.
* **`resolvesAlike_iff`**: they agree except on arrays whose elements are generic. -/

namespace XenonExt

/-- A class object. -/
inductive JavaClass
  | void
  | primitive (name : Str)
  | named (name : Str)
  | array (component : JavaClass)
  deriving DecidableEq

/-- `java.lang.reflect.Type`. -/
inductive ReflectedType
  | classType (c : JavaClass)
  | parameterizedType (rawType : JavaClass) (actualTypeArguments : List ReflectedType)
  | typeVariable (name : Str) (erasure : JavaClass)
  | wildcardType (upperBound : ReflectedType)
  | genericArrayType (component : ReflectedType)

/-- `CompletableFuture.class`. -/
def completableFuture : JavaClass := .named "java.util.concurrent.CompletableFuture".toList

/-- `Object.class`. -/
def objectClass : JavaClass := .named "java.lang.Object".toList

/-! ## Type expressions -/

mutual

/-- **A type expression.** A type variable comes with the class that its leftmost bound erases to. -/
inductive TypeExpr
  | void
  | primitive (name : Str)
  | named (name : Str)
  | parameterized (rawType : Str) (arguments : List TypeArgument)
  | typeVariable (name erasure : Str)
  | array (component : TypeExpr)

/-- A type argument. -/
inductive TypeArgument
  | type (t : TypeExpr)
  | wildcard (upperBound : TypeExpr)

end

/-- The erasure of a type: what `Method.getReturnType` gives. -/
def TypeExpr.erase : TypeExpr → JavaClass
  | .void => .void
  | .primitive name => .primitive name
  | .named name => .named name
  | .parameterized rawType _ => .named rawType
  | .typeVariable _ erasure => .named erasure
  | .array component => .array component.erase

/-- The type of arrays of a type: an array of a class is a class. -/
def arrayType : ReflectedType → ReflectedType
  | .classType c => .classType (.array c)
  | component => .genericArrayType component

mutual

/-- A type as reflection shows it: what `Method.getGenericReturnType` gives. -/
def TypeExpr.reify : TypeExpr → ReflectedType
  | .void => .classType .void
  | .primitive name => .classType (.primitive name)
  | .named name => .classType (.named name)
  | .parameterized rawType arguments =>
    .parameterizedType (.named rawType) (TypeArgument.reifyAll arguments)
  | .typeVariable name erasure => .typeVariable name (.named erasure)
  | .array component => arrayType component.reify

/-- A type argument as reflection shows it. -/
def TypeArgument.reify : TypeArgument → ReflectedType
  | .type t => t.reify
  | .wildcard upperBound => .wildcardType upperBound.reify

/-- The type arguments as reflection shows them. -/
def TypeArgument.reifyAll : List TypeArgument → List ReflectedType
  | [] => []
  | argument :: arguments => argument.reify :: TypeArgument.reifyAll arguments

end

namespace TypeExpr

/-- A type without parameters and variables: a class, or an array of such. -/
def isPlain : TypeExpr → Bool
  | .void => true
  | .primitive _ => true
  | .named _ => true
  | .parameterized _ _ => false
  | .typeVariable _ _ => false
  | .array component => component.isPlain

/-- A plain type is reflected by its class. -/
theorem reify_of_isPlain : {t : TypeExpr} → t.isPlain = true → t.reify = .classType t.erase
  | .void, _ => by rw [reify, erase]
  | .primitive name, _ => by rw [reify, erase]
  | .named name, _ => by rw [reify, erase]
  | .array component, h => by
      have hcomponent : component.isPlain = true := h
      rw [reify, reify_of_isPlain hcomponent, arrayType, erase]

/-- Any other type is not reflected by a class. -/
theorem reify_ne_classType : {t : TypeExpr} → t.isPlain = false → ∀ c, t.reify ≠ .classType c
  | .parameterized rawType arguments, _, c => by
      rw [reify]
      exact fun h => ReflectedType.noConfusion h
  | .typeVariable name erasure, _, c => by
      rw [reify]
      exact fun h => ReflectedType.noConfusion h
  | .array component, h, c => by
      have hcomponent : component.isPlain = false := h
      have hne := reify_ne_classType hcomponent
      rw [reify]
      cases hreify : component.reify with
      | classType c' => exact absurd hreify (hne c')
      | _ => exact fun h => ReflectedType.noConfusion h

/-- An array of any other type is a generic array. -/
theorem reify_array {component : TypeExpr} (h : component.isPlain = false) :
    (array component).reify = .genericArrayType component.reify := by
  rw [reify]
  cases hreify : component.reify with
  | classType c => exact absurd hreify (reify_ne_classType h c)
  | _ => rfl

/-- The type `CompletableFuture<t>`. -/
def future (t : TypeExpr) : TypeExpr :=
  .parameterized "java.util.concurrent.CompletableFuture".toList [.type t]

/-- The types of results: neither primitive nor `void`, nor a future. -/
def IsResult : TypeExpr → Prop
  | .void => False
  | .primitive _ => False
  | .named name => JavaClass.named name ≠ completableFuture
  | .parameterized rawType _ => JavaClass.named rawType ≠ completableFuture
  | .typeVariable _ _ => True
  | .array _ => True

end TypeExpr

/-! ## Reading the result type of a method -/

/-- The return type of a method as reflection shows it. -/
structure ReflectedMethod where
  returnType : JavaClass
  genericReturnType : ReflectedType

/-- A method that is declared to return a type. -/
def TypeExpr.method (t : TypeExpr) : ReflectedMethod where
  returnType := t.erase
  genericReturnType := t.reify

/-- What `parseReturnTypes` sets in a `MethodInfo`. -/
structure ReturnInfo where
  asyncApi : Bool
  returnType : JavaClass
  type : ReflectedType

/-- The classes for type variables, by name. -/
abbrev TypeResolution := AList fun _ : Str => JavaClass

namespace MethodInfoBuilder

/-- `returnTypeResolution.getOrDefault(name, Object.class)`. -/
def resolve (returnTypeResolution : TypeResolution) (name : Str) : JavaClass :=
  (returnTypeResolution.lookup name).getD objectClass

/-- `handleReturnType`. -/
def handleReturnType (method : ReflectedMethod) (returnTypeResolution : TypeResolution) :
    ReturnInfo where
  asyncApi := false
  returnType := match method.genericReturnType with
    | .typeVariable name _ => resolve returnTypeResolution name
    | _ => method.returnType
  type := method.genericReturnType

/-- The class for the argument of a future. -/
def argumentClass (returnTypeResolution : TypeResolution) : ReflectedType → JavaClass
  | .parameterizedType rawType _ => rawType
  | .wildcardType _ => objectClass
  | .classType c => c
  | .typeVariable name _ => resolve returnTypeResolution name
  | .genericArrayType _ => objectClass

/-- `handleCompletableFutureReturnType`; `none` when it throws, without any type argument. -/
def handleCompletableFutureReturnType (method : ReflectedMethod)
    (returnTypeResolution : TypeResolution) : Option ReturnInfo :=
  match method.genericReturnType with
  | .parameterizedType _ typeArguments => typeArguments.head?.map fun typeArgument =>
    { asyncApi := true
      returnType := argumentClass returnTypeResolution typeArgument
      type := typeArgument }
  | genericReturnType => some
    { asyncApi := true
      returnType := objectClass
      type := genericReturnType }

/-- **`parseReturnTypes`**; `none` when it throws. -/
def parseReturnTypes (method : ReflectedMethod) (returnTypeResolution : TypeResolution) :
    Option ReturnInfo :=
  if method.returnType = completableFuture then
    handleCompletableFutureReturnType method returnTypeResolution
  else some (handleReturnType method returnTypeResolution)

end MethodInfoBuilder

/-! ## Decoding a response -/

/-- The functions of Xenon that read the body of a response of type `R`; each may raise. -/
structure BodyReader (E R O : Type) where
  toJson : R → Except E Str
  fromJson : Str → ReflectedType → Except E O
  getBody : R → JavaClass → Except E O

/-- **`operationDecoder`**: a parameterized type is decoded as such, any other by its class. -/
def operationDecoder {E R O : Type} (reader : BodyReader E R O) (completedOp : R)
    (httpMethod : ReturnInfo) : Except E O :=
  match httpMethod.type with
  | .parameterizedType _ _ => do
    let json ← reader.toJson completedOp
    reader.fromJson json httpMethod.type
  | _ => reader.getBody completedOp httpMethod.returnType

/-- The decoder only looks at the type and the class of the result. -/
theorem operationDecoder_congr {E R O : Type} (reader : BodyReader E R O) (completedOp : R)
    {info info' : ReturnInfo} (htype : info.type = info'.type)
    (hclass : info.returnType = info'.returnType) :
    operationDecoder reader completedOp info = operationDecoder reader completedOp info' := by
  rw [operationDecoder, operationDecoder, htype, hclass]

/-! ## The two ways agree -/

namespace TypeExpr

variable (resolution : TypeResolution)

/-- A method that returns a future of a type: the class is that of the argument. -/
theorem parseReturnTypes_async (t : TypeExpr) :
    MethodInfoBuilder.parseReturnTypes t.future.method resolution = some
      ⟨true, MethodInfoBuilder.argumentClass resolution t.reify, t.reify⟩ := by
  have hfuture : t.future.method.returnType = completableFuture := by
    rw [method, future, erase]
    rfl
  have hgeneric : t.future.method.genericReturnType =
      .parameterizedType completableFuture [t.reify] := by
    rw [method, future, reify, TypeArgument.reifyAll, TypeArgument.reifyAll, TypeArgument.reify]
    rfl
  rw [MethodInfoBuilder.parseReturnTypes, if_pos hfuture,
    MethodInfoBuilder.handleCompletableFutureReturnType, hgeneric]
  rfl

/-- A method that returns a type which does not erase to a future: the class is that of the type, or
the one for the type variable. -/
theorem parseReturnTypes_sync {t : TypeExpr} (h : t.erase ≠ completableFuture) :
    MethodInfoBuilder.parseReturnTypes t.method resolution =
      some (MethodInfoBuilder.handleReturnType t.method resolution) :=
  if_neg h

/-- **A result type is resolved alike** for a method that returns it and for one that returns a
future of it: the type and the class are the same, and responses are decoded alike. -/
def ResolvesAlike (t : TypeExpr) : Prop :=
  ∃ sync async, MethodInfoBuilder.parseReturnTypes t.method resolution = some sync ∧
    MethodInfoBuilder.parseReturnTypes t.future.method resolution = some async ∧
    sync.type = async.type ∧ sync.returnType = async.returnType ∧
    ∀ (E R O : Type) (reader : BodyReader E R O) (completedOp : R),
      operationDecoder reader completedOp sync = operationDecoder reader completedOp async

/-- **The types that are resolved alike**: all but arrays whose elements are generic, and variables
that erase to a future and are resolved to something else than `Object`. -/
def Resolvable : TypeExpr → Prop
  | .array component => component.isPlain = true
  | .typeVariable name erasure => JavaClass.named erasure = completableFuture →
    MethodInfoBuilder.resolve resolution name = objectClass
  | _ => True

/-- What the method that returns the type itself has to give. -/
theorem resolvesAlike_iff_of_sync {t : TypeExpr} {sync : ReturnInfo}
    (hsync : MethodInfoBuilder.parseReturnTypes t.method resolution = some sync)
    (htype : sync.type = t.reify) :
    t.ResolvesAlike resolution ↔
      sync.returnType = MethodInfoBuilder.argumentClass resolution t.reify := by
  have hasync := parseReturnTypes_async resolution t
  constructor
  · rintro ⟨sync', async, hsync', hasync', -, hclass, -⟩
    rw [hsync] at hsync'
    rw [hasync] at hasync'
    cases hsync'
    cases hasync'
    exact hclass
  · intro hclass
    exact ⟨sync, _, hsync, hasync, htype, hclass, fun E R O reader completedOp =>
      operationDecoder_congr reader completedOp htype hclass⟩

/-- The same, for a type that does not erase to a future. -/
theorem resolvesAlike_iff_of_erase {t : TypeExpr} (h : t.erase ≠ completableFuture) :
    t.ResolvesAlike resolution ↔
      (MethodInfoBuilder.handleReturnType t.method resolution).returnType =
        MethodInfoBuilder.argumentClass resolution t.reify :=
  resolvesAlike_iff_of_sync resolution (parseReturnTypes_sync resolution h) rfl

/-- **Synchronous and asynchronous methods resolve their result type alike**, unless the type is an
array of parameterized types or type variables, for which the method with the future falls back to
`Object`, or a variable that stands for a future itself. -/
theorem resolvesAlike_iff {t : TypeExpr} (ht : t.IsResult) :
    t.ResolvesAlike resolution ↔ t.Resolvable resolution := by
  cases t with
  | void => cases ht
  | primitive name => cases ht
  | named name =>
      rw [resolvesAlike_iff_of_erase resolution (by rw [erase]; exact ht)]
      refine iff_of_true ?_ trivial
      rw [MethodInfoBuilder.handleReturnType, method, reify, erase]
      rfl
  | parameterized rawType arguments =>
      rw [resolvesAlike_iff_of_erase resolution (by rw [erase]; exact ht)]
      refine iff_of_true ?_ trivial
      rw [MethodInfoBuilder.handleReturnType, method, reify, erase]
      rfl
  | typeVariable name erasure =>
      by_cases herasure : JavaClass.named erasure = completableFuture
      · -- the method is taken for one that returns a future without a type argument
        have hsync : MethodInfoBuilder.parseReturnTypes (typeVariable name erasure).method
            resolution = some ⟨true, objectClass, (typeVariable name erasure).reify⟩ := by
          have hfuture : (typeVariable name erasure).method.returnType = completableFuture := by
            rw [method, erase]
            exact herasure
          rw [MethodInfoBuilder.parseReturnTypes, if_pos hfuture,
            MethodInfoBuilder.handleCompletableFutureReturnType, method, reify]
        rw [resolvesAlike_iff_of_sync resolution hsync rfl, reify]
        exact ⟨fun h _ => h.symm, fun h => (h herasure).symm⟩
      · rw [resolvesAlike_iff_of_erase resolution (by rw [erase]; exact herasure)]
        refine iff_of_true ?_ fun h => absurd h herasure
        rw [MethodInfoBuilder.handleReturnType, method, reify]
        rfl
  | array component =>
      have herase : (array component).erase ≠ completableFuture := by
        rw [erase]
        exact fun h => JavaClass.noConfusion h
      rw [resolvesAlike_iff_of_erase resolution herase]
      cases hcomponent : component.isPlain with
      | true =>
          refine iff_of_true ?_ hcomponent
          have hreify : (array component).reify = .classType (array component).erase :=
            reify_of_isPlain hcomponent
          rw [MethodInfoBuilder.handleReturnType, method, hreify]
          rfl
      | false =>
          -- the erased type is an array, and the argument of the future has no case of its own
          refine iff_of_false ?_ fun h => Bool.false_ne_true (hcomponent.symm.trans h)
          rw [MethodInfoBuilder.handleReturnType, method, reify_array hcomponent, erase]
          exact fun h => JavaClass.noConfusion h

/-- The type `List<String>[]`. -/
def arrayOfLists : TypeExpr :=
  .array (.parameterized "java.util.List".toList [.type (.named "java.lang.String".toList)])

/-- **Arrays of lists are resolved differently**: for `List<String>[]` the class is that of arrays of
lists in a method that returns it, and `Object` in one that returns a future of it. -/
theorem arrayOfLists_not_resolvesAlike :
    (MethodInfoBuilder.parseReturnTypes arrayOfLists.method ∅).map ReturnInfo.returnType =
        some (.array (.named "java.util.List".toList)) ∧
      (MethodInfoBuilder.parseReturnTypes arrayOfLists.future.method ∅).map ReturnInfo.returnType =
        some objectClass ∧
      ¬ arrayOfLists.ResolvesAlike ∅ := by
  have hsync : (MethodInfoBuilder.parseReturnTypes arrayOfLists.method ∅).map
      ReturnInfo.returnType = some (.array (.named "java.util.List".toList)) := by
    rfl
  have hasync : (MethodInfoBuilder.parseReturnTypes arrayOfLists.future.method ∅).map
      ReturnInfo.returnType = some objectClass := by
    rfl
  refine ⟨hsync, hasync, ?_⟩
  rintro ⟨sync, async, hsync', hasync', -, hclass, -⟩
  rw [hsync'] at hsync
  rw [hasync'] at hasync
  have heq : JavaClass.array (.named "java.util.List".toList) = objectClass :=
    Option.some.inj (hsync.symm.trans ((congrArg some hclass).trans hasync))
  exact JavaClass.noConfusion heq

/-- Maps from strings to lists of a variable are resolved alike. -/
theorem resolvesAlike_map :
    (parameterized "java.util.Map".toList [.type (.named "java.lang.String".toList),
      .type (.parameterized "java.util.List".toList
        [.type (.typeVariable "T".toList "java.lang.Object".toList)])]).ResolvesAlike ∅ := by
  refine (resolvesAlike_iff ∅ ?_).mpr trivial
  show JavaClass.named "java.util.Map".toList ≠ completableFuture
  decide

end TypeExpr

end XenonExt
