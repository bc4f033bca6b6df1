import Mathlib.Data.List.AList
import XenonExt.Client.StatefulServiceContract

/-! # Feature flags: the store and the cache

`FeatureServiceImpl` keeps features in a persistent store (`FeatureDao`) under an id formed from
group and name, and `FeaturesCache` keeps the copies that continuous-query notifications deliver
under the same id. The store behaves as a map keyed by the document id: a factory refuses a second
document under an id, and a patch of a missing document fails. Lookups and patches of the store ask
for a document through `StatefulServiceContract`, which reads the id as a replacement and puts the
result into the path of an operation; `reach` is the document to which Xenon brings an operation with
a text in its path, if there is one.

* **`onStore` / `onCache`**: what an operation does to the entry of one id, as a function of that
  entry alone.
* **`step_store_lookup` / `step_cache_lookup`**: every operation acts entry by entry. -/

namespace XenonExt

/-- `Feature.Strategy`. -/
inductive Strategy
  | default
  deriving DecidableEq, Repr

/-- **A feature**: its fields, and the fields of `ServiceDocument` that the code reads or writes. -/
structure Feature where
  documentSelfLink : JString
  documentKind : JString
  documentUpdateAction : JString
  name : JString
  group : JString
  description : JString
  enable : Bool
  strategy : Option Strategy
  deriving DecidableEq, Repr

/-- The entries of a store or a cache. -/
abbrev FeatureMap := AList fun _ : Str => Feature

namespace Feature

/-- `new Feature()`. -/
def new : Feature where
  documentSelfLink := none
  documentKind := none
  documentUpdateAction := none
  name := none
  group := none
  description := none
  enable := false
  strategy := none

/-- `formId`. -/
def formId (group name : JString) : Str := text group ++ "::".toList ++ text name

/-- The kind of feature documents. -/
def kind : Str := "com:tteky:xenonext:util:feature:Feature".toList

/-- The id of a feature. -/
def id (f : Feature) : Str := formId f.group f.name

end Feature

/-! ## The store -/

namespace FeatureDao

/-- `handleStart`: default the strategy; `validateState` refuses a feature without a required
field. -/
def handleStart (f : Feature) : Option Feature :=
  let f := { f with strategy := some (f.strategy.getD .default) }
  if f.name = none ∨ f.group = none then none else some f

/-- `handlePatch`: take over the flag, and the strategy when the patch has one. -/
def handlePatch (current recv : Feature) : Feature :=
  { current with enable := recv.enable, strategy := recv.strategy.or current.strategy }

end FeatureDao

namespace FeatureServiceImpl

/-- What a post makes of the entry it is for. -/
def postEntry (f : Feature) : Option Feature → Option Feature
  | some current => some current
  | none => FeatureDao.handleStart { f with documentSelfLink := some f.id }

/-- What a patch makes of the entry it is for. -/
def patchEntry (recv : Feature) (current : Option Feature) : Option Feature :=
  current.map fun current => FeatureDao.handlePatch current recv

/-- Replace the entry of an id, if there is one to store. -/
def putEntry (m : FeatureMap) (id : Str) : Option Feature → FeatureMap
  | some f => m.insert id f
  | none => m

/-- `newFeature`: a post under the id of the feature. -/
def newFeature (store : FeatureMap) (f : Feature) : FeatureMap :=
  putEntry store f.id (postEntry f (store.lookup f.id))

/-- The id that stands in the path of a request; `none` when the request throws. -/
def requestedId (group name : Str) : Option Str :=
  StatefulServiceContract.requestedId (Feature.formId (some group) (some name))

section Requests

variable (reach : Str → Option Str)

/-- The id of the document that is asked for; `none` when the request throws or is for no document. -/
def askedId (group name : Str) : Option Str := (requestedId group name).bind reach

/-- `enableFeature(group, name, isEnabled)`: a patch with nothing but the flag. -/
def enableFeature (store : FeatureMap) (group name : Str) (isEnabled : Bool) : FeatureMap :=
  match askedId reach group name with
  | some id =>
    putEntry store id (patchEntry { Feature.new with enable := isEnabled } (store.lookup id))
  | none => store

/-- `findByGroupAndName`: `none` when the request throws or there is no such document. -/
def findByGroupAndName (store : FeatureMap) (group name : Str) : Option Feature :=
  (askedId reach group name).bind fun id => store.lookup id

end Requests

end FeatureServiceImpl

/-! ## The cache -/

namespace FeaturesCache

/-- The placeholder `findFeature` makes for a feature the cache does not have. -/
def placeholder (group name : Str) : Feature :=
  { Feature.new with group := some group, name := some name }

/-- `findFeature`: `computeIfAbsent` with a placeholder. -/
def findFeature (cache : FeatureMap) (group name : Str) : Feature × FeatureMap :=
  let id := Feature.formId (some group) (some name)
  match cache.lookup id with
  | some f => (f, cache)
  | none => (placeholder group name, cache.insert id (placeholder group name))

/-- `handleFeatureUpdate` for an update action. -/
def handleFeatureUpdate (cache : FeatureMap) (f : Feature) (action : Str) : FeatureMap :=
  if action = "DELETE".toList then cache.erase f.id else cache.insert f.id f

/-- The loop of `handleFeatureUpdates` over the documents of a notification. Documents of another
kind are skipped; a document without a kind, or a feature without an update action, ends the loop
with an exception. -/
def handleFeatureUpdates (cache : FeatureMap) : List Feature → FeatureMap
  | [] => cache
  | f :: documents => match f.documentKind with
    | none => cache
    | some kind =>
      if kind = Feature.kind then
        match f.documentUpdateAction with
        | none => cache
        | some action => handleFeatureUpdates (handleFeatureUpdate cache f action) documents
      else handleFeatureUpdates cache documents

end FeaturesCache

/-! ## Operations on both -/

/-- The store and the cache. -/
structure FeatureSystem where
  store : FeatureMap
  cache : FeatureMap

/-- No feature stored, none cached. -/
def FeatureSystem.empty : FeatureSystem := ⟨∅, ∅⟩

/-- The operations on features, and the notifications the cache receives. -/
inductive FeatureOp
  | newFeature (f : Feature)
  | enableFeature (group name : Str)
  | disableFeature (group name : Str)
  | findByGroupAndName (group name : Str)
  | findFeature (group name : Str)
  | notify (documents : List Feature)

namespace FeatureOp

section Steps

variable (reach : Str → Option Str)

/-- What an operation changes. -/
def step (s : FeatureSystem) : FeatureOp → FeatureSystem
  | .newFeature f => { s with store := FeatureServiceImpl.newFeature s.store f }
  | .enableFeature group name =>
    { s with store := FeatureServiceImpl.enableFeature reach s.store group name true }
  | .disableFeature group name =>
    { s with store := FeatureServiceImpl.enableFeature reach s.store group name false }
  | .findByGroupAndName _ _ => s
  | .findFeature group name => { s with cache := (FeaturesCache.findFeature s.cache group name).2 }
  | .notify documents => { s with cache := FeaturesCache.handleFeatureUpdates s.cache documents }

/-- What a lookup of `(group, name)` answers; other operations are not lookups of that pair. -/
def answer (group name : Str) (s : FeatureSystem) : FeatureOp → Option (Option Feature)
  | .findByGroupAndName g n =>
    if g = group ∧ n = name then some (FeatureServiceImpl.findByGroupAndName reach s.store g n)
    else none
  | .findFeature g n =>
    if g = group ∧ n = name then some (some (FeaturesCache.findFeature s.cache g n).1) else none
  | _ => none

/-- Run a sequence of operations. -/
def run (s : FeatureSystem) (ops : List FeatureOp) : FeatureSystem := ops.foldl (step reach) s

/-- **The answers to the lookups of `(group, name)`** along a sequence of operations. -/
def answers (group name : Str) (s : FeatureSystem) : List FeatureOp → List (Option Feature)
  | [] => []
  | op :: ops => (op.answer reach group name s).toList ++ answers group name (step reach s op) ops

/-! ## Operations act entry by entry -/

/-- What an operation does to the stored entry of an id. -/
def onStore (id : Str) : FeatureOp → Option Feature → Option Feature
  | .newFeature f, entry => if f.id = id then FeatureServiceImpl.postEntry f entry else entry
  | .enableFeature group name, entry =>
    if FeatureServiceImpl.askedId reach group name = some id then
      FeatureServiceImpl.patchEntry { Feature.new with enable := true } entry
    else entry
  | .disableFeature group name, entry =>
    if FeatureServiceImpl.askedId reach group name = some id then
      FeatureServiceImpl.patchEntry { Feature.new with enable := false } entry
    else entry
  | _, entry => entry

end Steps

/-- What the documents of a notification do to the cached entry of an id. -/
def onCacheNotified (id : Str) : List Feature → Option Feature → Option Feature
  | [], entry => entry
  | f :: documents, entry => match f.documentKind with
    | none => entry
    | some kind =>
      if kind = Feature.kind then
        match f.documentUpdateAction with
        | none => entry
        | some action => onCacheNotified id documents
          (if f.id = id then if action = "DELETE".toList then none else some f else entry)
      else onCacheNotified id documents entry

/-- What an operation does to the cached entry of an id. -/
def onCache (id : Str) : FeatureOp → Option Feature → Option Feature
  | .findFeature group name, entry =>
    if Feature.formId (some group) (some name) = id then
      some (entry.getD (FeaturesCache.placeholder group name))
    else entry
  | .notify documents, entry => onCacheNotified id documents entry
  | _, entry => entry

end FeatureOp

/-- Replacing the entry of one id, read at another. -/
theorem lookup_putEntry (m : FeatureMap) (id id' : Str) (f : Option Feature) :
    (FeatureServiceImpl.putEntry m id f).lookup id' =
      if id = id' then f.or (m.lookup id') else m.lookup id' := by
  cases f with
  | none => simp [FeatureServiceImpl.putEntry]
  | some f =>
      by_cases h : id = id'
      · subst h
        simp [FeatureServiceImpl.putEntry]
      · have hne : id' ≠ id := fun h' => h h'.symm
        simp [FeatureServiceImpl.putEntry, AList.lookup_insert_ne hne, h]

/-- A notified document acts on the cached entry of its own id only. -/
theorem lookup_handleFeatureUpdate (cache : FeatureMap) (f : Feature) (action id : Str) :
    (FeaturesCache.handleFeatureUpdate cache f action).lookup id =
      if f.id = id then if action = "DELETE".toList then none else some f
      else cache.lookup id := by
  unfold FeaturesCache.handleFeatureUpdate
  by_cases h : f.id = id
  · subst h
    rw [if_pos rfl]
    by_cases ha : action = "DELETE".toList
    · rw [if_pos ha, if_pos ha, AList.lookup_erase]
    · rw [if_neg ha, if_neg ha, AList.lookup_insert]
  · have hne : id ≠ f.id := fun h' => h h'.symm
    rw [if_neg h]
    by_cases ha : action = "DELETE".toList
    · rw [if_pos ha, AList.lookup_erase_ne hne]
    · rw [if_neg ha, AList.lookup_insert_ne hne]

/-- The documents of a notification act entry by entry. -/
theorem lookup_handleFeatureUpdates (cache : FeatureMap) (documents : List Feature) (id : Str) :
    (FeaturesCache.handleFeatureUpdates cache documents).lookup id =
      FeatureOp.onCacheNotified id documents (cache.lookup id) := by
  induction documents generalizing cache with
  | nil => rfl
  | cons f documents ih =>
      unfold FeaturesCache.handleFeatureUpdates FeatureOp.onCacheNotified
      cases f.documentKind with
      | none => rfl
      | some kind =>
          by_cases hk : kind = Feature.kind
          · simp only [if_pos hk]
            cases f.documentUpdateAction with
            | none => rfl
            | some action => simp only [ih, lookup_handleFeatureUpdate]
          · simp only [if_neg hk, ih]

namespace FeatureOp

/-- **Every operation acts on the store entry by entry.** -/
theorem step_store_lookup (reach : Str → Option Str) (s : FeatureSystem) (op : FeatureOp) (id : Str) :
    (step reach s op).store.lookup id = op.onStore reach id (s.store.lookup id) := by
  cases op with
  | newFeature f =>
      simp only [step, FeatureServiceImpl.newFeature, lookup_putEntry, onStore]
      -- a new feature is stored unless its entry exists
      by_cases h : f.id = id
      · subst h
        cases s.store.lookup f.id <;> simp [FeatureServiceImpl.postEntry]
      · simp [h]
  | enableFeature group name | disableFeature group name =>
      simp only [step, FeatureServiceImpl.enableFeature, onStore]
      cases FeatureServiceImpl.askedId reach group name with
      | none => rfl
      | some id' =>
          simp only [lookup_putEntry, Option.some.injEq]
          by_cases h : id' = id
          · subst h
            cases s.store.lookup _ <;> simp [FeatureServiceImpl.patchEntry]
          · simp [h]
  | findByGroupAndName group name => rfl
  | findFeature group name => rfl
  | notify documents => rfl

/-- **Every operation acts on the cache entry by entry.** -/
theorem step_cache_lookup (reach : Str → Option Str) (s : FeatureSystem) (op : FeatureOp) (id : Str) :
    (step reach s op).cache.lookup id = op.onCache id (s.cache.lookup id) := by
  cases op with
  | findFeature group name =>
      simp only [step, FeaturesCache.findFeature, onCache]
      by_cases h : Feature.formId (some group) (some name) = id
      · subst h
        cases hl : s.cache.lookup (Feature.formId (some group) (some name)) <;> simp [hl]
      · have hne : id ≠ Feature.formId (some group) (some name) := fun h' => h h'.symm
        cases hl : s.cache.lookup (Feature.formId (some group) (some name)) <;>
          simp [h, AList.lookup_insert_ne hne]
  | notify documents => exact lookup_handleFeatureUpdates s.cache documents id
  | _ => rfl

end FeatureOp

end XenonExt
