import Mathlib.Data.Int.Order.Basic
import XenonExt.Effects.LastWrite
import XenonExt.Feature.Lookups

/-! # Versions that arrive late

The store commits every create, update and delete of a feature under a `documentVersion`, and the
notifications carry the committed documents to the cache. `handleFeatureUpdate` puts and removes
whatever arrives, without a look at its version.

* **`Converges`**: the cache ends up with the highest version, and never goes back to an older one.
* **`ofStore_cached`**: what is cached of a feature is what the version handled last left.
* **`converges_iff`**: the cache converges exactly when no notification is stale. -/

namespace XenonExt

/-- **A committed version** of a document. -/
structure Committed where
  documentVersion : Int
  document : Feature
  deriving DecidableEq, Repr

/-- What reaches the cache: a lookup, or a notification with a batch of committed documents. -/
inductive CacheEvent
  | findFeature (group name : Str)
  | notify (documents : List Committed)

namespace CacheEvent

/-- The operation on the cache: the handler reads the documents, and no version. -/
def op : CacheEvent → FeatureOp
  | .findFeature group name => .findFeature group name
  | .notify documents => .notify (documents.map (·.document))

/-- The batches of the notifications are as they are delivered. -/
def IsDelivered : CacheEvent → Prop
  | .findFeature _ _ => True
  | .notify documents => FeatureOp.Delivered (documents.map (·.document))

/-- The versions of the feature with an id that an event brings. -/
def versions (id : Str) : CacheEvent → List Committed
  | .findFeature _ _ => []
  | .notify documents => documents.filter fun d =>
    d.document.documentKind = some Feature.kind ∧ d.document.id = id

/-- **The handled versions** of the feature with an id, in the order in which they were handled. -/
def handledVersions (id : Str) (events : List CacheEvent) : List Committed :=
  events.flatMap (versions id)

/-- The cached entry of an id after a sequence of events, none of which is a request to the store. -/
def cached (id : Str) (events : List CacheEvent) : Option Feature :=
  (FeatureOp.run some .empty (events.map op)).cache.lookup id

/-- The entry of an id is the one of a version: its document, or after a delete nothing or a disabled
placeholder. -/
def IsEntryOf (entry : Option Feature) (d : Committed) : Prop :=
  if d.document.IsDelete then ∀ f ∈ entry, f.IsPlaceholder else entry = some d.document

/-- **The cache converges** for the feature with an id along a sequence of events: once all versions
have been handled the cached entry is the one of the highest version, and a notification of an older
version that comes after a newer one does not change what is cached of the feature. -/
structure Converges (id : Str) (events : List CacheEvent) : Prop where
  highest : ∀ d ∈ handledVersions id events,
    (∀ d' ∈ handledVersions id events, d'.documentVersion ≤ d.documentVersion) →
      IsEntryOf (cached id events) d
  late_ignored : ∀ before event after, events = before ++ event :: after →
    (∃ late ∈ versions id event, ∃ newer ∈ handledVersions id before,
      late.documentVersion < newer.documentVersion) →
    Feature.ofStore (cached id (before ++ [event])) = Feature.ofStore (cached id before)

/-! ## What is cached -/

theorem handledVersions_append (id : Str) (events events' : List CacheEvent) :
    handledVersions id (events ++ events') = handledVersions id events ++ handledVersions id events' :=
  List.flatMap_append

theorem handledVersions_singleton (id : Str) (e : CacheEvent) :
    handledVersions id [e] = versions id e := by
  rw [handledVersions, List.flatMap_cons, List.flatMap_nil, List.append_nil]

/-- The versions of a feature come in documents of the kind of features. -/
theorem documentKind_of_mem {id : Str} {events : List CacheEvent} {d : Committed}
    (hd : d ∈ handledVersions id events) : d.document.documentKind = some Feature.kind := by
  obtain ⟨e, -, hde⟩ := List.mem_flatMap.mp hd
  cases e with
  | findFeature group name => exact absurd hde List.not_mem_nil
  | notify documents => exact (of_decide_eq_true (List.mem_filter.mp hde).2).1

/-- The documents that the cache handles are those of the versions. -/
theorem handledAt_op (id : Str) (e : CacheEvent) :
    FeatureOp.handledAt id [e.op] = (versions id e).map (·.document) := by
  cases e with
  | findFeature group name => rfl
  | notify documents =>
      simp only [FeatureOp.handledAt, FeatureOp.notified, op, versions, List.flatMap_cons,
        List.flatMap_nil, List.append_nil, List.filter_filter, List.filter_map]
      congr 2
      funext d
      simp [Bool.and_comm]

/-- A delivered event brings at most one version of a feature. -/
theorem length_versions_le (id : Str) {e : CacheEvent} (he : e.IsDelivered) :
    (versions id e).length ≤ 1 := by
  cases e with
  | findFeature group name => exact Nat.zero_le 1
  | notify documents =>
      have hhandled := handledAt_op id (.notify documents)
      rw [← List.length_map (·.document), ← hhandled]
      exact FeatureOp.Delivered.length_handledAt_le he id

/-- **A delivered event leaves of a feature what its version leaves**, if it brings one. -/
theorem ofStore_onCache (id : Str) {e : CacheEvent} (he : e.IsDelivered) (entry : Option Feature) :
    Feature.ofStore (e.op.onCache id entry) =
      ((versions id e).getLast?.map (·.document.outcome)).getD (Feature.ofStore entry) := by
  cases e with
  | findFeature group name =>
      simp only [op, FeatureOp.onCache]
      split
      · -- a lookup puts a placeholder where nothing is
        cases entry <;> rfl
      · rfl
  | notify documents =>
      have hhandled := handledAt_op id (.notify documents)
      simp only [op] at hhandled
      simp only [op, FeatureOp.onCache]
      rw [FeatureOp.onCacheNotified_delivered id he.kind he.action, hhandled, List.getLast?_map]
      cases hlast : (versions id (.notify documents)).getLast? with
      | none => rfl
      | some d =>
          have hmem : d ∈ handledVersions id [.notify documents] := by
            rw [handledVersions_singleton]
            exact List.mem_of_getLast? hlast
          exact Feature.ofStore_outcome (documentKind_of_mem hmem)

/-- What is cached after one more event. -/
theorem cached_concat (id : Str) (events : List CacheEvent) (e : CacheEvent) :
    cached id (events ++ [e]) = e.op.onCache id (cached id events) := by
  rw [cached, List.map_append, List.map_singleton, FeatureOp.run, List.foldl_concat,
    FeatureOp.step_cache_lookup]
  rfl

/-- **What is cached of a feature is what the version handled last left.** -/
theorem ofStore_cached (id : Str) {events : List CacheEvent}
    (hevents : ∀ e ∈ events, e.IsDelivered) :
    Feature.ofStore (cached id events) =
      (handledVersions id events).getLast?.bind fun d => d.document.outcome := by
  induction events using List.reverseRecOn with
  | nil => rfl
  | append_singleton events e ih =>
      rw [cached_concat, ofStore_onCache id (hevents e List.mem_concat_self),
        ih fun e he => hevents e (List.mem_append_left _ he), handledVersions_append,
        handledVersions_singleton, List.getLast?_append]
      cases (versions id e).getLast? <;> rfl

/-- **A cached feature without a kind is a placeholder**, whatever was handled. -/
theorem isPlaceholder_of_cached {id : Str} {events : List CacheEvent} {f : Feature}
    (h : cached id events = some f) (hkind : f.documentKind = none) : f.IsPlaceholder := by
  induction events using List.reverseRecOn generalizing f with
  | nil => exact absurd h.symm (Option.some_ne_none f)
  | append_singleton events e ih =>
      rw [cached_concat] at h
      cases e with
      | findFeature group name =>
          simp only [op, FeatureOp.onCache] at h
          split at h
          · cases hcached : cached id events with
            | none =>
                rw [hcached] at h
                obtain rfl := Option.some.inj h
                exact ⟨group, name, rfl⟩
            | some f' =>
                rw [hcached] at h
                obtain rfl := Option.some.inj h
                exact ih hcached hkind
          · exact ih h hkind
      | notify documents =>
          rcases FeatureOp.onCacheNotified_eq_some h with hcached | hhandled
          · exact ih hcached hkind
          · rw [hhandled] at hkind
            exact absurd hkind (Option.some_ne_none _)

/-- An entry that has what a version left is the entry of that version. -/
theorem isEntryOf_of_ofStore {id : Str} {events : List CacheEvent} {d : Committed}
    (h : Feature.ofStore (cached id events) = d.document.outcome) :
    IsEntryOf (cached id events) d := by
  unfold IsEntryOf
  unfold Feature.outcome at h
  by_cases hdelete : d.document.IsDelete
  · rw [if_pos hdelete] at h ⊢
    intro f hf
    refine isPlaceholder_of_cached hf ?_
    rw [Option.mem_def.mp hf, Feature.ofStore, Option.filter_eq_none_iff] at h
    simpa using h f rfl
  · rw [if_neg hdelete] at h ⊢
    exact (Option.filter_eq_some_iff.mp h).1

/-! ## When the cache converges -/

/-- **The cache converges exactly when no notification is stale**: every notification of a version
that is handled after one of a higher version leaves what the one handled right before it left. -/
theorem converges_iff (id : Str) (events : List CacheEvent) (hevents : ∀ e ∈ events, e.IsDelivered)
    (hversions : ((handledVersions id events).map (·.documentVersion)).Nodup) :
    Converges id events ↔
      NoStaleWrite (·.documentVersion) (·.document.outcome) (handledVersions id events) := by
  have hbefore : ∀ before after, events = before ++ after → ∀ e ∈ before, e.IsDelivered :=
    fun before after hsplit e he => hevents e (hsplit ▸ List.mem_append_left after he)
  constructor
  · intro hconverges earlier last late after hsplit hnewer
    -- the event that brought the late version
    have hlist : events.flatMap (versions id) = (earlier ++ [last]) ++ late :: after := by
      rw [← handledVersions, hsplit, List.append_assoc, List.singleton_append]
    obtain ⟨before, event, rest, rfl, hearlier, hlate⟩ :=
      exists_flatMap_split (fun e he => length_versions_le id (hevents e he)) hlist
    have hsame := hconverges.late_ignored before event rest rfl
      ⟨late, hlate ▸ List.mem_singleton_self late, by rwa [handledVersions, hearlier]⟩
    have hthen : handledVersions id (before ++ [event]) = earlier ++ [last, late] := by
      rw [handledVersions_append, handledVersions_singleton, hlate, handledVersions, hearlier,
        List.append_assoc, List.singleton_append]
    rw [ofStore_cached id (hbefore (before ++ [event]) rest (by simp)),
      ofStore_cached id (hbefore before _ rfl), hthen, handledVersions, hearlier] at hsame
    simpa only [List.getLast?_append_cons, List.getLast?_cons_cons, List.getLast?_singleton,
      Option.bind_some] using hsame
  · intro hnostale
    refine ⟨fun d hd hmax => ?_, ?_⟩
    · have hlast := hnostale.map_getLast? hversions hd hmax
      obtain ⟨last, hlast, houtcome⟩ := Option.map_eq_some_iff.mp hlast
      refine isEntryOf_of_ofStore ?_
      rw [ofStore_cached id hevents, hlast, Option.bind_some, houtcome]
    · rintro before event after rfl ⟨late, hlate, newer, hnewer, hlt⟩
      -- the event brings the late version only, and some version was handled right before it
      have hevent : versions id event = [late] := by
        obtain ⟨d, hd⟩ := List.length_eq_one_iff.mp (le_antisymm
          (length_versions_le id (hevents event (by simp))) (List.length_pos_of_mem hlate))
        rw [hd] at hlate ⊢
        rw [List.mem_singleton.mp hlate]
      obtain ⟨last, hlast⟩ : ∃ last, (handledVersions id before).getLast? = some last :=
        Option.isSome_iff_exists.mp (List.getLast?_isSome.mpr (List.ne_nil_of_mem hnewer))
      obtain ⟨earlier, hearlier⟩ := List.getLast?_eq_some_iff.mp hlast
      have hsame : late.document.outcome = last.document.outcome := by
        refine hnostale earlier last late (handledVersions id after) ?_ ⟨newer, hearlier ▸ hnewer, hlt⟩
        rw [handledVersions_append, hearlier, ← List.singleton_append (l := after),
          handledVersions_append id [event], handledVersions_singleton, hevent]
        simp only [List.append_assoc, List.singleton_append]
      rw [ofStore_cached id (hbefore (before ++ [event]) after (by simp)),
        ofStore_cached id (hbefore before _ rfl), handledVersions_append, handledVersions_singleton,
        hevent, List.getLast?_concat, hlast, Option.bind_some, Option.bind_some, hsame]

/-! ## The feature that is enabled again -/

/-- A version of the feature `Enabled` of the group `Test`, in a notification of its own. -/
def versionOf (documentVersion : Int) (action : Str) (enable : Bool) : CacheEvent :=
  .notify [⟨documentVersion, FeatureOp.documentOf action enable⟩]

/-- The feature is created enabled and then disabled, and the notifications arrive the other way
round. -/
def creationLate : List CacheEvent :=
  [versionOf 1 "PATCH".toList false, versionOf 0 "POST".toList true]

/-- One document of a feature is delivered. -/
theorem versionOf_isDelivered (documentVersion : Int) (action : Str) (enable : Bool) :
    (versionOf documentVersion action enable).IsDelivered where
  kind := by simp [FeatureOp.documentOf]
  action := by simp [FeatureOp.documentOf]
  ids := by simp [FeatureOp.documentOf]

/-- **A disabled feature is enabled again**: after both notifications the cached entry is the one of
version 0. -/
theorem creationLate_not_converges :
    (∀ e ∈ creationLate, e.IsDelivered) ∧
      ((handledVersions (Feature.pairId ("Test".toList, "Enabled".toList)) creationLate).map
        (·.documentVersion)).Nodup ∧
      ¬ Converges (Feature.pairId ("Test".toList, "Enabled".toList)) creationLate := by
  refine ⟨?_, by decide +kernel, fun hconverges => ?_⟩
  · intro e he
    rcases List.mem_pair.mp he with rfl | rfl <;> exact versionOf_isDelivered _ _ _
  · have hentry := hconverges.highest ⟨1, FeatureOp.documentOf "PATCH".toList false⟩
      (by decide +kernel) (by decide +kernel)
    rw [IsEntryOf, if_neg (by decide +kernel)] at hentry
    exact absurd hentry (by decide +kernel)

/-- Handled in the order of the versions, the notifications converge. -/
theorem converges_iff_inOrder :
    Converges (Feature.pairId ("Test".toList, "Enabled".toList)) creationLate.reverse := by
  refine (converges_iff _ _ (fun e he => ?_) (by decide +kernel)).mpr
    (noStaleWrite_of_pairwise (by decide +kernel))
  rw [creationLate, List.reverse_cons, List.reverse_singleton] at he
  rcases List.mem_pair.mp he with rfl | rfl <;> exact versionOf_isDelivered _ _ _

end CacheEvent

end XenonExt
