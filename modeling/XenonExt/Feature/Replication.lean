import Mathlib.Data.List.Induction
import XenonExt.Effects.Replica
import XenonExt.Feature.Lookups

/-! # The cache as a replica of the store

`FeaturesCache.start` subscribes to the features of the store, and is first told of those that are
there. From then on every committed version is notified, and the notifications of one feature are
handled in the order of its versions, while those of different features overtake each other.

* **`FeatureHost`, `FeatureEvent`**: the store, the notifications on their way and the cache.
* **`view_step`**: seen at one id, every event is a step of a replica.
* **`cache_follows_store`**: a flag is looked up as it was in the store at some time, later lookups
  do not go back, and the cache catches up. -/

namespace XenonExt

/-! ## The host -/

/-- A host with the store of features, the subscription of the cache, the documents that notifications
bring, the oldest first, and the cache. -/
structure FeatureHost where
  store : FeatureMap
  subscribed : Bool
  notifications : List Feature
  cache : FeatureMap

/-- What happens at a host: requests to the features of the store, the start of the cache, the
handling of the next document with an id, and lookups. -/
inductive FeatureEvent
  | newFeature (f : Feature)
  | enableFeature (group name : Str)
  | disableFeature (group name : Str)
  | deleteFeature (id : Str)
  | start
  | handleFeatureUpdate (id : Str)
  | findFeature (group name : Str)

/-- A version of a document, as the store commits it. -/
def Feature.committed (action : Str) (f : Feature) : Feature :=
  { f with documentKind := some Feature.kind, documentUpdateAction := some action }

/-- `toOptional`: the input, when the feature is enabled. -/
def Feature.toOptional {T : Type} (f : Feature) (input : T) : Option T :=
  if f.enable then some input else none

namespace FeatureHost

open Feature (ofStore ofStore_outcome)

/-- No feature stored, none cached, no subscription. -/
def empty : FeatureHost := ⟨∅, false, [], ∅⟩

/-- Commit a version of the document of an id, and notify of it. -/
def commit (h : FeatureHost) (id action : Str) (f : Feature) : FeatureHost :=
  { h with
    store := if action = "DELETE".toList then h.store.erase id
      else h.store.insert id (f.committed action)
    notifications := h.notifications ++ if h.subscribed then [f.committed action] else [] }

/-- A patch of the document of an id, which a missing document refuses. -/
def patchDocument (h : FeatureHost) (id : Str) (recv : Feature) : FeatureHost :=
  match FeatureServiceImpl.patchEntry recv (h.store.lookup id) with
  | some f => h.commit id "PATCH".toList f
  | none => h

/-- `enableFeature(group, name, isEnabled)`: a patch of the document that is asked for. -/
def patch (h : FeatureHost) (group name : Str) (isEnabled : Bool) : FeatureHost :=
  match FeatureServiceImpl.requestedId group name with
  | some id => h.patchDocument id { Feature.new with enable := isEnabled }
  | none => h

/-- `newFeature`: a post, which `handleStart` or a document that is there refuses. -/
def post (h : FeatureHost) (f : Feature) : FeatureHost :=
  match h.store.lookup f.id with
  | some _ => h
  | none => match FeatureServiceImpl.postEntry f none with
    | some f' => h.commit f.id "POST".toList f'
    | none => h

/-- A delete, which a missing document refuses. -/
def delete (h : FeatureHost) (id : Str) : FeatureHost :=
  match h.store.lookup id with
  | some f => h.commit id "DELETE".toList f
  | none => h

/-- `start`: the subscription replays the documents that are there. -/
def start (h : FeatureHost) : FeatureHost :=
  if h.subscribed then h
  else { h with
    subscribed := true
    notifications := h.notifications ++ h.store.entries.map Sigma.snd }

/-- `handleFeatureUpdates` goes on to the next document with an id. -/
def handleUpdate (h : FeatureHost) (id : Str) : FeatureHost :=
  match h.notifications.find? fun f => f.id = id with
  | some f => { h with
    notifications := h.notifications.eraseP fun f => f.id = id
    cache := FeaturesCache.handleFeatureUpdates h.cache [f] }
  | none => h

/-- What an event changes. -/
def step (h : FeatureHost) : FeatureEvent → FeatureHost
  | .newFeature f => h.post f
  | .enableFeature group name => h.patch group name true
  | .disableFeature group name => h.patch group name false
  | .deleteFeature id => h.delete id
  | .start => h.start
  | .handleFeatureUpdate id => h.handleUpdate id
  | .findFeature group name => { h with cache := (FeaturesCache.findFeature h.cache group name).2 }

/-- Run a sequence of events. -/
def run (h : FeatureHost) (events : List FeatureEvent) : FeatureHost := events.foldl step h

/-- What a lookup of the cache answers. -/
def answer (h : FeatureHost) (group name : Str) : Feature :=
  (FeaturesCache.findFeature h.cache group name).1

/-! ## What is kept -/

/-- **A document of the store**: it is stored under its own id, and its version is no delete. -/
structure IsStored (id : Str) (f : Feature) : Prop where
  id_eq : f.id = id
  kind_eq : f.documentKind = some Feature.kind
  action_isSome : f.documentUpdateAction.isSome
  not_delete : ¬ f.IsDelete

/-- **What every event keeps**: the store has its documents, notifications bring versions of features,
placeholders are disabled, and before the subscription there is nothing else. -/
structure Sound (h : FeatureHost) : Prop where
  stored : ∀ id f, h.store.lookup id = some f → IsStored id f
  notified : ∀ f ∈ h.notifications, f.documentKind = some Feature.kind ∧
    f.documentUpdateAction.isSome
  placeholder : ∀ id f, h.cache.lookup id = some f → f.documentKind = none → f.enable = false
  unsubscribed : h.subscribed = false →
    h.notifications = [] ∧ ∀ id, ofStore (h.cache.lookup id) = none

/-- **A host, seen at one id**: the stored document, the outcomes of its versions on their way, and
the cached one. -/
def view (id : Str) (h : FeatureHost) : ReplicaState (Option Feature) where
  source := h.store.lookup id
  queue := (h.notifications.filter fun f => f.id = id).map Feature.outcome
  replica := ofStore (h.cache.lookup id)

/-- A host without anything is sound. -/
theorem sound_empty : Sound empty where
  stored _ f h := absurd h (Option.some_ne_none f).symm
  notified _ hf := absurd hf List.not_mem_nil
  placeholder _ f h := absurd h (Option.some_ne_none f).symm
  unsubscribed _ := ⟨rfl, fun _ => rfl⟩

/-! ## What events do, seen at one id -/

variable {h : FeatureHost} {id : Str} {f : Feature} {action : Str}

@[simp] theorem committed_id (action : Str) (f : Feature) : (f.committed action).id = f.id := rfl

/-- The entries of a map, seen at one id. -/
theorem filter_entries {l : List (Sigma fun _ : Str => Feature)} (hnodup : l.NodupKeys)
    (hid : ∀ s ∈ l, s.2.id = s.1) (id : Str) :
    (l.map Sigma.snd).filter (fun f => f.id = id) = (l.dlookup id).toList := by
  induction l with
  | nil => rfl
  | cons s l ih =>
      obtain ⟨key, f⟩ := s
      obtain ⟨hfresh, hrest⟩ := List.nodupKeys_cons.mp hnodup
      have hkey : f.id = key := hid _ List.mem_cons_self
      have ih := ih hrest fun s hs => hid s (List.mem_cons_of_mem _ hs)
      rw [List.map_cons]
      by_cases h : key = id
      · subst h
        rw [List.filter_cons_of_pos (by simpa using hkey), ih, List.dlookup_cons_eq,
          List.dlookup_eq_none.mpr hfresh]
        rfl
      · rw [List.filter_cons_of_neg (by simpa [hkey] using h), ih, List.dlookup_cons_ne _ _ (Ne.symm h)]

/-- **A commit, seen at an id**: the document of the id changes to the outcome of the version. -/
theorem view_commit (hid : f.id = id) (id' : Str) :
    view id' (h.commit id action f) =
      if id = id' then
        { view id' h with
          source := (f.committed action).outcome
          queue := (view id' h).queue ++ if h.subscribed then [(f.committed action).outcome] else [] }
      else view id' h := by
  have houtcome : (f.committed action).outcome =
      if action = "DELETE".toList then none else some (f.committed action) := by
    simp [Feature.outcome, Feature.IsDelete, Feature.committed]
  by_cases h' : id = id'
  · subst h'
    rw [if_pos rfl, houtcome]
    simp only [view, commit, List.filter_append, List.map_append, ReplicaState.mk.injEq]
    refine ⟨?_, ?_, trivial⟩
    · by_cases hdelete : action = "DELETE".toList
      · rw [if_pos hdelete, if_pos hdelete, AList.lookup_erase]
      · rw [if_neg hdelete, if_neg hdelete, AList.lookup_insert]
    · rw [← houtcome]
      cases h.subscribed <;> simp [hid]
  · rw [if_neg h']
    simp only [view, commit, List.filter_append, List.map_append, ReplicaState.mk.injEq]
    refine ⟨?_, ?_, trivial⟩
    · by_cases hdelete : action = "DELETE".toList
      · rw [if_pos hdelete, AList.lookup_erase_ne (Ne.symm h')]
      · rw [if_neg hdelete, AList.lookup_insert_ne (Ne.symm h')]
    · cases h.subscribed <;> simp [hid, h']

/-- **The start, seen at an id**: the document of the id is sent, if there is one. -/
theorem view_start (hs : Sound h) (hsubscribed : h.subscribed = false) (id : Str) :
    view id h.start =
      { view id h with queue := ((h.store.lookup id).map some).toList } := by
  have hids : ∀ s ∈ h.store.entries, s.2.id = s.1 := by
    intro s hs'
    have hlookup : h.store.lookup s.1 = some s.2 :=
      (List.mem_dlookup_iff h.store.nodupKeys).mpr hs'
    exact (hs.stored _ _ hlookup).id_eq
  have hentries : (h.store.entries.map Sigma.snd).filter (fun f => f.id = id) =
      (h.store.lookup id).toList := filter_entries h.store.nodupKeys hids id
  rw [start, if_neg (by simp [hsubscribed])]
  simp only [view, (hs.unsubscribed hsubscribed).1, List.nil_append, hentries, ReplicaState.mk.injEq,
    true_and, and_true]
  cases hlookup : h.store.lookup id with
  | none => rfl
  | some f =>
      have hdelete := (hs.stored _ _ hlookup).not_delete
      simp [Feature.outcome, hdelete]

/-- A version of a feature that is handled replaces the cached entry of its id. -/
theorem lookup_handled (hkind : f.documentKind = some Feature.kind)
    (haction : f.documentUpdateAction.isSome) (cache : FeatureMap) (id : Str) :
    (FeaturesCache.handleFeatureUpdates cache [f]).lookup id =
      if f.id = id then f.outcome else cache.lookup id := by
  obtain ⟨action, haction⟩ := Option.isSome_iff_exists.mp haction
  rw [lookup_handleFeatureUpdates]
  simp [FeatureOp.onCacheNotified, hkind, haction, Feature.outcome, Feature.IsDelete]

/-- **A document that is handled, seen at an id**: it is the oldest one on its way, and is taken over
if it has the id. -/
theorem view_handleUpdate (hs : Sound h)
    (hfind : (h.notifications.find? fun f => f.id = id) = some f) :
    (∃ queue, (view id h).queue = f.outcome :: queue ∧
      view id (h.handleUpdate id) = ⟨(view id h).source, queue, f.outcome⟩) ∧
    ∀ id', id ≠ id' → view id' (h.handleUpdate id) = view id' h := by
  obtain ⟨hf, before, after, happend, hbefore⟩ := List.find?_eq_some_iff_append.mp hfind
  have hid : f.id = id := of_decide_eq_true hf
  obtain ⟨hkind, haction⟩ := hs.notified f (List.mem_of_find?_eq_some hfind)
  have hrest : (f :: after).eraseP (fun f => f.id = id) = after := List.eraseP_cons_of_pos hf
  have herase : (h.notifications.eraseP fun f => f.id = id) = before ++ after := by
    rw [happend, List.eraseP_append_right _ (by simpa using hbefore), hrest]
  have hhandled : h.handleUpdate id = { h with
      notifications := before ++ after
      cache := FeaturesCache.handleFeatureUpdates h.cache [f] } := by
    simp only [handleUpdate, hfind, herase]
  have hnone : before.filter (fun f => f.id = id) = [] := by simpa using hbefore
  have hfirst : (f :: after).filter (fun f => f.id = id) = f :: after.filter fun f => f.id = id :=
    List.filter_cons_of_pos hf
  rw [hhandled]
  refine ⟨⟨(after.filter fun f => f.id = id).map Feature.outcome, ?_, ?_⟩, fun id' hne => ?_⟩
  · simp only [view, happend, List.filter_append, hnone, List.nil_append, hfirst, List.map_cons]
  · simp only [view, List.filter_append, hnone, List.nil_append, lookup_handled hkind haction, hid,
      if_true, ofStore_outcome hkind]
  · have hskip : (f :: after).filter (fun f => f.id = id') = after.filter fun f => f.id = id' :=
      List.filter_cons_of_neg (by simpa [hid] using hne)
    simp only [view, happend, List.filter_append, hskip, lookup_handled hkind haction, hid,
      if_neg hne]

/-- A lookup puts nothing into the cache that is of the store, and no placeholder that is enabled. -/
theorem lookup_findFeature (cache : FeatureMap) (group name id : Str) :
    (FeaturesCache.findFeature cache group name).2.lookup id = cache.lookup id ∨
      cache.lookup id = none ∧ (FeaturesCache.findFeature cache group name).2.lookup id =
        some (FeaturesCache.placeholder group name) := by
  have hstep := FeatureOp.step_cache_lookup some ⟨∅, cache⟩ (.findFeature group name) id
  simp only [FeatureOp.step, FeatureOp.onCache] at hstep
  rw [hstep]
  split
  · cases cache.lookup id with
    | none => exact .inr ⟨rfl, rfl⟩
    | some f => exact .inl rfl
  · exact .inl rfl

/-- **A lookup, seen at an id**, changes nothing. -/
theorem view_findFeature (h : FeatureHost) (group name id : Str) :
    view id (h.step (.findFeature group name)) = view id h := by
  simp only [view, step, ReplicaState.mk.injEq, true_and]
  rcases lookup_findFeature h.cache group name id with hsame | ⟨hnone, hplaceholder⟩
  · rw [hsame]
  · rw [hnone, hplaceholder]
    rfl

/-! ## Requests to the store -/

/-- **What a request to the store may do**: nothing, or commit a version of a document under its
id. -/
def Commits (h h' : FeatureHost) : Prop :=
  h' = h ∨ ∃ action f, h' = h.commit f.id action f

/-- A post commits the feature, or is refused. -/
theorem post_commits (h : FeatureHost) (f : Feature) : Commits h (h.post f) := by
  rw [post]
  cases h.store.lookup f.id with
  | some current => exact .inl rfl
  | none =>
      simp only [FeatureServiceImpl.postEntry]
      cases hstart : FeatureDao.handleStart { f with documentSelfLink := some f.id } with
      | none => exact .inl rfl
      | some f' =>
          -- group and name are those of the feature
          have hid : f'.id = f.id := by
            rw [FeatureDao.handleStart] at hstart
            split at hstart
            · exact absurd hstart.symm (Option.some_ne_none _)
            · rw [← Option.some.inj hstart]
              rfl
          exact .inr ⟨_, f', by rw [hid]⟩

/-- A patch commits what becomes of the stored document, or is refused. -/
theorem patchDocument_commits (hs : Sound h) (id : Str) (recv : Feature) :
    Commits h (h.patchDocument id recv) := by
  rw [patchDocument]
  cases hlookup : h.store.lookup id with
  | none => exact .inl rfl
  | some current =>
      have hid : (FeatureDao.handlePatch current recv).id = id := (hs.stored _ _ hlookup).id_eq
      exact .inr ⟨"PATCH".toList, FeatureDao.handlePatch current recv, by
        simp only [FeatureServiceImpl.patchEntry, Option.map_some, hid]⟩

/-- So does a request for a patch, unless it throws. -/
theorem patch_commits (hs : Sound h) (group name : Str) (isEnabled : Bool) :
    Commits h (h.patch group name isEnabled) := by
  rw [patch]
  cases FeatureServiceImpl.requestedId group name with
  | none => exact .inl rfl
  | some id => exact patchDocument_commits hs id _

/-- A delete commits the stored document, or is refused. -/
theorem delete_commits (hs : Sound h) (id : Str) : Commits h (h.delete id) := by
  rw [delete]
  cases hlookup : h.store.lookup id with
  | none => exact .inl rfl
  | some f => exact .inr ⟨_, f, by rw [(hs.stored _ _ hlookup).id_eq]⟩

/-! ## Events keep the host sound -/

/-- A commit keeps the host sound. -/
theorem Sound.commit (hs : Sound h) (action : Str) (f : Feature) :
    Sound (h.commit f.id action f) where
  stored id f' hlookup := by
    simp only [FeatureHost.commit] at hlookup
    by_cases hid : f.id = id
    · subst hid
      by_cases hdelete : action = "DELETE".toList
      · rw [if_pos hdelete, AList.lookup_erase] at hlookup
        exact absurd hlookup.symm (Option.some_ne_none _)
      · rw [if_neg hdelete, AList.lookup_insert] at hlookup
        obtain rfl := Option.some.inj hlookup
        exact ⟨rfl, rfl, rfl, fun h => hdelete (Option.some.inj h)⟩
    · have hother : h.store.lookup id = some f' := by
        split at hlookup
        · rwa [AList.lookup_erase_ne (Ne.symm hid)] at hlookup
        · rwa [AList.lookup_insert_ne (Ne.symm hid)] at hlookup
      exact hs.stored id f' hother
  notified f' hf' := by
    rcases List.mem_append.mp hf' with hf' | hf'
    · exact hs.notified f' hf'
    · split at hf'
      · rw [List.mem_singleton.mp hf']
        exact ⟨rfl, rfl⟩
      · exact absurd hf' List.not_mem_nil
  placeholder := hs.placeholder
  unsubscribed hsubscribed := by
    obtain ⟨hnotifications, hcache⟩ := hs.unsubscribed hsubscribed
    refine ⟨?_, hcache⟩
    have hfalse : h.subscribed = false := hsubscribed
    simp [FeatureHost.commit, hnotifications, hfalse]

/-- A request to the store keeps the host sound. -/
theorem Commits.sound {h' : FeatureHost} (hc : Commits h h') (hs : Sound h) : Sound h' := by
  rcases hc with rfl | ⟨action, f, rfl⟩
  · exact hs
  · exact hs.commit action f

/-- The start keeps the host sound. -/
theorem Sound.start (hs : Sound h) : Sound h.start := by
  rw [FeatureHost.start]
  split
  · exact hs
  · refine ⟨hs.stored, fun f hf => ?_, hs.placeholder, fun h => absurd h (by simp)⟩
    rcases List.mem_append.mp hf with hf | hf
    · exact hs.notified f hf
    · obtain ⟨s, hs', rfl⟩ := List.mem_map.mp hf
      have hlookup : h.store.lookup s.1 = some s.2 :=
        (List.mem_dlookup_iff h.store.nodupKeys).mpr hs'
      have hstored := hs.stored _ _ hlookup
      exact ⟨hstored.kind_eq, hstored.action_isSome⟩

/-- Handling a document keeps the host sound. -/
theorem Sound.handleUpdate (hs : Sound h) (id : Str) : Sound (h.handleUpdate id) := by
  rw [FeatureHost.handleUpdate]
  cases hfind : h.notifications.find? fun f => f.id = id with
  | none => exact hs
  | some f =>
      have hmem := List.mem_of_find?_eq_some hfind
      obtain ⟨hkind, haction⟩ := hs.notified f hmem
      refine ⟨hs.stored, fun f' hf' => hs.notified f' (List.mem_of_mem_eraseP hf'), ?_, ?_⟩
      · intro id' f' hlookup hnokind
        simp only [lookup_handled hkind haction] at hlookup
        split at hlookup
        · -- what was handled is no placeholder
          have hof := ofStore_outcome hkind
          rw [hlookup, ofStore, Option.filter_some, hnokind] at hof
          exact absurd hof (by simp)
        · exact hs.placeholder id' f' hlookup hnokind
      · intro hsubscribed
        rw [(hs.unsubscribed hsubscribed).1] at hmem
        exact absurd hmem List.not_mem_nil

/-- A lookup keeps the host sound. -/
theorem Sound.findFeature (hs : Sound h) (group name : Str) :
    Sound (h.step (.findFeature group name)) where
  stored := hs.stored
  notified := hs.notified
  placeholder id f hlookup hnokind := by
    simp only [step] at hlookup
    rcases lookup_findFeature h.cache group name id with hsame | ⟨-, hplaceholder⟩
    · rw [hsame] at hlookup
      exact hs.placeholder id f hlookup hnokind
    · rw [hplaceholder] at hlookup
      rw [← Option.some.inj hlookup]
      rfl
  unsubscribed hsubscribed := by
    refine ⟨(hs.unsubscribed hsubscribed).1, fun id => ?_⟩
    have hview := congrArg ReplicaState.replica (view_findFeature h group name id)
    exact hview.trans ((hs.unsubscribed hsubscribed).2 id)

/-- **Every event keeps the host sound.** -/
theorem Sound.step (hs : Sound h) (e : FeatureEvent) : Sound (h.step e) := by
  cases e with
  | newFeature f => exact (post_commits h f).sound hs
  | enableFeature group name => exact (patch_commits hs group name true).sound hs
  | disableFeature group name => exact (patch_commits hs group name false).sound hs
  | deleteFeature id => exact (delete_commits hs id).sound hs
  | start => exact hs.start
  | handleFeatureUpdate id => exact hs.handleUpdate id
  | findFeature group name => exact hs.findFeature group name

/-! ## Events are steps of a replica -/

/-- Seen at an id, a request to the store is a write. -/
theorem Commits.view_step {h' : FeatureHost} (hc : Commits h h') (id : Str) :
    ReplicaStep (view id h) (view id h') := by
  rcases hc with rfl | ⟨action, f, rfl⟩
  · exact .stay _
  · rw [view_commit rfl]
    split
    · exact .write _ _ _
    · exact .stay _

/-- **Seen at an id, every event is a step of a replica.** -/
theorem view_step (hs : Sound h) (e : FeatureEvent) (id : Str) :
    ReplicaStep (view id h) (view id (h.step e)) := by
  cases e with
  | newFeature f => exact (post_commits h f).view_step id
  | enableFeature group name => exact (patch_commits hs group name true).view_step id
  | disableFeature group name => exact (patch_commits hs group name false).view_step id
  | deleteFeature id' => exact (delete_commits hs id').view_step id
  | start =>
      rw [step]
      cases hsubscribed : h.subscribed with
      | true =>
          rw [start, if_pos hsubscribed]
          exact .stay _
      | false =>
          -- the document is sent once more
          have hqueue : (view id h).queue = [] := by
            simp [view, (hs.unsubscribed hsubscribed).1]
          have hwrite := ReplicaStep.write (view id h) (view id h).source (h.store.lookup id).isSome
          rw [view_start hs hsubscribed]
          rw [hqueue, List.nil_append] at hwrite
          convert hwrite using 2
          simp only [view]
          cases h.store.lookup id <;> rfl
  | handleFeatureUpdate id' =>
      rw [step]
      cases hfind : h.notifications.find? fun f => f.id = id' with
      | none =>
          rw [handleUpdate, hfind]
          exact .stay _
      | some f =>
          obtain ⟨⟨queue, hqueue, hhandled⟩, hother⟩ := view_handleUpdate hs hfind
          by_cases hid : id' = id
          · subst hid
            have htake := ReplicaStep.takeOver (view id' h).source f.outcome queue (view id' h).replica
            rw [← hqueue] at htake
            rw [hhandled]
            exact htake
          · rw [hother id hid]
            exact .stay _
  | findFeature group name =>
      rw [view_findFeature]
      exact .stay _

/-- A request to the store leads to the store as it is. -/
theorem Commits.caughtUp {h' : FeatureHost} (hc : Commits h h') {id : Str}
    (hcaught : h.subscribed = true → CaughtUp (view id h)) (hsubscribed : h'.subscribed = true) :
    CaughtUp (view id h') := by
  rcases hc with rfl | ⟨action, f, rfl⟩
  · exact hcaught hsubscribed
  · have hbefore : h.subscribed = true := hsubscribed
    rw [view_commit rfl]
    split
    · exact caughtUp_write _ _
    · exact hcaught hbefore

/-- **What is on its way to a cache that has started leads to the store as it is.** -/
theorem caughtUp_step (hs : Sound h) (e : FeatureEvent) {id : Str}
    (hcaught : h.subscribed = true → CaughtUp (view id h))
    (hsubscribed : (h.step e).subscribed = true) : CaughtUp (view id (h.step e)) := by
  cases e with
  | newFeature f => exact (post_commits h f).caughtUp hcaught hsubscribed
  | enableFeature group name => exact (patch_commits hs group name true).caughtUp hcaught hsubscribed
  | disableFeature group name =>
      exact (patch_commits hs group name false).caughtUp hcaught hsubscribed
  | deleteFeature id' => exact (delete_commits hs id').caughtUp hcaught hsubscribed
  | start =>
      rw [step]
      cases hbefore : h.subscribed with
      | true =>
          rw [start, if_pos hbefore]
          exact hcaught hbefore
      | false =>
          have hcache := (hs.unsubscribed hbefore).2 id
          rw [view_start hs hbefore, CaughtUp]
          simp only [view, hcache]
          cases h.store.lookup id <;> rfl
  | handleFeatureUpdate id' =>
      rw [step] at hsubscribed ⊢
      cases hfind : h.notifications.find? fun f => f.id = id' with
      | none =>
          rw [handleUpdate, hfind] at hsubscribed ⊢
          exact hcaught hsubscribed
      | some f =>
          have hbefore : h.subscribed = true := by
            rw [handleUpdate, hfind] at hsubscribed
            exact hsubscribed
          obtain ⟨⟨queue, hqueue, hhandled⟩, hother⟩ := view_handleUpdate hs hfind
          by_cases hid : id' = id
          · subst hid
            have hcaught := hcaught hbefore
            rw [CaughtUp, hqueue] at hcaught
            rw [hhandled]
            exact caughtUp_takeOver hcaught
          · rw [hother id hid]
            exact hcaught hbefore
  | findFeature group name =>
      rw [view_findFeature]
      exact hcaught hsubscribed

/-! ## Runs -/

theorem run_append (h : FeatureHost) (events events' : List FeatureEvent) :
    h.run (events ++ events') = (h.run events).run events' := List.foldl_append

theorem run_cons (h : FeatureHost) (e : FeatureEvent) (events : List FeatureEvent) :
    h.run (e :: events) = (h.step e).run events := rfl

/-- **Every reachable host** is sound, and its notifications lead to the store as it is. -/
theorem run_kept (events : List FeatureEvent) :
    Sound (empty.run events) ∧
      ∀ id, (empty.run events).subscribed = true → CaughtUp (view id (empty.run events)) := by
  induction events using List.reverseRecOn with
  | nil => exact ⟨sound_empty, fun id h => absurd h Bool.false_ne_true⟩
  | append_singleton events e ih =>
      obtain ⟨hs, hcaught⟩ := ih
      rw [run_append]
      exact ⟨hs.step e, fun id => caughtUp_step hs e (hcaught id)⟩

/-- What a lookup answers is the cached entry, but for placeholders. -/
theorem ofStore_answer (h : FeatureHost) (group name : Str) :
    ofStore (some (h.answer group name)) = (view (Feature.pairId (group, name)) h).replica := by
  simp only [answer, FeatureOp.findFeature_fst, view, FeatureOp.shown]
  cases h.cache.lookup (Feature.pairId (group, name)) <;> rfl

/-- A lookup that answers a placeholder answers a disabled feature. -/
theorem toOptional_answer (hs : Sound h) (group name : Str) {T : Type} (input : T) :
    (h.answer group name).toOptional input =
      (ofStore (some (h.answer group name))).bind fun f => f.toOptional input := by
  have hdisabled : (h.answer group name).documentKind = none → (h.answer group name).enable = false := by
    simp only [answer, FeatureOp.findFeature_fst, FeatureOp.shown]
    cases hlookup : h.cache.lookup (Feature.pairId (group, name)) with
    | none => exact fun _ => rfl
    | some f => exact hs.placeholder _ f hlookup
  cases hkind : (h.answer group name).documentKind with
  | none =>
      rw [ofStore, Option.filter_some, hkind]
      simp [Feature.toOptional, hdisabled hkind]
  | some kind =>
      rw [ofStore, Option.filter_some, hkind]
      rfl

/-- The cache handles all documents of an id that are on their way. -/
def handleAll (h : FeatureHost) (id : Str) : FeatureHost :=
  h.run (List.replicate (h.notifications.countP fun f => f.id = id) (.handleFeatureUpdate id))

/-- **Handling documents of an id**, as many as are on their way, makes the cache catch up, and leaves
the store as it is. -/
theorem run_replicate {n : ℕ} (hs : Sound h) (hn : (view id h).queue.length = n)
    (hcaught : CaughtUp (view id h)) :
    (h.run (List.replicate n (.handleFeatureUpdate id))).store = h.store ∧
      (view id (h.run (List.replicate n (.handleFeatureUpdate id)))).replica = h.store.lookup id := by
  induction n generalizing h with
  | zero => exact ⟨rfl, hcaught.replica_eq (List.length_eq_zero_iff.mp hn)⟩
  | succ n ih =>
      obtain ⟨f, hfind⟩ : ∃ f, (h.notifications.find? fun f => f.id = id) = some f := by
        by_contra hnone
        push Not at hnone
        have hnil : h.notifications.filter (fun f => f.id = id) = [] := by
          rw [← Option.eq_none_iff_forall_ne_some, List.find?_eq_none] at hnone
          rw [List.filter_eq_nil_iff]
          exact hnone
        simp [view, hnil] at hn
      obtain ⟨⟨queue, hqueue, hhandled⟩, -⟩ := view_handleUpdate hs hfind
      rw [CaughtUp, hqueue] at hcaught
      have hstore : (h.handleUpdate id).store = h.store := by rw [handleUpdate, hfind]
      have hstep : h.step (.handleFeatureUpdate id) = h.handleUpdate id := rfl
      rw [List.replicate_succ, run_cons, hstep, ← hstore]
      refine ih (hs.handleUpdate id) ?_ ?_
      · rw [hhandled]
        rw [hqueue, List.length_cons] at hn
        exact Nat.succ.inj hn
      · rw [hhandled]
        exact caughtUp_takeOver hcaught

/-- **The cache follows the store.** In every run of a host, whatever the requests, the notifications
of different features and the lookups do to each other: what lookups of a feature answer at any
moment is what the store had for it at some moment before, these moments never go back, and so code
behind the flag runs only if the flag was enabled in the store then. And once the cache has started,
handling the notifications of the feature that are on their way makes lookups answer what the store
has. -/
theorem cache_follows_store (events : List FeatureEvent) (group name : Str) :
    (∃ time : ℕ → ℕ, Monotone time ∧ (∀ t, time t ≤ t) ∧ ∀ t ≤ events.length,
      ofStore (some ((empty.run (events.take t)).answer group name)) =
          (empty.run (events.take (time t))).store.lookup (Feature.pairId (group, name)) ∧
        ∀ (T : Type) (input : T), ((empty.run (events.take t)).answer group name).toOptional input =
          ((empty.run (events.take (time t))).store.lookup (Feature.pairId (group, name))).bind
            fun f => f.toOptional input) ∧
    ((empty.run events).subscribed = true →
      let h := (empty.run events).handleAll (Feature.pairId (group, name))
      h.store = (empty.run events).store ∧
        ofStore (some (h.answer group name)) =
          (empty.run events).store.lookup (Feature.pairId (group, name))) := by
  constructor
  · have hsteps : ∀ t, ReplicaStep (view (Feature.pairId (group, name)) (empty.run (events.take t)))
        (view (Feature.pairId (group, name)) (empty.run (events.take (t + 1)))) := by
      intro t
      rw [List.take_add_one, run_append]
      cases events[t]? with
      | none => exact .stay _
      | some e => exact view_step (run_kept (events.take t)).1 e _
    obtain ⟨time, hmonotone, hle, htime⟩ := exists_readTimes
      (s := fun t => view (Feature.pairId (group, name)) (empty.run (events.take t))) rfl rfl hsteps
      events.length
    refine ⟨time, hmonotone, hle, fun t ht => ?_⟩
    have hanswer := (ofStore_answer (empty.run (events.take t)) group name).trans (htime t ht)
    refine ⟨hanswer, fun T input => ?_⟩
    rw [toOptional_answer (run_kept (events.take t)).1, hanswer]
    rfl
  · intro hsubscribed
    obtain ⟨hs, hcaught⟩ := run_kept events
    have hn : (view (Feature.pairId (group, name)) (empty.run events)).queue.length =
        (empty.run events).notifications.countP fun f => f.id = Feature.pairId (group, name) := by
      rw [view, List.length_map, ← List.countP_eq_length_filter]
    obtain ⟨hstore, hreplica⟩ := run_replicate hs hn (hcaught _ hsubscribed)
    exact ⟨hstore, (ofStore_answer _ group name).trans hreplica⟩

/-- A feature is created, the cache starts and handles it, and the feature is disabled. -/
def disabledLater : List FeatureEvent :=
  [.findFeature "Test".toList "Enabled".toList,
    .newFeature
      { Feature.new with group := some "Test".toList, name := some "Enabled".toList, enable := true },
    .start, .handleFeatureUpdate "Test::Enabled".toList,
    .disableFeature "Test".toList "Enabled".toList]

/-- The lookup still answers the enabled feature, and the disabled one once its notification is
handled. -/
theorem cache_follows_store_disabled :
    ((empty.run disabledLater).answer "Test".toList "Enabled".toList).toOptional () = some () ∧
      (((empty.run disabledLater).store.lookup "Test::Enabled".toList).bind
        fun f => f.toOptional ()) = none ∧
      ofStore (some (((empty.run disabledLater).handleAll "Test::Enabled".toList).answer
          "Test".toList "Enabled".toList)) =
        (empty.run disabledLater).store.lookup "Test::Enabled".toList := by
  refine ⟨by decide +kernel, by decide +kernel, ?_⟩
  exact ((cache_follows_store disabledLater "Test".toList "Enabled".toList).2 (by decide +kernel)).2

end FeatureHost

end XenonExt
