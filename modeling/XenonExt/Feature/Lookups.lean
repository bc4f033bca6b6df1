import XenonExt.Feature.Interference

/-! # What lookups of the cache observe

`FeaturesCache.findFeature` writes: a feature the cache does not have is put there as a placeholder,
in the map the notifications write. A lookup shows none of that.

* **`onCacheNotified_delivered`**: a batch leaves under an id what its last document for the id
  leaves.
* **`shown`**: what a lookup answers from an entry. An absent entry and a placeholder show the same.
* **`shown_run`**: what is shown of a pair is what its last handled document left.
* **`findFeature_observes`**: lookups answer from the handled notifications only; leaving out lookups
  or reordering batches changes no answer. -/

namespace XenonExt

namespace Feature

/-- The group and the name a document is for, as its id reads them. -/
def pair (f : Feature) : Str × Str := (text f.group, text f.name)

/-- The document tells of a delete. -/
def IsDelete (f : Feature) : Prop := f.documentUpdateAction = some "DELETE".toList

instance (f : Feature) : Decidable f.IsDelete := by
  unfold IsDelete
  infer_instance

/-- What a handled document leaves of its feature: nothing after a delete, else the feature. -/
def outcome (f : Feature) : Option Feature := if f.IsDelete then none else some f

/-- The entry of an id, unless it is a placeholder, which has no kind. -/
def ofStore (entry : Option Feature) : Option Feature :=
  entry.filter fun f => f.documentKind.isSome

/-- The feature is the placeholder of a group and a name. -/
def IsPlaceholder (f : Feature) : Prop := ∃ group name, f = FeaturesCache.placeholder group name

/-- What a version of a feature leaves is no placeholder. -/
theorem ofStore_outcome {f : Feature} (hkind : f.documentKind = some kind) :
    ofStore f.outcome = f.outcome := by
  unfold outcome
  split
  · rfl
  · simp [ofStore, hkind]

/-- The id of a document is the one of its pair. -/
theorem id_eq_pairId (f : Feature) : f.id = pairId f.pair := rfl

end Feature

namespace FeatureOp

/-! ## Proper operations -/

/-- **A batch as it is delivered**: every document carries its kind and its update action, and no two
features have the same id. -/
structure Delivered (documents : List Feature) : Prop where
  kind : ∀ f ∈ documents, f.documentKind.isSome
  action : ∀ f ∈ documents, f.documentUpdateAction.isSome
  ids : ((documents.filter fun f => f.documentKind = some Feature.kind).map Feature.id).Nodup

/-- **A proper batch**: the groups of its features have no colon. -/
structure Batch (documents : List Feature) : Prop extends Delivered documents where
  group : ∀ f ∈ documents, f.documentKind = some Feature.kind → ':' ∉ f.pair.1

/-- A lookup for a group without a colon, or a notification with a proper batch. -/
def Proper : FeatureOp → Prop
  | .findFeature group _ => ':' ∉ group
  | .notify documents => Batch documents
  | _ => True

/-- The features an operation notifies of, in the order in which they are handled. -/
def notified : FeatureOp → List Feature
  | .notify documents => documents.filter fun f => f.documentKind = some Feature.kind
  | _ => []

/-- The documents handled under an id. -/
def handledAt (id : Str) (ops : List FeatureOp) : List Feature :=
  (ops.flatMap notified).filter fun f => f.id = id

/-- The documents handled for a pair. -/
def handled (p : Str × Str) (ops : List FeatureOp) : List Feature :=
  (ops.flatMap notified).filter fun f => f.pair = p

/-- **What is known of a pair**: the feature of the last create or update handled for it, if no
delete for it was handled since. -/
def known (p : Str × Str) (ops : List FeatureOp) : Option Feature :=
  (handled p ops).getLast?.filter fun f => ¬ f.IsDelete

/-- **The second sequence is the first** but for lookups that are left out and batches whose
documents are handled in another order. -/
inductive Rearranged : List FeatureOp → List FeatureOp → Prop
  | nil : Rearranged [] []
  | keep (op : FeatureOp) {ops ops' : List FeatureOp} (h : Rearranged ops ops') :
      Rearranged (op :: ops) (op :: ops')
  | leaveOut (group name : Str) {ops ops' : List FeatureOp} (h : Rearranged ops ops') :
      Rearranged (.findFeature group name :: ops) ops'
  | reorder {documents documents' : List Feature} (hperm : documents.Perm documents')
      {ops ops' : List FeatureOp} (h : Rearranged ops ops') :
      Rearranged (.notify documents :: ops) (.notify documents' :: ops')

/-! ## What an entry shows -/

/-- What a lookup of a pair answers from the entry of its id. -/
def shown (p : Str × Str) (entry : Option Feature) : Feature :=
  entry.getD (FeaturesCache.placeholder p.1 p.2)

/-- A lookup answers what the entry of its id shows. -/
theorem findFeature_fst (cache : FeatureMap) (group name : Str) :
    (FeaturesCache.findFeature cache group name).1 =
      shown (group, name) (cache.lookup (Feature.pairId (group, name))) := by
  simp only [FeaturesCache.findFeature, shown, Feature.pairId]
  cases cache.lookup (Feature.formId (some group) (some name)) <;> rfl

theorem handled_cons (p : Str × Str) (op : FeatureOp) (ops : List FeatureOp) :
    handled p (op :: ops) = handled p [op] ++ handled p ops := by
  simp only [handled, List.flatMap_cons, List.flatMap_nil, List.append_nil, List.filter_append]

/-- **A batch leaves under an id what its last document for the id leaves.** -/
theorem onCacheNotified_delivered (id : Str) {documents : List Feature}
    (hkind : ∀ f ∈ documents, f.documentKind.isSome)
    (haction : ∀ f ∈ documents, f.documentUpdateAction.isSome) (entry : Option Feature) :
    onCacheNotified id documents entry =
      ((handledAt id [.notify documents]).getLast?.map Feature.outcome).getD entry := by
  simp only [handledAt, notified, List.flatMap_cons, List.flatMap_nil, List.append_nil]
  induction documents generalizing entry with
  | nil => rfl
  | cons f documents ih =>
      have ih := ih (fun f hf => hkind f (List.mem_cons_of_mem _ hf))
        (fun f hf => haction f (List.mem_cons_of_mem _ hf))
      obtain ⟨kind, hk⟩ := Option.isSome_iff_exists.mp (hkind f List.mem_cons_self)
      obtain ⟨action, ha⟩ := Option.isSome_iff_exists.mp (haction f List.mem_cons_self)
      simp only [onCacheNotified, hk, ha]
      by_cases hfeature : kind = Feature.kind
      · subst hfeature
        have houtcome : (if action = "DELETE".toList then none else some f) = f.outcome := by
          simp only [Feature.outcome, Feature.IsDelete, ha, Option.some.injEq]
        rw [if_pos rfl, ih, houtcome, List.filter_cons_of_pos (by simpa using hk)]
        by_cases hid : f.id = id
        · -- the later documents for the id win over this one
          rw [if_pos hid, List.filter_cons_of_pos (by simpa using hid), List.getLast?_cons]
          cases (List.filter _ (List.filter _ documents)).getLast? <;> rfl
        · rw [if_neg hid, List.filter_cons_of_neg (by simpa using hid)]
      · rw [if_neg hfeature, ih, List.filter_cons_of_neg]
        simpa [hk] using hfeature

/-- An entry after a notification was there before, or is a feature that was notified of. -/
theorem onCacheNotified_eq_some {id : Str} {documents : List Feature} {entry : Option Feature}
    {f : Feature} (h : onCacheNotified id documents entry = some f) :
    entry = some f ∨ f.documentKind = some Feature.kind := by
  induction documents generalizing entry with
  | nil => exact .inl h
  | cons g documents ih =>
      unfold onCacheNotified at h
      cases hkind : g.documentKind with
      | none => exact .inl (by simpa [hkind] using h)
      | some kind =>
          simp only [hkind] at h
          split at h
          · rename_i hfeature
            cases haction : g.documentUpdateAction with
            | none => exact .inl (by simpa [haction] using h)
            | some action =>
                simp only [haction] at h
                rcases ih h with hentry | hf
                · split at hentry
                  · split at hentry
                    · exact absurd hentry.symm (Option.some_ne_none f)
                    · obtain rfl := Option.some.inj hentry
                      exact .inr (hkind.trans (congrArg some hfeature))
                  · exact .inl hentry
                · exact .inr hf
          · exact ih h

/-- Of a proper batch, the documents for a pair are those for its id. -/
theorem handledAt_pairId {p : Str × Str} (hp : ':' ∉ p.1) {documents : List Feature}
    (hgroup : ∀ f ∈ documents, f.documentKind = some Feature.kind → ':' ∉ f.pair.1) :
    handledAt (Feature.pairId p) [.notify documents] = handled p [.notify documents] := by
  simp only [handledAt, handled, notified, List.flatMap_cons, List.flatMap_nil, List.append_nil]
  refine List.filter_congr fun f hf => ?_
  obtain ⟨hmem, hkind⟩ := List.mem_filter.mp hf
  exact decide_eq_decide.mpr (Feature.pairId_inj (hgroup f hmem (of_decide_eq_true hkind)) hp)

/-- **A proper operation, as seen by the lookups of a pair**: a lookup shows no difference, and a
notification leaves what its last document for the pair leaves. -/
theorem shown_onCache {p : Str × Str} (hp : ':' ∉ p.1) {op : FeatureOp} (hop : op.Proper)
    (entry : Option Feature) :
    shown p (op.onCache (Feature.pairId p) entry) =
      shown p (((handled p [op]).getLast?.map Feature.outcome).getD entry) := by
  cases op with
  | findFeature group name =>
      simp only [onCache]
      by_cases hid : Feature.formId (some group) (some name) = Feature.pairId p
      · -- an absent entry becomes the placeholder that is shown for it
        have hgroup : ':' ∉ (group, name).1 := hop
        have hpair : (group, name) = p := (Feature.pairId_inj hgroup hp).mp hid
        subst hpair
        rw [if_pos hid]
        rfl
      · rw [if_neg hid]
        rfl
  | notify documents =>
      rw [onCache, onCacheNotified_delivered _ hop.kind hop.action, handledAt_pairId hp hop.group]
  | newFeature f => rfl
  | enableFeature group name => rfl
  | disableFeature group name => rfl
  | findByGroupAndName group name => rfl

/-- What is shown after a document, or without one. -/
theorem shown_congr {p : Str × Str} {entry entry' : Option Feature} (h : shown p entry = shown p entry')
    (left : Option (Option Feature)) : shown p (left.getD entry) = shown p (left.getD entry') := by
  cases left with
  | none => exact h
  | some o => rfl

/-- **What a run leaves of a pair**: what the last document handled for it left. -/
theorem shown_run (reach : Str → Option Str) {p : Str × Str} (hp : ':' ∉ p.1) {ops : List FeatureOp}
    (hops : ∀ op ∈ ops, op.Proper) (s : FeatureSystem) :
    shown p ((run reach s ops).cache.lookup (Feature.pairId p)) =
      shown p (((handled p ops).getLast?.map Feature.outcome).getD
        (s.cache.lookup (Feature.pairId p))) := by
  induction ops generalizing s with
  | nil => rfl
  | cons op ops ih =>
      have hstep := shown_onCache hp (hops op List.mem_cons_self) (s.cache.lookup (Feature.pairId p))
      rw [run, List.foldl_cons, ← run, ih (fun op hop => hops op (List.mem_cons_of_mem _ hop)),
        step_cache_lookup, shown_congr hstep, handled_cons p op ops, List.getLast?_append]
      cases (handled p ops).getLast? <;> rfl

/-- **What a lookup answers after a run from the empty cache.** -/
theorem shown_run_empty (reach : Str → Option Str) {p : Str × Str} (hp : ':' ∉ p.1) {ops : List FeatureOp}
    (hops : ∀ op ∈ ops, op.Proper) :
    shown p ((run reach .empty ops).cache.lookup (Feature.pairId p)) = shown p (known p ops) := by
  rw [shown_run reach hp hops, known]
  cases (handled p ops).getLast? with
  | none => rfl
  | some f =>
      have houtcome : f.outcome = (some f).filter fun f => ¬ f.IsDelete := by
        by_cases hdelete : f.IsDelete <;> simp [Feature.outcome, Option.filter, hdelete]
      rw [← houtcome]
      rfl

/-! ## Rearranging a sequence -/

/-- A batch has at most one document for an id. -/
theorem Delivered.length_handledAt_le {documents : List Feature} (h : Delivered documents) (id : Str) :
    (handledAt id [.notify documents]).length ≤ 1 := by
  have hsublist : (handledAt id [.notify documents]).Sublist
      (documents.filter fun f => f.documentKind = some Feature.kind) := by
    simp only [handledAt, notified, List.flatMap_cons, List.flatMap_nil, List.append_nil]
    exact List.filter_sublist
  have hid : ∀ id' ∈ (handledAt id [.notify documents]).map Feature.id, id' = id := by
    intro id' hid'
    obtain ⟨f, hf, rfl⟩ := List.mem_map.mp hid'
    exact of_decide_eq_true (List.mem_filter.mp hf).2
  have hnodup := h.ids.sublist (hsublist.map Feature.id)
  rw [List.eq_replicate_of_mem hid, List.nodup_replicate, List.length_map] at hnodup
  exact hnodup

/-- A batch has at most one document for a pair: two would have the same id. -/
theorem Delivered.length_handled_le {documents : List Feature} (h : Delivered documents)
    (p : Str × Str) : (handled p [.notify documents]).length ≤ 1 := by
  have hsublist : (handled p [.notify documents]).Sublist
      (handledAt (Feature.pairId p) [.notify documents]) := by
    refine List.monotone_filter_right _ fun f hf => ?_
    rw [decide_eq_true_eq] at hf ⊢
    rw [Feature.id_eq_pairId, hf]
  exact hsublist.length_le.trans (h.length_handledAt_le _)

/-- Lists with at most one element are equal when they are permutations of each other. -/
theorem eq_of_perm_of_length_le_one {α : Type} {l l' : List α} (h : l.Perm l') (hl : l.length ≤ 1) :
    l = l' := by
  match l with
  | [] => exact h.nil_eq
  | [x] => exact (List.singleton_perm.mp h)

/-- Another order of a proper batch is proper. -/
theorem Batch.perm {documents documents' : List Feature} (hperm : documents.Perm documents')
    (h : Batch documents) : Batch documents' where
  kind := fun f hf => h.kind f (hperm.mem_iff.mpr hf)
  action := fun f hf => h.action f (hperm.mem_iff.mpr hf)
  ids := ((hperm.filter _).map Feature.id).nodup_iff.mp h.ids
  group := fun f hf => h.group f (hperm.mem_iff.mpr hf)

/-- **A rearranged sequence handles the same documents for a pair**, in the same order, and is
proper again. -/
theorem Rearranged.handled_eq {ops ops' : List FeatureOp} (h : Rearranged ops ops')
    (hops : ∀ op ∈ ops, op.Proper) (p : Str × Str) :
    handled p ops' = handled p ops ∧ ∀ op ∈ ops', op.Proper := by
  induction h with
  | nil => exact ⟨rfl, hops⟩
  | keep op h ih =>
      obtain ⟨heq, hproper⟩ := ih (fun op hop => hops op (List.mem_cons_of_mem _ hop))
      refine ⟨?_, List.forall_mem_cons.mpr ⟨hops op List.mem_cons_self, hproper⟩⟩
      rw [handled_cons, heq, ← handled_cons]
  | leaveOut group name h ih =>
      obtain ⟨heq, hproper⟩ := ih (fun op hop => hops op (List.mem_cons_of_mem _ hop))
      refine ⟨?_, hproper⟩
      rw [heq, handled_cons p (.findFeature group name)]
      rfl
  | reorder hperm h ih =>
      obtain ⟨heq, hproper⟩ := ih (fun op hop => hops op (List.mem_cons_of_mem _ hop))
      have hbatch := hops _ List.mem_cons_self
      refine ⟨?_, List.forall_mem_cons.mpr ⟨Batch.perm hperm hbatch, hproper⟩⟩
      have hhead : (handled p [.notify _]).Perm (handled p [.notify _]) :=
        ((hperm.filter _).append_right []).filter _
      rw [handled_cons, heq, ← eq_of_perm_of_length_le_one hhead (hbatch.length_handled_le p),
        ← handled_cons]

/-- **Lookups are observationally pure.** Of an interleaving of lookups and notifications, a lookup
answers the feature of the last create or update handled for its pair, if no delete for it was
handled since, and the placeholder otherwise; and it answers the same when lookups before it are
left out and batches are handled in another order. -/
theorem findFeature_observes (reach : Str → Option Str) (before : List FeatureOp) (group name : Str)
    (hbefore : ∀ op ∈ before, op.Proper) (hgroup : ':' ∉ group) :
    (FeaturesCache.findFeature (run reach .empty before).cache group name).1 =
        (known (group, name) before).getD (FeaturesCache.placeholder group name) ∧
      ∀ before', Rearranged before before' →
        (FeaturesCache.findFeature (run reach .empty before').cache group name).1 =
          (FeaturesCache.findFeature (run reach .empty before).cache group name).1 := by
  have hanswer : ∀ ops : List FeatureOp, (∀ op ∈ ops, op.Proper) →
      (FeaturesCache.findFeature (run reach .empty ops).cache group name).1 =
        (known (group, name) ops).getD (FeaturesCache.placeholder group name) := by
    intro ops hops
    rw [findFeature_fst, shown_run_empty reach hgroup hops]
    rfl
  refine ⟨hanswer before hbefore, fun before' hrearranged => ?_⟩
  obtain ⟨hhandled, hproper⟩ := hrearranged.handled_eq hbefore (group, name)
  rw [hanswer before' hproper, hanswer before hbefore, known, known, hhandled]

/-- A document of the feature `Enabled` of the group `Test`. -/
def documentOf (action : Str) (enable : Bool) : Feature :=
  { Feature.new with
    documentKind := some Feature.kind, documentUpdateAction := some action,
    group := some "Test".toList, name := some "Enabled".toList, enable := enable }

/-- A lookup that comes too early, a creation, a lookup and the patch that disables the feature. -/
def createdThenDisabled : List FeatureOp :=
  [.findFeature "Test".toList "Enabled".toList,
    .notify [documentOf "POST".toList true,
      { Feature.new with documentKind := some "other".toList, documentUpdateAction := some "PUT".toList }],
    .findFeature "Test".toList "Enabled".toList,
    .notify [documentOf "PATCH".toList false]]

/-- A lookup after these answers the patched feature. -/
theorem findFeature_observes_disabled :
    ((FeaturesCache.findFeature (run some .empty createdThenDisabled).cache
          "Test".toList "Enabled".toList).1 =
        (known ("Test".toList, "Enabled".toList) createdThenDisabled).getD
          (FeaturesCache.placeholder "Test".toList "Enabled".toList) ∧
      ∀ before', Rearranged createdThenDisabled before' →
        (FeaturesCache.findFeature (run some .empty before').cache "Test".toList "Enabled".toList).1 =
          (FeaturesCache.findFeature (run some .empty createdThenDisabled).cache
            "Test".toList "Enabled".toList).1) ∧
      known ("Test".toList, "Enabled".toList) createdThenDisabled =
        some (documentOf "PATCH".toList false) := by
  refine ⟨findFeature_observes some createdThenDisabled _ _ ?_ (by decide), by decide +kernel⟩
  intro op hop
  simp only [createdThenDisabled, List.mem_cons, List.not_mem_nil, or_false] at hop
  rcases hop with rfl | rfl | rfl | rfl
  · exact (by decide : ':' ∉ "Test".toList)
  · exact ⟨⟨by decide +kernel, by decide +kernel, by decide +kernel⟩, by decide +kernel⟩
  · exact (by decide : ':' ∉ "Test".toList)
  · exact ⟨⟨by decide +kernel, by decide +kernel, by decide +kernel⟩, by decide +kernel⟩

end FeatureOp

end XenonExt
