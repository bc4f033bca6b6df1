import Mathlib.Data.List.Infix
import XenonExt.Feature.FeaturesCache

/-! # Features of different groups and names

The store and the cache know a feature by its id only, two pairs of group and name can form the same
id, and a request to the store can ask for the document of another pair, wherever Xenon brings it.

* **`answers_eq_entryAnswers`**: what the lookups of a pair answer is read off two entries, the stored
  one of the id that is asked for and the cached one of the id of the pair.
* **`Apart`**: nothing is done for the first pair where the second one is looked up.
* **`nonInterfering_iff`**: a pair is left alone by another exactly when it is kept apart so. -/

namespace XenonExt

namespace Feature

/-- The id of a pair of group and name. -/
def pairId (p : Str × Str) : Str := formId (some p.1) (some p.2)

/-- The feature is one of the group and the name of the pair. -/
def IsOf (f : Feature) (p : Str × Str) : Prop := f.group = some p.1 ∧ f.name = some p.2

instance (f : Feature) (p : Str × Str) : Decidable (f.IsOf p) := by
  unfold IsOf
  infer_instance

/-- The document notifies the cache of the feature of the pair. -/
def Notifies (f : Feature) (p : Str × Str) : Prop :=
  f.IsOf p ∧ f.documentKind = some kind ∧ f.documentUpdateAction.isSome

instance (f : Feature) (p : Str × Str) : Decidable (f.Notifies p) := by
  unfold Notifies
  infer_instance

/-- The feature of a pair is stored and cached under the id of the pair. -/
theorem IsOf.id_eq {f : Feature} {p : Str × Str} (h : f.IsOf p) : f.id = pairId p := by
  rw [id, h.1, h.2, pairId]

/-- Groups without a colon, whatever the names, keep the ids of distinct pairs apart. -/
theorem pairId_inj {p q : Str × Str} (hp : ':' ∉ p.1) (hq : ':' ∉ q.1) :
    pairId p = pairId q ↔ p = q := by
  constructor
  · intro hid
    simp only [pairId, formId, text, List.append_assoc] at hid
    obtain ⟨hgroup, hname⟩ := append_cons_inj hp hq hid
    exact Prod.ext hgroup (List.cons.inj hname).2
  · exact congrArg pairId

/-- The ids of pairs are the texts in which the separator occurs. -/
theorem exists_pairId_iff {id : Str} : (∃ r, pairId r = id) ↔ "::".toList <:+: id := by
  constructor
  · rintro ⟨r, hid⟩
    exact ⟨r.1, r.2, hid⟩
  · rintro ⟨group, name, hid⟩
    exact ⟨(group, name), hid⟩

/-- **The id of a feature that lookups and patches of a pair ask the store for**; `none` when they
throw, or when no feature can have what they ask for. -/
def askedId (reach : Str → Option Str) (p : Str × Str) : Option Str :=
  (FeatureServiceImpl.askedId reach p.1 p.2).filter fun id => "::".toList <:+: id

/-- What is asked for, as the id of a feature. -/
theorem askedId_eq_some_iff {reach : Str → Option Str} {p : Str × Str} {id : Str} :
    askedId reach p = some id ↔
      FeatureServiceImpl.askedId reach p.1 p.2 = some id ∧ "::".toList <:+: id := by
  rw [askedId, Option.filter_eq_some_iff, decide_eq_true_eq]

/-- The placeholder is one of the pair it is made for. -/
theorem placeholder_isOf (p : Str × Str) : (FeaturesCache.placeholder p.1 p.2).IsOf p := ⟨rfl, rfl⟩

end Feature

namespace FeatureOp

/-! ## Leaving out a pair -/

/-- What is left of an operation without what it does for a pair: of a notification, the documents
that do not notify of its feature. -/
def without (p : Str × Str) : FeatureOp → Option FeatureOp
  | .newFeature f => if f.IsOf p then none else some (.newFeature f)
  | .enableFeature group name => if (group, name) = p then none else some (.enableFeature group name)
  | .disableFeature group name =>
    if (group, name) = p then none else some (.disableFeature group name)
  | .findByGroupAndName group name =>
    if (group, name) = p then none else some (.findByGroupAndName group name)
  | .findFeature group name => if (group, name) = p then none else some (.findFeature group name)
  | .notify documents => some (.notify (documents.filter fun f => ¬ f.Notifies p))

/-- The operation is for one of two pairs, of a notification all features. -/
def Within (p q : Str × Str) : FeatureOp → Prop
  | .newFeature f => f.IsOf p ∨ f.IsOf q
  | .enableFeature group name => (group, name) = p ∨ (group, name) = q
  | .disableFeature group name => (group, name) = p ∨ (group, name) = q
  | .findByGroupAndName group name => (group, name) = p ∨ (group, name) = q
  | .findFeature group name => (group, name) = p ∨ (group, name) = q
  | .notify documents => ∀ f ∈ documents, f.documentKind = some Feature.kind → f.IsOf p ∨ f.IsOf q

/-- **The first pair does not interfere with the second**: leaving out the operations and
notifications for the first changes no answer for the second, and every feature answered for the
second is one of the second. -/
structure NonInterfering (reach : Str → Option Str) (p q : Str × Str) : Prop where
  answers_without : ∀ ops, answers reach q.1 q.2 .empty ops =
    answers reach q.1 q.2 .empty (ops.filterMap (without p))
  answer_isOf : ∀ ops, (∀ op ∈ ops, op.Within p q) →
    ∀ f, some f ∈ answers reach q.1 q.2 .empty ops → f.IsOf q

/-! ## The entries of a pair -/

/-- **What is stored has the id of a feature.** -/
def Keyed (s : FeatureSystem) : Prop := ∀ id f, s.store.lookup id = some f → "::".toList <:+: id

/-- Posts store features under their ids. -/
theorem Keyed.step {s : FeatureSystem} (hs : Keyed s) (reach : Str → Option Str) (op : FeatureOp) :
    Keyed (op.step reach s) := by
  intro id f hf
  rw [step_store_lookup] at hf
  cases op with
  | newFeature f' =>
      -- the separator stands between group and name
      by_cases hid : f'.id = id
      · exact ⟨_, _, hid⟩
      · rw [onStore, if_neg hid] at hf
        exact hs id f hf
  | enableFeature g n | disableFeature g n =>
      rw [onStore] at hf
      split at hf
      · obtain ⟨current, hcurrent, -⟩ := Option.map_eq_some_iff.mp hf
        exact hs id current hcurrent
      · exact hs id f hf
  | findByGroupAndName g n | findFeature g n | notify documents => exact hs id f hf

/-- The stored entry that lookups of a pair ask for, and the cached one of its id. -/
structure Entry where
  stored : Option Feature
  cached : Option Feature

section Entries

variable (reach : Str → Option Str)

/-- What an operation does to the stored entry that a pair asks for. -/
def onStored (q : Str × Str) (op : FeatureOp) (entry : Option Feature) : Option Feature :=
  match Feature.askedId reach q with
  | some id => op.onStore reach id entry
  | none => entry

/-- What an operation does to the entries of a pair. -/
def onEntry (q : Str × Str) (e : Entry) (op : FeatureOp) : Entry :=
  ⟨op.onStored reach q e.stored, op.onCache (Feature.pairId q) e.cached⟩

/-- What a lookup of a pair answers, from the entries of the pair. -/
def entryAnswer (p : Str × Str) (e : Entry) : FeatureOp → Option (Option Feature)
  | .findByGroupAndName g n => if (g, n) = p then some e.stored else none
  | .findFeature g n =>
    if (g, n) = p then some (some (e.cached.getD (FeaturesCache.placeholder g n))) else none
  | _ => none

/-- The answers to the lookups of a pair, from the entries of the pair. -/
def entryAnswers (p : Str × Str) (e : Entry) : List FeatureOp → List (Option Feature)
  | [] => []
  | op :: ops => (entryAnswer p e op).toList ++ entryAnswers p (onEntry reach p e op) ops

/-- The entries of a pair in a system. -/
def entry (q : Str × Str) (s : FeatureSystem) : Entry where
  stored := (Feature.askedId reach q).bind fun id => s.store.lookup id
  cached := s.cache.lookup (Feature.pairId q)

variable {reach}

/-- A lookup of the store answers what is stored under the id of the feature it asks for. -/
theorem findByGroupAndName_eq {s : FeatureSystem} (hs : Keyed s) (q : Str × Str) :
    FeatureServiceImpl.findByGroupAndName reach s.store q.1 q.2 = (entry reach q s).stored := by
  rw [FeatureServiceImpl.findByGroupAndName, entry, Feature.askedId]
  cases FeatureServiceImpl.askedId reach q.1 q.2 with
  | none => rfl
  | some id =>
      by_cases hid : "::".toList <:+: id
      · rw [Option.filter_some, if_pos (decide_eq_true hid)]
      · -- nothing is stored under what is no id of a feature
        rw [Option.filter_some, if_neg (by simpa using hid)]
        exact Option.eq_none_iff_forall_ne_some.mpr fun f hf => hid (hs id f hf)

/-- Every operation acts entry by entry. -/
theorem entry_step (q : Str × Str) (s : FeatureSystem) (op : FeatureOp) :
    entry reach q (step reach s op) = onEntry reach q (entry reach q s) op := by
  have hstored : (entry reach q (step reach s op)).stored =
      op.onStored reach q (entry reach q s).stored := by
    rw [entry, entry, onStored]
    cases Feature.askedId reach q with
    | none => rfl
    | some id => exact step_store_lookup reach s op id
  have hcached : (entry reach q (step reach s op)).cached =
      op.onCache (Feature.pairId q) (entry reach q s).cached := step_cache_lookup reach s op _
  rw [onEntry, ← hstored, ← hcached]

/-- A lookup of a pair reads the entries of the pair. -/
theorem answer_eq_entryAnswer (p : Str × Str) {s : FeatureSystem} (hs : Keyed s) (op : FeatureOp) :
    op.answer reach p.1 p.2 s = entryAnswer p (entry reach p s) op := by
  cases op with
  | findByGroupAndName g n =>
      simp only [answer, entryAnswer, Prod.ext_iff]
      by_cases h : g = p.1 ∧ n = p.2
      · rw [if_pos h, if_pos h, h.1, h.2, findByGroupAndName_eq hs p]
      · rw [if_neg h, if_neg h]
  | findFeature g n =>
      simp only [answer, entryAnswer, Prod.ext_iff]
      by_cases h : g = p.1 ∧ n = p.2
      · rw [if_pos h, if_pos h, h.1, h.2, FeaturesCache.findFeature]
        simp only [entry, Feature.pairId]
        cases s.cache.lookup (Feature.formId (some p.1) (some p.2)) <;> rfl
      · rw [if_neg h, if_neg h]
  | _ => rfl

/-- **What the lookups of a pair answer is read off its entries.** -/
theorem answers_eq_entryAnswers (p : Str × Str) {s : FeatureSystem} (hs : Keyed s)
    (ops : List FeatureOp) :
    answers reach p.1 p.2 s ops = entryAnswers reach p (entry reach p s) ops := by
  induction ops generalizing s with
  | nil => rfl
  | cons op ops ih =>
      rw [answers, entryAnswers, answer_eq_entryAnswer p hs, ih (hs.step reach op), entry_step]

/-- Nothing is stored at the start. -/
theorem keyed_empty : Keyed .empty :=
  fun _ _ hf => absurd hf.symm (Option.some_ne_none _)

end Entries

/-! ## Pairs that are kept apart -/

/-- **Nothing is done for the first pair where the second one is looked up**: the pairs have
different ids, and the document that the second one asks for is neither that of the first pair nor
the one that the first pair asks for. -/
structure Apart (reach : Str → Option Str) (p q : Str × Str) : Prop where
  id_ne : Feature.pairId p ≠ Feature.pairId q
  asked_ne : ∀ id ∈ Feature.askedId reach q,
    id ≠ Feature.pairId p ∧ Feature.askedId reach p ≠ some id

variable {reach : Str → Option Str}

/-- The first pair does not ask for the document that the second one asks for. -/
theorem Apart.not_asked {p q : Str × Str} (h : Apart reach p q) {id : Str}
    (hid : id ∈ Feature.askedId reach q) : FeatureServiceImpl.askedId reach p.1 p.2 ≠ some id :=
  fun hp => (h.asked_ne id hid).2
    (Feature.askedId_eq_some_iff.mpr ⟨hp, (Feature.askedId_eq_some_iff.mp hid).2⟩)

/-- An operation that does nothing to what a pair asks for. -/
theorem onStored_eq_self {q : Str × Str} {op : FeatureOp} {entry : Option Feature}
    (h : ∀ id ∈ Feature.askedId reach q, op.onStore reach id entry = entry) :
    op.onStored reach q entry = entry := by
  rw [onStored]
  cases hid : Feature.askedId reach q with
  | none => rfl
  | some id => exact h id hid

/-- Documents that notify of a feature with another id leave the cached entry as it is. -/
theorem onCacheNotified_filter {p : Str × Str} {id : Str} (h : Feature.pairId p ≠ id)
    (documents : List Feature) (entry : Option Feature) :
    onCacheNotified id (documents.filter fun f => ¬ f.Notifies p) entry =
      onCacheNotified id documents entry := by
  induction documents generalizing entry with
  | nil => rfl
  | cons f documents ih =>
      by_cases hf : f.Notifies p
      · obtain ⟨action, ha⟩ := Option.isSome_iff_exists.mp hf.2.2
        have hid : f.id ≠ id := hf.1.id_eq ▸ h
        rw [List.filter_cons_of_neg (by simpa using hf), ih]
        simp only [onCacheNotified, hf.2.1, ha, if_neg hid, if_true]
      · rw [List.filter_cons_of_pos (by simpa using hf)]
        simp only [onCacheNotified, ih]

/-- An operation for a pair leaves the entries of a pair that is kept apart as they are. -/
theorem onEntry_of_without_eq_none {p q : Str × Str} (h : Apart reach p q) (e : Entry) {op : FeatureOp}
    (hop : op.without p = none) : onEntry reach q e op = e := by
  cases op with
  | newFeature f =>
      have hf : f.IsOf p := by
        by_contra hf
        simp [without, hf] at hop
      rw [onEntry, onStored_eq_self fun id hid => ?_]
      · rfl
      · exact if_neg fun heq => (h.asked_ne id hid).1 (heq.symm.trans hf.id_eq)
  | enableFeature g n | disableFeature g n =>
      have hp : (g, n) = p := by
        by_contra hp
        simp [without, hp] at hop
      subst hp
      rw [onEntry, onStored_eq_self fun id hid => ?_]
      · rfl
      · exact if_neg (h.not_asked hid)
  | findByGroupAndName g n =>
      rw [onEntry, onStored_eq_self fun id _ => rfl]
      rfl
  | findFeature g n =>
      have hp : (g, n) = p := by
        by_contra hp
        simp [without, hp] at hop
      subst hp
      rw [onEntry, onStored_eq_self fun id _ => rfl, onCache]
      exact congrArg (Entry.mk e.stored) (if_neg h.id_ne)
  | notify documents => exact absurd hop (Option.some_ne_none _)

/-- What is left of an operation without a pair does the same to the entries of a pair that is kept
apart. -/
theorem onEntry_without {p q : Str × Str} (h : Apart reach p q) (e : Entry) (op : FeatureOp) :
    onEntry reach q e op = ((op.without p).map (onEntry reach q e)).getD e := by
  cases op with
  | notify documents =>
      have hstored : ∀ documents', onStored reach q (.notify documents') e.stored = e.stored :=
        fun documents' => onStored_eq_self fun id _ => rfl
      simp only [without, Option.map_some, Option.getD_some, onEntry, hstored, onCache,
        onCacheNotified_filter h.id_ne]
  | newFeature f =>
      by_cases hf : f.IsOf p
      · have hop : without p (.newFeature f) = none := if_pos hf
        rw [onEntry_of_without_eq_none h e hop, hop]
        rfl
      · rw [without, if_neg hf]
        rfl
  | enableFeature g n | disableFeature g n | findByGroupAndName g n | findFeature g n =>
      by_cases hp : (g, n) = p
      · rw [onEntry_of_without_eq_none h e (by rw [without, if_pos hp]), without, if_pos hp]
        rfl
      · rw [without, if_neg hp]
        rfl

/-- What is left of an operation without a pair answers the same for another pair. -/
theorem entryAnswer_without {p q : Str × Str} (hne : p ≠ q) (e : Entry)
    (op : FeatureOp) : entryAnswer q e op = (op.without p).bind (entryAnswer q e) := by
  cases op with
  | newFeature f =>
      by_cases hf : f.IsOf p <;> simp [without, hf, entryAnswer]
  | notify documents => rfl
  | enableFeature g n | disableFeature g n | findByGroupAndName g n | findFeature g n =>
      by_cases hp : (g, n) = p
      · subst hp
        simp [without, entryAnswer, hne]
      · simp [without, hp]

/-- Pairs that are kept apart are different. -/
theorem Apart.ne {p q : Str × Str} (h : Apart reach p q) : p ≠ q :=
  fun hpq => h.id_ne (congrArg Feature.pairId hpq)

/-- Leaving out a pair changes no answer for a pair that is kept apart from it. -/
theorem entryAnswers_without {p q : Str × Str} (h : Apart reach p q) (e : Entry) (ops : List FeatureOp) :
    entryAnswers reach q e ops = entryAnswers reach q e (ops.filterMap (without p)) := by
  induction ops generalizing e with
  | nil => rfl
  | cons op ops ih =>
      rw [entryAnswers, entryAnswer_without h.ne, onEntry_without h]
      cases hop : op.without p with
      | none => simpa [hop] using ih e
      | some op' =>
          rw [List.filterMap_cons_some hop, entryAnswers, ← ih]
          rfl

/-! ## What the entries hold -/

/-- Both entries hold features of the pair only. -/
def Entry.IsOf (e : Entry) (p : Str × Str) : Prop :=
  (∀ f ∈ e.stored, f.IsOf p) ∧ ∀ f ∈ e.cached, f.IsOf p

/-- A post under an id puts the posted feature there, if the entry was absent. -/
theorem postEntry_isOf {p : Str × Str} {recv : Feature} (hrecv : recv.IsOf p)
    {current : Option Feature} (hcurrent : ∀ f ∈ current, f.IsOf p) :
    ∀ f ∈ FeatureServiceImpl.postEntry recv current, f.IsOf p := by
  cases current with
  | some current => exact hcurrent
  | none =>
      intro f hf
      simp only [FeatureServiceImpl.postEntry, FeatureDao.handleStart, Option.mem_def] at hf
      split at hf
      · exact absurd hf (Option.some_ne_none _).symm
      · rw [← Option.some.inj hf]
        exact hrecv

/-- A patch keeps group and name. -/
theorem patchEntry_isOf {p : Str × Str} (recv : Feature) {current : Option Feature}
    (hcurrent : ∀ f ∈ current, f.IsOf p) :
    ∀ f ∈ FeatureServiceImpl.patchEntry recv current, f.IsOf p := by
  intro f hf
  obtain ⟨f', hf', rfl⟩ := Option.map_eq_some_iff.mp hf
  exact hcurrent f' hf'

/-- Notifications of features of two pairs with different ids put the second only under its id. -/
theorem onCacheNotified_isOf {p q : Str × Str} (h : Feature.pairId p ≠ Feature.pairId q)
    {documents : List Feature}
    (hwithin : ∀ f ∈ documents, f.documentKind = some Feature.kind → f.IsOf p ∨ f.IsOf q)
    {entry : Option Feature} (hentry : ∀ f ∈ entry, f.IsOf q) :
    ∀ f ∈ onCacheNotified (Feature.pairId q) documents entry, f.IsOf q := by
  induction documents generalizing entry with
  | nil => exact hentry
  | cons f documents ih =>
      have ih := @ih fun f hf => hwithin f (List.mem_cons_of_mem _ hf)
      unfold onCacheNotified
      -- the loop ends at the first document without a kind or an action
      cases hkind : f.documentKind with
      | none => exact hentry
      | some kind =>
          by_cases hk : kind = Feature.kind
          · simp only [if_pos hk]
            cases f.documentUpdateAction with
            | none => exact hentry
            | some action =>
                refine ih ?_
                by_cases hid : f.id = Feature.pairId q
                · -- a document under the id of `q` is one of `q`, since the ids of the pairs differ
                  have hf : f.IsOf q := (hwithin f List.mem_cons_self (hk ▸ hkind)).resolve_left
                    fun hf => h (hf.id_eq.symm.trans hid)
                  rw [if_pos hid]
                  by_cases hdelete : action = "DELETE".toList
                  · rw [if_pos hdelete]
                    exact fun f hf => absurd hf (Option.not_mem_none f)
                  · rw [if_neg hdelete]
                    exact fun f' hf' => Option.mem_some.mp hf' ▸ hf
                · rwa [if_neg hid]
          · simp only [if_neg hk]
            exact ih hentry

/-- An operation for one of two pairs puts the second only where the second one asks for it. -/
theorem onStored_isOf {p q : Str × Str} (h : Apart reach p q) {op : FeatureOp} (hwithin : op.Within p q)
    {entry : Option Feature} (hentry : ∀ f ∈ entry, f.IsOf q) :
    ∀ f ∈ op.onStored reach q entry, f.IsOf q := by
  rw [onStored]
  cases hid : Feature.askedId reach q with
  | none => exact hentry
  | some id =>
      cases op with
      | newFeature f =>
          simp only [onStore]
          by_cases hf : f.id = id
          · -- it is not for the first pair, whose document is another one
            have hq : f.IsOf q := hwithin.resolve_left fun hp =>
              (h.asked_ne id hid).1 (hf.symm.trans hp.id_eq)
            rw [if_pos hf]
            exact postEntry_isOf hq hentry
          · rwa [if_neg hf]
      | enableFeature g n | disableFeature g n =>
          simp only [onStore]
          split
          · exact patchEntry_isOf _ hentry
          · exact hentry
      | _ => exact hentry

/-- An operation for one of two pairs puts the second only into its entries. -/
theorem onEntry_isOf {p q : Str × Str} (h : Apart reach p q) {op : FeatureOp}
    (hwithin : op.Within p q) {e : Entry} (he : e.IsOf q) : (onEntry reach q e op).IsOf q := by
  refine ⟨onStored_isOf h hwithin he.1, ?_⟩
  cases op with
  | newFeature f | enableFeature g n | disableFeature g n | findByGroupAndName g n => exact he.2
  | findFeature g n =>
      simp only [onEntry, onCache]
      by_cases hid : Feature.formId (some g) (some n) = Feature.pairId q
      · have hq : (g, n) = q := hwithin.resolve_left fun hp => h.id_ne (hp ▸ hid)
        rw [if_pos hid]
        -- what is not cached becomes a placeholder of the pair that is looked up
        cases hcached : e.cached with
        | none => exact fun f hf => Option.mem_some.mp hf ▸ hq ▸ Feature.placeholder_isOf (g, n)
        | some f => exact fun f' hf' => he.2 f' (hcached ▸ hf')
      · rw [if_neg hid]
        exact he.2
  | notify documents => exact onCacheNotified_isOf h.id_ne hwithin he.2

/-- An entry that holds features of a pair only answers the lookups of the pair with these. -/
theorem entryAnswer_isOf {q : Str × Str} {e : Entry} (he : e.IsOf q) {op : FeatureOp} {f : Feature}
    (hf : entryAnswer q e op = some (some f)) : f.IsOf q := by
  cases op with
  | findByGroupAndName g n =>
      simp only [entryAnswer] at hf
      split at hf
      · exact he.1 f (Option.some.inj hf)
      · exact absurd hf.symm (Option.some_ne_none _)
  | findFeature g n =>
      simp only [entryAnswer] at hf
      split at hf
      · rename_i hq
        cases hcached : e.cached with
        | none =>
            rw [hcached] at hf
            rw [← Option.some.inj (Option.some.inj hf), ← hq]
            exact Feature.placeholder_isOf (g, n)
        | some f' =>
            rw [hcached] at hf
            rw [← Option.some.inj (Option.some.inj hf)]
            exact he.2 f' hcached
      · exact absurd hf.symm (Option.some_ne_none _)
  | _ => exact absurd hf.symm (Option.some_ne_none _)

/-- Along operations for two pairs that are kept apart, the lookups of the second answer with its
features. -/
theorem entryAnswers_isOf {p q : Str × Str} (h : Apart reach p q)
    {ops : List FeatureOp} (hwithin : ∀ op ∈ ops, op.Within p q) {e : Entry} (he : e.IsOf q)
    {f : Feature} (hf : some f ∈ entryAnswers reach q e ops) : f.IsOf q := by
  induction ops generalizing e with
  | nil => exact absurd hf List.not_mem_nil
  | cons op ops ih =>
      rw [entryAnswers, List.mem_append] at hf
      rcases hf with hf | hf
      · exact entryAnswer_isOf he (Option.mem_toList.mp hf)
      · exact ih (fun op hop => hwithin op (List.mem_cons_of_mem _ hop))
          (onEntry_isOf h (hwithin op List.mem_cons_self) he) hf

/-! ## When two pairs interfere -/

/-- The feature of a pair that shows an interference. -/
def featureOf (p : Str × Str) : Feature :=
  { Feature.new with group := some p.1, name := some p.2 }

/-- A document that notifies of the feature. -/
def documentFor (p : Str × Str) : Feature :=
  { featureOf p with documentKind := some Feature.kind, documentUpdateAction := some "POST".toList }

/-- The feature as the store keeps it. -/
def storedFor (p : Str × Str) : Feature :=
  { featureOf p with documentSelfLink := some (Feature.pairId p), strategy := some .default }

/-- What a lookup of the cache answers after a notification. -/
theorem answers_notify_find (q : Str × Str) (documents : List Feature) :
    answers reach q.1 q.2 .empty [.notify documents, .findFeature q.1 q.2] =
      [some ((onCacheNotified (Feature.pairId q) documents none).getD
        (FeaturesCache.placeholder q.1 q.2))] := by
  rw [answers_eq_entryAnswers q keyed_empty]
  simp only [entryAnswers, entryAnswer, onEntry, if_true]
  rfl

/-- What a lookup of the store answers after some operations. -/
theorem answers_find (q : Str × Str) (ops : List FeatureOp)
    (hops : ∀ op ∈ ops, ∀ s, op.answer reach q.1 q.2 s = none) (s : FeatureSystem) :
    answers reach q.1 q.2 s (ops ++ [.findByGroupAndName q.1 q.2]) =
      [FeatureServiceImpl.findByGroupAndName reach (run reach s ops).store q.1 q.2] := by
  induction ops generalizing s with
  | nil => simp [answers, answer, run]
  | cons op ops ih =>
      rw [List.cons_append, answers, hops op List.mem_cons_self, ih]
      · rfl
      · exact fun op hop => hops op (List.mem_cons_of_mem _ hop)

/-- A pair interferes with itself. -/
theorem NonInterfering.ne {p q : Str × Str} (h : NonInterfering reach p q) : (q.1, q.2) ≠ p := by
  intro hqp
  have hwithout := h.answers_without [.findFeature q.1 q.2]
  simp [without, hqp, answers, answer] at hwithout

/-- Pairs of one id share the cached entry. -/
theorem NonInterfering.id_ne {p q : Str × Str} (h : NonInterfering reach p q) :
    Feature.pairId p ≠ Feature.pairId q := by
  intro hid
  have hid' : (documentFor p).id = Feature.pairId q := hid
  have hnotifies : (documentFor p).Notifies p := ⟨⟨rfl, rfl⟩, rfl, rfl⟩
  have hwithout := h.answers_without [.notify [documentFor p], .findFeature q.1 q.2]
  -- without the first pair the lookup answers a placeholder
  have hleft : [FeatureOp.notify [documentFor p], .findFeature q.1 q.2].filterMap (without p) =
      [.notify [], .findFeature q.1 q.2] := by
    simp [without, h.ne, hnotifies]
  have hcached : onCacheNotified (Feature.pairId q) [documentFor p] none = some (documentFor p) := by
    rw [← hid']
    simp [onCacheNotified, documentFor]
  rw [hleft, answers_notify_find, answers_notify_find, hcached] at hwithout
  have hkind := congrArg Feature.documentKind (Option.some.inj (List.cons.inj hwithout).1)
  exact Option.some_ne_none _ hkind

/-- What the second pair asks for is the same without the first. -/
theorem NonInterfering.lookup_eq {p q : Str × Str} (h : NonInterfering reach p q)
    (ops ops' : List FeatureOp) (hleft : ops.filterMap (without p) = ops')
    (hops : ∀ op ∈ ops ++ ops', ∀ s, op.answer reach q.1 q.2 s = none) {id : Str}
    (hq : Feature.askedId reach q = some id) :
    (run reach .empty ops).store.lookup id = (run reach .empty ops').store.lookup id := by
  have hwithout := h.answers_without (ops ++ [.findByGroupAndName q.1 q.2])
  have hfind : ∀ store, FeatureServiceImpl.findByGroupAndName reach store q.1 q.2 = store.lookup id :=
    fun store => congrArg (Option.bind · _) (Feature.askedId_eq_some_iff.mp hq).1
  have hlast : [findByGroupAndName q.1 q.2].filterMap (without p) = [.findByGroupAndName q.1 q.2] :=
    List.filterMap_cons_some (if_neg h.ne)
  rw [List.filterMap_append, hleft, hlast,
    answers_find q ops fun op hop => hops op (List.mem_append_left _ hop),
    answers_find q ops' fun op hop => hops op (List.mem_append_right _ hop), hfind, hfind] at hwithout
  exact (List.cons.inj hwithout).1

/-- A feature that is posted first is stored. -/
theorem lookup_run_newFeature (reach : Str → Option Str) (p : Str × Str) :
    (run reach .empty [.newFeature (featureOf p)]).store.lookup (Feature.pairId p) =
      some (storedFor p) := by
  have hid : (featureOf p).id = Feature.pairId p := rfl
  rw [run, List.foldl_cons, List.foldl_nil, step_store_lookup, onStore, if_pos hid]
  rfl

/-- What is posted for the first pair is not what the second one asks for. -/
theorem NonInterfering.askedId_ne {p q : Str × Str} (h : NonInterfering reach p q) :
    Feature.askedId reach q ≠ some (Feature.pairId p) := by
  intro hq
  have hof : (featureOf p).IsOf p := ⟨rfl, rfl⟩
  have hlookup := h.lookup_eq [.newFeature (featureOf p)] []
    (List.filterMap_cons_none (if_pos hof)) (by simp [answer]) hq
  rw [lookup_run_newFeature] at hlookup
  exact Option.some_ne_none _ hlookup

/-- What is patched for the first pair is not what the second one asks for. -/
theorem NonInterfering.askedId_ne_askedId {p q : Str × Str} (h : NonInterfering reach p q)
    {id : Str} (hq : Feature.askedId reach q = some id) : Feature.askedId reach p ≠ some id := by
  intro hp
  -- the document is that of a third pair
  obtain ⟨r, rfl⟩ := Feature.exists_pairId_iff.mpr (Feature.askedId_eq_some_iff.mp hq).2
  have hof : ¬ (featureOf r).IsOf p := by
    rintro hof
    exact h.askedId_ne (hq.trans (congrArg some hof.id_eq))
  have hpatch : without p (.enableFeature p.1 p.2) = none := if_pos rfl
  have hpost : without p (.newFeature (featureOf r)) = some (.newFeature (featureOf r)) :=
    if_neg hof
  have hlookup := h.lookup_eq
    [.newFeature (featureOf r), .enableFeature p.1 p.2] [.newFeature (featureOf r)]
    (by rw [List.filterMap_cons_some hpost, List.filterMap_cons_none hpatch, List.filterMap_nil])
    (by simp [answer]) hq
  have hpatched : (run reach .empty
      [.newFeature (featureOf r), .enableFeature p.1 p.2]).store.lookup (Feature.pairId r) =
        some { storedFor r with enable := true } := by
    have hposted := lookup_run_newFeature reach r
    have hp' := (Feature.askedId_eq_some_iff.mp hp).1
    rw [run, List.foldl_cons, List.foldl_nil] at hposted
    rw [run, List.foldl_cons, List.foldl_cons, List.foldl_nil, step_store_lookup, hposted, onStore,
      if_pos hp']
    rfl
  rw [hpatched, lookup_run_newFeature] at hlookup
  have henable := congrArg Feature.enable (Option.some.inj hlookup)
  exact Bool.false_ne_true henable.symm

/-- **A pair is left alone by another exactly when the two are kept apart**, wherever Xenon brings
requests: their ids differ, and the feature that lookups of the second ask the store for is neither
that of the first nor the one that patches of the first ask for. -/
theorem nonInterfering_iff (reach : Str → Option Str) (p q : Str × Str) :
    NonInterfering reach p q ↔
      Feature.pairId p ≠ Feature.pairId q ∧ ∀ id ∈ Feature.askedId reach q,
        id ≠ Feature.pairId p ∧ Feature.askedId reach p ≠ some id := by
  constructor
  · intro h
    refine ⟨h.id_ne, fun id hid => ⟨?_, h.askedId_ne_askedId hid⟩⟩
    rintro rfl
    exact h.askedId_ne hid
  · intro h
    have hapart : Apart reach p q := ⟨h.1, h.2⟩
    refine ⟨fun ops => ?_, fun ops hwithin f hf => ?_⟩
    · rw [answers_eq_entryAnswers q keyed_empty, answers_eq_entryAnswers q keyed_empty,
        ← entryAnswers_without hapart]
    · rw [answers_eq_entryAnswers q keyed_empty] at hf
      refine entryAnswers_isOf hapart hwithin ⟨fun f hf => ?_, fun f hf => ?_⟩ hf
      · obtain ⟨id, -, hid⟩ := Option.bind_eq_some_iff.mp hf
        exact absurd hid (Option.not_mem_none f)
      · exact absurd hf (Option.not_mem_none f)

/-- **Distinct pairs can interfere**: `("a", "b::c")` and `("a::b", "c")` form the same id, and
`findByGroupAndName("a::b", "c")` answers the feature of the group `a`; and a backslash in the name
`b\\c` makes `findByGroupAndName` ask for the feature `bc`. -/
theorem pairs_interfere :
    (("a".toList, "b::c".toList) ≠ ("a::b".toList, "c".toList) ∧
      ¬ NonInterfering some ("a".toList, "b::c".toList) ("a::b".toList, "c".toList)) ∧
    (("a".toList, "bc".toList) ≠ ("a".toList, "b\\c".toList) ∧
      ¬ NonInterfering some ("a".toList, "bc".toList) ("a".toList, "b\\c".toList)) := by
  refine ⟨⟨by decide +kernel, fun h => ?_⟩, by decide +kernel, fun h => ?_⟩
  · have hanswer := h.answer_isOf
      [.newFeature (featureOf ("a".toList, "b::c".toList)),
        .findByGroupAndName "a::b".toList "c".toList]
      (by
        intro op hop
        rcases List.mem_pair.mp hop with rfl | rfl
        · exact .inl ⟨rfl, rfl⟩
        · exact .inr rfl)
      (storedFor ("a".toList, "b::c".toList)) (by decide +kernel)
    exact absurd hanswer.1 (by decide +kernel)
  · have hanswer := h.answer_isOf
      [.newFeature (featureOf ("a".toList, "bc".toList)),
        .findByGroupAndName "a".toList "b\\c".toList]
      (by
        intro op hop
        rcases List.mem_pair.mp hop with rfl | rfl
        · exact .inl ⟨rfl, rfl⟩
        · exact .inr rfl)
      (storedFor ("a".toList, "bc".toList)) (by decide +kernel)
    exact absurd hanswer.2 (by decide +kernel)

end FeatureOp

end XenonExt
