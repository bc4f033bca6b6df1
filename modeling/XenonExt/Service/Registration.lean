import XenonExt.Java.Replace
import XenonExt.JaxRs.UriUtils
import XenonExt.Service.History

/-! # Registration and lookup of services

The first document of a service instance registers the service with the stats service, which looks
the configuration up again for the graph of a document. The one removes the id from the self link as
a pattern, the other cuts the self link at its last slash.

* **`replaceAll_rooted`**: removing `'/' + id` from a path of segments acts on every segment.
* **`RegisteredUnderKey`**: a document's service is registered under the key it is looked up with.
* **`registeredUnderKey_iff`**: this holds exactly for ids with which no segment starts, and then
  for all documents of a run. -/

namespace XenonExt

/-! ## Links -/

/-- A character that is not a slash and means itself in a pattern: letters, digits, `-` and `_` do. -/
def isLiteral (c : Char) : Prop := c ≠ uriPathChar ∧ c ∉ "\\^$.|?*+()[]\x7b\x7d".toList

instance (c : Char) : Decidable (isLiteral c) := by
  unfold isLiteral
  infer_instance

instance (text : Str) : Decidable (∀ c ∈ text, isLiteral c) := List.decidableBAll isLiteral text

/-- **A segment of a link**, or the id at its end. -/
structure LinkSegment where
  text : Str
  ne_nil : text ≠ []
  literal : ∀ c ∈ text, isLiteral c

/-- No segment has a slash. -/
theorem LinkSegment.not_mem (s : LinkSegment) : uriPathChar ∉ s.text :=
  fun h => (s.literal _ h).1 rfl

/-- The link of a factory. -/
def factoryLink (factory : List LinkSegment) : Str :=
  rooted uriPathChar (factory.map LinkSegment.text)

/-- The self link of a document of a factory. -/
def documentLink (factory : List LinkSegment) (id : LinkSegment) : Str :=
  factoryLink factory ++ uriPathChar :: id.text

/-- `getSelfId` returns the last segment of the self link. -/
def ReturnsLastSegment (getSelfId : Str → Str) : Prop :=
  ∀ parent id, uriPathChar ∉ id → getSelfId (parent ++ uriPathChar :: id) = id

/-- `s.substring(0, s.lastIndexOf(sep))`; `none` when it throws. -/
def beforeLast (sep : Char) (s : Str) : Option Str :=
  if sep ∈ s then some (s.rdropWhile (· ≠ sep)).dropLast else none

/-- Cutting at the last separator. -/
theorem beforeLast_append_cons {sep : Char} (parent : Str) {id : Str} (hid : sep ∉ id) :
    beforeLast sep (parent ++ sep :: id) = some parent := by
  have hmem : sep ∈ parent ++ sep :: id := List.mem_append_right _ List.mem_cons_self
  have hdrop : (parent ++ sep :: id).rdropWhile (· ≠ sep) = parent ++ [sep] := by
    induction id using List.reverseRecOn with
    | nil => exact List.rdropWhile_concat_neg _ _ _ (by simp)
    | append_singleton id c ih =>
        rw [List.mem_append, List.mem_singleton, not_or] at hid
        rw [← List.cons_append, ← List.append_assoc, List.rdropWhile_concat_pos _ _ _ (by
          simpa using Ne.symm hid.2)]
        exact ih hid.1 (List.mem_append_right _ List.mem_cons_self)
  rw [beforeLast, if_pos hmem, hdrop, List.dropLast_concat]

/-! ## Removing an id from a link -/

/-- What is left of a segment and the slash before it when `'/' + id` is removed. -/
def withoutId (id s : Str) : Str := if id <+: s then s.drop id.length else uriPathChar :: s

/-- What is left of a segment is not longer, and shorter if the id was removed. -/
theorem length_withoutId (id s : Str) :
    (withoutId id s).length + (if id <+: s then 1 else 0) ≤ s.length + 1 := by
  unfold withoutId
  split
  · simp only [List.length_drop]
    omega
  · simp

/-- **Removing `'/' + id` from a path of segments** acts on every segment by itself. -/
theorem replaceAll_rooted {id : Str} (hid : uriPathChar ∉ id) {segments : List Str}
    (h : ∀ s ∈ segments, uriPathChar ∉ s) :
    replaceAll (uriPathChar :: id) [] (rooted uriPathChar segments) =
      some (segments.flatMap (withoutId id)) := by
  induction segments with
  | nil => rfl
  | cons s segments ih =>
      obtain ⟨hs, hsegments⟩ := List.forall_mem_cons.mp h
      have ih := ih hsegments
      rw [rooted_cons, List.cons_append, List.flatMap_cons, withoutId]
      by_cases hprefix : id <+: s
      · obtain ⟨rest, rfl⟩ := hprefix
        have hrest : uriPathChar ∉ rest := fun hmem => hs (List.mem_append_right _ hmem)
        rw [List.append_assoc, ← List.cons_append, replaceAll_self_append, replaceAll_append hrest,
          ih, if_pos (List.prefix_append id rest), List.drop_left]
        rfl
      · -- an occurrence does not reach over the slash of the next segment
        have hfront : ¬ uriPathChar :: id <+: uriPathChar :: (s ++ rooted uriPathChar segments) := by
          rw [List.cons_prefix_cons]
          rintro ⟨-, hstart⟩
          cases segments with
          | nil => exact hprefix (by simpa using hstart)
          | cons s' segments => exact hprefix ((prefix_append_cons_iff hid s _).mp hstart)
        rw [replaceAll_cons hfront, replaceAll_append hs, ih, if_neg hprefix]
        rfl

/-- Removing the id leaves all segments alone exactly when none of them starts with it. -/
theorem flatMap_withoutId_eq_iff (id : Str) (segments : List Str) :
    segments.flatMap (withoutId id) = rooted uriPathChar segments ↔
      ∀ s ∈ segments, ¬ id <+: s := by
  have hle : ∀ l : List Str,
      (l.flatMap (withoutId id)).length ≤ (rooted uriPathChar l).length := by
    intro l
    induction l with
    | nil => exact Nat.le_refl _
    | cons s l ih =>
        have hs := length_withoutId id s
        rw [List.flatMap_cons, rooted_cons, List.length_append, List.length_append,
          List.length_cons]
        omega
  induction segments with
  | nil => exact iff_of_true rfl fun s hs => nomatch hs
  | cons s segments ih =>
      refine Iff.trans ?_ (List.forall_mem_cons.trans (and_congr_right' ih.symm)).symm
      rw [List.flatMap_cons, rooted_cons]
      constructor
      · intro h
        have hs : ¬ id <+: s := by
          intro hprefix
          have hlength := congrArg List.length h
          have hshorter := length_withoutId id s
          have hrest := hle segments
          rw [if_pos hprefix] at hshorter
          rw [List.length_append, List.length_append, List.length_cons] at hlength
          omega
        rw [withoutId, if_neg hs] at h
        exact ⟨hs, List.append_cancel_left h⟩
      · rintro ⟨hs, h⟩
        rw [withoutId, if_neg hs, h]

/-! ## The stats service -/

/-- What reflection gives for the name of a service class: whether it is an interface, and the
configuration of a new instance, if one can be made. -/
structure ServiceClass (G A : Type) where
  isInterface : Bool
  stateMachineConfig : Option (StateMachineConfig G A)

/-- A URI to register, and the name of a class. -/
structure Registration where
  uri : Str
  className : Str
  deriving DecidableEq

/-- The stats service: the configurations it knows, by the URI of their service. -/
structure FSMStatsServiceImpl (G A : Type) where
  fsmSvcs : AList fun _ : Str => StateMachineConfig G A

variable {G A X : Type}

namespace FSMStatsServiceImpl

/-- `registerSvc`: remember the configuration of a class, and list all URIs; `none` when it throws.
There is nothing to remember for an interface. -/
def registerSvc (forName : Str → Option (ServiceClass G A)) (stats : FSMStatsServiceImpl G A)
    (uri className : Str) : Option (FSMStatsServiceImpl G A × List Str) := do
  let aClass ← forName className
  if aClass.isInterface then some (stats, stats.fsmSvcs.keys)
  else do
    let config ← aClass.stateMachineConfig
    let fsmSvcs := stats.fsmSvcs.insert uri config
    some (⟨fsmSvcs⟩, fsmSvcs.keys)

/-- The stats service after a request to register, which may fail. -/
def register (forName : Str → Option (ServiceClass G A)) (stats : FSMStatsServiceImpl G A)
    (r : Registration) : FSMStatsServiceImpl G A :=
  ((stats.registerSvc forName r.uri r.className).map Prod.fst).getD stats

/-- The URI under which `docGraphson` looks up the service of a document; `none` when it throws. -/
def svcUri (uri : Str) : Option Str := beforeLast uriPathChar uri

/-- The configuration that `docGraphson` finds for a document. -/
def configOf (stats : FSMStatsServiceImpl G A) (uri : Str) : Option (StateMachineConfig G A) :=
  (svcUri uri).bind fun svcUri => stats.fsmSvcs.lookup svcUri

/-- `docGraphson`, once the versions of the document are there: the URI and the graph; `none` when it
throws, as it does without a configuration. -/
def docGraphson (stats : FSMStatsServiceImpl G A) (uri : Str)
    (fsmServiceDocs : List (FSMServiceDoc X)) : Option (Str × Str) :=
  (stats.configOf uri).map fun _ => (uri, generateDotFileOf fsmServiceDocs)

/-- Where a configuration is found, the page of a document shows its history. -/
theorem docGraphson_eq {stats : FSMStatsServiceImpl G A} {uri : Str} {config : StateMachineConfig G A}
    (h : stats.configOf uri = some config) (fsmServiceDocs : List (FSMServiceDoc X)) :
    stats.docGraphson uri fsmServiceDocs = some (uri, generateDotFileOf fsmServiceDocs) := by
  rw [docGraphson, h, Option.map_some]

end FSMStatsServiceImpl

/-! ## Creating documents -/

/-- The service instance of a document. -/
structure ServiceInstance where
  selfLink : Str
  className : Str
  doRegistration : Bool

namespace ServiceInstance

/-- The URI that `handleCreate` registers. -/
def svcUri (getSelfId : Str → Str) (service : ServiceInstance) : Option Str :=
  replaceAll (uriPathChar :: getSelfId service.selfLink) [] service.selfLink

/-- **`handleCreate`**: the first time, register the class of the service. A registration that fails
leaves the stats service as it was, and is not tried again. -/
def handleCreate (getSelfId : Str → Str) (forName : Str → Option (ServiceClass G A))
    (service : ServiceInstance) (stats : FSMStatsServiceImpl G A) :
    ServiceInstance × FSMStatsServiceImpl G A :=
  if service.doRegistration then
    let registered := do
      let svcUri ← service.svcUri getSelfId
      stats.registerSvc forName svcUri service.className
    ({ service with doRegistration := false }, (registered.map Prod.fst).getD stats)
  else (service, stats)

end ServiceInstance

/-- A document to be created: its factory and its id. -/
structure Creation where
  factory : List LinkSegment
  id : LinkSegment

namespace Creation

/-- The self link of the document. -/
def selfLink (c : Creation) : Str := documentLink c.factory c.id

/-- A new service instance is made for every document, of the class its factory is for. -/
def service (classOf : Str → Str) (c : Creation) : ServiceInstance where
  selfLink := c.selfLink
  className := classOf (factoryLink c.factory)
  doRegistration := true

/-- Create a document. -/
def create (getSelfId : Str → Str) (forName : Str → Option (ServiceClass G A))
    (classOf : Str → Str) (stats : FSMStatsServiceImpl G A) (c : Creation) :
    FSMStatsServiceImpl G A :=
  ((c.service classOf).handleCreate getSelfId forName stats).2

/-- What a document asks for when it is created; `none` when that throws. -/
def registration (getSelfId : Str → Str) (classOf : Str → Str) (c : Creation) :
    Option Registration :=
  ((c.service classOf).svcUri getSelfId).map (⟨·, (c.service classOf).className⟩)

/-- **Creating a document is its registration.** -/
theorem create_eq_register (getSelfId : Str → Str) (forName : Str → Option (ServiceClass G A))
    (classOf : Str → Str) (stats : FSMStatsServiceImpl G A) (c : Creation) :
    c.create getSelfId forName classOf stats =
      (c.registration getSelfId classOf).toList.foldl
        (FSMStatsServiceImpl.register forName) stats := by
  have hregister : (c.service classOf).doRegistration = true := rfl
  rw [create, ServiceInstance.handleCreate, if_pos hregister, registration]
  cases (c.service classOf).svcUri getSelfId <;> rfl

/-- **No segment of the factory's link starts with the id.** -/
def NoSegmentStartsWithId (c : Creation) : Prop := ∀ s ∈ c.factory, ¬ c.id.text <+: s.text

instance (c : Creation) : Decidable c.NoSegmentStartsWithId :=
  List.decidableBAll (fun s : LinkSegment => ¬ c.id.text <+: s.text) c.factory

/-- **A document's service is registered under its key**: under the link of its factory, with which
`docGraphson` looks it up, so that it finds the configuration of the service and shows the document. -/
structure RegisteredUnderKey (getSelfId : Str → Str) (c : Creation) : Prop where
  registered : ∀ classOf, (c.service classOf).svcUri getSelfId = some (factoryLink c.factory)
  sameKey : ∀ classOf, (c.service classOf).svcUri getSelfId = FSMStatsServiceImpl.svcUri c.selfLink
  found : ∀ (G A : Type) (forName : Str → Option (ServiceClass G A)) (classOf : Str → Str)
    (config : StateMachineConfig G A) (stats : FSMStatsServiceImpl G A),
      forName (classOf (factoryLink c.factory)) = some ⟨false, some config⟩ →
        (c.create getSelfId forName classOf stats).configOf c.selfLink = some config
  shown : ∀ (G A X : Type) (forName : Str → Option (ServiceClass G A)) (classOf : Str → Str)
    (config : StateMachineConfig G A) (stats : FSMStatsServiceImpl G A)
    (fsmServiceDocs : List (FSMServiceDoc X)),
      forName (classOf (factoryLink c.factory)) = some ⟨false, some config⟩ →
        (c.create getSelfId forName classOf stats).docGraphson c.selfLink fsmServiceDocs =
          some (c.selfLink, generateDotFileOf fsmServiceDocs)

variable {getSelfId : Str → Str} (hself : ReturnsLastSegment getSelfId)

/-- The service of a document is looked up under the link of its factory. -/
theorem svcUri_selfLink (c : Creation) :
    FSMStatsServiceImpl.svcUri c.selfLink = some (factoryLink c.factory) :=
  beforeLast_append_cons _ c.id.not_mem

section
include hself

/-- The URI that is registered for a document. -/
theorem svcUri_service (classOf : Str → Str) (c : Creation) :
    (c.service classOf).svcUri getSelfId =
      some ((c.factory.map LinkSegment.text).flatMap (withoutId c.id.text)) := by
  have hid : getSelfId (c.service classOf).selfLink = c.id.text := hself _ _ c.id.not_mem
  have hlink : (c.service classOf).selfLink =
      rooted uriPathChar (c.factory.map LinkSegment.text ++ [c.id.text]) := by
    rw [rooted_append, rooted_cons, rooted_nil, List.append_nil]
    rfl
  have hsegments : ∀ s ∈ c.factory.map LinkSegment.text ++ [c.id.text], uriPathChar ∉ s := by
    intro s hs
    rcases List.mem_append.mp hs with hs | hs
    · obtain ⟨segment, -, rfl⟩ := List.mem_map.mp hs
      exact segment.not_mem
    · exact List.mem_singleton.mp hs ▸ c.id.not_mem
  have hlast : withoutId c.id.text c.id.text = [] := by
    rw [withoutId, if_pos (List.prefix_refl _), List.drop_length]
  rw [ServiceInstance.svcUri, hid, hlink, replaceAll_rooted c.id.not_mem hsegments,
    List.flatMap_append, List.flatMap_singleton, hlast, List.append_nil]

/-- The URI registered is the link of the factory exactly when no segment starts with the id. -/
theorem svcUri_service_eq_iff (classOf : Str → Str) (c : Creation) :
    (c.service classOf).svcUri getSelfId = some (factoryLink c.factory) ↔
      c.NoSegmentStartsWithId := by
  rw [svcUri_service hself, Option.some_inj, factoryLink, flatMap_withoutId_eq_iff]
  exact List.forall_mem_map

/-- Creating a document remembers the configuration of its service. -/
theorem create_eq {c : Creation} (hc : c.NoSegmentStartsWithId)
    {forName : Str → Option (ServiceClass G A)} {classOf : Str → Str}
    {config : StateMachineConfig G A}
    (hclass : forName (classOf (factoryLink c.factory)) = some ⟨false, some config⟩)
    (stats : FSMStatsServiceImpl G A) :
    c.create getSelfId forName classOf stats =
      ⟨stats.fsmSvcs.insert (factoryLink c.factory) config⟩ := by
  have huri := (svcUri_service_eq_iff hself classOf c).mpr hc
  have hname : forName (c.service classOf).className = some ⟨false, some config⟩ := hclass
  rw [create_eq_register, registration, huri, Option.map_some, Option.toList_some, List.foldl_cons,
    List.foldl_nil, FSMStatsServiceImpl.register]
  simp only [FSMStatsServiceImpl.registerSvc, hname, Option.bind_eq_bind, Option.bind_some]
  rfl

/-- One document is registered under its key exactly when no segment starts with its id. -/
theorem registeredUnderKey_iff_noSegmentStartsWithId (c : Creation) :
    c.RegisteredUnderKey getSelfId ↔ c.NoSegmentStartsWithId := by
  constructor
  · intro h
    exact (svcUri_service_eq_iff hself (fun name => name) c).mp (h.registered fun name => name)
  · intro hc
    have hregistered := fun classOf => (svcUri_service_eq_iff hself classOf c).mpr hc
    have hfound : ∀ (G A : Type) (forName : Str → Option (ServiceClass G A)) (classOf : Str → Str)
        (config : StateMachineConfig G A) (stats : FSMStatsServiceImpl G A),
          forName (classOf (factoryLink c.factory)) = some ⟨false, some config⟩ →
            (c.create getSelfId forName classOf stats).configOf c.selfLink = some config := by
      intro G A forName classOf config stats hclass
      rw [create_eq hself hc hclass, FSMStatsServiceImpl.configOf, svcUri_selfLink,
        Option.bind_some, AList.lookup_insert]
    refine ⟨hregistered, fun classOf => ?_, hfound, ?_⟩
    · rw [hregistered, svcUri_selfLink]
    · intro G A X forName classOf config stats fsmServiceDocs hclass
      exact FSMStatsServiceImpl.docGraphson_eq (hfound G A forName classOf config stats hclass) _

/-- **A service is looked up under the key it was registered with**, for a document with whose id no
segment of the factory's link starts, and for no other. In a run that creates such documents only,
the configuration of its service is found for every document created. -/
theorem registeredUnderKey_iff :
    (∀ c : Creation, c.RegisteredUnderKey getSelfId ↔ c.NoSegmentStartsWithId) ∧
      ∀ (G A : Type) (forName : Str → Option (ServiceClass G A)) (classOf : Str → Str)
        (config : Str → StateMachineConfig G A),
        (∀ link, forName (classOf link) = some ⟨false, some (config link)⟩) →
          ∀ (stats : FSMStatsServiceImpl G A) (creations : List Creation),
            (∀ c ∈ creations, c.NoSegmentStartsWithId) → ∀ c ∈ creations,
              (creations.foldl (create getSelfId forName classOf) stats).configOf c.selfLink =
                some (config (factoryLink c.factory)) := by
  refine ⟨registeredUnderKey_iff_noSegmentStartsWithId hself, ?_⟩
  intro G A forName classOf config hclass stats creations hcreations
  induction creations using List.reverseRecOn with
  | nil => exact fun c hc => nomatch hc
  | append_singleton creations c ih =>
      intro d hd
      have hc := hcreations c (List.mem_append_right _ (List.mem_singleton_self c))
      have ih := ih fun c hc => hcreations c (List.mem_append_left _ hc)
      rw [List.foldl_append, List.foldl_cons, List.foldl_nil, create_eq hself hc (hclass _),
        FSMStatsServiceImpl.configOf, svcUri_selfLink, Option.bind_some]
      by_cases hlink : factoryLink d.factory = factoryLink c.factory
      · rw [hlink, AList.lookup_insert]
      · -- the document is of another factory, and was created before
        have hmem : d ∈ creations := by
          refine (List.mem_append.mp hd).resolve_right fun h => hlink ?_
          rw [List.mem_singleton.mp h]
        have hfound := ih d hmem
        rw [FSMStatsServiceImpl.configOf, svcUri_selfLink, Option.bind_some] at hfound
        rw [AList.lookup_insert_ne hlink, hfound]

end

/-! ## Sample documents -/

/-- The last segment of a link. -/
def lastSegment (link : Str) : Str := link.rtakeWhile (· ≠ uriPathChar)

/-- The last segment is the last segment. -/
theorem lastSegment_returns : ReturnsLastSegment lastSegment := by
  intro parent id hid
  induction id using List.reverseRecOn with
  | nil => exact List.rtakeWhile_concat_neg _ _ _ (by simp)
  | append_singleton id c ih =>
      rw [List.mem_append, List.mem_singleton, not_or] at hid
      rw [lastSegment, ← List.cons_append, ← List.append_assoc,
        List.rtakeWhile_concat_pos _ _ _ (by simpa using Ne.symm hid.2)]
      exact congrArg (· ++ [c]) (ih hid.1)

/-- The segment `phone`. -/
def phoneSegment : LinkSegment := ⟨"phone".toList, by decide, by decide⟩

/-- The segment `p`. -/
def pSegment : LinkSegment := ⟨"p".toList, by decide, by decide⟩

/-- The segment `7`. -/
def sevenSegment : LinkSegment := ⟨"7".toList, by decide, by decide⟩

/-- **An id can be removed from the link of the factory**: the service of the document `/phone/p` is
registered under `hone`. -/
theorem registeredUnderKey_phone_p :
    (∀ classOf, (service classOf ⟨[phoneSegment], pSegment⟩).svcUri lastSegment =
      some "hone".toList) ∧
      ¬ RegisteredUnderKey lastSegment ⟨[phoneSegment], pSegment⟩ := by
  have huri : ∀ classOf, (service classOf ⟨[phoneSegment], pSegment⟩).svcUri lastSegment =
      some "hone".toList := by
    intro classOf
    rw [svcUri_service lastSegment_returns]
    decide
  refine ⟨huri, fun h => ?_⟩
  have hfactory := (huri fun name => name).symm.trans (h.registered fun name => name)
  exact absurd hfactory (by decide)

/-- The service of the document `/phone/7` is registered under its key, and found when the document
has been created. -/
theorem registeredUnderKey_phone_7 :
    let config : StateMachineConfig Empty Nat :=
      .build (some "OffHook".toList) (phoneCalls fun n => n)
    let create := create lastSegment (fun _ => some ⟨false, some config⟩) fun name => name
    RegisteredUnderKey lastSegment ⟨[phoneSegment], sevenSegment⟩ ∧
      (create ⟨∅⟩ ⟨[phoneSegment], sevenSegment⟩).configOf "/phone/7".toList = some config := by
  intro config create
  obtain ⟨hiff, hrun⟩ := registeredUnderKey_iff lastSegment_returns
  have hfound := hrun Empty Nat (fun _ => some ⟨false, some config⟩) (fun name => name)
    (fun _ => config) (fun _ => rfl) ⟨∅⟩ [⟨[phoneSegment], sevenSegment⟩] (by decide) _
    List.mem_cons_self
  exact ⟨(hiff _).mpr (by decide), hfound⟩

end Creation

end XenonExt
