import XenonExt.Effects.LastWrite
import XenonExt.Service.Registration

/-! # Monitoring

Every document that is created registers its service with the stats service, whose pages show which
services there are and the graph of each. Registrations may come in any order, more than once, or
not at all.

* **`allServices`, `svcGraphson`**: what the pages show.
* **`writes`**: what is remembered of registrations.
* **`svcGraphson_register`**: the graph of a service is that of a class registered under its URI. -/

namespace XenonExt

variable {G A : Type}

/-! ## The pages -/

namespace FSMStatsServiceImpl

/-- `allServices`: the URIs under which services are registered. -/
def allServices (stats : FSMStatsServiceImpl G A) : List Str := stats.fsmSvcs.keys

/-- `svcGraphson`: the URI and the graph of a service; `none` when it throws, as it does without a
configuration. -/
def svcGraphson (stats : FSMStatsServiceImpl G A) (uri : Str) : Option (Str × Str) :=
  (stats.fsmSvcs.lookup uri).map fun config => (uri, config.generateDotFile)

/-- The services that have a graph are those that are listed. -/
theorem svcGraphson_isSome_iff (stats : FSMStatsServiceImpl G A) (uri : Str) :
    (stats.svcGraphson uri).isSome ↔ uri ∈ stats.allServices := by
  rw [svcGraphson, Option.isSome_map, AList.lookup_isSome, allServices, AList.mem_keys]

end FSMStatsServiceImpl

/-! ## Registrations -/

section Registrations

variable (forName : Str → Option (ServiceClass G A))

/-- The configuration that is remembered for a class, if it can be loaded and is no interface. -/
def configFor (className : Str) : Option (StateMachineConfig G A) :=
  (forName className).bind fun aClass =>
    if aClass.isInterface then none else aClass.stateMachineConfig

/-- The graph of a class. -/
def graphFor (className : Str) : Option Str :=
  (configFor forName className).map StateMachineConfig.generateDotFile

namespace FSMStatsServiceImpl

/-- What some registrations write. -/
def writes (registrations : List Registration) : List (Str × StateMachineConfig G A) :=
  registrations.filterMap fun r => (configFor forName r.className).map (r.uri, ·)

variable {forName}

/-- A registration is remembered if its class has a configuration. -/
theorem fsmSvcs_register (stats : FSMStatsServiceImpl G A) (r : Registration) :
    (stats.register forName r).fsmSvcs = writeAll stats.fsmSvcs (writes forName [r]) := by
  rw [register, writes, List.filterMap_cons, List.filterMap_nil, registerSvc, configFor]
  cases forName r.className with
  | none => rfl
  | some aClass =>
      obtain ⟨isInterface, config⟩ := aClass
      cases isInterface with
      | true => rfl
      | false => cases config <;> rfl

/-- **What is remembered after some registrations**: for each URI the last one. -/
theorem fsmSvcs_foldl_register (stats : FSMStatsServiceImpl G A)
    (registrations : List Registration) :
    (registrations.foldl (register forName) stats).fsmSvcs =
      writeAll stats.fsmSvcs (writes forName registrations) := by
  induction registrations generalizing stats with
  | nil => rfl
  | cons r registrations ih =>
      have happend : writes forName (r :: registrations) =
          writes forName [r] ++ writes forName registrations :=
        List.filterMap_append (l := [r])
      rw [List.foldl_cons, ih, fsmSvcs_register, happend, writeAll, writeAll, writeAll,
        List.foldl_append]

/-- A graph that is written belongs to a registration. -/
theorem mem_writes_iff {registrations : List Registration} {uri : Str}
    {config : StateMachineConfig G A} :
    (uri, config) ∈ writes forName registrations ↔
      ∃ r ∈ registrations, r.uri = uri ∧ configFor forName r.className = some config := by
  rw [writes, List.mem_filterMap]
  refine exists_congr fun r => and_congr_right fun _ => ?_
  rw [Option.map_eq_some_iff]
  constructor
  · rintro ⟨config', hconfig, heq⟩
    obtain ⟨rfl, rfl⟩ := Prod.mk.inj heq
    exact ⟨rfl, hconfig⟩
  · rintro ⟨rfl, hconfig⟩
    exact ⟨config, hconfig, rfl⟩

/-- **The graph of a service is that of a class registered under its URI.** -/
theorem svcGraphson_register {registrations : List Registration} {uri : Str} {shown : Str × Str}
    (h : (registrations.foldl (register forName) ⟨∅⟩).svcGraphson uri = some shown) :
    shown.1 = uri ∧
      ∃ r ∈ registrations, r.uri = uri ∧ graphFor forName r.className = some shown.2 := by
  obtain ⟨config, hconfig, rfl⟩ := Option.map_eq_some_iff.mp h
  rw [fsmSvcs_foldl_register] at hconfig
  obtain ⟨r, hr, huri, hclass⟩ := mem_writes_iff.mp (mem_of_lookup_writeAll hconfig)
  exact ⟨rfl, r, hr, huri, by rw [graphFor, hclass, Option.map_some]⟩

/-- **A service has a graph exactly when a class was registered under its URI.** -/
theorem svcGraphson_register_isSome_iff {registrations : List Registration} {uri : Str} :
    ((registrations.foldl (register forName) ⟨∅⟩).svcGraphson uri).isSome ↔
      ∃ r ∈ registrations, r.uri = uri ∧ (graphFor forName r.className).isSome := by
  rw [svcGraphson, Option.isSome_map, fsmSvcs_foldl_register, lookup_writeAll_isSome_iff]
  constructor
  · rintro ⟨⟨_, config⟩, hw, rfl⟩
    obtain ⟨r, hr, huri, hclass⟩ := mem_writes_iff.mp hw
    exact ⟨r, hr, huri, by rw [graphFor, hclass]; rfl⟩
  · rintro ⟨r, hr, huri, hgraph⟩
    rw [graphFor, Option.isSome_map] at hgraph
    obtain ⟨config, hconfig⟩ := Option.isSome_iff_exists.mp hgraph
    exact ⟨(uri, config), mem_writes_iff.mpr ⟨r, hr, huri, hconfig⟩, rfl⟩

end FSMStatsServiceImpl

end Registrations

/-! ## The registrations of documents -/

namespace Creation

variable {getSelfId : Str → Str} {forName : Str → Option (ServiceClass G A)} {classOf : Str → Str}

/-- The URI under which a document registers its service: the link of its factory without the id,
wherever a segment starts with it. -/
def registeredUri (c : Creation) : Str :=
  (c.factory.map LinkSegment.text).flatMap (withoutId c.id.text)

/-- A document registers the class of its factory. -/
theorem registration_eq (hself : ReturnsLastSegment getSelfId) (classOf : Str → Str) (c : Creation) :
    c.registration getSelfId classOf =
      some ⟨c.registeredUri, classOf (factoryLink c.factory)⟩ := by
  rw [registration, svcUri_service hself, Option.map_some]
  rfl

/-- **A document is registered under the link of its factory** exactly when no segment starts with
its id. -/
theorem registeredUri_eq_iff (c : Creation) :
    c.registeredUri = factoryLink c.factory ↔ c.NoSegmentStartsWithId := by
  rw [registeredUri, factoryLink, flatMap_withoutId_eq_iff]
  exact List.forall_mem_map

/-- A document registers its service under a part of the link of the factory. -/
theorem mem_factoryLink_of_mem_registeredUri {c : Creation} {x : Char} (hx : x ∈ c.registeredUri) :
    x ∈ factoryLink c.factory := by
  obtain ⟨s, hs, hx⟩ := List.mem_flatMap.mp hx
  rw [factoryLink]
  obtain ⟨before, after, hsplit⟩ := List.append_of_mem hs
  rw [hsplit, rooted_append, rooted_cons]
  refine List.mem_append_right _ (List.mem_append_left _ ?_)
  rw [withoutId] at hx
  split at hx
  · exact List.mem_cons_of_mem _ (List.mem_of_mem_drop hx)
  · exact hx

end Creation

end XenonExt
