import XenonExt.JaxRs.RequestRouterBuilder

/-! # Dispatch and the order of methods

Reflection lists the methods of a class in no particular order, and the routes are registered as it
lists them. Two different templates can both accept a request; the one listed first then gets it.

* **`OrderIndependent`**: a request is routed to the same method for all orders.
* **`orderIndependent_iff`**: that is so exactly when, in the first group of methods with one that
  accepts the request, only one does.
* **`not_orderIndependent_overlapping`**: two templates that overlap. -/

namespace XenonExt

/-- The same service, its class listing its methods in some order. -/
structure XenonService.Relisted (service service' : XenonService) : Prop where
  perm : service.declaredMethods.Perm service'.declaredMethods
  eq : service' = { service with declaredMethods := service'.declaredMethods }

/-- The same interface, listing its methods in some order. -/
structure Interface.Relisted (iFace iFace' : Interface) : Prop where
  perm : iFace.methods.Perm iFace'.methods
  eq : iFace' = { iFace with methods := iFace'.methods }

/-- The same interfaces, each listing its methods in some order. -/
abbrev InterfacesRelisted (interfaces interfaces' : List (Option Interface)) : Prop :=
  List.Forall₂ (Option.Rel Interface.Relisted) interfaces interfaces'

namespace RequestRouterBuilder

/-- **A request is routed to the same method** for every order in which methods are listed. -/
def OrderIndependent (u : UriUtils) (service : XenonService) (interfaces : List (Option Interface))
    (request : Request) : Prop :=
  ∀ service' interfaces', service.Relisted service' → InterfacesRelisted interfaces interfaces' →
    routedMethod u service' interfaces' request = routedMethod u service interfaces request

variable {service service' : XenonService} {interfaces interfaces' : List (Option Interface)}

/-- `null` is no interface. -/
theorem contractInterfaces_cons_none (service : XenonService) (interfaces : List (Option Interface)) :
    contractInterfaces service (none :: interfaces) = contractInterfaces service interfaces := by
  rw [contractInterfaces, List.reduceOption_cons_of_none]
  rfl

/-- An interface counts if the service implements it. -/
theorem contractInterfaces_cons_some (service : XenonService) (iFace : Interface)
    (interfaces : List (Option Interface)) :
    contractInterfaces service (some iFace :: interfaces) =
      if iFace.isAssignableFrom service then iFace :: contractInterfaces service interfaces
      else contractInterfaces service interfaces := by
  rw [contractInterfaces, List.reduceOption_cons_of_some, List.filter_cons]
  rfl

/-- Whether an interface counts does not depend on how methods are listed. -/
theorem isAssignableFrom_relisted (hservice : service.Relisted service')
    {iFace iFace' : Interface} (h : iFace.Relisted iFace') :
    iFace'.isAssignableFrom service' = iFace.isAssignableFrom service := by
  rw [hservice.eq, h.eq]
  rfl

/-- The interfaces that count are relisted ones. -/
theorem contractInterfaces_relisted (hservice : service.Relisted service')
    (h : InterfacesRelisted interfaces interfaces') :
    List.Forall₂ Interface.Relisted (contractInterfaces service interfaces)
      (contractInterfaces service' interfaces') := by
  induction h with
  | nil => exact .nil
  | cons hiFace _ ih =>
      cases hiFace with
      | none =>
          rw [contractInterfaces_cons_none, contractInterfaces_cons_none]
          exact ih
      | some h =>
          rw [contractInterfaces_cons_some, contractInterfaces_cons_some,
            isAssignableFrom_relisted hservice h]
          split
          · exact .cons h ih
          · exact ih

/-- Methods listed in some order are the groups in some order. -/
theorem reordered_methodGroups (hservice : service.Relisted service')
    (h : InterfacesRelisted interfaces interfaces') :
    Reordered (methodGroups service interfaces) (methodGroups service' interfaces') := by
  refine .cons hservice.perm ?_
  rw [List.forall₂_map_left_iff, List.forall₂_map_right_iff]
  exact (contractInterfaces_relisted hservice h).imp fun _ _ h => h.perm

/-- Groups of the methods of interfaces in some order are what interfaces relisted so give. -/
theorem exists_interfacesRelisted {groups' : List (List Method)}
    (h : Reordered ((contractInterfaces service interfaces).map Interface.methods) groups') :
    ∃ interfaces', InterfacesRelisted interfaces interfaces' ∧
      (contractInterfaces service interfaces').map Interface.methods = groups' := by
  induction interfaces generalizing groups' with
  | nil => exact ⟨[], .nil, (List.forall₂_nil_left_iff.mp h).symm⟩
  | cons iFace interfaces ih =>
      cases iFace with
      | none =>
          rw [contractInterfaces_cons_none] at h
          obtain ⟨interfaces', hrelisted, hgroups⟩ := ih h
          -- `null` stays where it was
          refine ⟨none :: interfaces', .cons .none hrelisted, ?_⟩
          rwa [contractInterfaces_cons_none]
      | some iFace =>
          rw [contractInterfaces_cons_some] at h
          by_cases hassignable : iFace.isAssignableFrom service
          · rw [if_pos hassignable, List.map_cons] at h
            -- the interface makes a group, and its methods take the order of that group
            obtain ⟨methods', groups', hperm, hgroups, rfl⟩ := List.forall₂_cons_left_iff.mp h
            obtain ⟨interfaces', hrelisted, rfl⟩ := ih hgroups
            have hassignable' : ({ iFace with methods := methods' } : Interface).isAssignableFrom
                service := hassignable
            refine ⟨some { iFace with methods := methods' } :: interfaces',
              .cons (.some ⟨hperm, rfl⟩) hrelisted, ?_⟩
            rw [contractInterfaces_cons_some, if_pos hassignable', List.map_cons]
          · rw [if_neg hassignable] at h
            obtain ⟨interfaces', hrelisted, hgroups⟩ := ih h
            -- the interface makes no group: any order of its methods will do
            refine ⟨some iFace :: interfaces', .cons (.some ⟨.refl _, rfl⟩) hrelisted, ?_⟩
            rwa [contractInterfaces_cons_some, if_neg hassignable]

/-- Groups of methods in some order are what a service and interfaces relisted so give. -/
theorem exists_relisted {groups' : List (List Method)}
    (h : Reordered (methodGroups service interfaces) groups') :
    ∃ service' interfaces', service.Relisted service' ∧
      InterfacesRelisted interfaces interfaces' ∧
      methodGroups service' interfaces' = groups' := by
  obtain ⟨methods', groups', hperm, hgroups, rfl⟩ := List.forall₂_cons_left_iff.mp h
  obtain ⟨interfaces', hrelisted, rfl⟩ := exists_interfacesRelisted hgroups
  exact ⟨{ service with declaredMethods := methods' }, interfaces', ⟨hperm, rfl⟩, hrelisted, rfl⟩

/-- Whether all methods can be read does not depend on their order. -/
theorem readable_reordered {groups groups' : List (List Method)} (h : Reordered groups groups') :
    Readable groups' ↔ Readable groups := by
  induction h with
  | nil => rfl
  | cons hperm _ ih =>
      simp only [Readable, List.forall_mem_cons] at ih ⊢
      rw [ih]
      simp only [hperm.mem_iff]

/-- The method to which a request is routed when the methods are listed in some order. -/
theorem routedMethod_relisted (u : UriUtils) (request : Request)
    (hservice : service.Relisted service') (hinterfaces : InterfacesRelisted interfaces interfaces') :
    routedMethod u service' interfaces' request =
      if service.uriNamespaceOwner ∧ Readable (methodGroups service interfaces) then
        some (firstMatch (accepts u service.selfLink request) (methodGroups service' interfaces'))
      else none := by
  have howner : service'.uriNamespaceOwner = service.uriNamespaceOwner := by rw [hservice.eq]
  have hselfLink : service'.selfLink = service.selfLink := by rw [hservice.eq]
  simp only [routedMethod_eq_firstMatch, howner, hselfLink,
    readable_reordered (reordered_methodGroups hservice hinterfaces)]

/-- **Dispatch does not depend on the order of methods** exactly when, in the first group with a
method that accepts the request, only one does. -/
theorem orderIndependent_iff (u : UriUtils) (service : XenonService)
    (interfaces : List (Option Interface)) (request : Request) :
    OrderIndependent u service interfaces request ↔
      (service.uriNamespaceOwner → Readable (methodGroups service interfaces) →
        Unambiguous (accepts u service.selfLink request) (methodGroups service interfaces)) := by
  constructor
  · intro hindependent howner hreadable
    rw [← firstMatch_stable_iff]
    intro groups' hreordered
    -- every order of the groups comes from an order in which reflection lists the methods
    obtain ⟨service', interfaces', hservice, hinterfaces, rfl⟩ := exists_relisted hreordered
    have hrouted := hindependent service' interfaces' hservice hinterfaces
    rw [routedMethod_relisted u request hservice hinterfaces, routedMethod_eq_firstMatch,
      if_pos ⟨howner, hreadable⟩, if_pos ⟨howner, hreadable⟩] at hrouted
    exact Option.some.inj hrouted
  · intro h service' interfaces' hservice hinterfaces
    rw [routedMethod_relisted u request hservice hinterfaces, routedMethod_eq_firstMatch]
    by_cases hrouter : service.uriNamespaceOwner ∧ Readable (methodGroups service interfaces)
    · rw [if_pos hrouter, if_pos hrouter,
        (h hrouter.1 hrouter.2).firstMatch_eq (reordered_methodGroups hservice hinterfaces)]
    · rw [if_neg hrouter, if_neg hrouter]

/-! ## Templates that overlap -/

/-- A public `GET` method with one path parameter. -/
def getMethod (name path pathParam : Str) : Method where
  name := name
  isPublic := true
  httpMethodNames := [some "GET".toList, none]
  path := some path
  parameters := [⟨none, some pathParam, none, none, false, "java.lang.String".toList⟩]
  returnClass := .other

/-- A service with two methods whose templates overlap, listed in some order. -/
def overlappingService (methods : List Method) : XenonService where
  selfLink := "/svc".toList
  uriNamespaceOwner := true
  declaredMethods := methods
  interfaceNames := []

/-- The method for the second segment. -/
def byFirst : Method := getMethod "byFirst".toList "/{x}/b".toList "x".toList

/-- The method for the first segment. -/
def bySecond : Method := getMethod "bySecond".toList "/a/{y}".toList "y".toList

/-- A request that both templates accept. -/
def overlappingRequest : Request where
  action := .get
  uri := ⟨"http://localhost:8000".toList, "/svc/a/b".toList, none⟩
  cookies := none
  requestHeaders _ := none

/-- **Different templates can overlap**: a literal segment against a placeholder, both ways. The
method that is listed first gets the request. -/
theorem not_orderIndependent_overlapping :
    (([byFirst, bySecond].map fun m => (m.httpMethodNames, m.path)).Nodup) ∧
      ¬ OrderIndependent .documented (overlappingService [byFirst, bySecond]) []
        overlappingRequest := by
  refine ⟨by decide +kernel, fun h => ?_⟩
  have hrelisted : (overlappingService [byFirst, bySecond]).Relisted
      (overlappingService [bySecond, byFirst]) := ⟨List.Perm.swap _ _ _, rfl⟩
  exact absurd (h _ [] hrelisted .nil) (by decide +kernel)

end RequestRouterBuilder

end XenonExt
