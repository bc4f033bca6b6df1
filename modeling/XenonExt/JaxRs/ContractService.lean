import XenonExt.JaxRs.Overlap
import XenonExt.JaxRs.RemoteCalls

/-! # Services that implement an interface

The annotations stand on the methods of the interface, and the class implements them without. Its
routes are then those of the interface, in whatever order reflection lists them.

* **`takesAlone_of_contract`**: a method of the interface whose template meets no other one of its
  action takes its requests alone. -/

namespace XenonExt

/-- A method without annotations, as a class has to implement an interface. -/
def Method.Unannotated (m : Method) : Prop := m.httpMethodNames.findSome? id = none ∧ m.path = none

/-- A method without annotations gets no route. -/
theorem actionOf_unannotated {m : Method} (h : m.Unannotated) :
    RequestRouterBuilder.actionOf m = none := by
  have hselect : MethodInfoBuilder.selectMethod m = some none := by
    rw [MethodInfoBuilder.selectMethod, MethodInfoBuilder.parseAction, h.1]
    split <;> rfl
  rw [RequestRouterBuilder.actionOf, MethodInfoBuilder.methodInfo, MethodInfoBuilder.readMethod,
    hselect]
  rfl

section Contract

variable {resolved : Str → Prop} {u : UriUtils} {xenonService : XenonService} {iFace : Interface}
  {self : List Str} {method : Method}

/-- The methods of a service are those of its class and those of its interface. -/
theorem mem_methodGroups_contract (hname : iFace.isAssignableFrom xenonService = true) {m : Method} :
    m ∈ (RequestRouterBuilder.methodGroups xenonService [some iFace]).flatten ↔
      m ∈ xenonService.declaredMethods ∨ m ∈ iFace.methods := by
  have hgroups : RequestRouterBuilder.methodGroups xenonService [some iFace] =
      [xenonService.declaredMethods, iFace.methods] := by
    simp [RequestRouterBuilder.methodGroups, RequestRouterBuilder.contractInterfaces, hname,
      List.reduceOption]
  rw [hgroups]
  simp

/-- **A method of the interface takes its requests alone**, if its template meets no other one of its
action. -/
theorem takesAlone_of_contract (hu : u.Lawful resolved)
    (hself : ∀ s ∈ self, (Segment.literal s).Whole)
    (hlink : xenonService.selfLink = rooted uriPathChar self)
    (hname : iFace.isAssignableFrom xenonService = true)
    (hdeclared : ∀ m ∈ xenonService.declaredMethods, m.Unannotated)
    (htemplated : ∀ m ∈ iFace.methods, RequestRouterBuilder.Templated m)
    (hmethod : method ∈ iFace.methods) (hsome : (RequestRouterBuilder.actionOf method).isSome)
    (hapart : ∀ m ∈ iFace.methods, m ≠ method →
      RequestRouterBuilder.actionOf m = RequestRouterBuilder.actionOf method →
        Pattern.meet (RequestRouterBuilder.pattern m) (RequestRouterBuilder.pattern method) = none) :
    method ∈ (RequestRouterBuilder.methodGroups xenonService [some iFace]).flatten ∧
      TakesAlone u xenonService.selfLink
        (RequestRouterBuilder.methodGroups xenonService [some iFace]) method := by
  have hmem := (mem_methodGroups_contract hname).mpr (.inr hmethod :
    method ∈ xenonService.declaredMethods ∨ method ∈ iFace.methods)
  refine ⟨hmem, ?_⟩
  rw [hlink]
  refine RequestRouterBuilder.takesAlone_of_apart hu hself (fun m hm => ?_) hmem
    fun m hm hne haction => ?_
  · rcases (mem_methodGroups_contract hname).mp hm with hm | hm
    · exact ⟨none, (hdeclared m hm).2, fun s hs => absurd hs List.not_mem_nil⟩
    · exact htemplated m hm
  · rcases (mem_methodGroups_contract hname).mp hm with hm | hm
    · rw [actionOf_unannotated (hdeclared m hm)] at haction
      rw [← haction] at hsome
      exact absurd hsome Bool.false_ne_true
    · exact hapart m hm hne haction

end Contract

end XenonExt
