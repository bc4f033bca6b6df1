import XenonExt.Service.TimerLedger

/-! # No visit outlasts its expiry

Entering a state with expiries sets their timers. When the guards are pure and the handlers keep to
their contract, the timer of the visit the document is in cannot get lost: as long as the visit
lasts it is pending, or its patch is in flight and will be accepted.

* **`ExpiriesUnderWay.step`**: whatever happens next, the expiries of the current visit are under
  way.
* **`visit_expires`**: so a visit ends at the latest when its expiry is delivered. -/

namespace XenonExt

variable {X O : Type}

namespace FSMService

/-- An expiry that was set for a visit, by its trigger. -/
structure SetFor (visit : Visit) (trigger : Str) (delay : Int) (e : Expiry) : Prop where
  number : e.visit = visit.number
  time : e.scheduledAt = visit.time
  trigger : e.timer.trigger = some trigger
  delay : e.timer.delay = delay
  state : e.timer.state = visit.state

/-- **The expiries of the current visit are under way**: each of those that would move the document
is pending or in flight. -/
def ExpiriesUnderWay (svc : FSMService X O) (v : GuardValuation (ServiceGuard O))
    (sys : ExpirySystem X) : Prop :=
  ∀ visit, sys.visits.head? = some visit → ∀ trigger delay dest,
    lastDelay svc.calls visit.state (some trigger) = some delay →
    destinationOf v svc.calls visit.state ⟨some trigger, visit.state⟩ = some dest →
    ∃ e ∈ underWay sys, SetFor visit trigger delay e

/-- The label of the patch of an expiry. -/
theorem label_expiry (p : PatchEvent X O) (body : FSMServiceDoc X) :
    ({ p with body := some body } : PatchEvent X O).label = ⟨body.trigger, body.state⟩ := rfl

section Step

variable {svc : FSMService X O} {v : GuardValuation (ServiceGuard O)} (hpure : svc.GuardsArePure v)
  (hdiligent : svc.Diligent) {sys : ExpirySystem X}

include hdiligent in
/-- **A committed patch sets all timers of the state it enters.** -/
theorem setBy_of_commit {p : PatchEvent X O} {c : FSMServiceDoc X}
    (hcommit : svc.commit sys.doc p = some c) :
    svc.setBy sys p = (svc.timersOn sys.doc.documentSelfLink c.state).map fun timer =>
      ⟨sys.patches, sys.now, timer⟩ := by
  rcases svc.patch_cases sys.doc p with h | ⟨body, b, w, ha⟩
  · rw [h.commit] at hcommit
    cases hcommit
  · obtain ⟨c', hcommit', hstate⟩ := hdiligent.commit ha
    obtain rfl := Option.some.inj (hcommit'.symm.trans hcommit)
    rcases ha.timers_cases with htimers | ⟨-, hraised⟩
    · rw [setBy, htimers, hstate]
    · rw [(hdiligent.completed ha).2] at hraised
      cases hraised

include hdiligent in
/-- A patch that commits starts a visit whose expiries are under way. -/
theorem expiriesUnderWay_handle_of_commit {p : PatchEvent X O} {c : FSMServiceDoc X}
    (hcommit : svc.commit sys.doc p = some c) : svc.ExpiriesUnderWay v (svc.handle sys p) := by
  intro visit hvisit trigger delay dest hdelay _
  rw [(handle_of_committed hcommit).2] at hvisit
  obtain rfl := Option.some.inj hvisit
  refine ⟨⟨sys.patches, sys.now, ⟨sys.doc.documentSelfLink, some trigger, delay, c.state⟩⟩, ?_,
    rfl, rfl, rfl, rfl, rfl⟩
  rw [underWay_handle, setBy_of_commit hdiligent hcommit]
  refine Multiset.mem_add.mpr (.inr (List.mem_map.mpr ⟨_, ?_, rfl⟩))
  exact mem_timersOn_iff.mpr ⟨rfl, rfl, hdelay⟩

include hdiligent in
/-- Handling a patch keeps the expiries of the current visit under way. -/
theorem ExpiriesUnderWay.handle (h : svc.ExpiriesUnderWay v sys) (p : PatchEvent X O) :
    svc.ExpiriesUnderWay v (svc.handle sys p) := by
  cases hcommit : svc.commit sys.doc p with
  | some c => exact expiriesUnderWay_handle_of_commit hdiligent hcommit
  | none =>
      intro visit hvisit trigger delay dest hdelay hdest
      rw [(handle_of_not_committed hcommit).2] at hvisit
      obtain ⟨e, he, hset⟩ := h visit hvisit trigger delay dest hdelay hdest
      refine ⟨e, ?_, hset⟩
      rw [underWay_handle]
      exact Multiset.mem_add.mpr (.inl he)

include hpure hdiligent in
/-- **The patch of an expiry of the current visit is accepted**, and commits the destination. -/
theorem commit_of_setFor (hinv : svc.ExpiryInvariant sys) {visit : Visit}
    (hvisit : sys.visits.head? = some visit) {trigger : Str} {delay : Int} {dest : JString}
    (hdest : destinationOf v svc.calls visit.state ⟨some trigger, visit.state⟩ = some dest)
    {e : Expiry} (hset : SetFor visit trigger delay e) {body : FSMServiceDoc X} {i : Nat}
    (hq : sys.inFlight[i]? = some (e, body)) (p : PatchEvent X O) :
    ∃ c, svc.commit sys.doc { p with body := some body } = some c ∧ c.state = dest := by
  obtain ⟨-, htrigger, hstate, -⟩ := hinv.inFlight (e, body) (List.mem_of_getElem? hq)
  have hmove := commit_state_eq hpure hdiligent sys.doc { p with body := some body }
  rw [label_expiry, show body.trigger = some trigger from htrigger.trans hset.trigger,
    show body.state = visit.state from hstate.trans hset.state, hinv.doc_state visit hvisit,
    hdest] at hmove
  exact Option.map_eq_some_iff.mp hmove

include hpure hdiligent in
/-- **Every event keeps the expiries of the current visit under way.** -/
theorem ExpiriesUnderWay.step (hinv : svc.ExpiryInvariant sys) (h : svc.ExpiriesUnderWay v sys)
    (event : ExpiryEvent X O) : svc.ExpiriesUnderWay v (svc.expiryStep sys event) := by
  cases event with
  | tick millis => exact h
  | clientPatch p => exact h.handle hdiligent p
  | timerFires i =>
      -- a timer that fires stays under way
      have hsame := svc.underWay_step sys (.timerFires i)
      simp only [deliveredIn, setIn, Multiset.coe_nil, add_zero] at hsame
      have hvisits : (svc.expiryStep sys (.timerFires i)).visits = sys.visits := by
        simp only [expiryStep]
        cases sys.timers[i]? with
        | none => rfl
        | some e => by_cases hdue : e.scheduledAt + e.timer.delay ≤ sys.now <;> simp [hdue]
      intro visit hvisit trigger delay dest hdelay hdest
      rw [hvisits] at hvisit
      rw [hsame]
      exact h visit hvisit trigger delay dest hdelay hdest
  | deliver i p =>
      simp only [expiryStep]
      cases hq : sys.inFlight[i]? with
      | none => exact h
      | some q =>
          obtain ⟨e, body⟩ := q
          let sys' : ExpirySystem X := { sys with inFlight := sys.inFlight.eraseIdx i }
          show svc.ExpiriesUnderWay v (svc.handle sys' { p with body := some body })
          cases hcommit : svc.commit sys'.doc { p with body := some body } with
          | some c => exact expiriesUnderWay_handle_of_commit hdiligent hcommit
          | none =>
              intro visit hvisit trigger delay dest hdelay hdest
              rw [(handle_of_not_committed hcommit).2] at hvisit
              obtain ⟨e', he', hset⟩ := h visit hvisit trigger delay dest hdelay hdest
              -- a patch that is not accepted is not that of the expiry of this visit
              have hne : e' ≠ e := by
                rintro rfl
                obtain ⟨c, hc, -⟩ := commit_of_setFor hpure hdiligent hinv hvisit hdest hset hq p
                cases hcommit.symm.trans hc
              have herase : underWay sys' + {e} = underWay sys := by
                have hlist : ((sys.inFlight.eraseIdx i).map Prod.fst : Multiset Expiry) + {e} =
                    (sys.inFlight.map Prod.fst : List Expiry) := by
                  rw [← Multiset.map_coe, ← Multiset.map_coe, ← coe_eraseIdx hq, Multiset.map_add,
                    Multiset.map_singleton]
                rw [underWay, underWay, ← hlist, add_assoc]
              rw [← herase, Multiset.mem_add, Multiset.mem_singleton] at he'
              refine ⟨e', ?_, hset⟩
              rw [underWay_handle]
              exact Multiset.mem_add.mpr (.inl (he'.resolve_right hne))

end Step

/-! ## Visits end -/

section Run

variable {svc : FSMService X O} {v : GuardValuation (ServiceGuard O)} (hpure : svc.GuardsArePure v)
  (hdiligent : svc.Diligent)
include hpure hdiligent

/-- In every reachable state the expiries of the current visit are under way. -/
theorem run_expiriesUnderWay {d₀ : FSMServiceDoc X} (hd₀ : d₀.state ≠ none) (now : Int)
    (events : List (ExpiryEvent X O)) :
    svc.ExpiriesUnderWay v (svc.expiryRun (.start d₀ now) events) := by
  induction events using List.reverseRecOn with
  | nil =>
      intro visit hvisit
      cases hvisit
  | append_singleton events event ih =>
      rw [expiryRun_concat]
      exact ih.step hpure hdiligent (svc.run_invariant hd₀ now events) event

/-- Delivering the patch of an expiry of the current visit ends the visit. -/
theorem deliver_setFor {sys : ExpirySystem X} (hinv : svc.ExpiryInvariant sys) {visit : Visit}
    (hvisit : sys.visits.head? = some visit) {trigger : Str} {delay : Int} {dest : JString}
    (hdest : destinationOf v svc.calls visit.state ⟨some trigger, visit.state⟩ = some dest)
    {e : Expiry} (hset : SetFor visit trigger delay e) {body : FSMServiceDoc X} {i : Nat}
    (hq : sys.inFlight[i]? = some (e, body)) (p : PatchEvent X O) :
    (svc.expiryStep sys (.deliver i p)).visits.head? = some ⟨sys.patches, sys.now, dest⟩ ∧
      (svc.expiryStep sys (.deliver i p)).doc.state = dest := by
  obtain ⟨c, hcommit, rfl⟩ := commit_of_setFor hpure hdiligent hinv hvisit hdest hset hq p
  let sys' : ExpirySystem X := { sys with inFlight := sys.inFlight.eraseIdx i }
  have hstep : svc.expiryStep sys (.deliver i p) = svc.handle sys' { p with body := some body } := by
    simp only [expiryStep, hq]
    rfl
  have hcommit' : svc.commit sys'.doc { p with body := some body } = some c := hcommit
  obtain ⟨hdoc, hvisits⟩ := handle_of_committed hcommit'
  rw [hstep, hdoc, hvisits]
  exact ⟨rfl, rfl⟩

/-- **No visit outlasts its expiry.** For every service whose guards are pure and whose handlers keep
to their contract, every interleaving of client patches, the clock, timer firings and deliveries, and
the visit the document is in: every expiry of its state that has a move is pending or in flight, set
when the visit began, with the configured delay. If its patch is in flight, delivering it next ends
the visit in the destination. So when no due timer is pending and nothing is in flight, the visit has
not lasted for its delay; and from any state the clock, the timer and the delivery alone can end
it. -/
theorem visit_expires {d₀ : FSMServiceDoc X} (hd₀ : d₀.state ≠ none) (now : Int)
    (events : List (ExpiryEvent X O)) {visit : Visit}
    (hvisit : (svc.expiryRun (.start d₀ now) events).visits.head? = some visit) {trigger : Str}
    {delay : Int} (hdelay : lastDelay svc.calls visit.state (some trigger) = some delay)
    {dest : JString}
    (hdest : destinationOf v svc.calls visit.state ⟨some trigger, visit.state⟩ = some dest) :
    let sys := svc.expiryRun (.start d₀ now) events
    (∃ e ∈ underWay sys, SetFor visit trigger delay e ∧
      ∀ i body p, sys.inFlight[i]? = some (e, body) →
        (svc.expiryStep sys (.deliver i p)).visits.head? = some ⟨sys.patches, sys.now, dest⟩ ∧
          (svc.expiryStep sys (.deliver i p)).doc.state = dest) ∧
    ((∀ e ∈ sys.timers, sys.now < e.scheduledAt + e.timer.delay) → sys.inFlight = [] →
      sys.now < visit.time + delay) ∧
    ∀ p : PatchEvent X O, ∃ millis i j,
      (svc.expiryRun sys [.tick millis, .timerFires i, .deliver j p]).doc.state = dest ∨
        (svc.expiryRun sys [.deliver j p]).doc.state = dest := by
  intro sys
  have hinv := svc.run_invariant hd₀ now events
  obtain ⟨e, he, hset⟩ := run_expiriesUnderWay hpure hdiligent hd₀ now events visit hvisit trigger
    delay dest hdelay hdest
  have hcases : e ∈ sys.timers ∨ ∃ q ∈ sys.inFlight, q.1 = e := by
    simpa only [underWay, Multiset.mem_add, Multiset.mem_coe, List.mem_map] using he
  refine ⟨⟨e, he, hset, fun i body p hq =>
    deliver_setFor hpure hdiligent hinv hvisit hdest hset hq p⟩, fun hdue hnone => ?_, fun p => ?_⟩
  · rcases hcases with htimer | ⟨q, hq, -⟩
    · have hlt := hdue e htimer
      rwa [hset.time, hset.delay] at hlt
    · rw [hnone] at hq
      cases hq
  · rcases hcases with htimer | ⟨q, hq, rfl⟩
    · -- let the delay pass, and the timer fire
      obtain ⟨i, hi⟩ := List.mem_iff_getElem?.mp htimer
      let waited : ExpirySystem X := svc.expiryStep sys (.tick (delay + visit.time - sys.now).toNat)
      have hwaited : e.scheduledAt + e.timer.delay ≤ waited.now := by
        rw [hset.time, hset.delay]
        show _ ≤ sys.now + ((delay + visit.time - sys.now).toNat : Int)
        omega
      have hfired : svc.expiryStep waited (.timerFires i) =
          { waited with
            timers := waited.timers.eraseIdx i
            inFlight := waited.inFlight ++ [(e, ExpirySystem.expiryBody waited.doc e)] } := by
        simp only [expiryStep, show waited.timers[i]? = some e from hi, if_pos hwaited]
      have hflight : (svc.expiryStep waited (.timerFires i)).inFlight[sys.inFlight.length]? =
          some (e, ExpirySystem.expiryBody waited.doc e) := by
        rw [hfired]
        exact List.getElem?_concat_length
      have hvisit' : (svc.expiryStep waited (.timerFires i)).visits.head? = some visit := by
        rw [hfired]
        exact hvisit
      refine ⟨(delay + visit.time - sys.now).toNat, i, sys.inFlight.length, .inl ?_⟩
      exact (deliver_setFor hpure hdiligent ((hinv.step (.tick _)).step (.timerFires i)) hvisit' hdest
        hset hflight p).2
    · obtain ⟨j, hj⟩ := List.mem_iff_getElem?.mp hq
      exact ⟨0, 0, j, .inr (deliver_setFor hpure hdiligent hinv hvisit hdest hset hj p).2⟩

end Run

/-- A door that was pushed open is not open for longer than a second. -/
theorem visit_expires_door :
    let pushed : List (ExpiryEvent Unit Bool) :=
      [.clientPatch ⟨some (phoneDoc none (some "Push".toList)), true, [], 1⟩, .tick 999]
    let sys := doorService.expiryRun (.start (phoneDoc (some "Closed".toList) none) 0) pushed
    (∃ e ∈ underWay sys, e.scheduledAt = 0 ∧ e.timer.delay = 1000) ∧ sys.now < 0 + 1000 := by
  intro pushed sys
  have hvisit : sys.visits.head? = some ⟨0, 0, some "Open".toList⟩ := by decide +kernel
  have htimers : ∀ e ∈ sys.timers, sys.now < e.scheduledAt + e.timer.delay := by decide +kernel
  have hnone : sys.inFlight.length = 0 := by decide +kernel
  have hdelay : lastDelay doorService.calls (some "Open".toList) (some "Close".toList) =
      some 1000 := by decide +kernel
  have hdest : destinationOf (fun _ _ => true) doorService.calls (some "Open".toList)
      ⟨some "Close".toList, some "Open".toList⟩ = some (some "Closed".toList) := by decide +kernel
  obtain ⟨⟨e, he, hset, -⟩, hlasts, -⟩ := visit_expires guardsArePure_door diligent_door
    (Option.some_ne_none _) 0 pushed hvisit hdelay hdest
  exact ⟨⟨e, he, hset.time, hset.delay⟩, hlasts htimers (List.eq_nil_of_length_eq_zero hnone)⟩

end FSMService

end XenonExt
