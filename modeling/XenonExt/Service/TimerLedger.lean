import Mathlib.Algebra.Order.Group.Multiset
import Mathlib.Tactic.Abel
import XenonExt.Service.Automaton
import XenonExt.Service.ExpiryTimers

/-! # The ledger of timers

Every timer that a transition sets goes the same way: it is pending until it fires, its patch is then
in flight until it is delivered. The ledger of a run lists what was set and what was delivered.

* **`Accepts.timers_cases`**: a patch sets all timers of its destination, or none and raises.
* **`timers_conserved`**: no timer is lost and none is delivered twice, in any order of events. -/

namespace XenonExt

variable {X O : Type}

/-- The call of the scheduler. -/
def Effect.IsSchedule {A : Type} : Effect A → Prop
  | .schedule _ _ => True
  | _ => False

namespace FSMService

/-! ## The timers of one patch -/

/-- The timers that entering a state sets. -/
def timersOn (svc : FSMService X O) (selfLink : Str) (state : JString) : List Timer :=
  (svc.expiryMapOf state).entries.map fun e => ⟨selfLink, e.1, e.2, state⟩

/-- No state has two timers with one trigger. -/
theorem timersOn_nodup (svc : FSMService X O) (selfLink : Str) (state : JString) :
    ((svc.timersOn selfLink state).map Timer.trigger).Nodup := by
  rw [timersOn, List.map_map]
  exact (svc.expiryMapOf state).keys_nodup

/-- The timers of a state are those configured for it. -/
theorem mem_timersOn_iff {svc : FSMService X O} {selfLink : Str} {state : JString} {timer : Timer} :
    timer ∈ svc.timersOn selfLink state ↔ timer.selfLink = selfLink ∧ timer.state = state ∧
      lastDelay svc.calls state timer.trigger = some timer.delay := by
  rw [timersOn, List.mem_map, lastDelay, ← represent_expiry_lookup state]
  constructor
  · rintro ⟨e, he, rfl⟩
    exact ⟨rfl, rfl, AList.mem_lookup_iff.mpr he⟩
  · rintro ⟨rfl, rfl, hdelay⟩
    exact ⟨⟨timer.trigger, timer.delay⟩, AList.mem_lookup_iff.mp hdelay, rfl⟩

/-- Steps of handlers set no timers. -/
theorem preserves_timers_runAll (timers : List Timer) (ops : List (HandlerOp X O)) :
    Preserves (fun w : ServiceWorld X O => w.timers = timers) (runAll HandlerOp.run ops) := by
  refine preserves_runAll fun op _ => ?_
  cases op with
  | raise error => exact preserves_throw error
  | _ => exact preserves_modify fun w hw => hw

/-- Only the scheduler sets timers. -/
theorem preserves_timers_perform (timers : List Timer) (selfLink : Str) {e : Effect (Handler X O)}
    (he : ¬ e.IsSchedule) :
    Preserves (fun w : ServiceWorld X O => w.timers = timers) ((userCode selfLink).perform e) := by
  cases e with
  | schedule m t => exact absurd trivial he
  | fail error => exact preserves_modify fun w hw => hw
  | exit h t => exact preserves_get_bind fun w hw => preserves_timers_runAll timers (h t w) w hw
  | entry h t => exact preserves_get_bind fun w hw => preserves_timers_runAll timers (h t w) w hw
  | persist t =>
      have hbody : ∀ w : ServiceWorld X O, Preserves (fun w : ServiceWorld X O => w.timers = timers)
          (do
            let body ← orRaise .nullPointer w.op.body
            modify fun w => w.mapOp fun op =>
              { op with body := some { body with trigger := t.trigger, state := t.destination } } :
            EStateM JavaException (ServiceWorld X O) Unit) := fun w =>
        (preserves_orRaise _ _).bind fun body => preserves_modify fun w hw => hw
      exact Preserves.bind (preserves_modify fun w hw => hw) fun _ =>
        preserves_get_bind fun w hw => hbody w w hw

/-- The host sets no timers, nor does what handlers do later. -/
theorem serve_timers (svc : FSMService X O) (d : FSMServiceDoc X) (p : PatchEvent X O) :
    (svc.serve d p).world.timers =
      (finalState (svc.handlePatch.run ⟨patchWorld d p, []⟩)).world.timers :=
  serve_invariant (I := fun w => w.timers = _) rfl (fun _ _ hw => hw)
    (preserves_timers_runAll _ p.late)

/-- When an exception escapes before the scheduler is called, there are no timers. -/
theorem timers_of_raised {svc : FSMService X O} {d : FSMServiceDoc X} {p : PatchEvent X O}
    {e : JavaException} {s : Traced (ServiceWorld X O) (Effect (Handler X O))}
    (h : svc.handlePatch.run ⟨patchWorld d p, []⟩ = .error e s) (htimers : s.world.timers = []) :
    (svc.serve d p).world.timers = [] ∧ (svc.serve d p).raised.isSome := by
  refine ⟨?_, ?_⟩
  · rw [serve_timers, h]
    exact htimers
  · unfold serve
    rw [h]
    rfl

section Accepts

variable {svc : FSMService X O} {d : FSMServiceDoc X} {p : PatchEvent X O}
  {body : FSMServiceDoc X} {b : TriggerBehaviour (ServiceGuard O)} {w : ServiceWorld X O}
  (ha : svc.Accepts d p body b w)
include ha

/-- A patch into a state that was never configured sets no timers, and raises. -/
theorem Accepts.timers_of_not_configured (hdest : ¬ Configured svc.calls b.destination) :
    (svc.serve d p).world.timers = [] ∧ (svc.serve d p).raised.isSome := by
  have hnone : svc.stateMachineConfig.getRepresentation b.destination = none := by
    unfold stateMachineConfig
    rw [getRepresentation_build, if_neg hdest]
  have hfire := StateMachine.fire_eq_of_not_configured (userCode d.documentSelfLink)
    svc.stateMachineConfig (t := ⟨d.state, b.destination, body.trigger⟩)
    (getRepresentation_build_of_configured svc.initState ha.configured) hnone
  have hkept : Preserves (fun w : ServiceWorld X O => w.timers = [])
      (runAll (userCode d.documentSelfLink).perform (.persist ⟨d.state, b.destination, body.trigger⟩ ::
        (represent d.state (callsOn svc.calls d.state)).exitEffects
          ⟨d.state, b.destination, body.trigger⟩)) := by
    refine preserves_runAll fun e he => preserves_timers_perform [] d.documentSelfLink ?_
    rcases List.mem_cons.mp he with rfl | he
    · exact not_false
    · obtain ⟨a, -, rfl⟩ := List.mem_map.mp he
      exact not_false
  obtain ⟨e, s, hraise, hworld⟩ : ∃ e s, (StateMachine.fire (userCode d.documentSelfLink)
      svc.stateMachineConfig ⟨d.state, b.destination, body.trigger⟩).run ⟨w, []⟩ = .error e s ∧
        s.world.timers = [] := by
    rw [hfire]
    obtain ⟨e, s, hraise, hworld⟩ := performAll_throw_run (userCode d.documentSelfLink).perform _
      JavaException.nullPointer ⟨w, []⟩
    exact ⟨e, s, hraise, by rw [hworld]; exact hkept w ha.op_eq.2⟩
  exact timers_of_raised (ha.handlePatch_run.trans (discard_run_error hraise)) hworld

/-- **The timers an accepted patch sets**: those of its destination, or none if an exception escapes
before the scheduler is called. -/
theorem Accepts.timers_cases :
    (svc.serve d p).world.timers = svc.timersOn d.documentSelfLink b.destination ∨
      (svc.serve d p).world.timers = [] ∧ (svc.serve d p).raised.isSome := by
  by_cases hdest : Configured svc.calls b.destination
  swap
  · exact .inr (ha.timers_of_not_configured hdest)
  obtain ⟨trigger, htrigger⟩ := Option.ne_none_iff_exists'.mp ha.trigger
  have hrun := ha.handlePatch_run_logged htrigger hdest
  have hstart : w.timers = [] := ha.op_eq.2
  have hquiet : ∀ (timers : List Timer) (es : List (Effect (Handler X O))),
      (∀ e ∈ es, ¬ e.IsSchedule) →
      Preserves (fun w : ServiceWorld X O => w.timers = timers)
        (runAll (userCode d.documentSelfLink).perform es) := fun timers es h =>
    preserves_runAll fun e he => preserves_timers_perform timers d.documentSelfLink (h e he)
  let t : Transition := ⟨d.state, b.destination, some trigger⟩
  let exits : List (Effect (Handler X O)) :=
    .persist t :: (exitActionsOf svc.calls d.state).map fun action => .exit action t
  let entries : List (Effect (Handler X O)) :=
    (entryActionsOf svc.calls b.destination trigger).map fun action => .entry action t
  have hexits : ∀ e ∈ exits, ¬ e.IsSchedule := by
    intro e he
    rcases List.mem_cons.mp he with rfl | he
    · exact not_false
    · obtain ⟨a, -, rfl⟩ := List.mem_map.mp he
      exact not_false
  have hentries : ∀ e ∈ entries, ¬ e.IsSchedule := by
    intro e he
    obtain ⟨a, -, rfl⟩ := List.mem_map.mp he
    exact not_false
  by_cases hkeys : (svc.expiryMapOf b.destination).keys = []
  · -- a destination without expiries: the scheduler is not called
    have hlogged : loggedEffects svc.calls (svc.expiryMapOf b.destination) d.state b.destination
        trigger = exits ++ entries := by
      simp only [loggedEffects, if_pos hkeys, List.nil_append]
      rfl
    have hnone : svc.timersOn d.documentSelfLink b.destination = [] := by
      rw [timersOn, List.map_eq_nil_iff]
      exact List.map_eq_nil_iff.mp hkeys
    refine .inl ?_
    rw [serve_timers, hrun, finalState_performAll_world, hlogged, hnone]
    refine hquiet [] (exits ++ entries) (fun e he => ?_) w hstart
    exact (List.mem_append.mp he).elim (hexits e) (hentries e)
  · have hlogged : loggedEffects svc.calls (svc.expiryMapOf b.destination) d.state b.destination
        trigger = exits ++ (.schedule (svc.expiryMapOf b.destination) t :: entries) := by
      simp only [loggedEffects, if_neg hkeys]
      rfl
    have hfirst := hquiet [] exits hexits w hstart
    cases hexit : (runAll (userCode (X := X) (O := O) d.documentSelfLink).perform exits).run w with
    | error e w₁ =>
        rw [hexit] at hfirst
        have hall : (runAll (userCode d.documentSelfLink).perform (loggedEffects svc.calls
            (svc.expiryMapOf b.destination) d.state b.destination trigger)).run w = .error e w₁ := by
          rw [hlogged, runAll_append, bind_run_error hexit]
        obtain ⟨done, x, rest, -, hperform⟩ := performAll_run_error _ (s := ⟨w, []⟩) hall
        exact .inr (timers_of_raised (hrun.trans hperform) hfirst)
    | ok a w₁ =>
        rw [hexit] at hfirst
        -- the scheduler sets the timers, and the entry actions add none
        refine .inl ?_
        obtain ⟨w₂, hschedule, htimers⟩ : ∃ w₂,
            (expiryScheduler d.documentSelfLink (svc.expiryMapOf b.destination) t).run w₁ =
              .ok () w₂ ∧ w₂.timers = w₁.timers ++ svc.timersOn d.documentSelfLink b.destination :=
          ⟨_, rfl, rfl⟩
        rw [show w₁.timers = [] from hfirst, List.nil_append] at htimers
        rw [serve_timers, hrun, finalState_performAll_world, hlogged, runAll_append,
          bind_run_ok hexit, runAll_cons]
        have hrest := hquiet _ entries hentries w₂ htimers
        rwa [show (userCode d.documentSelfLink).perform (.schedule (svc.expiryMapOf b.destination) t) =
          expiryScheduler d.documentSelfLink (svc.expiryMapOf b.destination) t from rfl,
          bind_run_ok hschedule]

end Accepts

/-- The timers of a patch have different triggers. -/
theorem serve_timers_nodup (svc : FSMService X O) (d : FSMServiceDoc X) (p : PatchEvent X O) :
    ((svc.serve d p).world.timers.map Timer.trigger).Nodup := by
  rcases svc.patch_cases d p with h | ⟨body, b, w, h⟩
  · rw [h.timers]
    exact List.nodup_nil
  · rcases h.timers_cases with heq | ⟨heq, -⟩
    · rw [heq]
      exact svc.timersOn_nodup _ _
    · rw [heq]
      exact List.nodup_nil

/-! ## The ledger of a run -/

/-- The expiries that handling a patch sets. -/
def setBy (svc : FSMService X O) (sys : ExpirySystem X) (p : PatchEvent X O) : List Expiry :=
  (svc.serve sys.doc p).world.timers.map fun timer => ⟨sys.patches, sys.now, timer⟩

/-- The expiries that an event sets. -/
def setIn (svc : FSMService X O) (sys : ExpirySystem X) : ExpiryEvent X O → List Expiry
  | .clientPatch p => svc.setBy sys p
  | .deliver i p =>
    match sys.inFlight[i]? with
    | some (_, body) => svc.setBy sys { p with body := some body }
    | none => []
  | _ => []

/-- The expiry whose patch an event delivers, if it delivers one. -/
def deliveredIn (sys : ExpirySystem X) : ExpiryEvent X O → List Expiry
  | .deliver i _ => (sys.inFlight[i]?.map Prod.fst).toList
  | _ => []

/-- **All expiries that a run sets.** -/
def allSet (svc : FSMService X O) (sys : ExpirySystem X) (events : List (ExpiryEvent X O)) :
    List Expiry :=
  emitted svc.expiryStep svc.setIn sys events

/-- **All expiries whose patches a run delivers.** -/
def allDelivered (svc : FSMService X O) (sys : ExpirySystem X) (events : List (ExpiryEvent X O)) :
    List Expiry :=
  emitted svc.expiryStep deliveredIn sys events

/-- What identifies an expiry: the patch that set it, and its trigger. -/
def expiryKey (e : Expiry) : Nat × JString := (e.visit, e.timer.trigger)

/-- The expiries that are neither lost nor delivered: those of the timers that are pending, and those
whose patch is in flight. -/
def underWay (sys : ExpirySystem X) : Multiset Expiry :=
  (sys.timers : Multiset Expiry) + (sys.inFlight.map Prod.fst : List Expiry)

/-- Handling a patch adds the expiries that it sets. -/
theorem underWay_handle (svc : FSMService X O) (sys : ExpirySystem X) (p : PatchEvent X O) :
    underWay (svc.handle sys p) = underWay sys + (svc.setBy sys p : List Expiry) := by
  show (((sys.timers ++ svc.setBy sys p : List Expiry) : Multiset Expiry) + _) = _
  rw [← Multiset.coe_add, underWay, add_right_comm]
  rfl

/-- What is taken out of a list is the rest of it. -/
theorem coe_eraseIdx {α : Type} {l : List α} {i : Nat} {a : α} (h : l[i]? = some a) :
    ((l.eraseIdx i : List α) : Multiset α) + {a} = l := by
  obtain ⟨hi, rfl⟩ := List.getElem?_eq_some_iff.mp h
  rw [Multiset.add_comm, Multiset.singleton_add, Multiset.cons_coe, Multiset.coe_eq_coe]
  exact List.getElem_cons_eraseIdx_perm hi

/-- **One event of the ledger**: what is under way afterwards and what it delivers is what was under
way and what it sets. -/
theorem underWay_step (svc : FSMService X O) (sys : ExpirySystem X) (event : ExpiryEvent X O) :
    underWay (svc.expiryStep sys event) + (deliveredIn sys event : List Expiry) =
      underWay sys + (svc.setIn sys event : List Expiry) := by
  cases event with
  | tick millis => rfl
  | clientPatch p =>
      rw [show svc.expiryStep sys (.clientPatch p) = svc.handle sys p from rfl, underWay_handle]
      exact add_zero _
  | timerFires i =>
      simp only [expiryStep, deliveredIn, setIn, Multiset.coe_nil, add_zero]
      cases he : sys.timers[i]? with
      | none => rfl
      | some e =>
          by_cases hdue : e.scheduledAt + e.timer.delay ≤ sys.now
          · -- the expiry goes from the timers to the patches in flight
            simp only [if_pos hdue, underWay, List.map_append, List.map_cons, List.map_nil,
              ← Multiset.coe_add, Multiset.coe_singleton]
            rw [← coe_eraseIdx he]
            abel
          · simp only [if_neg hdue]
  | deliver i p =>
      simp only [expiryStep, deliveredIn, setIn]
      cases hq : sys.inFlight[i]? with
      | none => rfl
      | some q =>
          obtain ⟨e, body⟩ := q
          have herase : ((sys.inFlight.eraseIdx i).map Prod.fst : Multiset Expiry) + {e} =
              (sys.inFlight.map Prod.fst : List Expiry) := by
            rw [← Multiset.map_coe, ← Multiset.map_coe, ← coe_eraseIdx hq, Multiset.map_add,
              Multiset.map_singleton]
          simp only [underWay_handle, Option.map_some, Option.toList_some, Multiset.coe_singleton]
          rw [underWay, underWay, ← herase]
          show _ + (svc.setBy sys { p with body := some body } : Multiset Expiry) + _ = _
          abel

/-- The expiries that a run has set come from patches it has handled. -/
theorem visit_lt_of_mem_setIn {svc : FSMService X O} {sys : ExpirySystem X}
    {event : ExpiryEvent X O} {e : Expiry} (he : e ∈ svc.setIn sys event) :
    e.visit = sys.patches ∧ (svc.expiryStep sys event).patches = sys.patches + 1 := by
  cases event with
  | tick millis => cases he
  | timerFires i => cases he
  | clientPatch p =>
      obtain ⟨timer, -, rfl⟩ := List.mem_map.mp he
      exact ⟨rfl, rfl⟩
  | deliver i p =>
      simp only [setIn] at he
      simp only [expiryStep]
      cases hq : sys.inFlight[i]? with
      | none => rw [hq] at he; cases he
      | some q =>
          rw [hq] at he
          obtain ⟨timer, -, rfl⟩ := List.mem_map.mp he
          exact ⟨rfl, rfl⟩

/-- The number of patches never decreases. -/
theorem patches_le_step (svc : FSMService X O) (sys : ExpirySystem X) (event : ExpiryEvent X O) :
    sys.patches ≤ (svc.expiryStep sys event).patches := by
  cases event with
  | tick millis => exact Nat.le_refl _
  | clientPatch p => exact Nat.le_succ _
  | timerFires i =>
      simp only [expiryStep]
      cases sys.timers[i]? with
      | none => exact Nat.le_refl _
      | some e => by_cases hdue : e.scheduledAt + e.timer.delay ≤ sys.now <;> simp [hdue]
  | deliver i p =>
      simp only [expiryStep]
      cases sys.inFlight[i]? with
      | none => exact Nat.le_refl _
      | some q => exact Nat.le_succ _

/-- One event sets expiries with different keys. -/
theorem setIn_nodup (svc : FSMService X O) (sys : ExpirySystem X) (event : ExpiryEvent X O) :
    ((svc.setIn sys event).map expiryKey).Nodup := by
  have hpatch : ∀ p, ((svc.setBy sys p).map expiryKey).Nodup := by
    intro p
    have hkeys : (svc.setBy sys p).map expiryKey =
        ((svc.serve sys.doc p).world.timers.map Timer.trigger).map fun trigger =>
          (sys.patches, trigger) := by
      rw [setBy, List.map_map, List.map_map]
      rfl
    rw [hkeys]
    exact (svc.serve_timers_nodup sys.doc p).map fun _ _ h => (Prod.mk.inj h).2
  cases event with
  | tick millis => exact List.nodup_nil
  | timerFires i => exact List.nodup_nil
  | clientPatch p => exact hpatch p
  | deliver i p =>
      simp only [setIn]
      cases sys.inFlight[i]? with
      | none => exact List.nodup_nil
      | some q => exact hpatch _

/-- **The books balance.** For every service, every document, and every interleaving of client
patches, the clock, timer firings and deliveries:

* the expiries that were set are, with their multiplicities, those of the pending timers, those in
  flight and those delivered: no timer is lost, and none comes from nowhere;
* no two expiries that were set have the same patch and the same trigger, so none is delivered
  twice. -/
theorem timers_conserved (svc : FSMService X O) (d₀ : FSMServiceDoc X) (now : Int)
    (events : List (ExpiryEvent X O)) :
    (svc.allSet (.start d₀ now) events : Multiset Expiry) =
        underWay (svc.expiryRun (.start d₀ now) events) +
          (svc.allDelivered (.start d₀ now) events : List Expiry) ∧
      ((svc.allSet (.start d₀ now) events).map expiryKey).Nodup ∧
      ((svc.allDelivered (.start d₀ now) events).map expiryKey).Nodup := by
  have hbooks : (svc.allSet (.start d₀ now) events : Multiset Expiry) =
      underWay (svc.expiryRun (.start d₀ now) events) +
        (svc.allDelivered (.start d₀ now) events : List Expiry) := by
    have hledger := emitted_balance svc.underWay_step (.start d₀ now) events
    rw [show underWay (.start d₀ now : ExpirySystem X) = 0 from rfl, zero_add] at hledger
    exact hledger.symm
  have hset : (∀ e ∈ svc.allSet (.start d₀ now) events,
      e.visit < (svc.expiryRun (.start d₀ now) events).patches) ∧
        ((svc.allSet (.start d₀ now) events).map expiryKey).Nodup := by
    clear hbooks
    induction events using List.reverseRecOn with
    | nil => exact ⟨by simp [allSet, emitted], List.nodup_nil⟩
    | append_singleton events event ih =>
        obtain ⟨hlt, hnodup⟩ := ih
        have hconcat : svc.allSet (.start d₀ now) (events ++ [event]) =
            svc.allSet (.start d₀ now) events ++
              svc.setIn (svc.expiryRun (.start d₀ now) events) event := emitted_concat _ _ _ _ _
        rw [hconcat, expiryRun_concat]
        constructor
        · intro e he
          rcases List.mem_append.mp he with he | he
          · exact Nat.lt_of_lt_of_le (hlt e he) (svc.patches_le_step _ _)
          · obtain ⟨hvisit, hpatches⟩ := visit_lt_of_mem_setIn he
            rw [hvisit, hpatches]
            exact Nat.lt_succ_self _
        · -- the new expiries belong to a patch that is newer than all before
          rw [List.map_append]
          refine hnodup.append (svc.setIn_nodup _ _) fun key hold hnew => ?_
          obtain ⟨e, he, rfl⟩ := List.mem_map.mp hold
          obtain ⟨e', he', heq⟩ := List.mem_map.mp hnew
          have hvisit : e'.visit = e.visit := (Prod.mk.inj heq).1
          exact absurd (hlt e he) (by rw [← hvisit, (visit_lt_of_mem_setIn he').1]; exact lt_irrefl _)
  refine ⟨hbooks, hset.2, ?_⟩
  have hle : (svc.allDelivered (.start d₀ now) events : Multiset Expiry) ≤
      svc.allSet (.start d₀ now) events := by
    rw [hbooks]
    exact Multiset.le_add_left _ _
  have hnodup : ((svc.allSet (.start d₀ now) events : Multiset Expiry).map expiryKey).Nodup := by
    rw [Multiset.map_coe, Multiset.coe_nodup]
    exact hset.2
  rw [← Multiset.coe_nodup, ← Multiset.map_coe]
  exact Multiset.nodup_of_le (Multiset.map_le_map hle) hnodup

end FSMService

end XenonExt
