import XenonExt.StateMachine.CallLog

/-! # What a firing does and does not do

Two results about every firing of every machine that builder calls can make.

* **`fireTrigger_eq_of_log`**: under pure guards and with every destination configured, a firing is
  exactly the list of effects read off the log of builder calls.
* **`fireTrigger_effectFree_iff`**: a firing that returns no transition has no effect unless the
  guards select a behaviour whose destination no builder call configures: then the state is
  persisted and the exit actions run before the missing representation is noticed. -/

namespace XenonExt

variable {W G A : Type}

/-! ## A sample machine -/

/-- The telephone without guards, its handlers being their numbers. -/
def phoneLog : List (BuilderCall Empty Nat) := phoneCalls id

/-- User code that does nothing, with a scheduler. -/
def silentUser : UserCode Unit Empty Nat where
  test g := g.elim
  accept _ _ := pure ()
  statePersister _ := pure ()
  expiryScheduler := some fun _ _ => pure ()
  fail _ := pure ()

/-- User code that does nothing does not raise. -/
theorem silentUser_actionsSucceed : silentUser.ActionsSucceed where
  accept _ _ := fun s => ⟨(), s, rfl⟩
  statePersister _ := fun s => ⟨(), s, rfl⟩
  expiryScheduler := by
    rintro _ ⟨⟩ _ _ s
    exact ⟨(), s, rfl⟩

/-! ## A firing executes the log -/

/-- **`fireTrigger` executes exactly what the builder calls say.** Let every permitted destination
be configured, the guards be pure and a scheduler be set. From a configured state: if exactly one
permit of the trigger has its guard met, the firing is the logged effects of that permit, in order,
and then returns its transition; if none has, it fails the operation and returns no transition; if
several have, it raises without any effect.

The trigger that is fired is not `null`, although states and the triggers of builder calls may be:
`handlePatch` rejects a patch without a trigger before it fires one, and an action of
`onEntryFrom(null, ..)` never runs. -/
theorem fireTrigger_eq_of_log {u : UserCode W G A} {v : GuardValuation G} (hu : u.PureGuards v)
    (hs : u.expiryScheduler.isSome) (initState : JString) {calls : List (BuilderCall G A)}
    (hdest : ∀ state, ∀ b ∈ permitsOf calls state, Configured calls b.destination)
    {src : JString} (hsrc : Configured calls src) (trigger : Str) :
    let config := StateMachineConfig.build initState calls
    let met := (permits calls src (some trigger)).filter (TriggerBehaviour.MetBy v)
    let firing := StateMachine.fireTrigger u config src (some trigger)
    (∀ b, met = [b] → ∃ expiryMap : ExpiryMap,
      (∀ t, expiryMap.lookup t = lastDelay calls b.destination t) ∧
      (let effects := loggedEffects calls expiryMap src b.destination trigger
       firing = (do
          performAll u.perform effects
          pure (some ⟨src, b.destination, some trigger⟩)) ∧
        (u.ActionsSucceed → ∀ s, ∃ w,
          firing.run s = .ok (some ⟨src, b.destination, some trigger⟩) ⟨w, s.trace ++ effects⟩))) ∧
    (met = [] → ∃ permitted : List JString,
      permitted.Nodup ∧
      (∀ t, t ∈ permitted ↔ ∃ b ∈ permitsOf calls src, b.trigger = t ∧ b.MetBy v) ∧
      firing = (do
        u.emit (.fail (StateMachine.invalidTrigger src (some trigger) permitted))
        pure none) ∧
      ∀ s, (finalState (firing.run s)).trace =
        s.trace ++ [.fail (StateMachine.invalidTrigger src (some trigger) permitted)]) ∧
    (1 < met.length → ∀ s, firing.run s =
      .error (.illegalState (StateRepresentation.multipleExitsMessage src (some trigger))) s) := by
  intro config met firing
  have hrep := getRepresentation_build_of_configured initState hsrc
  have hlisted : ((represent src (callsOn calls src)).behavioursOf (some trigger)).filter
      (TriggerBehaviour.MetBy v) = met := by rw [represent_callsOn_behavioursOf]
  have hfiring : firing = _ := StateMachine.fireTrigger_eq u config src (some trigger)
  refine ⟨fun b hb => ?_, fun hnone => ?_, fun hmany s => ?_⟩
  · -- one behaviour: the effects of its transition
    have hmem : b ∈ permitsOf calls src := by
      have hb' : b ∈ met := by rw [hb]; exact List.mem_cons_self
      exact List.mem_of_mem_filter (List.mem_of_mem_filter hb')
    have hconf := hdest src b hmem
    have hselect := resolve_of_one_met hu hrep (hlisted.trans hb)
    have hfire : firing = (do
        performAll u.perform (loggedEffects calls
          (represent b.destination (callsOn calls b.destination)).expiryActions src b.destination
          trigger)
        pure (some ⟨src, b.destination, some trigger⟩)) := by
      rw [hfiring, hselect, quietly_pure, pure_bind, ← firingEffects_eq_logged hs]
      exact StateMachine.fire_eq_of_configured u config hrep
        (getRepresentation_build_of_configured initState hconf)
    refine ⟨_, fun t => represent_expiry_lookup b.destination t _, hfire, fun hact s => ?_⟩
    obtain ⟨w, hw⟩ := StateMachine.fire_run_of_configured u config hact hrep
      (t := ⟨src, b.destination, some trigger⟩)
      (getRepresentation_build_of_configured initState hconf) s
    rw [firingEffects_eq_logged hs] at hw
    exact ⟨w, by rw [hfiring, hselect]; exact hw⟩
  · -- no behaviour: the operation is failed
    obtain ⟨permitted, hperm, hnodup, hmem⟩ :=
      getPermittedTriggers_of_pure hu (represent src (callsOn calls src))
    have hreject : firing = (do
        u.emit (.fail (StateMachine.invalidTrigger src (some trigger) permitted))
        pure none) := by
      rw [hfiring, resolve_of_none_met hu hrep (hlisted.trans hnone), hperm]
      rfl
    refine ⟨permitted, hnodup, fun t => ?_, hreject, fun s => ?_⟩
    · rw [hmem, represent_callsOn_behavioursOf]
      simp [permits]
    · rw [hreject]
      exact StateMachine.trace_fail_run u _ s
  · -- several behaviours: an exception before any effect
    rw [hfiring, resolve_of_many_met hu hrep (by rw [hlisted]; exact hmany)]
    rfl

/-- Connecting a ringing phone runs the exit action of `Ringing`, schedules the expiry of `Connected`
and runs both entry actions of `Connected`. -/
theorem fireTrigger_eq_of_log_phone :
    let t : Transition :=
      ⟨some "Ringing".toList, some "Connected".toList, some "CallConnected".toList⟩
    ∃ expiryMap : ExpiryMap,
      (∀ trigger, expiryMap.lookup trigger = lastDelay phoneLog t.destination trigger) ∧
      ∀ s, ∃ w, (StateMachine.fireTrigger silentUser
        (StateMachineConfig.build (some "OffHook".toList) phoneLog) t.source t.trigger).run s =
          .ok (some t) ⟨w, s.trace ++
            loggedEffects phoneLog expiryMap t.source t.destination "CallConnected".toList⟩ := by
  have hpure : silentUser.PureGuards fun g => g.elim := fun g => g.elim
  have hdest : ∀ state, ∀ b ∈ permitsOf phoneLog state, Configured phoneLog b.destination := by
    intro state b hb
    have hstate : Configured phoneLog state := by
      by_contra hstate
      simp [permitsOf, callsOn_eq_nil hstate] at hb
    have hall : ∀ state ∈ phoneLog.map BuilderCall.state, ∀ b ∈ permitsOf phoneLog state,
        Configured phoneLog b.destination := by decide
    exact hall state hstate b hb
  have hlog := fireTrigger_eq_of_log hpure rfl (some "OffHook".toList) hdest
    (show Configured phoneLog (some "Ringing".toList) by decide) "CallConnected".toList
  obtain ⟨expiryMap, hlookup, -, hrun⟩ := hlog.1
    ⟨some "CallConnected".toList, .noGuard, some "Connected".toList⟩ (by decide)
  exact ⟨expiryMap, hlookup, hrun silentUser_actionsSucceed⟩

/-! ## Failed firings and their effects -/

/-- **No effect**: between two states of a run the machine only failed the operation. -/
def EffectFree (before after : Traced W (Effect A)) : Prop :=
  ∃ evs, after.trace = before.trace ++ evs ∧ ∀ e ∈ evs, e.IsFail

/-- **A firing that returns no transition has no effect, except into a state that was never
configured.** For user actions that do not raise: a firing that does not return a transition neither
persists nor runs an action nor schedules, if and only if the behaviour that the guards select, if
they select one, leads to a state some builder call configures. -/
theorem fireTrigger_effectFree_iff {u : UserCode W G A} (hu : u.ActionsSucceed)
    (initState : JString) (calls : List (BuilderCall G A)) (src trigger : JString)
    (s : Traced W (Effect A)) :
    let config := StateMachineConfig.build initState calls
    let result := (StateMachine.fireTrigger u config src trigger).run s
    ((∀ t s', result ≠ .ok (some t) s') → EffectFree s (finalState result)) ↔
      ∀ b w, (StateMachine.resolve u config src trigger).run s.world = .ok (.fires b) w →
        Configured calls b.destination := by
  intro config result
  cases hres : (StateMachine.resolve u config src trigger).run s.world with
  | error e w =>
      -- a guard raised before anything was performed
      have hresult : result = _ := StateMachine.fireTrigger_run_of_error u config hres
      have hfree : EffectFree s (finalState result) := ⟨[], by rw [hresult]; simp, by simp⟩
      exact ⟨fun _ b' w' h => (by cases h), fun _ _ => hfree⟩
  | ok ρ w =>
      cases ρ with
      | rejected permitted =>
          -- the only effect is the failed operation
          have hresult : result = _ := StateMachine.fireTrigger_run_of_rejected u config hres
          have hfree : EffectFree s (finalState result) := by
            refine ⟨[.fail (StateMachine.invalidTrigger src trigger permitted)], ?_, by
              simp [Effect.IsFail]⟩
            rw [hresult]
            exact StateMachine.trace_fail_run u _ _
          exact ⟨fun _ b' w' h => (by cases h), fun _ _ => hfree⟩
      | fires b =>
          have hresult : result = _ := StateMachine.fireTrigger_run_of_fires u config hres
          obtain ⟨r, hr⟩ := StateMachine.getRepresentation_of_resolve u config hres
          constructor
          · intro hfree b' w' h
            cases h
            by_contra hconf
            -- the destination is missing: the persister has run when the firing raises
            have hdest : config.getRepresentation b.destination = none := by
              rw [getRepresentation_build, if_neg hconf]
            obtain ⟨w', hw'⟩ := StateMachine.fire_run_of_not_configured u config hu
              (t := ⟨src, b.destination, trigger⟩) hr hdest ⟨w, s.trace⟩
            rw [hw'] at hresult
            obtain ⟨evs, htrace, hfail⟩ := hfree (by rw [hresult]; intro t s'; simp)
            rw [hresult] at htrace
            have hevs := List.append_cancel_left htrace
            exact hfail (.persist ⟨src, b.destination, trigger⟩) (by rw [← hevs]; simp)
          · intro hconf hnone
            -- the destination is configured: the firing returns its transition
            have hdest := getRepresentation_build_of_configured initState (hconf b w rfl)
            obtain ⟨w', hw'⟩ := StateMachine.fire_run_of_configured u config hu
              (t := ⟨src, b.destination, trigger⟩) hr hdest ⟨w, s.trace⟩
            exact absurd (hresult.trans hw') (hnone _ _)

/-- A machine whose only permit names a state that is never configured. -/
def danglingCalls : List (BuilderCall Empty Nat) :=
  [.on (some "A".toList) (.permit (some "go".toList) (some "B".toList)),
    .on (some "A".toList) (.onExit 1)]

/-- **A failed firing can have effects**: with `B` never configured, firing `go` in `A` raises
although the state was persisted and the exit action of `A` ran. -/
theorem fireTrigger_dangling_not_effectFree :
    let firing := StateMachine.fireTrigger silentUser
      (StateMachineConfig.build (some "A".toList) danglingCalls) (some "A".toList) (some "go".toList)
    let t : Transition := ⟨some "A".toList, some "B".toList, some "go".toList⟩
    silentUser.ActionsSucceed ∧
      firing.run ⟨(), []⟩ = .error .nullPointer ⟨(), [.persist t, .exit 1 t]⟩ ∧
      ¬ EffectFree (A := Nat) ⟨(), []⟩ (finalState (firing.run ⟨(), []⟩)) := by
  intro firing t
  have hrun : firing.run ⟨(), []⟩ = .error .nullPointer ⟨(), [.persist t, .exit 1 t]⟩ := rfl
  refine ⟨silentUser_actionsSucceed, hrun, ?_⟩
  rintro ⟨evs, htrace, hfail⟩
  rw [hrun] at htrace
  have hevs : [.persist t, .exit 1 t] = evs := by simpa using htrace
  exact hfail (.persist t) (by rw [← hevs]; simp)

/-- Dialling out of `OffHook` is a firing that the characterisation covers. -/
theorem fireTrigger_effectFree_iff_phone :
    let config := StateMachineConfig.build (some "OffHook".toList) phoneLog
    let result := (StateMachine.fireTrigger silentUser config (some "OffHook".toList)
      (some "HungUp".toList)).run ⟨(), []⟩
    (∀ t s', result ≠ .ok (some t) s') → EffectFree ⟨(), []⟩ (finalState result) := by
  intro config result
  refine (fireTrigger_effectFree_iff silentUser_actionsSucceed (some "OffHook".toList) phoneLog
    (some "OffHook".toList) (some "HungUp".toList) ⟨(), []⟩).mpr ?_
  intro b w h
  obtain ⟨r, -, hr, hb, -, -⟩ := StateMachine.resolve_run_fires silentUser config h
  have hrep := getRepresentation_build_of_configured (some "OffHook".toList)
    (show Configured phoneLog (some "OffHook".toList) by decide)
  rw [hrep] at hr
  cases hr
  rw [represent_callsOn_behavioursOf] at hb
  have hnone : permits phoneLog (some "OffHook".toList) (some "HungUp".toList) = [] := by decide
  rw [hnone] at hb
  cases hb

end XenonExt
