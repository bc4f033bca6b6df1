import XenonExt.StateMachine.Config

/-! # Firing a trigger

The operational part of the machine: `fireTrigger` resolves a trigger against the guards of the
current state, hands the transition to the persister, and runs exit actions, the expiry scheduler
and entry actions. Everything a user supplies (guards, actions, persister, scheduler, and the
failing of the causing operation) is `UserCode` over an arbitrary world; the calls the machine makes
are recorded as a trace of `Effect`s.

* **`guardsMet`** is the loop of `tryFindLocalHandler`, `tryFindHandler` its resolution to no
  behaviour, one behaviour, or an exception.
* **`resolve`** collects the two guard evaluations of a firing, which are made before any effect;
  `fireTrigger_eq` splits a firing into `resolve` and the effects that follow it.
* **`fire_eq_of_configured` / `fire_eq_of_not_configured`**: the effects of a firing are
  `performAll` of `firingEffects`, cut short by a destination that has no representation. -/

namespace XenonExt

variable {W G A : Type}

/-! ## User code and its effects -/

/-- A call the machine makes to the outside, with its arguments. -/
inductive Effect (A : Type)
  /-- The causing operation is failed with an exception. -/
  | fail (error : JavaException)
  /-- The state persister is called. -/
  | persist (transition : Transition)
  /-- An exit action of the source runs. -/
  | exit (action : A) (transition : Transition)
  /-- The expiry scheduler is called with the expiry map of the destination. -/
  | schedule (triggerAndDelays : ExpiryMap) (transition : Transition)
  /-- An entry action of the destination runs. -/
  | entry (action : A) (transition : Transition)

/-- An effect that only reports a failure to the caller. -/
def Effect.IsFail : Effect A → Prop
  | .fail _ => True
  | _ => False

/-- **What user code does when it is called**, on a world `W` of the user's choice. -/
structure UserCode (W G A : Type) where
  /-- `Predicate.test` of a guard, on the trigger. -/
  test : G → JString → EStateM JavaException W Bool
  /-- `Consumer.accept` of an exit or entry action. -/
  accept : A → Transition → EStateM JavaException W Unit
  /-- The persister passed to `fireTrigger`. -/
  statePersister : Transition → EStateM JavaException W Unit
  /-- The expiry scheduler, `none` when none was set. -/
  expiryScheduler : Option (ExpiryMap → Transition → EStateM JavaException W Unit)
  /-- `Operation.fail` of the causing operation. -/
  fail : JavaException → EStateM JavaException W Unit

namespace UserCode

/-- The user code behind an effect. -/
def perform (u : UserCode W G A) : Effect A → EStateM JavaException W Unit
  | .fail error => u.fail error
  | .persist t => u.statePersister t
  | .exit action t => u.accept action t
  | .schedule m t => match u.expiryScheduler with
    | some scheduler => scheduler m t
    | none => pure ()
  | .entry action t => u.accept action t

/-- **No call of the user's code raises**, guards apart: actions, persister and scheduler. -/
structure ActionsSucceed (u : UserCode W G A) : Prop where
  accept : ∀ action t, Succeeds (u.accept action t)
  statePersister : ∀ t, Succeeds (u.statePersister t)
  expiryScheduler : ∀ scheduler, u.expiryScheduler = some scheduler →
    ∀ m t, Succeeds (scheduler m t)

/-- Under `ActionsSucceed` every effect other than failing the operation succeeds. -/
theorem ActionsSucceed.perform {u : UserCode W G A} (h : u.ActionsSucceed) {e : Effect A}
    (he : ¬ e.IsFail) : Succeeds (u.perform e) := by
  cases e with
  | fail error => exact absurd trivial he
  | persist t => exact h.statePersister t
  | exit action t => exact h.accept action t
  | schedule m t =>
      unfold UserCode.perform
      cases hs : u.expiryScheduler with
      | none => exact fun s => ⟨(), s, rfl⟩
      | some scheduler => exact h.expiryScheduler scheduler hs m t
  | entry action t => exact h.accept action t

end UserCode

/-- A step of the machine: user code on the world, and the trace of calls. -/
abbrev Machine (W A : Type) := EStateM JavaException (Traced W (Effect A))

/-- Make a call to user code, and record it. -/
def UserCode.emit (u : UserCode W G A) (e : Effect A) : Machine W A Unit := call e (u.perform e)

theorem UserCode.emit_run (u : UserCode W G A) (e : Effect A) (s : Traced W (Effect A)) :
    (u.emit e).run s = Traced.lift (s.trace ++ [e]) ((u.perform e).run s.world) := rfl

/-! ## Guards -/

section Guards

variable (u : UserCode W G A)

/-- `isGuardConditionMet`: `NO_GUARD` always holds, a user's guard is asked. -/
def TriggerBehaviour.isGuardConditionMet (b : TriggerBehaviour G) : EStateM JavaException W Bool :=
  match b.guard with
  | .noGuard => pure true
  | .user g => u.test g b.trigger

/-- The loop of `tryFindLocalHandler`: the behaviours whose guard is met, asked in list order. -/
def guardsMet : List (TriggerBehaviour G) → EStateM JavaException W (List (TriggerBehaviour G))
  | [] => pure []
  | b :: bs => do
    let met ← b.isGuardConditionMet u
    let actual ← guardsMet bs
    pure (if met then b :: actual else actual)

namespace StateRepresentation

/-- The message of an ambiguous trigger. -/
def multipleExitsMessage (state trigger : JString) : Str :=
  "Multiple permitted exit transitions are configured from state '".toList ++ text state ++
    "' for trigger '".toList ++ text trigger ++ "'. Guard clauses must be mutually exclusive.".toList

/-- `tryFindLocalHandler`: the only behaviour whose guard is met, none, or an exception. -/
def tryFindLocalHandler (r : StateRepresentation G A) (trigger : JString) :
    EStateM JavaException W (Option (TriggerBehaviour G)) :=
  match r.triggerBehaviours.lookup trigger with
  | none => pure none
  | some possible => do
    let actual ← guardsMet u possible
    if 1 < actual.length then throw (.illegalState (multipleExitsMessage r.state trigger))
    else pure actual.head?

/-- `tryFindHandler`. -/
def tryFindHandler (r : StateRepresentation G A) (trigger : JString) :
    EStateM JavaException W (Option (TriggerBehaviour G)) :=
  r.tryFindLocalHandler u trigger

/-- `canHandle`. -/
def canHandle (r : StateRepresentation G A) (trigger : JString) : EStateM JavaException W Bool := do
  let handler ← r.tryFindHandler u trigger
  pure handler.isSome

/-- The inner loop of `getPermittedTriggers`: stop at the first guard that is met. -/
def anyGuardMet : List (TriggerBehaviour G) → EStateM JavaException W Bool
  | [] => pure false
  | b :: bs => do
    let met ← b.isGuardConditionMet u
    if met then pure true else anyGuardMet bs

/-- The outer loop of `getPermittedTriggers`, over the triggers that have a list. -/
def permittedTriggers :
    List (Sigma fun _ : JString => List (TriggerBehaviour G)) →
      EStateM JavaException W (List JString)
  | [] => pure []
  | ⟨t, bs⟩ :: rest => do
    let met ← anyGuardMet u bs
    let ts ← permittedTriggers rest
    pure (if met then t :: ts else ts)

/-- `getPermittedTriggers`. -/
def getPermittedTriggers (r : StateRepresentation G A) : EStateM JavaException W (List JString) :=
  permittedTriggers u r.triggerBehaviours.entries

end StateRepresentation

end Guards

/-! ## The actions of a representation -/

namespace StateRepresentation

variable (u : UserCode W G A)

/-- `executeExitActions`. -/
def executeExitActions (r : StateRepresentation G A) (t : Transition) : Machine W A Unit :=
  r.exitActions.forM fun action => u.emit (.exit action t)

/-- `exit`. -/
def exit (r : StateRepresentation G A) (t : Transition) : Machine W A Unit :=
  r.executeExitActions u t

/-- One entry action: a wrapped one compares its trigger with the transition's, which must not be
`null`. -/
def executeEntryAction (t : Transition) : EntryAction A → Machine W A Unit
  | .always action => u.emit (.entry action t)
  | .fromTrigger trigger action =>
    if t.trigger ≠ none ∧ t.trigger = trigger then u.emit (.entry action t) else pure ()

/-- `executeEntryActions`. -/
def executeEntryActions (r : StateRepresentation G A) (t : Transition) : Machine W A Unit :=
  r.entryActions.forM fun action => executeEntryAction u t action

/-- `enter`. -/
def enter (r : StateRepresentation G A) (t : Transition) : Machine W A Unit :=
  r.executeEntryActions u t

/-- `expiry`: call the scheduler with the whole expiry map when there is something to schedule; a
missing scheduler only logs a warning. -/
def expiry (r : StateRepresentation G A) (t : Transition) : Machine W A Unit :=
  if 0 < r.expiryActions.entries.length then
    match u.expiryScheduler with
    | none => pure ()
    | some _ => u.emit (.schedule r.expiryActions t)
  else pure ()

end StateRepresentation

/-! ## The machine -/

namespace StateMachine

variable (u : UserCode W G A) (config : StateMachineConfig G A)

/-- Dereference the representation of a state; a state without one is a `NullPointerException`. -/
def representation (state : JString) : Machine W A (StateRepresentation G A) :=
  orRaise .nullPointer (config.getRepresentation state)

/-- The text Java prints for a list of strings. -/
def listText (ts : List JString) : Str :=
  "[".toList ++ (", ".toList).intercalate (ts.map text) ++ "]".toList

/-- The exception with which an invalid trigger fails the operation. -/
def invalidTrigger (state trigger : JString) (permitted : List JString) : JavaException :=
  .illegalState ("In current state ".toList ++ text state ++ ", ".toList ++ text trigger ++
    " trigger is invalid. Valid triggers are ".toList ++ listText permitted)

/-- `validateTrigger`: fail the operation when no behaviour can handle the trigger. -/
def validateTrigger (state trigger : JString) : Machine W A Bool := do
  let r ← representation config state
  let handled ← quietly (r.canHandle u trigger)
  if handled then pure true
  else
    let permitted ← quietly (r.getPermittedTriggers u)
    u.emit (.fail (invalidTrigger state trigger permitted))
    pure false

/-- `transit`: resolve the trigger again and build the transition of the behaviour found. -/
def transit (src trigger : JString) : Machine W A (Option Transition) := do
  let r ← representation config src
  let handler ← quietly (r.tryFindHandler u trigger)
  let behaviour ← orRaise .nullPointer handler
  let (canTransit, destination) := behaviour.resultsInTransitionFrom src
  pure (if canTransit then some ⟨src, destination, trigger⟩ else none)

/-- `scheduleExpiry`. -/
def scheduleExpiry (t : Transition) : Machine W A Unit := do
  let r ← representation config t.destination
  r.expiry u t

/-- `fireOnExit`. -/
def fireOnExit (t : Transition) : Machine W A Unit := do
  let r ← representation config t.source
  r.exit u t

/-- `fireOnEntry`. -/
def fireOnEntry (t : Transition) : Machine W A Unit := do
  let r ← representation config t.destination
  r.enter u t

/-- **`fireTrigger`**: validate, transit, persist, exit, schedule, enter; `none` for a rejected
trigger. -/
def fireTrigger (src trigger : JString) : Machine W A (Option Transition) := do
  let valid ← validateTrigger u config src trigger
  if valid then
    let transition ← transit u config src trigger
    let t ← orRaise .nullPointer transition
    u.emit (.persist t)
    fireOnExit u config t
    scheduleExpiry u config t
    fireOnEntry u config t
    pure (some t)
  else pure none

/-! ## A firing is a resolution followed by effects -/

/-- What the guards make of a trigger: a behaviour that fires, or a rejection that reports the
triggers that would be permitted. -/
inductive Resolution (G : Type)
  | fires (behaviour : TriggerBehaviour G)
  | rejected (permitted : List JString)

/-- **The guard evaluations of a firing**, on the world alone: those of `validateTrigger` and, when
they find a behaviour, those of `transit`. -/
def resolve (src trigger : JString) : EStateM JavaException W (Resolution G) := do
  let r ← orRaise .nullPointer (config.getRepresentation src)
  let handled ← r.canHandle u trigger
  if handled then
    let handler ← r.tryFindHandler u trigger
    let behaviour ← orRaise .nullPointer handler
    pure (.fires behaviour)
  else
    let permitted ← r.getPermittedTriggers u
    pure (.rejected permitted)

/-- The effects of a firing, from the persister on. -/
def fire (t : Transition) : Machine W A (Option Transition) := do
  u.emit (.persist t)
  fireOnExit u config t
  scheduleExpiry u config t
  fireOnEntry u config t
  pure (some t)

/-- **A firing resolves the trigger, then acts on the resolution.** -/
theorem fireTrigger_eq (src trigger : JString) :
    fireTrigger u config src trigger = (do
      match ← quietly (resolve u config src trigger) with
      | .fires b => fire u config ⟨src, b.destination, trigger⟩
      | .rejected permitted =>
        u.emit (.fail (invalidTrigger src trigger permitted))
        pure none) := by
  unfold fireTrigger validateTrigger transit resolve representation
  -- the three outcomes of `resolve` are reached along the same calls as in the source
  cases hr : config.getRepresentation src with
  | none =>
      funext s
      rfl
  | some r =>
      simp only [orRaise_some, pure_bind, quietly_bind, bind_assoc]
      congr 1
      funext handled
      cases handled with
      | false =>
          simp only [Bool.false_eq_true, if_false, quietly_bind, quietly_pure, bind_assoc, pure_bind]
      | true =>
          simp only [if_true, quietly_bind, quietly_pure, bind_assoc, pure_bind]
          congr 1
          funext handler
          cases handler with
          | none =>
              funext s
              rfl
          | some b =>
              simp only [orRaise_some, pure_bind, quietly_pure,
                TriggerBehaviour.resultsInTransitionFrom, if_true]
              rfl

end StateMachine

/-! ## The effects of a firing as a list -/

namespace StateRepresentation

variable (u : UserCode W G A)

/-- The exit actions of a representation, in order, as effects. -/
def exitEffects (r : StateRepresentation G A) (t : Transition) : List (Effect A) :=
  r.exitActions.map fun action => .exit action t

/-- The effect of one entry action, if it runs for the transition. -/
def entryEffect (t : Transition) : EntryAction A → Option (Effect A)
  | .always action => some (.entry action t)
  | .fromTrigger trigger action =>
    if t.trigger ≠ none ∧ t.trigger = trigger then some (.entry action t) else none

/-- The entry actions of a representation that run for a transition, in order, as effects. -/
def entryEffects (r : StateRepresentation G A) (t : Transition) : List (Effect A) :=
  r.entryActions.filterMap (entryEffect t)

/-- The scheduler call of a representation, if there is something to schedule and a scheduler. -/
def scheduleEffects (r : StateRepresentation G A) (t : Transition) : List (Effect A) :=
  if 0 < r.expiryActions.entries.length ∧ u.expiryScheduler.isSome then
    [.schedule r.expiryActions t]
  else []

/-- Leaving a state performs its exit effects. -/
theorem exit_eq (r : StateRepresentation G A) (t : Transition) :
    r.exit u t = performAll u.perform (r.exitEffects t) :=
  forM_call_eq_performAll u.perform r.exitActions fun action => .exit action t

/-- Entering a state performs its entry effects: a wrapped action for another trigger is skipped. -/
theorem enter_eq (r : StateRepresentation G A) (t : Transition) :
    r.enter u t = performAll u.perform (r.entryEffects t) := by
  unfold enter executeEntryActions entryEffects
  induction r.entryActions with
  | nil => rfl
  | cons action actions ih =>
      show (do executeEntryAction u t action; actions.forM fun a => executeEntryAction u t a) = _
      rw [ih]
      cases action with
      | always a => rfl
      | fromTrigger trigger a =>
          by_cases h : t.trigger ≠ none ∧ t.trigger = trigger
          · simp only [executeEntryAction, entryEffect, if_pos h, List.filterMap_cons,
              performAll_cons]
            rfl
          · simp only [executeEntryAction, entryEffect, if_neg h, List.filterMap_cons, pure_bind]

/-- The expiry step performs the scheduler call, if there is one. -/
theorem expiry_eq (r : StateRepresentation G A) (t : Transition) :
    r.expiry u t = performAll u.perform (r.scheduleEffects u t) := by
  unfold expiry scheduleEffects
  by_cases h : 0 < r.expiryActions.entries.length
  · cases hs : u.expiryScheduler with
    | none => simp [h]
    | some scheduler =>
        simp only [h, if_true, Option.isSome_some, and_self, performAll_cons, performAll_nil,
          bind_pure_unit]
        rfl
  · simp [h]

end StateRepresentation

namespace StateMachine

variable (u : UserCode W G A) (config : StateMachineConfig G A)

/-- **All effects of a firing**, between the representations of its source and destination. -/
def firingEffects (src dest : StateRepresentation G A) (t : Transition) : List (Effect A) :=
  .persist t :: (src.exitEffects t ++ (dest.scheduleEffects u t ++ dest.entryEffects t))

/-- **A firing between configured states** performs all its effects and returns the transition. -/
theorem fire_eq_of_configured {t : Transition} {src dest : StateRepresentation G A}
    (hsrc : config.getRepresentation t.source = some src)
    (hdest : config.getRepresentation t.destination = some dest) :
    fire u config t = (do
      performAll u.perform (firingEffects u src dest t)
      pure (some t)) := by
  unfold fire fireOnExit scheduleExpiry fireOnEntry representation firingEffects UserCode.emit
  simp only [hsrc, hdest, orRaise_some, pure_bind, StateRepresentation.exit_eq,
    StateRepresentation.expiry_eq, StateRepresentation.enter_eq, performAll_cons,
    performAll_append, bind_assoc]

/-- **A firing into a state that was never configured** persists, runs the exit actions, and only
then raises. -/
theorem fire_eq_of_not_configured {t : Transition} {src : StateRepresentation G A}
    (hsrc : config.getRepresentation t.source = some src)
    (hdest : config.getRepresentation t.destination = none) :
    fire u config t = (do
      performAll u.perform (.persist t :: src.exitEffects t)
      throw .nullPointer) := by
  unfold fire fireOnExit scheduleExpiry representation UserCode.emit
  simp only [hsrc, hdest, orRaise_some, pure_bind, StateRepresentation.exit_eq, performAll_cons,
    bind_assoc]
  rfl

/-- The effects of a firing never fail the operation. -/
theorem not_isFail_of_mem_firingEffects {src dest : StateRepresentation G A} {t : Transition}
    {e : Effect A} (he : e ∈ firingEffects u src dest t) : ¬ e.IsFail := by
  intro hfail
  cases e with
  | fail error =>
      simp only [firingEffects, List.mem_cons, List.mem_append, reduceCtorEq, false_or] at he
      rcases he with he | he | he
      · simp [StateRepresentation.exitEffects] at he
      · unfold StateRepresentation.scheduleEffects at he
        split at he <;> simp at he
      · simp only [StateRepresentation.entryEffects, List.mem_filterMap] at he
        obtain ⟨action, -, he⟩ := he
        cases action with
        | always a => simp [StateRepresentation.entryEffect] at he
        | fromTrigger trigger a =>
            unfold StateRepresentation.entryEffect at he
            split at he <;> simp at he
  | _ => exact hfail

/-- **A firing between configured states succeeds** when the user's code does, and leaves all its
effects in the trace. -/
theorem fire_run_of_configured (hu : u.ActionsSucceed) {t : Transition}
    {src dest : StateRepresentation G A}
    (hsrc : config.getRepresentation t.source = some src)
    (hdest : config.getRepresentation t.destination = some dest) (s : Traced W (Effect A)) :
    ∃ w, (fire u config t).run s = .ok (some t) ⟨w, s.trace ++ firingEffects u src dest t⟩ := by
  have hsucc : ∀ e ∈ firingEffects u src dest t, Succeeds (u.perform e) :=
    fun e he => hu.perform (not_isFail_of_mem_firingEffects u he)
  obtain ⟨w, hw⟩ := performAll_run_of_succeeds u.perform hsucc s
  exact ⟨w, by rw [fire_eq_of_configured u config hsrc hdest, bind_run_ok hw]; rfl⟩

/-- **A firing into a state that was never configured raises**, and leaves the persister and the
exit actions in the trace. -/
theorem fire_run_of_not_configured (hu : u.ActionsSucceed) {t : Transition}
    {src : StateRepresentation G A}
    (hsrc : config.getRepresentation t.source = some src)
    (hdest : config.getRepresentation t.destination = none) (s : Traced W (Effect A)) :
    ∃ w, (fire u config t).run s =
      .error .nullPointer ⟨w, s.trace ++ .persist t :: src.exitEffects t⟩ := by
  have hmem : ∀ e ∈ (.persist t :: src.exitEffects t : List (Effect A)),
      e ∈ firingEffects u src src t := by
    intro e he
    rcases List.mem_cons.mp he with rfl | he
    · exact List.mem_cons_self
    · exact List.mem_cons_of_mem _ (List.mem_append_left _ he)
  obtain ⟨w, hw⟩ := performAll_run_of_succeeds u.perform
    (fun e he => hu.perform (not_isFail_of_mem_firingEffects u (hmem e he))) s
  exact ⟨w, by rw [fire_eq_of_not_configured u config hsrc hdest, bind_run_ok hw]; rfl⟩

section Run

variable {src trigger : JString} {s : Traced W (Effect A)} {w : W}

/-- Guards that raise end the firing before any call is recorded. -/
theorem fireTrigger_run_of_error {e : JavaException}
    (h : (resolve u config src trigger).run s.world = .error e w) :
    (fireTrigger u config src trigger).run s = .error e ⟨w, s.trace⟩ := by
  rw [fireTrigger_eq, EStateM.run_bind, quietly_run, h]
  rfl

/-- A rejected trigger fails the operation. -/
theorem fireTrigger_run_of_rejected {permitted : List JString}
    (h : (resolve u config src trigger).run s.world = .ok (.rejected permitted) w) :
    (fireTrigger u config src trigger).run s = EStateM.run (do
      u.emit (.fail (invalidTrigger src trigger permitted))
      pure none) ⟨w, s.trace⟩ := by
  rw [fireTrigger_eq, EStateM.run_bind, quietly_run, h]
  rfl

/-- A behaviour that fires does so from the world the guards leave. -/
theorem fireTrigger_run_of_fires {b : TriggerBehaviour G}
    (h : (resolve u config src trigger).run s.world = .ok (.fires b) w) :
    (fireTrigger u config src trigger).run s =
      (fire u config ⟨src, b.destination, trigger⟩).run ⟨w, s.trace⟩ := by
  rw [fireTrigger_eq, EStateM.run_bind, quietly_run, h]
  rfl

/-- Failing the operation leaves one entry in the trace, whether or not it raises. -/
theorem trace_fail_run (error : JavaException) (s : Traced W (Effect A)) :
    (finalState (EStateM.run (do
      u.emit (.fail error)
      pure (none : Option Transition)) s)).trace = s.trace ++ [.fail error] := by
  rw [EStateM.run_bind, UserCode.emit_run]
  cases (u.perform (.fail error)).run s.world <;> rfl

end Run

/-- A trigger only fires from a configured state. -/
theorem getRepresentation_of_resolve {src trigger : JString} {w w' : W} {ρ : Resolution G}
    (h : (resolve u config src trigger).run w = .ok ρ w') :
    ∃ r, config.getRepresentation src = some r := by
  cases hr : config.getRepresentation src with
  | none =>
      unfold resolve at h
      rw [hr, EStateM.run_bind, orRaise_none_run] at h
      cases h
  | some r => exact ⟨r, rfl⟩

end StateMachine

/-! ## What the guards resolve to -/

section Guards

variable (u : UserCode W G A)

/-- The guards that are met are met by a sublist of the behaviours asked. -/
theorem guardsMet_sublist {bs actual : List (TriggerBehaviour G)} {w w' : W}
    (h : (guardsMet u bs).run w = .ok actual w') : actual.Sublist bs := by
  induction bs generalizing actual w w' with
  | nil =>
      cases h
      exact List.Sublist.slnil
  | cons b bs ih =>
      unfold guardsMet at h
      rw [EStateM.run_bind] at h
      -- guards are asked in order, and a guard that raises ends the search
      cases hb : (b.isGuardConditionMet u).run w with
      | error e w₁ => rw [hb] at h; cases h
      | ok met w₁ =>
          rw [hb] at h
          simp only [EStateM.run_bind] at h
          cases hbs : (guardsMet u bs).run w₁ with
          | error e w₂ => rw [hbs] at h; cases h
          | ok rest w₂ =>
              rw [hbs] at h
              have hrest := ih hbs
              cases met with
              | true => cases h; exact hrest.cons_cons b
              | false => cases h; exact hrest.cons b

namespace StateRepresentation

/-- `tryFindHandler` filters the behaviours listed for the trigger, which may be none at all. -/
theorem tryFindHandler_eq (r : StateRepresentation G A) (trigger : JString) :
    r.tryFindHandler u trigger = (do
      let actual ← guardsMet u (r.behavioursOf trigger)
      if 1 < actual.length then throw (.illegalState (multipleExitsMessage r.state trigger))
      else pure actual.head?) := by
  unfold tryFindHandler tryFindLocalHandler behavioursOf
  cases r.triggerBehaviours.lookup trigger <;> rfl

/-- **A behaviour is found exactly when it is the only one whose guard is met.** -/
theorem tryFindHandler_run_some {r : StateRepresentation G A} {trigger : JString}
    {b : TriggerBehaviour G} {w w' : W} :
    (r.tryFindHandler u trigger).run w = .ok (some b) w' ↔
      (guardsMet u (r.behavioursOf trigger)).run w = .ok [b] w' := by
  rw [tryFindHandler_eq, EStateM.run_bind]
  cases h : (guardsMet u (r.behavioursOf trigger)).run w with
  | error e w₁ => simp
  | ok actual w₁ =>
      match actual with
      | [] => simp
      | [b'] => simp
      | b₁ :: b₂ :: rest => simp

end StateRepresentation

namespace StateMachine

variable (config : StateMachineConfig G A)

/-- **The behaviour that fires is the only one whose guard is met**, in the representation of the
source, when the guards are asked again after the validation found a behaviour. -/
theorem resolve_run_fires {src trigger : JString} {w w' : W} {b : TriggerBehaviour G}
    (h : (resolve u config src trigger).run w = .ok (.fires b) w') :
    ∃ r w₁, config.getRepresentation src = some r ∧ b ∈ r.behavioursOf trigger ∧
      (r.canHandle u trigger).run w = .ok true w₁ ∧
      (guardsMet u (r.behavioursOf trigger)).run w₁ = .ok [b] w' := by
  obtain ⟨r, hr⟩ := getRepresentation_of_resolve u config h
  unfold resolve at h
  rw [hr, orRaise_some, pure_bind, EStateM.run_bind] at h
  cases hc : (r.canHandle u trigger).run w with
  | error e w₁ => rw [hc] at h; cases h
  | ok handled w₁ =>
      rw [hc] at h
      cases handled with
      | false =>
          simp only [Bool.false_eq_true, if_false, EStateM.run_bind] at h
          cases hp : (r.getPermittedTriggers u).run w₁ <;> (rw [hp] at h; cases h)
      | true =>
          simp only [if_true, EStateM.run_bind] at h
          -- the guards are asked a second time, in the world the first round has left
          cases hf : (r.tryFindHandler u trigger).run w₁ with
          | error e w₂ => rw [hf] at h; cases h
          | ok handler w₂ =>
              rw [hf] at h
              cases handler with
              | none => cases h
              | some b' =>
                  cases h
                  have hmet := (StateRepresentation.tryFindHandler_run_some u).mp hf
                  have hsub := guardsMet_sublist u hmet
                  exact ⟨r, w₁, hr, hsub.subset List.mem_cons_self, hc, hmet⟩

end StateMachine

/-! ## What the guards leave alone -/

section Preserves

variable {u} {I : W → Prop} (htest : ∀ g trigger, Preserves I (u.test g trigger))
include htest

theorem preserves_isGuardConditionMet (b : TriggerBehaviour G) :
    Preserves I (b.isGuardConditionMet u) := by
  unfold TriggerBehaviour.isGuardConditionMet
  cases b.guard with
  | noGuard => exact preserves_pure true
  | user g => exact htest g b.trigger

theorem preserves_guardsMet (bs : List (TriggerBehaviour G)) : Preserves I (guardsMet u bs) := by
  induction bs with
  | nil => exact preserves_pure []
  | cons b bs ih =>
      unfold guardsMet
      exact (preserves_isGuardConditionMet htest b).bind fun _ => ih.bind fun _ => preserves_pure _

theorem preserves_tryFindHandler (r : StateRepresentation G A) (trigger : JString) :
    Preserves I (r.tryFindHandler u trigger) := by
  rw [StateRepresentation.tryFindHandler_eq]
  refine (preserves_guardsMet htest _).bind fun actual => ?_
  by_cases h : 1 < actual.length
  · rw [if_pos h]
    exact preserves_throw _
  · rw [if_neg h]
    exact preserves_pure _

theorem preserves_canHandle (r : StateRepresentation G A) (trigger : JString) :
    Preserves I (r.canHandle u trigger) :=
  (preserves_tryFindHandler htest r trigger).bind fun _ => preserves_pure _

theorem preserves_anyGuardMet (bs : List (TriggerBehaviour G)) :
    Preserves I (StateRepresentation.anyGuardMet u bs) := by
  induction bs with
  | nil => exact preserves_pure false
  | cons b bs ih =>
      unfold StateRepresentation.anyGuardMet
      refine (preserves_isGuardConditionMet htest b).bind fun met => ?_
      cases met with
      | true => exact preserves_pure true
      | false => exact ih

theorem preserves_permittedTriggers
    (entries : List (Sigma fun _ : JString => List (TriggerBehaviour G))) :
    Preserves I (StateRepresentation.permittedTriggers u entries) := by
  induction entries with
  | nil => exact preserves_pure []
  | cons e entries ih =>
      unfold StateRepresentation.permittedTriggers
      exact (preserves_anyGuardMet htest e.2).bind fun _ => ih.bind fun _ => preserves_pure _

/-- **Resolving a trigger preserves what the guards preserve.** -/
theorem StateMachine.preserves_resolve (config : StateMachineConfig G A) (src trigger : JString) :
    Preserves I (resolve u config src trigger) := by
  unfold resolve
  refine (preserves_orRaise _ _).bind fun r => (preserves_canHandle htest r trigger).bind ?_
  intro handled
  cases handled with
  | true =>
      exact (preserves_tryFindHandler htest r trigger).bind fun _ =>
        (preserves_orRaise _ _).bind fun _ => preserves_pure _
  | false =>
      exact (preserves_permittedTriggers htest r.triggerBehaviours.entries).bind fun _ =>
        preserves_pure _

end Preserves

end Guards

end XenonExt
