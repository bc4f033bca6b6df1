import Mathlib.Data.List.AList
import XenonExt.Effects.Traced
import XenonExt.Java.Strings

/-! # State machine configurations and their builder

The data of a finite state machine as the builder calls assemble it: a `TriggerBehaviour` is one
permitted edge, a `StateRepresentation` holds what was configured for one state, and a
`StateMachineConfig` maps states to representations. A `HashMap` is an `AList`, whose order is one
of the orders Java leaves open. Guards (`Predicate<String>`) and actions (`Consumer<Transition>`)
are values of abstract types `G` and `A`; what they do when called is `UserCode` of the next
module. -/

namespace XenonExt

/-- The exceptions the state machine raises itself, and those of user code. -/
inductive JavaException
  /-- `IllegalStateException`. -/
  | illegalState (message : Str)
  /-- `IllegalArgumentException`. -/
  | illegalArgument (message : Str)
  /-- `NullPointerException`. -/
  | nullPointer
  /-- An exception raised by a guard, an action or an overridden method. -/
  | user (name : Str)
  deriving DecidableEq, Repr

/-- A guard: the `NO_GUARD` predicate of a plain `permit`, or one the user supplies. -/
inductive Guard (G : Type)
  | noGuard
  | user (g : G)
  deriving DecidableEq, Repr

/-- The map from expiry triggers to delays in milliseconds. -/
abbrev ExpiryMap := AList fun _ : JString => Int

/-- A transition: where it comes from, where it goes, and the trigger that caused it. -/
structure Transition where
  source : JString
  destination : JString
  trigger : JString
  deriving DecidableEq, Repr

/-- One permitted edge of a state: its trigger, its guard and its destination. -/
structure TriggerBehaviour (G : Type) where
  trigger : JString
  guard : Guard G
  destination : JString
  deriving DecidableEq, Repr

/-- `resultsInTransitionFrom`: a transitioning behaviour always transits, to its destination. -/
def TriggerBehaviour.resultsInTransitionFrom {G : Type} (b : TriggerBehaviour G) (_ : JString) :
    Bool × JString :=
  (true, b.destination)

/-- An entry action: one registered by `onEntry`, or one wrapped by `onEntryFrom` so that it runs
only for its trigger. -/
inductive EntryAction (A : Type)
  | always (action : A)
  | fromTrigger (trigger : JString) (action : A)
  deriving DecidableEq, Repr

variable {G A : Type}

/-! ## Representations of states -/

/-- Everything configured for a single state. The behaviours are grouped by trigger, and the
grouping is part of the type: a behaviour only ever stands under its own trigger. -/
structure StateRepresentation (G A : Type) where
  state : JString
  triggerBehaviours : AList fun _ : JString => List (TriggerBehaviour G)
  entryActions : List (EntryAction A)
  expiryActions : ExpiryMap
  exitActions : List A
  /-- Behaviours are stored under their own trigger. -/
  triggers_keyed : ∀ trigger bs, triggerBehaviours.lookup trigger = some bs →
    ∀ b ∈ bs, b.trigger = trigger

namespace StateRepresentation

/-- The representation of a state for which nothing was configured yet. -/
def new (state : JString) : StateRepresentation G A where
  state := state
  triggerBehaviours := ∅
  entryActions := []
  expiryActions := ∅
  exitActions := []
  triggers_keyed := by simp

/-- The behaviours listed for a trigger, none when the trigger has no list yet. -/
def behavioursOf (r : StateRepresentation G A) (trigger : JString) : List (TriggerBehaviour G) :=
  (r.triggerBehaviours.lookup trigger).getD []

/-- `addTriggerBehaviour`: append a behaviour to the list of its trigger, created on demand. -/
def addTriggerBehaviour (r : StateRepresentation G A) (b : TriggerBehaviour G) :
    StateRepresentation G A :=
  { r with
    triggerBehaviours := r.triggerBehaviours.insert b.trigger (r.behavioursOf b.trigger ++ [b])
    triggers_keyed := by
      intro trigger bs h b' hb'
      by_cases ht : trigger = b.trigger
      · subst ht
        rw [AList.lookup_insert] at h
        cases h
        rcases List.mem_append.mp hb' with hb' | hb'
        · cases hl : r.triggerBehaviours.lookup b.trigger with
          | none => simp [behavioursOf, hl] at hb'
          | some bs => exact r.triggers_keyed _ bs hl b' (by simpa [behavioursOf, hl] using hb')
        · rw [List.mem_singleton.mp hb']
      · rw [AList.lookup_insert_ne ht] at h
        exact r.triggers_keyed trigger bs h b' hb' }

/-- `addEntryAction(trigger, action)`: an action that runs only when entered by `trigger`. -/
def addEntryActionFrom (r : StateRepresentation G A) (trigger : JString) (action : A) :
    StateRepresentation G A :=
  { r with entryActions := r.entryActions ++ [.fromTrigger trigger action] }

/-- `addEntryAction(action)`. -/
def addEntryAction (r : StateRepresentation G A) (action : A) : StateRepresentation G A :=
  { r with entryActions := r.entryActions ++ [.always action] }

/-- `addExpiryAction`: the delay after which `trigger` fires; a second call overwrites the first. -/
def addExpiryAction (r : StateRepresentation G A) (trigger : JString) (delay : Int) :
    StateRepresentation G A :=
  { r with expiryActions := r.expiryActions.insert trigger delay }

/-- `addExitAction`. -/
def addExitAction (r : StateRepresentation G A) (action : A) : StateRepresentation G A :=
  { r with exitActions := r.exitActions ++ [action] }

/-- A listed behaviour carries the trigger it is listed under. -/
theorem trigger_of_mem_behavioursOf {r : StateRepresentation G A} {trigger : JString}
    {b : TriggerBehaviour G} (h : b ∈ r.behavioursOf trigger) : b.trigger = trigger := by
  unfold behavioursOf at h
  cases hl : r.triggerBehaviours.lookup trigger with
  | none => simp [hl] at h
  | some bs => exact r.triggers_keyed trigger bs hl b (by simpa [hl] using h)

end StateRepresentation

/-! ## Configuration calls on one state

The methods of `StateConfiguration` change the representation they were created for, and some
raise: they run in `EStateM` over the representation. -/

namespace StateConfiguration

/-- A configuration step on the representation of one state. -/
abbrev Step (G A : Type) := EStateM JavaException (StateRepresentation G A)

/-- The message of a `permit` whose destination is the state itself. -/
def identityMessage : Str :=
  ("Permit() (and PermitIf()) require that the destination state is not equal to the source " ++
    "state. To accept a trigger without changing state, use either Ignore() or " ++
    "PermitReentry().").toList

/-- `enforceNotIdentityTransition`: `destination.equals(state)` raises, also for a `null`. -/
def enforceNotIdentityTransition (destination : JString) : Step G A Unit := do
  let r ← get
  match destination with
  | none => throw .nullPointer
  | some d => if some d = r.state then throw (.illegalState identityMessage) else pure ()

/-- `publicPermitIf`: add a behaviour without looking at its destination. -/
def publicPermitIf (trigger destination : JString) (guard : Guard G) : Step G A Unit :=
  modify fun r => r.addTriggerBehaviour ⟨trigger, guard, destination⟩

/-- `publicPermit`: a behaviour without a guard. -/
def publicPermit (trigger destination : JString) : Step G A Unit :=
  publicPermitIf trigger destination .noGuard

/-- `permit`. -/
def permit (trigger destination : JString) : Step G A Unit := do
  enforceNotIdentityTransition destination
  publicPermit trigger destination

/-- `permitIf`. -/
def permitIf (trigger destination : JString) (guard : G) : Step G A Unit := do
  enforceNotIdentityTransition destination
  publicPermitIf trigger destination (.user guard)

/-- `permitReentry`: an edge from the state to itself. -/
def permitReentry (trigger : JString) : Step G A Unit := do
  let r ← get
  publicPermit trigger r.state

/-- `permitReentryIf`. -/
def permitReentryIf (trigger : JString) (guard : G) : Step G A Unit := do
  let r ← get
  publicPermitIf trigger r.state (.user guard)

/-- `onEntry`. -/
def onEntry (action : A) : Step G A Unit := modify fun r => r.addEntryAction action

/-- `onEntryFrom`. -/
def onEntryFrom (trigger : JString) (action : A) : Step G A Unit :=
  modify fun r => r.addEntryActionFrom trigger action

/-- `onExpiry`. -/
def onExpiry (trigger : JString) (expireAfterInMillis : Int) : Step G A Unit :=
  modify fun r => r.addExpiryAction trigger expireAfterInMillis

/-- `onExit`. -/
def onExit (action : A) : Step G A Unit := modify fun r => r.addExitAction action

end StateConfiguration

/-- **One call on a `StateConfiguration`**, as data: what a log of builder calls is made of. -/
inductive ConfigurationCall (G A : Type)
  | permit (trigger destination : JString)
  | permitIf (trigger destination : JString) (guard : G)
  | permitReentry (trigger : JString)
  | permitReentryIf (trigger : JString) (guard : G)
  | onEntry (action : A)
  | onEntryFrom (trigger : JString) (action : A)
  | onExpiry (trigger : JString) (expireAfterInMillis : Int)
  | onExit (action : A)

/-- The method a logged configuration call stands for. -/
def ConfigurationCall.step : ConfigurationCall G A → StateConfiguration.Step G A Unit
  | .permit trigger destination => StateConfiguration.permit trigger destination
  | .permitIf trigger destination guard => StateConfiguration.permitIf trigger destination guard
  | .permitReentry trigger => StateConfiguration.permitReentry trigger
  | .permitReentryIf trigger guard => StateConfiguration.permitReentryIf trigger guard
  | .onEntry action => StateConfiguration.onEntry action
  | .onEntryFrom trigger action => StateConfiguration.onEntryFrom trigger action
  | .onExpiry trigger delay => StateConfiguration.onExpiry trigger delay
  | .onExit action => StateConfiguration.onExit action

/-- What a configuration call leaves of the representation; a raising call changes nothing. -/
def ConfigurationCall.apply (r : StateRepresentation G A) (c : ConfigurationCall G A) :
    StateRepresentation G A :=
  finalState (c.step.run r)

/-- No configuration call changes which state a representation is for. -/
@[simp] theorem ConfigurationCall.apply_state (r : StateRepresentation G A)
    (c : ConfigurationCall G A) : (c.apply r).state = r.state := by
  -- the exception of `enforceNotIdentityTransition` leaves the representation as it was
  have hpermit : ∀ (trigger destination : JString) (guard : Guard G),
      (finalState ((do
        StateConfiguration.enforceNotIdentityTransition destination
        StateConfiguration.publicPermitIf trigger destination guard :
          StateConfiguration.Step G A Unit).run r)).state = r.state := by
    intro trigger destination guard
    cases destination with
    | none => rfl
    | some d =>
        simp only [StateConfiguration.enforceNotIdentityTransition, EStateM.run_bind,
          EStateM.run_get]
        by_cases h : some d = r.state
        · simp [h]
        · simp only [if_neg h, EStateM.run_pure]
          rfl
  cases c with
  | permit trigger destination => exact hpermit trigger destination .noGuard
  | permitIf trigger destination guard => exact hpermit trigger destination (.user guard)
  | _ => rfl

/-! ## Configurations and their builder -/

/-- **A state machine configuration**: its states and its initial state. A representation only ever
stands under the state it is for. -/
structure StateMachineConfig (G A : Type) where
  stateConfiguration : AList fun _ : JString => StateRepresentation G A
  initState : JString
  /-- Representations are stored under their own state. -/
  representations_keyed : ∀ state r, stateConfiguration.lookup state = some r → r.state = state

namespace StateMachineConfig

/-- A configuration without any state. -/
def new (initState : JString) : StateMachineConfig G A where
  stateConfiguration := ∅
  initState := initState
  representations_keyed := by simp

/-- `getRepresentation`: the representation of a state, `none` when it was never configured. -/
def getRepresentation (c : StateMachineConfig G A) (state : JString) :
    Option (StateRepresentation G A) :=
  c.stateConfiguration.lookup state

/-- Store a representation under its state. -/
def put (c : StateMachineConfig G A) (r : StateRepresentation G A) : StateMachineConfig G A where
  stateConfiguration := c.stateConfiguration.insert r.state r
  initState := c.initState
  representations_keyed := by
    intro state r' h
    by_cases hs : state = r.state
    · subst hs
      rw [AList.lookup_insert] at h
      cases h
      rfl
    · rw [AList.lookup_insert_ne hs] at h
      exact c.representations_keyed state r' h

/-- `getOrCreateRepresentation`: `computeIfAbsent` with an empty representation. -/
def getOrCreateRepresentation (c : StateMachineConfig G A) (state : JString) :
    StateMachineConfig G A × StateRepresentation G A :=
  match c.getRepresentation state with
  | some r => (c, r)
  | none => (c.put (.new state), .new state)

/-- `configure`: the representation through which a state is configured. -/
def configure (c : StateMachineConfig G A) (state : JString) :
    StateMachineConfig G A × StateRepresentation G A :=
  c.getOrCreateRepresentation state

/-- A stored representation is found under its state. -/
theorem getRepresentation_put_self (c : StateMachineConfig G A) (r : StateRepresentation G A) :
    (c.put r).getRepresentation r.state = some r :=
  AList.lookup_insert _

/-- Storing a representation leaves the other states alone. -/
theorem getRepresentation_put_ne (c : StateMachineConfig G A) (r : StateRepresentation G A)
    {state : JString} (h : state ≠ r.state) :
    (c.put r).getRepresentation state = c.getRepresentation state :=
  AList.lookup_insert_ne h

/-- The representation found under a state is for that state. -/
theorem state_of_getRepresentation {c : StateMachineConfig G A} {state : JString}
    {r : StateRepresentation G A} (h : c.getRepresentation state = some r) : r.state = state :=
  c.representations_keyed state r h

end StateMachineConfig

/-- **One builder call**: `configure` alone, or a call on the `StateConfiguration` that `configure`
returns for the state. As `configure` never replaces a representation, a call through a
`StateConfiguration` kept from earlier is the same call. -/
inductive BuilderCall (G A : Type)
  | configure (state : JString)
  | on (state : JString) (call : ConfigurationCall G A)

namespace StateMachineConfig

/-- The configuration after one builder call. A configuration call that raises leaves its
representation as it was. -/
def apply (c : StateMachineConfig G A) : BuilderCall G A → StateMachineConfig G A
  | .configure state => (c.configure state).1
  | .on state call => (c.configure state).1.put (call.apply (c.configure state).2)

/-- **The configuration a sequence of builder calls builds.** -/
def build (initState : JString) (calls : List (BuilderCall G A)) : StateMachineConfig G A :=
  calls.foldl apply (new initState)

theorem build_concat (initState : JString) (calls : List (BuilderCall G A))
    (call : BuilderCall G A) :
    build initState (calls ++ [call]) = (build initState calls).apply call := by
  simp [build, List.foldl_append]

/-- After `configure` the state has a representation, the old one or an empty one. -/
theorem getRepresentation_configure_self (c : StateMachineConfig G A) (state : JString) :
    (c.configure state).1.getRepresentation state = some (c.configure state).2 := by
  unfold configure getOrCreateRepresentation
  cases h : c.getRepresentation state with
  | some r => simpa using h
  | none => exact getRepresentation_put_self c (.new state)

/-- `configure` leaves the other states alone. -/
theorem getRepresentation_configure_ne (c : StateMachineConfig G A) {state other : JString}
    (h : other ≠ state) :
    (c.configure state).1.getRepresentation other = c.getRepresentation other := by
  unfold configure getOrCreateRepresentation
  cases c.getRepresentation state with
  | some r => rfl
  | none => exact getRepresentation_put_ne c (.new state) h

/-- The representation `configure` hands out is for the configured state. -/
theorem configure_state (c : StateMachineConfig G A) (state : JString) :
    (c.configure state).2.state = state :=
  state_of_getRepresentation (getRepresentation_configure_self c state)

/-- The representation `configure` hands out is the one stored, or an empty one. -/
theorem configure_representation (c : StateMachineConfig G A) (state : JString) :
    (c.configure state).2 = (c.getRepresentation state).getD (.new state) := by
  unfold configure getOrCreateRepresentation
  cases c.getRepresentation state <;> rfl

end StateMachineConfig

end XenonExt
