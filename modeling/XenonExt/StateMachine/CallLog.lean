import Mathlib.Data.List.Induction
import XenonExt.StateMachine.Firing

/-! # Reading a configuration off the log of builder calls

The builder creates representations, trigger lists and maps on demand and fills them call by call.
This file reads the result off the log of calls instead, without any map:

* **`getRepresentation_build`**: a state has a representation exactly when some call mentions it,
  and that representation is made by the calls on this state alone, in order.
* **`represent_*`**: the behaviours, exit actions, entry actions and expiry delays of a
  representation are filtered from those calls; the last `onExpiry` of a trigger wins.
* **`firingEffects_eq_logged`**: the effects of a firing between configured states are those that
  the log prescribes. -/

namespace XenonExt

variable {W G A : Type}

/-! ## What a call log says -/

/-- The state a builder call configures. -/
def BuilderCall.state : BuilderCall G A → JString
  | .configure state => state
  | .on state _ => state

/-- The configuration calls of a log on one state, in call order. -/
def callsOn (calls : List (BuilderCall G A)) (state : JString) : List (ConfigurationCall G A) :=
  calls.filterMap fun
    | .configure _ => none
    | .on s call => if s = state then some call else none

/-- A state is configured by a log when some call mentions it. -/
def Configured (calls : List (BuilderCall G A)) (state : JString) : Prop :=
  state ∈ calls.map BuilderCall.state

instance (calls : List (BuilderCall G A)) (state : JString) : Decidable (Configured calls state) :=
  inferInstanceAs (Decidable (state ∈ calls.map BuilderCall.state))

namespace ConfigurationCall

/-- The behaviour a call on `state` permits; a `permit` to the state itself, or to `null`, raises
and permits nothing. -/
def behaviour (state : JString) : ConfigurationCall G A → Option (TriggerBehaviour G)
  | .permit trigger destination =>
    if destination = none ∨ destination = state then none
    else some ⟨trigger, .noGuard, destination⟩
  | .permitIf trigger destination guard =>
    if destination = none ∨ destination = state then none
    else some ⟨trigger, .user guard, destination⟩
  | .permitReentry trigger => some ⟨trigger, .noGuard, state⟩
  | .permitReentryIf trigger guard => some ⟨trigger, .user guard, state⟩
  | _ => none

/-- The exit action a call registers. -/
def exitAction : ConfigurationCall G A → Option A
  | .onExit action => some action
  | _ => none

/-- The entry action a call registers. -/
def entryAction : ConfigurationCall G A → Option (EntryAction A)
  | .onEntry action => some (.always action)
  | .onEntryFrom trigger action => some (.fromTrigger trigger action)
  | _ => none

/-- The entry action a call registers for a transition by `trigger`. -/
def entryActionFor (trigger : Str) : ConfigurationCall G A → Option A
  | .onEntry action => some action
  | .onEntryFrom trigger' action => if trigger' = some trigger then some action else none
  | _ => none

/-- The delay a call sets for an expiry trigger. -/
def expiryDelay (trigger : JString) : ConfigurationCall G A → Option Int
  | .onExpiry trigger' delay => if trigger' = trigger then some delay else none
  | _ => none

end ConfigurationCall

/-- All behaviours the log permits in a state, in call order. -/
def permitsOf (calls : List (BuilderCall G A)) (state : JString) : List (TriggerBehaviour G) :=
  (callsOn calls state).filterMap (ConfigurationCall.behaviour state)

/-- The behaviours the log permits in a state for one trigger, in call order. -/
def permits (calls : List (BuilderCall G A)) (state trigger : JString) :
    List (TriggerBehaviour G) :=
  (permitsOf calls state).filter fun b => b.trigger = trigger

/-- The exit actions the log registers for a state, in call order. -/
def exitActionsOf (calls : List (BuilderCall G A)) (state : JString) : List A :=
  (callsOn calls state).filterMap ConfigurationCall.exitAction

/-- The entry actions the log registers for a state entered by `trigger`, in call order. -/
def entryActionsOf (calls : List (BuilderCall G A)) (state : JString) (trigger : Str) : List A :=
  (callsOn calls state).filterMap (ConfigurationCall.entryActionFor trigger)

/-- The delay the log sets for an expiry trigger of a state: that of the last call. -/
def lastDelay (calls : List (BuilderCall G A)) (state trigger : JString) : Option Int :=
  ((callsOn calls state).filterMap (ConfigurationCall.expiryDelay trigger)).getLast?

/-! ## The representation made by the calls on one state -/

/-- The representation that a list of configuration calls makes of an empty one. -/
def represent (state : JString) (cs : List (ConfigurationCall G A)) : StateRepresentation G A :=
  cs.foldl ConfigurationCall.apply (.new state)

theorem represent_concat (state : JString) (cs : List (ConfigurationCall G A))
    (c : ConfigurationCall G A) : represent state (cs ++ [c]) = c.apply (represent state cs) := by
  simp [represent, List.foldl_append]

@[simp] theorem represent_state (state : JString) (cs : List (ConfigurationCall G A)) :
    (represent state cs).state = state := by
  induction cs using List.reverseRecOn with
  | nil => rfl
  | append_singleton cs c ih => rw [represent_concat, ConfigurationCall.apply_state, ih]

/-- Appending a behaviour extends the list of its own trigger only. -/
theorem StateRepresentation.behavioursOf_addTriggerBehaviour (r : StateRepresentation G A)
    (b : TriggerBehaviour G) (trigger : JString) :
    (r.addTriggerBehaviour b).behavioursOf trigger =
      r.behavioursOf trigger ++ if b.trigger = trigger then [b] else [] := by
  unfold addTriggerBehaviour behavioursOf
  by_cases h : b.trigger = trigger
  · subst h
    simp
  · have hne : trigger ≠ b.trigger := fun h' => h h'.symm
    simp [AList.lookup_insert_ne hne, h]

/-- A `permit` with its check, as a change of the representation. -/
theorem StateConfiguration.permit_finalState (r : StateRepresentation G A)
    (trigger destination : JString) (guard : Guard G) :
    finalState ((do
        enforceNotIdentityTransition destination
        publicPermitIf trigger destination guard : Step G A Unit).run r) =
      if destination = none ∨ destination = r.state then r
      else r.addTriggerBehaviour ⟨trigger, guard, destination⟩ := by
  cases destination with
  | none => rfl
  | some d =>
      simp only [enforceNotIdentityTransition, EStateM.run_bind, EStateM.run_get, reduceCtorEq,
        false_or]
      by_cases h : some d = r.state
      · simp [h]
      · simp only [if_neg h, EStateM.run_pure]
        rfl

/-- **A configuration call adds the behaviour it permits**, if it permits one, and changes no other
behaviour. -/
theorem ConfigurationCall.behavioursOf_apply (r : StateRepresentation G A)
    (c : ConfigurationCall G A) (trigger : JString) :
    (c.apply r).behavioursOf trigger =
      r.behavioursOf trigger ++ (c.behaviour r.state).toList.filter fun b => b.trigger = trigger := by
  have hadd : ∀ b : TriggerBehaviour G, (r.addTriggerBehaviour b).behavioursOf trigger =
      r.behavioursOf trigger ++ [b].filter fun b => b.trigger = trigger := by
    intro b
    rw [StateRepresentation.behavioursOf_addTriggerBehaviour, List.filter_singleton]
    by_cases h : b.trigger = trigger <;> simp [h]
  -- both `permit` calls refuse `null` and the state itself, and then add nothing
  have hpermit : ∀ (t destination : JString) (guard : Guard G),
      (finalState ((do
          StateConfiguration.enforceNotIdentityTransition destination
          StateConfiguration.publicPermitIf t destination guard :
            StateConfiguration.Step G A Unit).run r)).behavioursOf trigger =
        r.behavioursOf trigger ++
          (if destination = none ∨ destination = r.state then none
            else some (⟨t, guard, destination⟩ : TriggerBehaviour G)).toList.filter
              fun b => b.trigger = trigger := by
    intro t destination guard
    rw [StateConfiguration.permit_finalState]
    by_cases h : destination = none ∨ destination = r.state
    · simp [if_pos h]
    · rw [if_neg h, if_neg h]
      exact hadd _
  cases c with
  | permit t destination => exact hpermit t destination .noGuard
  | permitIf t destination guard => exact hpermit t destination (.user guard)
  | permitReentry t => exact hadd ⟨t, .noGuard, r.state⟩
  | permitReentryIf t guard => exact hadd ⟨t, .user guard, r.state⟩
  | onEntry action => exact (List.append_nil _).symm
  | onEntryFrom t action => exact (List.append_nil _).symm
  | onExpiry t delay => exact (List.append_nil _).symm
  | onExit action => exact (List.append_nil _).symm

/-- The behaviours of a trigger are those the calls permit for it, in call order. -/
theorem represent_behavioursOf (state trigger : JString) (cs : List (ConfigurationCall G A)) :
    (represent state cs).behavioursOf trigger =
      (cs.filterMap (ConfigurationCall.behaviour state)).filter fun b => b.trigger = trigger := by
  induction cs using List.reverseRecOn with
  | nil => rfl
  | append_singleton cs c ih =>
      rw [represent_concat, ConfigurationCall.behavioursOf_apply, ih, represent_state,
        List.filterMap_append, List.filter_append]
      cases hb : c.behaviour state <;> simp [hb]

/-- The frame of a `permit`: only the behaviours may change. -/
theorem StateConfiguration.permit_frame (r : StateRepresentation G A)
    (trigger destination : JString) (guard : Guard G) :
    let r' := finalState ((do
      enforceNotIdentityTransition destination
      publicPermitIf trigger destination guard : Step G A Unit).run r)
    r'.exitActions = r.exitActions ∧ r'.entryActions = r.entryActions ∧
      r'.expiryActions = r.expiryActions := by
  intro r'
  have hr' : r' = _ := permit_finalState r trigger destination guard
  by_cases h : destination = none ∨ destination = r.state
  · rw [hr', if_pos h]
    exact ⟨rfl, rfl, rfl⟩
  · rw [hr', if_neg h]
    exact ⟨rfl, rfl, rfl⟩

/-- **A configuration call appends its action** to the exit or entry actions, sets its delay, and
leaves the rest alone. -/
theorem ConfigurationCall.apply_actions (r : StateRepresentation G A)
    (c : ConfigurationCall G A) :
    (c.apply r).exitActions = r.exitActions ++ c.exitAction.toList ∧
      (c.apply r).entryActions = r.entryActions ++ c.entryAction.toList ∧
      ∀ trigger, (c.apply r).expiryActions.lookup trigger =
        (c.expiryDelay trigger).or (r.expiryActions.lookup trigger) := by
  cases c with
  | permit t destination =>
      obtain ⟨h₁, h₂, h₃⟩ := StateConfiguration.permit_frame r t destination .noGuard
      exact ⟨h₁.trans (List.append_nil _).symm, h₂.trans (List.append_nil _).symm,
        fun trigger => congrArg (AList.lookup trigger) h₃⟩
  | permitIf t destination guard =>
      obtain ⟨h₁, h₂, h₃⟩ := StateConfiguration.permit_frame r t destination (.user guard)
      exact ⟨h₁.trans (List.append_nil _).symm, h₂.trans (List.append_nil _).symm,
        fun trigger => congrArg (AList.lookup trigger) h₃⟩
  | onEntry action => exact ⟨(List.append_nil _).symm, rfl, fun _ => rfl⟩
  | onEntryFrom t action => exact ⟨(List.append_nil _).symm, rfl, fun _ => rfl⟩
  | onExit action => exact ⟨rfl, (List.append_nil _).symm, fun _ => rfl⟩
  | onExpiry t delay =>
      refine ⟨(List.append_nil _).symm, (List.append_nil _).symm, fun trigger => ?_⟩
      show (r.expiryActions.insert t delay).lookup trigger = _
      by_cases h : t = trigger
      · subst h
        simp [expiryDelay]
      · have hne : trigger ≠ t := fun h' => h h'.symm
        simp [expiryDelay, h, AList.lookup_insert_ne hne]
  | permitReentry t => exact ⟨(List.append_nil _).symm, (List.append_nil _).symm, fun _ => rfl⟩
  | permitReentryIf t guard =>
      exact ⟨(List.append_nil _).symm, (List.append_nil _).symm, fun _ => rfl⟩

/-- The exit actions are those registered, in call order. -/
theorem represent_exitActions (state : JString) (cs : List (ConfigurationCall G A)) :
    (represent state cs).exitActions = cs.filterMap ConfigurationCall.exitAction := by
  induction cs using List.reverseRecOn with
  | nil => rfl
  | append_singleton cs c ih =>
      rw [represent_concat, (ConfigurationCall.apply_actions _ c).1, ih, List.filterMap_append]
      cases hc : c.exitAction <;> simp [hc]

/-- The entry actions are those registered, in call order. -/
theorem represent_entryActions (state : JString) (cs : List (ConfigurationCall G A)) :
    (represent state cs).entryActions = cs.filterMap ConfigurationCall.entryAction := by
  induction cs using List.reverseRecOn with
  | nil => rfl
  | append_singleton cs c ih =>
      rw [represent_concat, (ConfigurationCall.apply_actions _ c).2.1, ih, List.filterMap_append]
      cases hc : c.entryAction <;> simp [hc]

/-- The delay of an expiry trigger is that of the last call that sets it. -/
theorem represent_expiry_lookup (state trigger : JString) (cs : List (ConfigurationCall G A)) :
    (represent state cs).expiryActions.lookup trigger =
      (cs.filterMap (ConfigurationCall.expiryDelay trigger)).getLast? := by
  induction cs using List.reverseRecOn with
  | nil => rfl
  | append_singleton cs c ih =>
      rw [represent_concat, (ConfigurationCall.apply_actions _ c).2.2, ih, List.filterMap_append,
        List.getLast?_append]
      cases hc : c.expiryDelay trigger <;> simp [hc]

/-! ## The configuration made by the whole log -/

theorem callsOn_concat (calls : List (BuilderCall G A)) (call : BuilderCall G A)
    (state : JString) : callsOn (calls ++ [call]) state = callsOn calls state ++
      (match call with
        | .configure _ => []
        | .on s c => if s = state then [c] else []) := by
  unfold callsOn
  rw [List.filterMap_append]
  cases call with
  | configure s => rfl
  | on s c => by_cases h : s = state <;> simp [h]

theorem configured_concat (calls : List (BuilderCall G A)) (call : BuilderCall G A)
    (state : JString) :
    Configured (calls ++ [call]) state ↔ Configured calls state ∨ call.state = state := by
  simp [Configured, eq_comm]

/-- A state that no call mentions has no configuration calls. -/
theorem callsOn_eq_nil {calls : List (BuilderCall G A)} {state : JString}
    (h : ¬ Configured calls state) : callsOn calls state = [] := by
  refine List.filterMap_eq_nil_iff.mpr fun call hcall => ?_
  cases call with
  | configure s => rfl
  | on s c =>
      have hs : s ≠ state := fun hs => h (List.mem_map.mpr ⟨_, hcall, hs⟩)
      simp [hs]

/-- A builder call leaves the states that it does not mention alone. -/
theorem StateMachineConfig.getRepresentation_apply_ne (config : StateMachineConfig G A)
    {call : BuilderCall G A} {state : JString} (h : state ≠ call.state) :
    (config.apply call).getRepresentation state = config.getRepresentation state := by
  cases call with
  | configure s => exact config.getRepresentation_configure_ne h
  | on s c =>
      have hne : state ≠ (c.apply (config.configure s).2).state := by
        rw [ConfigurationCall.apply_state, config.configure_state]
        exact h
      exact ((config.configure s).1.getRepresentation_put_ne _ hne).trans
        (config.getRepresentation_configure_ne h)

/-- `configure` alone creates a representation that is not there yet. -/
theorem StateMachineConfig.getRepresentation_apply_configure (config : StateMachineConfig G A)
    (state : JString) : (config.apply (.configure state)).getRepresentation state =
      some ((config.getRepresentation state).getD (.new state)) := by
  rw [← config.configure_representation]
  exact config.getRepresentation_configure_self state

/-- A call on a configuration changes the representation it was made for. -/
theorem StateMachineConfig.getRepresentation_apply_on (config : StateMachineConfig G A)
    (state : JString) (c : ConfigurationCall G A) :
    (config.apply (.on state c)).getRepresentation state =
      some (c.apply ((config.getRepresentation state).getD (.new state))) := by
  have hput := (config.configure state).1.getRepresentation_put_self
    (c.apply (config.configure state).2)
  rw [ConfigurationCall.apply_state, config.configure_state] at hput
  rw [← config.configure_representation]
  exact hput

/-- **The representation of a state is made by the calls on that state**, whatever calls on other
states stand between them; a state that no call mentions has none. -/
theorem getRepresentation_build (initState : JString) (calls : List (BuilderCall G A))
    (state : JString) :
    (StateMachineConfig.build initState calls).getRepresentation state =
      if Configured calls state then some (represent state (callsOn calls state)) else none := by
  induction calls using List.reverseRecOn with
  | nil => rfl
  | append_singleton calls call ih =>
      rw [StateMachineConfig.build_concat, callsOn_concat]
      simp only [configured_concat]
      -- a state that was not configured starts from a new representation, as in the source
      have hrep : ((StateMachineConfig.build initState calls).getRepresentation state).getD
          (.new state) = represent state (callsOn calls state) := by
        rw [ih]
        by_cases hc : Configured calls state
        · simp [hc]
        · simp [hc, callsOn_eq_nil hc, represent]
      by_cases hs : call.state = state
      · subst hs
        rw [if_pos (.inr rfl)]
        cases call with
        | configure s =>
            simp only [BuilderCall.state] at hrep ⊢
            rw [StateMachineConfig.getRepresentation_apply_configure, hrep, List.append_nil]
        | on s c =>
            simp only [BuilderCall.state] at hrep ⊢
            rw [StateMachineConfig.getRepresentation_apply_on, hrep, if_pos trivial, represent_concat]
      · rw [StateMachineConfig.getRepresentation_apply_ne _ fun h => hs h.symm, ih]
        cases call with
        | configure s => simp [hs]
        | on s c =>
            have hother : s ≠ state := hs
            simp [hs, hother]

/-- What the log says about a configured state, in one place. -/
theorem getRepresentation_build_of_configured (initState : JString)
    {calls : List (BuilderCall G A)} {state : JString} (h : Configured calls state) :
    (StateMachineConfig.build initState calls).getRepresentation state =
      some (represent state (callsOn calls state)) := by
  rw [getRepresentation_build, if_pos h]

/-- The representation of a state is found exactly when the log configures the state. -/
theorem getRepresentation_build_isSome (initState : JString) (calls : List (BuilderCall G A))
    (state : JString) :
    ((StateMachineConfig.build initState calls).getRepresentation state).isSome ↔
      Configured calls state := by
  rw [getRepresentation_build]
  by_cases h : Configured calls state <;> simp [h]

/-- The behaviours listed for a trigger are those the log permits for it. -/
theorem represent_callsOn_behavioursOf (calls : List (BuilderCall G A)) (state trigger : JString) :
    (represent state (callsOn calls state)).behavioursOf trigger = permits calls state trigger :=
  represent_behavioursOf state trigger (callsOn calls state)

/-! ## Pure guards -/

/-- A pure valuation of the guards: each answers for a trigger once and for all. -/
abbrev GuardValuation (G : Type) := G → JString → Bool

/-- Whether the guard of a behaviour is met under a valuation. -/
def TriggerBehaviour.MetBy (v : GuardValuation G) (b : TriggerBehaviour G) : Bool :=
  match b.guard with
  | .noGuard => true
  | .user g => v g b.trigger

/-- User code whose guards are pure predicates with valuation `v`. -/
def UserCode.PureGuards (u : UserCode W G A) (v : GuardValuation G) : Prop :=
  ∀ g trigger, u.test g trigger = pure (v g trigger)

section PureGuards

variable {u : UserCode W G A} {v : GuardValuation G} (hu : u.PureGuards v)
include hu

theorem isGuardConditionMet_of_pure (b : TriggerBehaviour G) :
    b.isGuardConditionMet u = pure (b.MetBy v) := by
  unfold TriggerBehaviour.isGuardConditionMet TriggerBehaviour.MetBy
  cases b.guard with
  | noGuard => rfl
  | user g => exact hu g b.trigger

/-- Pure guards are a filter. -/
theorem guardsMet_of_pure (bs : List (TriggerBehaviour G)) :
    guardsMet u bs = pure (bs.filter (TriggerBehaviour.MetBy v)) := by
  induction bs with
  | nil => rfl
  | cons b bs ih =>
      unfold guardsMet
      rw [isGuardConditionMet_of_pure hu, pure_bind, ih, pure_bind, List.filter_cons]

/-- The inner loop of `getPermittedTriggers` asks whether some guard is met. -/
theorem anyGuardMet_of_pure (bs : List (TriggerBehaviour G)) :
    StateRepresentation.anyGuardMet u bs = pure (bs.any (TriggerBehaviour.MetBy v)) := by
  induction bs with
  | nil => rfl
  | cons b bs ih =>
      unfold StateRepresentation.anyGuardMet
      rw [isGuardConditionMet_of_pure hu, pure_bind, ih, List.any_cons]
      cases b.MetBy v <;> rfl

/-- The outer loop of `getPermittedTriggers` keeps the triggers for which some guard is met. -/
theorem permittedTriggers_of_pure
    (entries : List (Sigma fun _ : JString => List (TriggerBehaviour G))) :
    StateRepresentation.permittedTriggers u entries =
      pure ((entries.filter fun e => e.2.any (TriggerBehaviour.MetBy v)).map Sigma.fst) := by
  induction entries with
  | nil => rfl
  | cons e entries ih =>
      unfold StateRepresentation.permittedTriggers
      rw [anyGuardMet_of_pure hu, pure_bind, ih, pure_bind, List.filter_cons]
      cases e.2.any (TriggerBehaviour.MetBy v) <;> rfl

/-- **`getPermittedTriggers` lists no trigger twice, and lists a trigger exactly when one of its
behaviours has its guard met.** -/
theorem getPermittedTriggers_of_pure (r : StateRepresentation G A) :
    ∃ permitted, r.getPermittedTriggers u = pure permitted ∧ permitted.Nodup ∧
      ∀ trigger, trigger ∈ permitted ↔
        (r.behavioursOf trigger).any (TriggerBehaviour.MetBy v) := by
  refine ⟨_, permittedTriggers_of_pure hu r.triggerBehaviours.entries, ?_, fun trigger => ?_⟩
  · have hkeys : r.triggerBehaviours.keys.Nodup := r.triggerBehaviours.keys_nodup
    exact hkeys.sublist (List.filter_sublist.map Sigma.fst)
  · simp only [List.mem_map, List.mem_filter, Sigma.exists, StateRepresentation.behavioursOf]
    constructor
    · rintro ⟨t, bs, ⟨hmem, hany⟩, rfl⟩
      have hl : r.triggerBehaviours.lookup t = some bs := AList.mem_lookup_iff.mpr hmem
      simpa [hl] using hany
    · intro hany
      cases hl : r.triggerBehaviours.lookup trigger with
      | none => simp [hl] at hany
      | some bs =>
          exact ⟨trigger, bs, ⟨AList.mem_lookup_iff.mp hl, by simpa [hl] using hany⟩, rfl⟩

/-- **`tryFindHandler` under pure guards**: none, the only one, or an exception. -/
theorem tryFindHandler_of_pure (r : StateRepresentation G A) (trigger : JString) :
    r.tryFindHandler u trigger =
      match (r.behavioursOf trigger).filter (TriggerBehaviour.MetBy v) with
      | [] => pure none
      | [b] => pure (some b)
      | _ => throw (.illegalState (StateRepresentation.multipleExitsMessage r.state trigger)) := by
  rw [StateRepresentation.tryFindHandler_eq, guardsMet_of_pure hu, pure_bind]
  match (r.behavioursOf trigger).filter (TriggerBehaviour.MetBy v) with
  | [] => rfl
  | [b] => rfl
  | b₁ :: b₂ :: rest => simp

section Resolve

variable {config : StateMachineConfig G A} {src trigger : JString} {r : StateRepresentation G A}
  (hr : config.getRepresentation src = some r)
include hr

/-- When exactly one guard is met, its behaviour fires. -/
theorem resolve_of_one_met {b : TriggerBehaviour G}
    (h : (r.behavioursOf trigger).filter (TriggerBehaviour.MetBy v) = [b]) :
    StateMachine.resolve u config src trigger = pure (.fires b) := by
  unfold StateMachine.resolve StateRepresentation.canHandle
  rw [hr, orRaise_some, pure_bind, tryFindHandler_of_pure hu, h]
  rfl

/-- When no guard is met, the trigger is rejected with the permitted triggers. -/
theorem resolve_of_none_met
    (h : (r.behavioursOf trigger).filter (TriggerBehaviour.MetBy v) = []) :
    StateMachine.resolve u config src trigger = (do
      let permitted ← r.getPermittedTriggers u
      pure (.rejected permitted)) := by
  unfold StateMachine.resolve StateRepresentation.canHandle
  rw [hr, orRaise_some, pure_bind, tryFindHandler_of_pure hu, h]
  rfl

/-- When several guards are met, the trigger is ambiguous. -/
theorem resolve_of_many_met
    (h : 1 < ((r.behavioursOf trigger).filter (TriggerBehaviour.MetBy v)).length) :
    StateMachine.resolve u config src trigger =
      throw (.illegalState (StateRepresentation.multipleExitsMessage src trigger)) := by
  unfold StateMachine.resolve StateRepresentation.canHandle
  rw [hr, orRaise_some, pure_bind, tryFindHandler_of_pure hu,
    StateMachineConfig.state_of_getRepresentation hr]
  match (r.behavioursOf trigger).filter (TriggerBehaviour.MetBy v), h with
  | b₁ :: b₂ :: rest, _ => rfl

end Resolve

end PureGuards

/-- A trigger with a single behaviour, without a guard, fires it. -/
theorem resolve_build_of_unguarded (u : UserCode W G A) (initState : JString)
    {calls : List (BuilderCall G A)} {src trigger : JString} {b : TriggerBehaviour G}
    (hsrc : Configured calls src) (h : permits calls src trigger = [b]) (hb : b.guard = .noGuard) :
    StateMachine.resolve u (.build initState calls) src trigger = pure (.fires b) := by
  have hmet : guardsMet u [b] = pure [b] := by
    simp only [guardsMet, TriggerBehaviour.isGuardConditionMet, hb, pure_bind, if_true]
  unfold StateMachine.resolve StateRepresentation.canHandle
  rw [getRepresentation_build_of_configured initState hsrc, orRaise_some, pure_bind,
    StateRepresentation.tryFindHandler_eq, represent_callsOn_behavioursOf, h, hmet]
  rfl

/-! ## A firing read off the log -/

/-- The effects of a transition that the log prescribes, given the expiry map of the destination:
persist, exit actions in call order, one scheduler call if the map is not empty, entry actions in
call order. -/
def loggedEffects (calls : List (BuilderCall G A)) (expiryMap : ExpiryMap) (src dest : JString)
    (trigger : Str) : List (Effect A) :=
  let t : Transition := ⟨src, dest, some trigger⟩
  .persist t :: ((exitActionsOf calls src).map (fun action => .exit action t) ++
    ((if expiryMap.keys = [] then [] else [.schedule expiryMap t]) ++
      (entryActionsOf calls dest trigger).map fun action => .entry action t))

/-- The entry effects of a representation are the entry actions the log registers for the
trigger. -/
theorem represent_entryEffects (calls : List (BuilderCall G A)) (src dest : JString)
    (trigger : Str) :
    (represent dest (callsOn calls dest)).entryEffects ⟨src, dest, some trigger⟩ =
      (entryActionsOf calls dest trigger).map
        fun action => .entry action ⟨src, dest, some trigger⟩ := by
  unfold StateRepresentation.entryEffects entryActionsOf
  rw [represent_entryActions, List.filterMap_filterMap, List.map_filterMap]
  refine List.filterMap_congr fun c _ => ?_
  cases c with
  | onEntryFrom t action =>
      by_cases h : t = some trigger
      · subst h
        simp [ConfigurationCall.entryAction, ConfigurationCall.entryActionFor,
          StateRepresentation.entryEffect]
      · have h' : some trigger ≠ t := fun h' => h h'.symm
        simp [ConfigurationCall.entryAction, ConfigurationCall.entryActionFor,
          StateRepresentation.entryEffect, h, h']
  | _ => rfl

/-- With a scheduler set, the effects of a firing between configured states are those the log
prescribes. -/
theorem firingEffects_eq_logged {u : UserCode W G A} (hs : u.expiryScheduler.isSome)
    (calls : List (BuilderCall G A)) (src dest : JString) (trigger : Str) :
    StateMachine.firingEffects u (represent src (callsOn calls src))
        (represent dest (callsOn calls dest)) ⟨src, dest, some trigger⟩ =
      loggedEffects calls (represent dest (callsOn calls dest)).expiryActions src dest trigger := by
  unfold StateMachine.firingEffects loggedEffects StateRepresentation.exitEffects exitActionsOf
    StateRepresentation.scheduleEffects
  rw [represent_exitActions, represent_entryEffects]
  have hkeys : (represent dest (callsOn calls dest)).expiryActions.keys = [] ↔
      (represent dest (callsOn calls dest)).expiryActions.entries = [] := by
    simp [AList.keys, List.keys]
  by_cases h : (represent dest (callsOn calls dest)).expiryActions.entries = []
  · simp [hkeys.mpr h, h]
  · have hpos := List.length_pos_iff.mpr h
    simp [hs, hpos, mt hkeys.mp h]

/-! ## A sample machine -/

/-- The telephone of the service tests, with its handlers numbered in call order; handler `0` is
`completeOperation`. -/
def phoneCalls (handler : Nat → A) : List (BuilderCall G A) :=
  let offHook := some "OffHook".toList
  let ringing := some "Ringing".toList
  let connected := some "Connected".toList
  let onHold := some "OnHold".toList
  let callDialed := some "CallDialed".toList
  let callConnected := some "CallConnected".toList
  let placedOnHold := some "PlacedOnHold".toList
  let leftMessage := some "LeftMessage".toList
  let hungUp := some "HungUp".toList
  [.on offHook (.permit callDialed ringing), .on offHook (.onExit (handler 1)),
    .on offHook (.onExit (handler 0)), .on ringing (.onEntry (handler 2)),
    .on ringing (.onExit (handler 3)), .on ringing (.permit hungUp offHook),
    .on ringing (.permit callConnected connected), .on connected (.onEntry (handler 4)),
    .on connected (.onEntryFrom callConnected (handler 0)), .on connected (.onExit (handler 5)),
    .on connected (.onExit (handler 0)), .on connected (.onExpiry hungUp 30000),
    .on connected (.permit leftMessage offHook), .on connected (.permit hungUp offHook),
    .on connected (.permit placedOnHold onHold), .on onHold (.onEntry (handler 6)),
    .on onHold (.onExpiry hungUp 300), .on onHold (.permit hungUp offHook),
    .on onHold (.permit leftMessage offHook)]

end XenonExt
