import XenonExt.StateMachine.CallLog

/-! # Permitted triggers and triggers that fire

`getPermittedTriggers` and `tryFindHandler` go through the same lists of behaviours in two loops: one
stops at the first guard that is met, the other collects all of them. Under pure guards both are
read off the behaviours that were added, and `validateTrigger` follows.

* **`behavioursOf_ofBehaviours`**: a representation lists for a trigger what was added for it.
* **`validateTrigger_of_pure`**: validation accepts, rejects or raises by the number of guards met.
* **`getPermittedTriggers_fireable`**: the triggers reported are those that can be fired. -/

namespace XenonExt

variable {W G A : Type}

/-- The behaviours of a trigger whose guard is met, in the order in which they were added. -/
def behavioursMet (v : GuardValuation G) (bs : List (TriggerBehaviour G)) (trigger : JString) :
    List (TriggerBehaviour G) :=
  (bs.filter fun b => b.trigger = trigger).filter (TriggerBehaviour.MetBy v)

/-- A trigger has a behaviour with a met guard when one was added. -/
theorem exists_mem_behavioursMet {v : GuardValuation G} {bs : List (TriggerBehaviour G)}
    {trigger : JString} :
    behavioursMet v bs trigger ≠ [] ↔ ∃ b ∈ bs, b.trigger = trigger ∧ b.MetBy v := by
  rw [ne_eq, List.eq_nil_iff_forall_not_mem]
  simp only [not_forall, not_not, behavioursMet, List.mem_filter, decide_eq_true_eq, and_assoc]

namespace StateRepresentation

/-- **The representation that a sequence of `addTriggerBehaviour` calls builds.** -/
def ofBehaviours (state : JString) (bs : List (TriggerBehaviour G)) : StateRepresentation G A :=
  bs.foldl addTriggerBehaviour (new state)

/-- Adding behaviours does not change which state a representation is for. -/
@[simp] theorem ofBehaviours_state (state : JString) (bs : List (TriggerBehaviour G)) :
    (ofBehaviours state bs : StateRepresentation G A).state = state := by
  induction bs using List.reverseRecOn with
  | nil => rfl
  | append_singleton bs b ih =>
      rw [ofBehaviours, List.foldl_append]
      exact ih

/-- **A representation lists for a trigger what was added for it**, in order. -/
theorem behavioursOf_ofBehaviours (state trigger : JString) (bs : List (TriggerBehaviour G)) :
    (ofBehaviours state bs : StateRepresentation G A).behavioursOf trigger =
      bs.filter fun b => b.trigger = trigger := by
  induction bs using List.reverseRecOn with
  | nil => rfl
  | append_singleton bs b ih =>
      have hstep : (ofBehaviours state (bs ++ [b]) : StateRepresentation G A) =
          (ofBehaviours state bs).addTriggerBehaviour b := by
        rw [ofBehaviours, List.foldl_append]
        rfl
      rw [hstep, behavioursOf_addTriggerBehaviour, ih, List.filter_append, List.filter_singleton]
      by_cases h : b.trigger = trigger <;> simp [h]

end StateRepresentation

/-! ## Validation under pure guards -/

section Validate

variable {u : UserCode W G A} {v : GuardValuation G} (hu : u.PureGuards v)
  {config : StateMachineConfig G A} {state trigger : JString} {r : StateRepresentation G A}
  (hr : config.getRepresentation state = some r)
include hu hr

/-- A trigger with exactly one met guard is accepted. -/
theorem validateTrigger_of_one_met {b : TriggerBehaviour G}
    (h : (r.behavioursOf trigger).filter (TriggerBehaviour.MetBy v) = [b]) :
    StateMachine.validateTrigger u config state trigger = pure true := by
  unfold StateMachine.validateTrigger StateMachine.representation StateRepresentation.canHandle
  rw [hr, orRaise_some, pure_bind, tryFindHandler_of_pure hu, h]
  rfl

/-- A trigger without a met guard is rejected, and the operation is failed with the triggers that
are permitted. -/
theorem validateTrigger_of_none_met {permitted : List JString}
    (h : (r.behavioursOf trigger).filter (TriggerBehaviour.MetBy v) = [])
    (hpermitted : r.getPermittedTriggers u = pure permitted) :
    StateMachine.validateTrigger u config state trigger = (do
      u.emit (.fail (StateMachine.invalidTrigger state trigger permitted))
      pure false) := by
  unfold StateMachine.validateTrigger StateMachine.representation StateRepresentation.canHandle
  rw [hr, orRaise_some, pure_bind, tryFindHandler_of_pure hu, h, hpermitted]
  rfl

end Validate

/-- A rejection does not accept, whatever failing the operation does. -/
theorem reject_run_ne_true (u : UserCode W G A) (error : JavaException)
    (s s' : Traced W (Effect A)) :
    EStateM.run (do u.emit (.fail error); pure false) s ≠ .ok true s' := by
  rw [EStateM.run_bind, UserCode.emit_run]
  cases (u.perform (.fail error)).run s.world <;> simp [Traced.lift]

/-! ## The triggers reported can be fired -/

/-- **The reported permitted triggers are the ones that can be fired.** For every representation
built by `addTriggerBehaviour` calls and all pure guards, `getPermittedTriggers` lists no trigger
twice and lists those with a met guard; `tryFindHandler` returns the only behaviour with a met guard,
`null` when there is none, and throws when there are several. If no trigger has two met guards,
`validateTrigger` accepts exactly the listed triggers, and rejects the others with that list. -/
theorem getPermittedTriggers_fireable {u : UserCode W G A} {v : GuardValuation G}
    (hu : u.PureGuards v) (state : JString) (bs : List (TriggerBehaviour G)) :
    let r : StateRepresentation G A := .ofBehaviours state bs
    ∃ permitted, r.getPermittedTriggers u = pure permitted ∧ permitted.Nodup ∧
      (∀ t, t ∈ permitted ↔ ∃ b ∈ bs, b.trigger = t ∧ b.MetBy v) ∧
      (∀ t b, behavioursMet v bs t = [b] → r.tryFindHandler u t = pure (some b)) ∧
      (∀ t, behavioursMet v bs t = [] → r.tryFindHandler u t = pure none) ∧
      (∀ t, 1 < (behavioursMet v bs t).length → r.tryFindHandler u t =
        throw (.illegalState (StateRepresentation.multipleExitsMessage state t))) ∧
      ∀ config : StateMachineConfig G A, config.getRepresentation state = some r →
        (∀ t, (behavioursMet v bs t).length ≤ 1) → ∀ t,
          (∀ s, (∃ s', (StateMachine.validateTrigger u config state t).run s = .ok true s') ↔
            t ∈ permitted) ∧
          (t ∉ permitted → StateMachine.validateTrigger u config state t = (do
            u.emit (.fail (StateMachine.invalidTrigger state t permitted))
            pure false)) := by
  intro r
  have hmet : ∀ t, (r.behavioursOf t).filter (TriggerBehaviour.MetBy v) = behavioursMet v bs t :=
    fun t => by rw [StateRepresentation.behavioursOf_ofBehaviours, behavioursMet]
  obtain ⟨permitted, hpermitted, hnodup, hmem⟩ := getPermittedTriggers_of_pure hu r
  -- one loop finds a met guard exactly when the list the other one collects is not empty
  have hlisted : ∀ t, t ∈ permitted ↔ behavioursMet v bs t ≠ [] := by
    intro t
    rw [hmem, ← hmet, ne_eq, List.filter_eq_nil_iff, List.any_eq_true]
    simp only [not_forall, not_not, exists_prop]
  refine ⟨permitted, hpermitted, hnodup, fun t => (hlisted t).trans exists_mem_behavioursMet,
    fun t b h => ?_, fun t h => ?_, fun t h => ?_, fun config hr hone t => ?_⟩
  · rw [tryFindHandler_of_pure hu, hmet, h]
  · rw [tryFindHandler_of_pure hu, hmet, h]
  · rw [tryFindHandler_of_pure hu, hmet, StateRepresentation.ofBehaviours_state]
    match behavioursMet v bs t, h with
    | b₁ :: b₂ :: rest, _ => rfl
  · cases hbs : behavioursMet v bs t with
    | nil =>
        have hreject := validateTrigger_of_none_met hu hr ((hmet t).trans hbs) hpermitted
        have hnot : t ∉ permitted := fun ht => (hlisted t).mp ht hbs
        refine ⟨fun s => iff_of_false ?_ hnot, fun _ => hreject⟩
        rw [hreject]
        exact fun ⟨s', hs'⟩ => reject_run_ne_true u _ s s' hs'
    | cons b rest =>
        have hin : t ∈ permitted := (hlisted t).mpr (hbs ▸ List.cons_ne_nil b rest)
        have hlength := hone t
        rw [hbs, List.length_cons] at hlength
        obtain rfl : rest = [] := List.eq_nil_of_length_eq_zero (by omega)
        rw [validateTrigger_of_one_met hu hr ((hmet t).trans hbs)]
        exact ⟨fun s => iff_of_true ⟨s, rfl⟩ hin, fun hnot => absurd hin hnot⟩

/-! ## A sample state -/

/-- User code that does nothing, and whose guards are constants. -/
def constantUser : UserCode Unit Bool Nat where
  test g _ := pure g
  accept _ _ := pure ()
  statePersister _ := pure ()
  expiryScheduler := none
  fail _ := pure ()

/-- A ringing phone that may be answered in one of two ways, and may not be hung up. -/
def ringingBehaviours : List (TriggerBehaviour Bool) :=
  [⟨some "Answer".toList, .user false, some "OnHold".toList⟩,
    ⟨some "Answer".toList, .user true, some "Connected".toList⟩,
    ⟨some "HungUp".toList, .user false, some "OffHook".toList⟩]

/-- In the sample state `Answer` is permitted and accepted, and `HungUp` is neither. -/
theorem getPermittedTriggers_fireable_ringing :
    let state := some "Ringing".toList
    let r : StateRepresentation Bool Nat := .ofBehaviours state ringingBehaviours
    let config := (StateMachineConfig.new state).put r
    ∃ permitted, r.getPermittedTriggers constantUser = pure permitted ∧
      some "Answer".toList ∈ permitted ∧ some "HungUp".toList ∉ permitted ∧
      (∃ s', (StateMachine.validateTrigger constantUser config state (some "Answer".toList)).run
        ⟨(), []⟩ = .ok true s') ∧
      ¬ ∃ s', (StateMachine.validateTrigger constantUser config state (some "HungUp".toList)).run
        ⟨(), []⟩ = .ok true s' := by
  intro state r config
  obtain ⟨permitted, hpermitted, -, hmem, -, -, -, hvalidate⟩ :=
    getPermittedTriggers_fireable (u := constantUser) (v := fun g _ => g) (fun _ _ => rfl) state
      ringingBehaviours
  have hconfig : config.getRepresentation state = some r :=
    StateMachineConfig.getRepresentation_put_self (StateMachineConfig.new state) r
  have hone : ∀ t, (behavioursMet (fun g _ => g) ringingBehaviours t).length ≤ 1 := by
    intro t
    have hsub : (behavioursMet (fun g _ => g) ringingBehaviours t).Sublist
        (ringingBehaviours.filter (TriggerBehaviour.MetBy fun g _ => g)) :=
      List.filter_sublist.filter _
    exact hsub.length_le
  have hanswer : some "Answer".toList ∈ permitted := (hmem _).mpr (by decide)
  have hhungUp : some "HungUp".toList ∉ permitted := fun h => absurd ((hmem _).mp h) (by decide)
  have haccepts := hvalidate config hconfig hone
  exact ⟨permitted, hpermitted, hanswer, hhungUp, ((haccepts _).1 _).mpr hanswer,
    fun h => hhungUp (((haccepts _).1 _).mp h)⟩

end XenonExt
