import XenonExt.StateMachine.FiringCorrectness

/-! # Guards that are asked twice

`fireTrigger` validates a trigger by asking the guards, and `transit` asks them again. Between the
two rounds a guard may change its mind.

* **`guardAnswers`**: the answers of one round; **`MetAlone`**: they single out one behaviour.
* **`resolve_fires_iff`**: what becomes of an accepted trigger is decided by the second round alone.
* **`fireTrigger_follows_validated_iff`**: the validated behaviour is followed exactly when the
  second round singles it out again. -/

namespace XenonExt

variable {W G A : Type}

/-! ## One round of answers -/

section Answers

variable (u : UserCode W G A)

/-- The answers of the guards, asked in order. -/
def guardAnswers : List (TriggerBehaviour G) → EStateM JavaException W (List Bool)
  | [] => pure []
  | b :: bs => do
    let met ← b.isGuardConditionMet u
    let answers ← guardAnswers bs
    pure (met :: answers)

/-- The behaviours whose guard answers that it is met. -/
def metBy (answers : List Bool) (bs : List (TriggerBehaviour G)) : List (TriggerBehaviour G) :=
  ((bs.zip answers).filter fun p => p.2).map fun p => p.1

/-- Asked in one world, which they leave as another, the guards single out one behaviour. -/
def MetAlone (bs : List (TriggerBehaviour G)) (b : TriggerBehaviour G) (w w' : W) : Prop :=
  ∃ answers, (guardAnswers u bs).run w = .ok answers w' ∧ metBy answers bs = [b]

variable {u}

/-- The loop of `tryFindLocalHandler` is one round. -/
theorem guardsMet_eq_answers (bs : List (TriggerBehaviour G)) :
    guardsMet u bs = (do
      let answers ← guardAnswers u bs
      pure (metBy answers bs)) := by
  induction bs with
  | nil => rfl
  | cons b bs ih =>
      simp only [guardsMet, guardAnswers, ih, bind_assoc, pure_bind]
      congr 1
      funext met
      cases met <;> rfl

/-- A round singles out one behaviour when that is all the loop finds. -/
theorem metAlone_iff {bs : List (TriggerBehaviour G)} {b : TriggerBehaviour G} {w w' : W} :
    MetAlone u bs b w w' ↔ (guardsMet u bs).run w = .ok [b] w' := by
  rw [MetAlone, guardsMet_eq_answers, EStateM.run_bind]
  cases (guardAnswers u bs).run w with
  | error e w₁ => simp
  | ok answers w₁ => simp [and_comm, and_assoc]

end Answers

/-! ## Accepted triggers -/

namespace StateMachine

variable {u : UserCode W G A} {config : StateMachineConfig G A} {src trigger : JString}
  {r : StateRepresentation G A} {s s₁ : Traced W (Effect A)} {w w₁ : W}

/-- Accepting a trigger only asks the guards, and they single out one behaviour. -/
theorem metAlone_of_valid (hr : config.getRepresentation src = some r)
    (h : (validateTrigger u config src trigger).run s = .ok true s₁) :
    (r.canHandle u trigger).run s.world = .ok true s₁.world ∧ s₁.trace = s.trace ∧
      ∃ b, MetAlone u (r.behavioursOf trigger) b s.world s₁.world := by
  rw [validateTrigger, representation, hr, orRaise_some, pure_bind, EStateM.run_bind,
    quietly_run] at h
  cases hc : (r.canHandle u trigger).run s.world with
  | error e w₁ => rw [hc] at h; cases h
  | ok handled w₁ =>
      rw [hc] at h
      cases handled with
      | false =>
          -- the operation is failed, and the answer is no
          simp only [Traced.lift_ok, Bool.false_eq_true, if_false, EStateM.run_bind,
            quietly_run] at h
          cases hp : (r.getPermittedTriggers u).run w₁ with
          | error e w₂ => rw [hp] at h; cases h
          | ok permitted w₂ =>
              rw [hp] at h
              simp only [Traced.lift_ok, UserCode.emit_run] at h
              cases hfail : (u.perform (.fail (invalidTrigger src trigger permitted))).run w₂ <;>
                (rw [hfail] at h; cases h)
      | true =>
          cases h
          refine ⟨rfl, rfl, ?_⟩
          unfold StateRepresentation.canHandle at hc
          rw [EStateM.run_bind] at hc
          cases hf : (r.tryFindHandler u trigger).run s.world with
          | error e w₂ => rw [hf] at hc; cases hc
          | ok handler w₂ =>
              rw [hf] at hc
              cases handler with
              | none => cases hc
              | some b =>
                  cases hc
                  exact ⟨b, metAlone_iff.mpr
                    ((StateRepresentation.tryFindHandler_run_some u).mp hf)⟩

/-- After the first round has found a behaviour, the second one decides. -/
theorem resolve_run_of_handled (hr : config.getRepresentation src = some r)
    (hc : (r.canHandle u trigger).run w = .ok true w₁) :
    (resolve u config src trigger).run w = EStateM.run (do
      let handler ← r.tryFindHandler u trigger
      let behaviour ← orRaise .nullPointer handler
      pure (.fires behaviour)) w₁ := by
  rw [resolve, hr, orRaise_some, pure_bind, EStateM.run_bind, hc]
  rfl

/-- The behaviour of the firing is the one that the second round singles out. -/
theorem resolve_fires_iff (hr : config.getRepresentation src = some r)
    (hc : (r.canHandle u trigger).run w = .ok true w₁) {b : TriggerBehaviour G} {w₂ : W} :
    (resolve u config src trigger).run w = .ok (.fires b) w₂ ↔
      MetAlone u (r.behavioursOf trigger) b w₁ w₂ := by
  rw [resolve_run_of_handled hr hc, metAlone_iff, ← StateRepresentation.tryFindHandler_run_some,
    EStateM.run_bind]
  cases (r.tryFindHandler u trigger).run w₁ with
  | error e w' => simp
  | ok handler w' =>
      cases handler with
      | none => exact ⟨fun h => (nomatch h), fun h => (nomatch h)⟩
      | some b' =>
          constructor
          · rintro ⟨⟩
            rfl
          · rintro ⟨⟩
            rfl

end StateMachine

/-! ## Validated behaviours -/

/-- A firing from this state follows a behaviour: it is the one that the guards resolve to, and its
transition is returned. -/
def FiresBehaviour (u : UserCode W G A) (config : StateMachineConfig G A) (src trigger : JString)
    (b : TriggerBehaviour G) (s : Traced W (Effect A)) : Prop :=
  ∃ w s', (StateMachine.resolve u config src trigger).run s.world = .ok (.fires b) w ∧
    (StateMachine.fireTrigger u config src trigger).run s =
      .ok (some ⟨src, b.destination, trigger⟩) s'

/-- **A validated trigger is fired with the validated behaviour exactly when the guards single it
out again.** Let every permitted destination be configured and the actions, the persister and the
scheduler not raise. When the validation accepts a trigger, its guards have singled out a behaviour;
the firing follows it if and only if they do so once more, asked in the world that the validation
leaves. -/
theorem fireTrigger_follows_validated_iff {u : UserCode W G A} (hu : u.ActionsSucceed)
    (initState : JString) {calls : List (BuilderCall G A)}
    (hdest : ∀ state, ∀ b ∈ permitsOf calls state, Configured calls b.destination)
    {src : JString} (hsrc : Configured calls src) (trigger : JString) {s s₁ : Traced W (Effect A)}
    (hvalid : (StateMachine.validateTrigger u (.build initState calls) src trigger).run s =
      .ok true s₁) :
    ∃ b, MetAlone u (permits calls src trigger) b s.world s₁.world ∧
      (FiresBehaviour u (.build initState calls) src trigger b s ↔
        ∃ w, MetAlone u (permits calls src trigger) b s₁.world w) := by
  have hrep := getRepresentation_build_of_configured initState hsrc
  obtain ⟨hc, -, b, hb⟩ := StateMachine.metAlone_of_valid hrep hvalid
  rw [represent_callsOn_behavioursOf] at hb
  have hresolve : ∀ w, (StateMachine.resolve u (.build initState calls) src trigger).run s.world =
      .ok (.fires b) w ↔ MetAlone u (permits calls src trigger) b s₁.world w := by
    intro w
    rw [StateMachine.resolve_fires_iff hrep hc, represent_callsOn_behavioursOf]
  refine ⟨b, hb, ?_⟩
  constructor
  · rintro ⟨w, -, hfires, -⟩
    exact ⟨w, (hresolve w).mp hfires⟩
  · rintro ⟨w, hmet⟩
    have hfires := (hresolve w).mpr hmet
    have hmem : b ∈ permitsOf calls src := by
      have hlisted : b ∈ permits calls src trigger :=
        (guardsMet_sublist u (metAlone_iff.mp hmet)).subset List.mem_cons_self
      exact List.mem_of_mem_filter hlisted
    obtain ⟨w', hfire⟩ := StateMachine.fire_run_of_configured u (.build initState calls) hu
      (t := ⟨src, b.destination, trigger⟩) hrep
      (getRepresentation_build_of_configured initState (hdest src b hmem)) ⟨w, s.trace⟩
    exact ⟨w, _, hfires, (StateMachine.fireTrigger_run_of_fires u _ hfires).trans hfire⟩

/-- A door that a guard lets through. -/
def guardedDoor : List (BuilderCall Unit Nat) :=
  [.on (some "Outside".toList) (.permitIf (some "enter".toList) (some "Inside".toList) ()),
    .on (some "Inside".toList) (.onEntry 1)]

/-- User code whose guard changes its answer every time; its actions do nothing. -/
def flippingGuard : UserCode Bool Unit Nat where
  test _ _ := do
    let met ← get
    set (!met)
    pure met
  accept _ _ := pure ()
  statePersister _ := pure ()
  expiryScheduler := none
  fail _ := pure ()

/-- Every destination of the door is configured. -/
theorem guardedDoor_configured :
    ∀ state, ∀ b ∈ permitsOf guardedDoor state, Configured guardedDoor b.destination := by
  intro state b hb
  have hstate : Configured guardedDoor state := by
    by_contra hstate
    simp [permitsOf, callsOn_eq_nil hstate] at hb
  have hall : ∀ state ∈ guardedDoor.map BuilderCall.state, ∀ b ∈ permitsOf guardedDoor state,
      Configured guardedDoor b.destination := by decide
  exact hall state hstate b hb

/-- Through a guard that always lets pass, the door is entered. -/
theorem fireTrigger_follows_validated_door :
    let u : UserCode Unit Unit Nat :=
      { test := fun _ _ => pure true
        accept := fun _ _ => pure ()
        statePersister := fun _ => pure ()
        expiryScheduler := none
        fail := fun _ => pure () }
    ∃ b, MetAlone u (permits guardedDoor (some "Outside".toList) (some "enter".toList)) b () () ∧
      FiresBehaviour u (.build (some "Outside".toList) guardedDoor) (some "Outside".toList)
        (some "enter".toList) b ⟨(), []⟩ := by
  intro u
  have hu : u.ActionsSucceed :=
    ⟨fun _ _ s => ⟨(), s, rfl⟩, fun _ s => ⟨(), s, rfl⟩, fun _ h => nomatch h⟩
  have hvalid : (StateMachine.validateTrigger u (.build (some "Outside".toList) guardedDoor)
      (some "Outside".toList) (some "enter".toList)).run ⟨(), []⟩ = .ok true ⟨(), []⟩ := rfl
  obtain ⟨b, hb, hfollows⟩ := fireTrigger_follows_validated_iff hu (some "Outside".toList)
    guardedDoor_configured (show Configured guardedDoor (some "Outside".toList) by decide)
    (some "enter".toList) hvalid
  exact ⟨b, hb, hfollows.mpr ⟨(), hb⟩⟩

/-- **A validated trigger can fail**: the guard accepts the trigger in the validation and refuses it
in `transit`, which dereferences a missing behaviour. -/
theorem flippingGuard_not_followed :
    let config : StateMachineConfig Unit Nat := .build (some "Outside".toList) guardedDoor
    flippingGuard.ActionsSucceed ∧
      (∀ g trigger, Succeeds (flippingGuard.test g trigger)) ∧
      (StateMachine.validateTrigger flippingGuard config (some "Outside".toList)
        (some "enter".toList)).run ⟨true, []⟩ = .ok true ⟨false, []⟩ ∧
      (StateMachine.fireTrigger flippingGuard config (some "Outside".toList)
        (some "enter".toList)).run ⟨true, []⟩ = .error .nullPointer ⟨true, []⟩ := by
  refine ⟨⟨fun _ _ s => ⟨(), s, rfl⟩, fun _ s => ⟨(), s, rfl⟩, fun _ h => nomatch h⟩, ?_, rfl, rfl⟩
  exact fun _ _ s => ⟨s, !s, rfl⟩

end XenonExt
