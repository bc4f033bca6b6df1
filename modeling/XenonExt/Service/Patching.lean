import Mathlib.Logic.Relation
import XenonExt.Service.FSMService

/-! # Patches move a document along configured edges

What one patch can do to a document, and from it what a run of patches can do. The abstract machine
is the labelled graph `Edge` of the permits in the log of builder calls; the document refines it.

* **`patch_cases`**: a patch is rejected, and then nothing of it reaches the document, or accepted,
  and then every document the operation links or commits is `Moved` along the selected behaviour.
* **`runPatches_follows_edges`**: a document started by `handleStart` walks along edges, whatever
  patches it receives. -/

namespace XenonExt

variable {X O : Type}

/-! ## Invariants of the documents of an operation -/

namespace ServiceWorld

/-- The linked state satisfies `P`, and so does the document the operation committed, if any. -/
def Documents (P : FSMServiceDoc X → Prop) (w : ServiceWorld X O) : Prop :=
  P w.op.linkedState ∧ ∀ c, w.op.outcome = .completed c → P c

variable {P : FSMServiceDoc X → Prop}

/-- Completing commits the linked state, which satisfies `P`. -/
theorem Documents.complete {w : ServiceWorld X O} (h : w.Documents P) :
    (w.mapOp Operation.complete).Documents P := by
  refine ⟨by simpa [mapOp] using h.1, fun c hc => ?_⟩
  simp only [mapOp, Operation.complete] at hc
  cases ho : w.op.outcome with
  | pending =>
      rw [ho] at hc
      cases hc
      exact h.1
  | completed c' =>
      rw [ho] at hc
      exact h.2 c hc
  | failed e =>
      rw [ho] at hc
      exact h.2 c hc

/-- Failing commits nothing. -/
theorem Documents.fail {w : ServiceWorld X O} (h : w.Documents P) (error : JavaException) :
    (w.mapOp fun op => op.fail error).Documents P :=
  ⟨by simpa [mapOp] using h.1, fun c hc => h.2 c (Operation.fail_completed.mp hc)⟩

/-- Changing the linked state within `P` leaves the committed document alone. -/
theorem Documents.mapLinked {w : ServiceWorld X O} (h : w.Documents P)
    {f : FSMServiceDoc X → FSMServiceDoc X} (hf : ∀ d, P d → P (f d)) :
    (w.mapLinked f).Documents P :=
  ⟨hf _ h.1, h.2⟩

end ServiceWorld

/-- A step of a handler keeps `P` when its `setState`, if it is one, does. -/
theorem HandlerOp.preserves_documents {P : FSMServiceDoc X → Prop} (op : HandlerOp X O)
    (h : ∀ write, op = .setState write → ∀ d, P d → P { d with fields := write d.fields }) :
    Preserves (ServiceWorld.Documents P) op.run := by
  cases op with
  | setState write => exact preserves_modify fun w hw => hw.mapLinked (h write rfl)
  | complete => exact preserves_modify fun w hw => hw.complete
  | fail error => exact preserves_modify fun w hw => hw.fail error
  | outside change => exact preserves_modify fun w hw => hw
  | raise error => exact preserves_throw error

/-- A handler keeps `P` when all its `setState`s do. -/
theorem Handler.preserves_documents {P : FSMServiceDoc X → Prop} (h : Handler X O) (t : Transition)
    (hw : ∀ w write, .setState write ∈ h t w → ∀ d, P d → P { d with fields := write d.fields }) :
    Preserves (ServiceWorld.Documents P) (h.accept t) :=
  preserves_get_bind fun w hdocs => preserves_runAll
    (fun op hop => op.preserves_documents fun write heq => hw w write (heq ▸ hop)) w hdocs

namespace FSMService

/-! ## Edges -/

/-- **The abstract machine**: an edge of the graph that the log of builder calls permits. -/
def Edge (svc : FSMService X O) (src dest : JString) : Prop :=
  ∃ b ∈ permitsOf svc.calls src, b.destination = dest

/-- The builder permits no edge from a state to `null`. -/
theorem Edge.destination_ne_none {svc : FSMService X O} {src dest : JString}
    (h : svc.Edge src dest) (hsrc : src ≠ none) : dest ≠ none := by
  obtain ⟨b, hb, rfl⟩ := h
  obtain ⟨c, -, hc⟩ := List.mem_filterMap.mp hb
  cases c with
  | permit trigger destination =>
      simp only [ConfigurationCall.behaviour] at hc
      split at hc
      · cases hc
      · cases hc
        tauto
  | permitIf trigger destination guard =>
      simp only [ConfigurationCall.behaviour] at hc
      split at hc
      · cases hc
      · cases hc
        tauto
  | permitReentry trigger => cases hc; exact hsrc
  | permitReentryIf trigger guard => cases hc; exact hsrc
  | _ => cases hc

/-- The handlers of a transition: the exit actions of its source and the entry actions of its
destination. -/
def Handles (svc : FSMService X O) (t : Transition) (h : Handler X O) : Prop :=
  h ∈ exitActionsOf svc.calls t.source ∨
    ∃ trigger, t.trigger = some trigger ∧ h ∈ entryActionsOf svc.calls t.destination trigger

/-- One change of the subclass fields by a handler of the transition `t`, or by what handlers of the
patch do later. -/
def UserWrite (svc : FSMService X O) (p : PatchEvent X O) (t : Transition) (before after : X) :
    Prop :=
  (∃ h, svc.Handles t h ∧ ∃ w write, .setState write ∈ h t w ∧ after = write before) ∨
    ∃ write, .setState write ∈ p.late ∧ after = write before

/-- **What a transition makes of a document**: state and trigger are set, the expiry is the old one
or that of the destination, the fields of the subclass change by handlers only, and nothing else
changes. -/
structure Moved (svc : FSMService X O) (d : FSMServiceDoc X) (p : PatchEvent X O) (t : Transition)
    (c : FSMServiceDoc X) : Prop where
  documentSelfLink : c.documentSelfLink = d.documentSelfLink
  documentVersion : c.documentVersion = d.documentVersion
  state : c.state = t.destination
  trigger : c.trigger = t.trigger
  expiry :
    (c.expireFromState = d.expireFromState ∧
      c.expiryTriggerAndDelays = d.expiryTriggerAndDelays) ∨
    (c.expireFromState = t.destination ∧ ∃ m : ExpiryMap, c.expiryTriggerAndDelays = some m ∧
      m.keys ≠ [] ∧ ∀ trigger, m.lookup trigger = lastDelay svc.calls t.destination trigger)
  fields : Relation.ReflTransGen (svc.UserWrite p t) d.fields c.fields

/-- `Moved` goes through a write of one of the handlers. -/
theorem Moved.write {svc : FSMService X O} {d : FSMServiceDoc X} {p : PatchEvent X O}
    {t : Transition} {c : FSMServiceDoc X} (hc : svc.Moved d p t c) {x : X}
    (hx : svc.UserWrite p t c.fields x) : svc.Moved d p t { c with fields := x } :=
  { hc with fields := hc.fields.tail hx }

/-- `Moved` goes through the expiry write of the destination. -/
theorem Moved.expire {svc : FSMService X O} {d : FSMServiceDoc X} {p : PatchEvent X O}
    {t : Transition} {c : FSMServiceDoc X} (hc : svc.Moved d p t c) {m : ExpiryMap}
    (hm : m.keys ≠ []) (hlast : ∀ trigger, m.lookup trigger =
      lastDelay svc.calls t.destination trigger) :
    svc.Moved d p t
      { c with expireFromState := t.destination, expiryTriggerAndDelays := some m } :=
  { hc with expiry := .inr ⟨rfl, m, rfl, hm, hlast⟩ }

/-! ## The effects of a firing, whatever its destination -/

/-- The effects that may follow the persister in a firing of `t`. -/
def Follows (svc : FSMService X O) (t : Transition) : Effect (Handler X O) → Prop
  | .exit h t' => t' = t ∧ h ∈ exitActionsOf svc.calls t.source
  | .schedule m t' => t' = t ∧ m.keys ≠ [] ∧
    ∀ trigger, m.lookup trigger = lastDelay svc.calls t.destination trigger
  | .entry h t' => t' = t ∧ ∃ trigger, t.trigger = some trigger ∧
    h ∈ entryActionsOf svc.calls t.destination trigger
  | _ => False

/-- Every effect after the persister that the log prescribes may follow it. -/
theorem follows_of_mem_loggedEffects (svc : FSMService X O) {src dest : JString} {trigger : Str}
    {m : ExpiryMap} (hm : ∀ t, m.lookup t = lastDelay svc.calls dest t)
    {rest : List (Effect (Handler X O))}
    (h : loggedEffects svc.calls m src dest trigger =
      .persist ⟨src, dest, some trigger⟩ :: rest) :
    ∀ e ∈ rest, svc.Follows ⟨src, dest, some trigger⟩ e := by
  unfold loggedEffects at h
  obtain rfl := (List.cons.inj h).2
  intro e he
  simp only [List.mem_append, List.mem_map] at he
  rcases he with ⟨a, ha, rfl⟩ | he | ⟨a, ha, rfl⟩
  · exact ⟨rfl, ha⟩
  · by_cases hk : m.keys = []
    · simp [hk] at he
    · rw [if_neg hk, List.mem_singleton] at he
      subst he
      exact ⟨rfl, hk, hm⟩
  · exact ⟨rfl, trigger, rfl, ha⟩

/-- **A firing persists and then performs effects that may follow**; it returns the transition, or
raises at the end when the destination was never configured. -/
theorem fire_eq_follows (svc : FSMService X O) (selfLink : Str) {src : JString}
    (hsrc : Configured svc.calls src) (dest : JString) (trigger : Str) :
    let t : Transition := ⟨src, dest, some trigger⟩
    ∃ rest : List (Effect (Handler X O)), (∀ e ∈ rest, svc.Follows t e) ∧
      ∃ finish : Machine (ServiceWorld X O) (Handler X O) (Option Transition),
        (finish = pure (some t) ∨ finish = throw .nullPointer) ∧
        StateMachine.fire (userCode selfLink) svc.stateMachineConfig t = (do
          performAll (userCode selfLink).perform (.persist t :: rest)
          finish) := by
  intro t
  have hr := getRepresentation_build_of_configured svc.initState hsrc
  by_cases hdest : Configured svc.calls dest
  · -- the firing runs to its end
    have hd := getRepresentation_build_of_configured svc.initState hdest
    have hfire := StateMachine.fire_eq_of_configured (userCode selfLink) svc.stateMachineConfig
      (t := t) hr hd
    rw [firingEffects_eq_logged rfl svc.calls src dest trigger] at hfire
    exact ⟨_, svc.follows_of_mem_loggedEffects
      (fun t => represent_expiry_lookup dest t (callsOn svc.calls dest)) rfl, _, .inl rfl, hfire⟩
  · -- the exit actions run, and entering the destination raises
    have hd : svc.stateMachineConfig.getRepresentation dest = none := by
      unfold stateMachineConfig
      rw [getRepresentation_build, if_neg hdest]
    have hfire := StateMachine.fire_eq_of_not_configured (userCode selfLink) svc.stateMachineConfig
      (t := t) hr hd
    refine ⟨_, fun e he => ?_, _, .inr rfl, hfire⟩
    obtain ⟨a, ha, rfl⟩ := List.mem_map.mp he
    rw [represent_exitActions] at ha
    exact ⟨rfl, ha⟩

/-- A handler of the transition keeps the documents `Moved`. -/
theorem preserves_moved_of_handles {svc : FSMService X O} {d : FSMServiceDoc X}
    {p : PatchEvent X O} {t : Transition} {h : Handler X O} (hh : svc.Handles t h) :
    Preserves (ServiceWorld.Documents (svc.Moved d p t)) (h.accept t) :=
  h.preserves_documents t fun w write hwrite _ hc =>
    hc.write (.inl ⟨h, hh, w, write, hwrite, rfl⟩)

/-- An effect that may follow the persister keeps the documents `Moved`. -/
theorem preserves_moved_of_follows {svc : FSMService X O} {d : FSMServiceDoc X}
    {p : PatchEvent X O} {t : Transition} (selfLink : Str) {e : Effect (Handler X O)}
    (he : svc.Follows t e) :
    Preserves (ServiceWorld.Documents (svc.Moved d p t)) ((userCode selfLink).perform e) := by
  cases e with
  | fail error => exact he.elim
  | persist t' => exact he.elim
  | exit h t' =>
      obtain ⟨rfl, hmem⟩ := he
      exact preserves_moved_of_handles (.inl hmem)
  | schedule m t' =>
      obtain ⟨rfl, hkeys, hlast⟩ := he
      exact (preserves_modify fun w hw => hw.mapLinked fun c hc => hc.expire hkeys hlast).bind
        fun _ => preserves_modify fun w hw => hw
  | entry h t' =>
      obtain ⟨rfl, hmem⟩ := he
      exact preserves_moved_of_handles (.inr hmem)

/-- What handlers do after `handlePatch` keeps the documents `Moved`. -/
theorem preserves_moved_of_late {svc : FSMService X O} {d : FSMServiceDoc X}
    {p : PatchEvent X O} {t : Transition} :
    Preserves (ServiceWorld.Documents (svc.Moved d p t)) (runAll HandlerOp.run p.late) :=
  preserves_runAll fun op hop => op.preserves_documents fun write heq _ hc =>
    hc.write (.inr ⟨write, heq ▸ hop, rfl⟩)

/-! ## One patch -/

/-- The world in which `handlePatch` resolves the trigger: the state of the body is defaulted. -/
def namedWorld (d : FSMServiceDoc X) (p : PatchEvent X O) (body : FSMServiceDoc X) :
    ServiceWorld X O :=
  (patchWorld d p).mapOp fun op => { op with body := some { body with state := body.state.or d.state } }

/-- **The guards select a behaviour**: the validation accepts the trigger, and the behaviour is then
the only one of the trigger, in the representation of the old state, whose guard is met. -/
def Selects (svc : FSMService X O) (d : FSMServiceDoc X) (p : PatchEvent X O)
    (body : FSMServiceDoc X) (b : TriggerBehaviour (ServiceGuard O)) : Prop :=
  ∃ r w₁ w₂, svc.stateMachineConfig.getRepresentation d.state = some r ∧
    b ∈ r.behavioursOf body.trigger ∧
    (r.canHandle (userCode d.documentSelfLink) body.trigger).run (namedWorld d p body) =
      .ok true w₁ ∧
    (guardsMet (userCode d.documentSelfLink) (r.behavioursOf body.trigger)).run w₁ = .ok [b] w₂

/-- **A patch is accepted**: it names the current state or none, and resolving its trigger selects
the behaviour `b`, leaving the world `w`. -/
structure Accepts (svc : FSMService X O) (d : FSMServiceDoc X) (p : PatchEvent X O)
    (body : FSMServiceDoc X) (b : TriggerBehaviour (ServiceGuard O)) (w : ServiceWorld X O) :
    Prop where
  body_eq : p.body = some body
  trigger : body.trigger ≠ none
  state : body.state = none ∨ body.state = d.state
  resolves : (StateMachine.resolve (userCode d.documentSelfLink) svc.stateMachineConfig d.state
    body.trigger).run (namedWorld d p body) = .ok (.fires b) w

/-- **A patch is rejected**: the linked state is still the old document and the operation failed. -/
structure Rejected (svc : FSMService X O) (d : FSMServiceDoc X) (p : PatchEvent X O) : Prop where
  linkedState : (svc.serve d p).world.op.linkedState = d
  failed : ∃ e, (svc.serve d p).world.op.outcome = .failed e
  timers : (svc.serve d p).world.timers = []

/-- A rejected patch commits nothing. -/
theorem Rejected.documentAfter {svc : FSMService X O} {d : FSMServiceDoc X} {p : PatchEvent X O}
    (h : svc.Rejected d p) : svc.documentAfter d p = d := by
  obtain ⟨e, he⟩ := h.failed
  unfold FSMService.documentAfter commit
  rw [he]
  rfl

/-- A handling of the patch that ends with the operation failed is not resumed. -/
theorem rejected_of_failed {svc : FSMService X O} {d : FSMServiceDoc X} {p : PatchEvent X O}
    {s : Traced (ServiceWorld X O) (Effect (Handler X O))} {e : JavaException}
    (hrun : svc.handlePatch.run ⟨patchWorld d p, []⟩ = .ok () s)
    (hlinked : s.world.op.linkedState = d) (hfailed : s.world.op.outcome = .failed e)
    (htimers : s.world.timers = []) : svc.Rejected d p := by
  have hserve : (svc.serve d p).world = s.world := by
    unfold serve
    rw [hrun]
    simp only [hfailed]
  exact ⟨by rw [hserve, hlinked], ⟨e, by rw [hserve, hfailed]⟩, by rw [hserve, htimers]⟩

/-- An exception that escapes before the operation is answered fails it. -/
theorem rejected_of_raised {svc : FSMService X O} {d : FSMServiceDoc X} {p : PatchEvent X O}
    {s : Traced (ServiceWorld X O) (Effect (Handler X O))} {e : JavaException}
    (hrun : svc.handlePatch.run ⟨patchWorld d p, []⟩ = .error e s)
    (hlinked : s.world.op.linkedState = d) (hpending : s.world.op.outcome = .pending)
    (htimers : s.world.timers = []) : svc.Rejected d p := by
  have hserve : (svc.serve d p).world = s.world.mapOp fun op => op.fail e := by
    unfold serve
    rw [hrun]
  refine ⟨by rw [hserve]; simpa [ServiceWorld.mapOp] using hlinked, ⟨e, ?_⟩, by
    rw [hserve]
    exact htimers⟩
  rw [hserve]
  simp [ServiceWorld.mapOp, Operation.fail, hpending]

/-- **Whatever holds of the world when `handlePatch` ends**, and is kept by the host and by later
handler steps, holds of the world of the served patch. -/
theorem serve_invariant {svc : FSMService X O} {d : FSMServiceDoc X} {p : PatchEvent X O}
    {I : ServiceWorld X O → Prop}
    (h : I (finalState (svc.handlePatch.run ⟨patchWorld d p, []⟩)).world)
    (hfail : ∀ w e, I w → I (w.mapOp fun op => op.fail e))
    (hlate : Preserves I (runAll HandlerOp.run p.late)) : I (svc.serve d p).world := by
  unfold serve
  cases hrun : svc.handlePatch.run ⟨patchWorld d p, []⟩ with
  | error e s =>
      -- the host fails the operation for an exception
      rw [hrun] at h
      exact hfail s.world e h
  | ok a s =>
      rw [hrun] at h
      cases ho : s.world.op.outcome with
      | pending =>
          -- a handler has left the operation open and answers later
          simp only [ho]
          exact hlate s.world h
      | completed c =>
          simp only [ho]
          exact h
      | failed e =>
          simp only [ho]
          exact h

/-- An operation that `handlePatch` leaves answered keeps its answer. -/
theorem serve_answer {svc : FSMService X O} {d : FSMServiceDoc X} {p : PatchEvent X O}
    {o : Outcome X} (ho : o ≠ .pending)
    (h : (finalState (svc.handlePatch.run ⟨patchWorld d p, []⟩)).world.op.outcome = o) :
    (svc.serve d p).world.op.outcome = o := by
  unfold serve
  cases hrun : svc.handlePatch.run ⟨patchWorld d p, []⟩ with
  | error e s =>
      rw [hrun] at h
      cases o with
      | pending => exact absurd rfl ho
      | completed c => simp only [ServiceWorld.mapOp, Operation.fail, show s.world.op.outcome = _ from h]
      | failed e' => simp only [ServiceWorld.mapOp, Operation.fail, show s.world.op.outcome = _ from h]
  | ok a s =>
      rw [hrun] at h
      cases o with
      | pending => exact absurd rfl ho
      | completed c => simp only [show s.world.op.outcome = _ from h]
      | failed e' => simp only [show s.world.op.outcome = _ from h]

/-- The guards of a service touch neither the operation nor the timers. -/
theorem preserves_resolve_op (svc : FSMService X O) (selfLink : Str) (src trigger : JString)
    (op : Operation X) (timers : List Timer) :
    Preserves (fun w : ServiceWorld X O => w.op = op ∧ w.timers = timers)
      (StateMachine.resolve (userCode selfLink) svc.stateMachineConfig src trigger) := by
  refine StateMachine.preserves_resolve (fun g trigger w hw => ?_) _ _ _
  simp only [userCode, ServiceGuard.test, EStateM.run]
  cases g trigger w.outside <;> exact hw

/-- A patch that passes the two checks of `handlePatch` fires its trigger. -/
theorem handlePatch_run_of_named (svc : FSMService X O) (d : FSMServiceDoc X)
    {p : PatchEvent X O} {body : FSMServiceDoc X} (hbody : p.body = some body)
    (htrigger : body.trigger ≠ none) (hstate : body.state = none ∨ body.state = d.state) :
    svc.handlePatch.run ⟨patchWorld d p, []⟩ =
      (discard (StateMachine.fireTrigger (userCode d.documentSelfLink) svc.stateMachineConfig
        d.state body.trigger)).run ⟨namedWorld d p body, []⟩ := by
  have hor : body.state.or d.state = d.state := by
    rcases hstate with h | h <;> rw [h]
    · rfl
    · cases d.state <;> rfl
  unfold handlePatch
  simp only [EStateM.run_bind, EStateM.run_get, patchWorld, hbody, orRaise_some, EStateM.run_pure,
    EStateM.run_modify, htrigger, if_false, hor, ne_eq, not_true_eq_false]
  simp only [namedWorld, patchWorld, hor, hbody]

/-- A bad request fails the operation, and returns. -/
theorem badRequest_run (selfLink message : Str)
    (s : Traced (ServiceWorld X O) (Effect (Handler X O))) (hpending : s.world.op.outcome = .pending) :
    ∃ s', (badRequest selfLink message).run s = .ok () s' ∧
      s'.world.op.linkedState = s.world.op.linkedState ∧
      s'.world.op.outcome = .failed (.illegalArgument message) ∧
      s'.world.timers = s.world.timers := by
  refine ⟨_, rfl, ?_, ?_, rfl⟩
  · simp [ServiceWorld.mapOp]
  · simp [ServiceWorld.mapOp, Operation.fail, hpending]

/-- A patch without a body, without a trigger, or for another state is rejected. -/
theorem rejected_of_not_named (svc : FSMService X O) (d : FSMServiceDoc X) {p : PatchEvent X O}
    (h : ∀ body, p.body = some body →
      body.trigger = none ∨ (body.state ≠ none ∧ body.state ≠ d.state)) :
    svc.Rejected d p := by
  cases hbody : p.body with
  | none =>
      -- reading the body of a patch without one raises
      refine rejected_of_raised (e := .nullPointer) (s := ⟨patchWorld d p, []⟩) ?_ rfl rfl rfl
      unfold handlePatch
      simp only [EStateM.run_bind, EStateM.run_get, patchWorld, hbody, orRaise_none_run]
  | some body =>
      have hfail : ∃ message, svc.handlePatch.run ⟨patchWorld d p, []⟩ =
          (badRequest d.documentSelfLink message).run ⟨namedWorld d p body, []⟩ := by
        unfold handlePatch
        simp only [EStateM.run_bind, EStateM.run_get, patchWorld, hbody, orRaise_some,
          EStateM.run_pure, EStateM.run_modify]
        -- the two checks of `handlePatch`, in the order of the source
        by_cases ht : body.trigger = none
        · exact ⟨" Trigger can't be null".toList,
            by simp only [ht, if_true, namedWorld, patchWorld, hbody]⟩
        · have hne : body.state.or d.state ≠ d.state := by
            obtain ⟨hs, hs'⟩ := (h body hbody).resolve_left ht
            obtain ⟨state, hstate⟩ := Option.ne_none_iff_exists'.mp hs
            rw [hstate] at hs' ⊢
            exact hs'
          exact ⟨otherStateMessage (body.state.or d.state) d.state,
            by simp only [ht, if_false, ne_eq, hne, not_false_eq_true, if_true, namedWorld,
              patchWorld, hbody]⟩
      obtain ⟨message, hrun⟩ := hfail
      obtain ⟨s', hs', hlinked, hfailed, htimers⟩ :=
        badRequest_run d.documentSelfLink message ⟨namedWorld d p body, []⟩ rfl
      exact rejected_of_failed (hrun.trans hs') hlinked hfailed htimers

/-- The persister writes destination and trigger into the linked state, and does not answer. -/
theorem statePopulator_run {d : FSMServiceDoc X} {p : PatchEvent X O} {body : FSMServiceDoc X}
    (t : Transition) {w : ServiceWorld X O} (hop : w.op = (namedWorld d p body).op) :
    ∃ w', (statePopulator t).run w = .ok () w' ∧
      w'.op.linkedState = { d with trigger := t.trigger, state := t.destination } ∧
      w'.op.outcome = .pending ∧ w'.timers = w.timers := by
  have hbody : w.op.body = some { body with state := body.state.or d.state } := by rw [hop]; rfl
  have hlinked : w.op.linkedState = d := by rw [hop]; rfl
  have hpending : w.op.outcome = .pending := by rw [hop]; rfl
  have hrun : (statePopulator t).run w = .ok ()
      ((w.mapLinked fun d => { d with trigger := t.trigger, state := t.destination }).mapOp
        fun op => { op with
          body := some { body with trigger := t.trigger, state := t.destination } }) := by
    simp only [statePopulator, EStateM.run_bind, EStateM.run_modify, EStateM.run_get,
      ServiceWorld.mapLinked, ServiceWorld.mapOp, hbody, orRaise_some, EStateM.run_pure]
  refine ⟨_, hrun, ?_, hpending, rfl⟩
  show { w.op.linkedState with trigger := t.trigger, state := t.destination } = _
  rw [hlinked]

section Accepts

variable {svc : FSMService X O} {d : FSMServiceDoc X} {p : PatchEvent X O}
  {body : FSMServiceDoc X} {b : TriggerBehaviour (ServiceGuard O)} {w : ServiceWorld X O}

/-- A patch for the current state, whose trigger has a single behaviour without a guard, is
accepted. -/
theorem accepts_of_unguarded (hbody : p.body = some body) (htrigger : body.trigger ≠ none)
    (hstate : body.state = none ∨ body.state = d.state) (hsrc : Configured svc.calls d.state)
    (hpermits : permits svc.calls d.state body.trigger = [b]) (hguard : b.guard = .noGuard) :
    svc.Accepts d p body b (namedWorld d p body) := by
  refine ⟨hbody, htrigger, hstate, ?_⟩
  unfold stateMachineConfig
  rw [resolve_build_of_unguarded _ svc.initState hsrc hpermits hguard]
  rfl

/-- An accepted patch fires from the world the guards leave. -/
theorem Accepts.handlePatch_run (h : svc.Accepts d p body b w) :
    svc.handlePatch.run ⟨patchWorld d p, []⟩ =
      (discard (StateMachine.fire (userCode d.documentSelfLink) svc.stateMachineConfig
        ⟨d.state, b.destination, body.trigger⟩)).run ⟨w, []⟩ := by
  rw [svc.handlePatch_run_of_named d h.body_eq h.trigger h.state]
  exact discard_run_congr (StateMachine.fireTrigger_run_of_fires _ _
    (s := ⟨namedWorld d p body, []⟩) h.resolves)

/-- The guards of an accepted patch leave the operation and the timers as they were. -/
theorem Accepts.op_eq (h : svc.Accepts d p body b w) :
    w.op = (namedWorld d p body).op ∧ w.timers = [] := by
  have hguards := svc.preserves_resolve_op d.documentSelfLink d.state body.trigger
    (namedWorld d p body).op [] (namedWorld d p body) ⟨rfl, rfl⟩
  rw [h.resolves] at hguards
  exact hguards

/-- An accepted patch finds the current state configured. -/
theorem Accepts.configured (h : svc.Accepts d p body b w) : Configured svc.calls d.state := by
  obtain ⟨r, hr⟩ := StateMachine.getRepresentation_of_resolve _ _ h.resolves
  refine (getRepresentation_build_isSome svc.initState _ _).mp ?_
  show (svc.stateMachineConfig.getRepresentation d.state).isSome
  rw [hr]
  rfl

/-- The behaviour of an accepted patch is the one the guards select. -/
theorem Accepts.selects (h : svc.Accepts d p body b w) : svc.Selects d p body b := by
  obtain ⟨r, w₁, hr, hb, hcan, hmet⟩ :=
    StateMachine.resolve_run_fires (userCode d.documentSelfLink) _ h.resolves
  exact ⟨r, w₁, w, hr, hb, hcan, hmet⟩

/-- **What an accepted patch establishes.** An invariant that holds once the persister has run, and
that the effects after it, the host and later handler steps keep, holds of the served patch. -/
theorem Accepts.serve_invariant (h : svc.Accepts d p body b w) {I : ServiceWorld X O → Prop}
    (hpersist : ∀ w' : ServiceWorld X O,
      w'.op.linkedState = { d with trigger := body.trigger, state := b.destination } →
      w'.op.outcome = .pending → w'.timers = [] → I w')
    (hfollows : ∀ e, svc.Follows ⟨d.state, b.destination, body.trigger⟩ e →
      Preserves I ((userCode d.documentSelfLink).perform e))
    (hfail : ∀ w e, I w → I (w.mapOp fun op => op.fail e))
    (hlate : Preserves I (runAll HandlerOp.run p.late)) : I (svc.serve d p).world := by
  obtain ⟨trigger, htrigger⟩ := Option.ne_none_iff_exists'.mp h.trigger
  refine FSMService.serve_invariant ?_ hfail hlate
  rw [h.handlePatch_run, finalState_discard]
  rw [htrigger] at hpersist hfollows ⊢
  obtain ⟨rest, hrest, finish, hfinish, hfire⟩ :=
    svc.fire_eq_follows d.documentSelfLink h.configured b.destination trigger
  obtain ⟨w', hrun, hlinked, hpending, htimers⟩ :=
    statePopulator_run ⟨d.state, b.destination, some trigger⟩ h.op_eq.1
  have hcall : (call (Effect.persist ⟨d.state, b.destination, some trigger⟩)
      ((userCode d.documentSelfLink).perform (.persist ⟨d.state, b.destination, some trigger⟩))).run
      (⟨w, []⟩ : Traced _ (Effect (Handler X O))) =
      .ok () ⟨w', [.persist ⟨d.state, b.destination, some trigger⟩]⟩ := by
    rw [call_run]
    show Traced.lift _ ((statePopulator _).run w) = _
    rw [hrun]
    rfl
  rw [hfire, performAll_cons, bind_assoc, bind_run_ok hcall]
  -- the persister has run: from here on every effect preserves `I`
  have hmid : I w' := hpersist w' hlinked hpending (htimers.trans h.op_eq.2)
  refine Preserves.bind (preserves_performAll fun e he => hfollows e (hrest e he)) (fun _ => ?_) _ hmid
  rcases hfinish with rfl | rfl
  · exact preserves_pure _
  · exact preserves_throw _

/-- Every document an accepted patch links or commits is moved along its behaviour. -/
theorem Accepts.documents_moved (h : svc.Accepts d p body b w) :
    (svc.serve d p).world.Documents (svc.Moved d p ⟨d.state, b.destination, body.trigger⟩) := by
  refine h.serve_invariant (fun w' hlinked hpending _ => ?_)
    (fun e he => preserves_moved_of_follows d.documentSelfLink he) (fun w e hw => hw.fail e)
    preserves_moved_of_late
  refine ⟨?_, fun c hc => absurd (hpending.symm.trans hc) (by simp)⟩
  rw [hlinked]
  exact ⟨rfl, rfl, rfl, rfl, .inl ⟨rfl, rfl⟩, .refl⟩

/-- The timers of an entered state: they name the state, and have the delays configured for it. -/
def TimersOf (svc : FSMService X O) (dest : JString) (w : ServiceWorld X O) : Prop :=
  ∀ timer ∈ w.timers, timer.state = dest ∧
    lastDelay svc.calls dest timer.trigger = some timer.delay

/-- Handler steps set no timers. -/
theorem preserves_timersOf_runAll (svc : FSMService X O) (dest : JString)
    (ops : List (HandlerOp X O)) : Preserves (svc.TimersOf dest) (runAll HandlerOp.run ops) := by
  refine preserves_runAll fun op _ => ?_
  cases op with
  | raise error => exact preserves_throw error
  | _ => exact preserves_modify fun w hw => hw

/-- **The timers an accepted patch sets are those of its destination.** -/
theorem Accepts.timersOf (h : svc.Accepts d p body b w) :
    svc.TimersOf b.destination (svc.serve d p).world := by
  refine h.serve_invariant (fun w' _ _ htimers timer ht => ?_) (fun e he => ?_) (fun w e hw => hw)
    (svc.preserves_timersOf_runAll b.destination p.late)
  · rw [htimers] at ht
    cases ht
  · cases e with
    | fail error => exact he.elim
    | persist t => exact he.elim
    | exit a t =>
        exact preserves_get_bind fun w hw => svc.preserves_timersOf_runAll _ (a t w) w hw
    | entry a t =>
        exact preserves_get_bind fun w hw => svc.preserves_timersOf_runAll _ (a t w) w hw
    | schedule m t =>
        -- the only effect that adds timers adds those of the destination
        obtain ⟨rfl, -, hlast⟩ := he
        show Preserves _ (expiryScheduler d.documentSelfLink m _)
        unfold expiryScheduler
        refine Preserves.bind (preserves_modify fun w hw => hw) fun _ => ?_
        refine preserves_modify fun w hw timer ht => ?_
        rcases List.mem_append.mp ht with ht | ht
        · exact hw timer ht
        · obtain ⟨entry, hentry, rfl⟩ := List.mem_map.mp ht
          refine ⟨rfl, ?_⟩
          rw [← hlast]
          exact AList.mem_lookup_iff.mpr hentry

end Accepts

/-- **What one patch does.** It is rejected, or it is accepted. -/
theorem patch_cases (svc : FSMService X O) (d : FSMServiceDoc X) (p : PatchEvent X O) :
    svc.Rejected d p ∨ ∃ body b w, svc.Accepts d p body b w := by
  by_cases hnamed : ∀ body, p.body = some body →
      body.trigger = none ∨ (body.state ≠ none ∧ body.state ≠ d.state)
  · exact .inl (svc.rejected_of_not_named d hnamed)
  simp only [not_forall, not_or, not_and, not_not] at hnamed
  obtain ⟨body, hbody, htrigger, hstate⟩ := hnamed
  have hstate : body.state = none ∨ body.state = d.state := by
    by_cases h : body.state = none
    · exact .inl h
    · exact .inr (hstate h)
  have hrun := svc.handlePatch_run_of_named d hbody htrigger hstate
  -- guards may change the outside world, but not the operation or the timers
  have hguards := svc.preserves_resolve_op d.documentSelfLink d.state body.trigger
    (namedWorld d p body).op [] (namedWorld d p body) ⟨rfl, rfl⟩
  cases hres : (StateMachine.resolve (userCode d.documentSelfLink) svc.stateMachineConfig d.state
      body.trigger).run (namedWorld d p body) with
  | error e w =>
      -- a guard raised, or several were met
      rw [hres] at hguards
      obtain ⟨hop : w.op = _, htimers : w.timers = []⟩ := hguards
      have hfire := StateMachine.fireTrigger_run_of_error (userCode d.documentSelfLink)
        svc.stateMachineConfig (s := ⟨namedWorld d p body, []⟩) hres
      refine .inl (rejected_of_raised (hrun.trans (discard_run_error hfire)) ?_ ?_ htimers)
      · rw [hop]
        rfl
      · rw [hop]
        rfl
  | ok ρ w =>
      rw [hres] at hguards
      obtain ⟨hop : w.op = _, htimers : w.timers = []⟩ := hguards
      cases ρ with
      | rejected permitted =>
          -- no guard was met: the operation has been failed
          have hfire := StateMachine.fireTrigger_run_of_rejected (userCode d.documentSelfLink)
            svc.stateMachineConfig (s := ⟨namedWorld d p body, []⟩) hres
          have hpending : w.op.outcome = .pending := by rw [hop]; rfl
          refine .inl (rejected_of_failed (e := StateMachine.invalidTrigger d.state body.trigger
            permitted) (hrun.trans (discard_run_ok (hfire.trans rfl))) ?_ ?_ htimers)
          · simp [ServiceWorld.mapOp, hop, namedWorld, patchWorld]
          · simp [ServiceWorld.mapOp, Operation.fail, hpending]
      | fires b => exact .inr ⟨body, b, w, hbody, htrigger, hstate, hres⟩

/-- A selected behaviour is an edge. -/
theorem Selects.edge {svc : FSMService X O} {d : FSMServiceDoc X} {p : PatchEvent X O}
    {body : FSMServiceDoc X} {b : TriggerBehaviour (ServiceGuard O)}
    (h : svc.Selects d p body b) : svc.Edge d.state b.destination := by
  obtain ⟨r, w₁, w₂, hr, hb, -, -⟩ := h
  unfold stateMachineConfig at hr
  rw [getRepresentation_build] at hr
  by_cases hc : Configured svc.calls d.state
  · rw [if_pos hc] at hr
    cases hr
    rw [represent_callsOn_behavioursOf] at hb
    exact ⟨b, List.mem_of_mem_filter hb, rfl⟩
  · rw [if_neg hc] at hr
    cases hr

/-- What a patch commits is the document that completed the operation, under a new version. -/
theorem commit_eq_some {svc : FSMService X O} {d : FSMServiceDoc X} {p : PatchEvent X O}
    {d' : FSMServiceDoc X} (h : svc.commit d p = some d') :
    ∃ c, (svc.serve d p).world.op.outcome = .completed c ∧
      d' = { c with documentVersion := p.version } := by
  unfold commit at h
  cases ho : (svc.serve d p).world.op.outcome with
  | pending => rw [ho] at h; cases h
  | failed e => rw [ho] at h; cases h
  | completed c =>
      rw [ho] at h
      exact ⟨c, rfl, (Option.some.inj h).symm⟩

/-- What a patch commits, read off the documents of the served operation. -/
theorem commit_of_documents {svc : FSMService X O} {d : FSMServiceDoc X} {p : PatchEvent X O}
    {P : FSMServiceDoc X → Prop} (h : (svc.serve d p).world.Documents P) {d' : FSMServiceDoc X}
    (hcommit : svc.commit d p = some d') :
    ∃ c, P c ∧ d' = { c with documentVersion := p.version } := by
  obtain ⟨c, hc, rfl⟩ := commit_eq_some hcommit
  exact ⟨c, h.2 c hc, rfl⟩

/-- **A patch leaves the state or follows an edge.** -/
theorem documentAfter_edge (svc : FSMService X O) (d : FSMServiceDoc X) (p : PatchEvent X O) :
    (svc.documentAfter d p).state = d.state ∨ svc.Edge d.state (svc.documentAfter d p).state := by
  rcases svc.patch_cases d p with h | ⟨body, b, w, h⟩
  · exact .inl (by rw [h.documentAfter])
  · cases hcommit : svc.commit d p with
    | none => exact .inl (by rw [documentAfter, hcommit]; rfl)
    | some d' =>
        obtain ⟨c, hc, rfl⟩ := commit_of_documents h.documents_moved hcommit
        refine .inr ?_
        rw [documentAfter, hcommit]
        show svc.Edge d.state c.state
        rw [hc.state]
        exact h.selects.edge

/-! ## Runs of patches -/

/-- **Every run of patches refines a walk of the abstract machine.** -/
theorem runPatches_walk (svc : FSMService X O) (d₀ : FSMServiceDoc X)
    (ps : List (PatchEvent X O)) :
    Relation.ReflTransGen svc.Edge d₀.state (svc.runPatches d₀ ps).state := by
  induction ps using List.reverseRecOn with
  | nil => exact .refl
  | append_singleton ps p ih =>
      rw [runPatches_concat]
      rcases svc.documentAfter_edge (svc.runPatches d₀ ps) p with h | h
      · rw [h]
        exact ih
      · exact ih.tail h

/-- The document a valid post starts: that of its body, in the state of the body or the initial
one. -/
theorem handleStart_completed {svc : FSMService X O} {post op : Operation X}
    (hvalid : svc.validateStartPost post = (true, op)) (hpending : op.outcome = .pending)
    {d₀ : FSMServiceDoc X} (hstart : (svc.handleStart post).1.outcome = .completed d₀) :
    ∃ body, op.body = some body ∧
      d₀ = { body with state := some (body.state.getD svc.initialState) } := by
  unfold handleStart at hstart
  rw [hvalid] at hstart
  cases hbody : op.body with
  | none =>
      simp only [if_true, hbody, Operation.fail, hpending, reduceCtorEq] at hstart
  | some body =>
      refine ⟨body, rfl, ?_⟩
      simp only [if_true, hbody, Operation.complete, hpending] at hstart
      by_cases hs : some (body.state.getD svc.initialState) = some svc.initialState
      · rw [if_pos hs] at hstart
        exact (Outcome.completed.inj hstart).symm
      · rw [if_neg hs] at hstart
        exact (Outcome.completed.inj hstart).symm

/-- **The document of a service moves only along configured edges.** For every configuration made
by builder calls, every document that `handleStart` starts, and every sequence of patches:

* the document starts in the state of the posted body, or in the initial state;
* its state is joined to the start state by configured edges;
* each further patch is either rejected, linking and committing nothing, or the guards select one
  behaviour of its trigger in the current state and all it links and commits is `Moved` along it;
* a patch without a trigger, or naming another state, is rejected. -/
theorem runPatches_follows_edges (svc : FSMService X O) {post : Operation X}
    {d₀ : FSMServiceDoc X} (hstart : (svc.handleStart post).1.outcome = .completed d₀)
    (ps : List (PatchEvent X O)) :
    let d := svc.runPatches d₀ ps
    (∀ op, svc.validateStartPost post = (true, op) → op.outcome = .pending →
      ∃ body, op.body = some body ∧
        d₀ = { body with state := some (body.state.getD svc.initialState) }) ∧
    Relation.ReflTransGen svc.Edge d₀.state d.state ∧
    ∀ p,
      ((svc.Rejected d p ∧ svc.documentAfter d p = d) ∨
        ∃ body b, p.body = some body ∧ body.trigger ≠ none ∧
          (body.state = none ∨ body.state = d.state) ∧ svc.Selects d p body b ∧
          svc.Moved d p ⟨d.state, b.destination, body.trigger⟩
            (svc.serve d p).world.op.linkedState ∧
          ∀ d', svc.commit d p = some d' → svc.documentAfter d p = d' ∧
            ∃ c, svc.Moved d p ⟨d.state, b.destination, body.trigger⟩ c ∧
              d' = { c with documentVersion := p.version }) ∧
      ∀ body, p.body = some body →
        body.trigger = none ∨ (body.state ≠ none ∧ body.state ≠ d.state) →
        svc.Rejected d p ∧ svc.documentAfter d p = d := by
  intro d
  refine ⟨fun op hvalid hpending => handleStart_completed hvalid hpending hstart,
    svc.runPatches_walk d₀ ps, fun p => ⟨?_, fun body hbody h => ?_⟩⟩
  · -- every patch is rejected or accepted, in every reachable document
    rcases svc.patch_cases d p with h | ⟨body, b, w, h⟩
    · exact .inl ⟨h, h.documentAfter⟩
    · refine .inr ⟨body, b, h.body_eq, h.trigger, h.state, h.selects, h.documents_moved.1,
        fun d' hcommit => ⟨?_, commit_of_documents h.documents_moved hcommit⟩⟩
      rw [documentAfter, hcommit]
      rfl
  · have hrej : svc.Rejected d p := by
      refine svc.rejected_of_not_named d fun body' hbody' => ?_
      rw [hbody] at hbody'
      cases hbody'
      exact h
    exact ⟨hrej, hrej.documentAfter⟩

/-- A phone that dials and connects stays on the edges of its configuration. -/
theorem runPatches_follows_edges_phone :
    Relation.ReflTransGen phoneService.Edge (some "OffHook".toList)
      (phoneService.runPatches (phoneDoc (some "OffHook".toList) none)
        [phonePatch "CallDialed".toList 1, phonePatch "CallConnected".toList 2]).state :=
  (runPatches_follows_edges phoneService
    (show (phoneService.handleStart phonePost).1.outcome =
      .completed (phoneDoc (some "OffHook".toList) none) from rfl) _).2.1

end FSMService

end XenonExt
