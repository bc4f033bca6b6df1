import XenonExt.Effects.Simulation
import XenonExt.Service.ExpiryRecord
import XenonExt.StateMachine.PermittedTriggers

/-! # The automaton of a service

Seen from its clients a document is an automaton: a patch names a trigger, and perhaps the state it
is meant for, and moves the document along the one permitted behaviour of the trigger whose guard is
met. A document does so when the guards are pure and the handlers keep to the contract of
`stateMachineConfig`: they do not fail, and one of them completes the operation.

* **`destinationOf`**: the moves of the automaton, read off the log of builder calls.
* **`accepts_iff_met`**: the patches that are accepted are those the automaton has a move for.
* **`runPatches_eq_automaton`**: a run of patches is a run of the automaton, patch by patch, and a
  document reaches the states that the automaton reaches. -/

namespace XenonExt

variable {X O : Type}

/-! ## The automaton -/

/-- What a patch asks for: its trigger, and the state it is meant for, if it names one. -/
structure PatchLabel where
  trigger : JString
  state : JString
  deriving DecidableEq, Repr

/-- **A move of the automaton**: the destination of the only permitted behaviour of the trigger whose
guard is met. There is none without a trigger, or for a state that is not the current one. -/
def destinationOf {G A : Type} (v : GuardValuation G) (calls : List (BuilderCall G A))
    (state : JString) (label : PatchLabel) : Option JString :=
  if label.trigger = none ∨ (label.state ≠ none ∧ label.state ≠ state) then none
  else match behavioursMet v (permitsOf calls state) label.trigger with
    | [b] => some b.destination
    | _ => none

/-- What a patch asks for. -/
def PatchEvent.label (p : PatchEvent X O) : PatchLabel where
  trigger := p.body.bind FSMServiceDoc.trigger
  state := p.body.bind FSMServiceDoc.state

/-! ## Handlers that do their part -/

/-- A step that neither fails the operation nor raises. -/
def HandlerOp.IsQuiet : HandlerOp X O → Prop
  | .fail _ => False
  | .raise _ => False
  | _ => True

namespace ServiceWorld

/-- The operation of a world was not failed. -/
def Unfailed (w : ServiceWorld X O) : Prop := ∀ e, w.op.outcome ≠ .failed e

/-- The operation of a world was completed. -/
def Completed (w : ServiceWorld X O) : Prop := ∃ c, w.op.outcome = .completed c

end ServiceWorld

namespace HandlerOp

variable {op : HandlerOp X O}

/-- A quiet step returns. -/
theorem IsQuiet.succeeds (h : op.IsQuiet) : Succeeds op.run := by
  cases op with
  | fail error => exact h.elim
  | raise error => exact h.elim
  | _ => exact fun w => ⟨(), _, rfl⟩

/-- A quiet step does not fail the operation. -/
theorem IsQuiet.preserves_unfailed (h : op.IsQuiet) : Preserves ServiceWorld.Unfailed op.run := by
  cases op with
  | fail error => exact h.elim
  | raise error => exact h.elim
  | setState write => exact preserves_modify fun w hw => hw
  | outside change => exact preserves_modify fun w hw => hw
  | complete =>
      refine preserves_modify fun w hw e he => ?_
      cases ho : w.op.outcome with
      | failed e' => exact hw e' ho
      | _ => simp [ServiceWorld.mapOp, Operation.complete, ho] at he

/-- No step takes a completion back. -/
theorem preserves_completed (op : HandlerOp X O) : Preserves ServiceWorld.Completed op.run := by
  rintro w ⟨c, hc⟩
  exact ⟨c, op.preserves_answer (o := .completed c) (by simp) w hc⟩

/-- Completing an operation that was not failed leaves it completed. -/
theorem complete_establishes {w : ServiceWorld X O} (hw : w.Unfailed) :
    (finalState ((HandlerOp.complete : HandlerOp X O).run.run w)).Completed := by
  show (w.mapOp Operation.complete).Completed
  cases ho : w.op.outcome with
  | failed e => exact absurd ho (hw e)
  | completed c => exact ⟨c, by simp [ServiceWorld.mapOp, Operation.complete, ho]⟩
  | pending => exact ⟨w.op.linkedState, by simp [ServiceWorld.mapOp, Operation.complete, ho]⟩

end HandlerOp

section Handlers

variable {h : Handler X O} {t : Transition} (hquiet : ∀ w, ∀ op ∈ h t w, op.IsQuiet)
include hquiet

/-- A handler of quiet steps returns. -/
theorem Handler.succeeds_of_quiet : Succeeds (h.accept t) := fun w =>
  runAll_succeeds HandlerOp.run (h t w) (fun op hop => (hquiet w op hop).succeeds) w

/-- A handler of quiet steps does not fail the operation. -/
theorem Handler.preserves_unfailed : Preserves ServiceWorld.Unfailed (h.accept t) :=
  preserves_get_bind fun w hw =>
    preserves_runAll (fun op hop => (hquiet w op hop).preserves_unfailed) w hw

/-- A handler of quiet steps of which one completes leaves the operation completed. -/
theorem Handler.accept_establishes (hcompletes : ∀ w, .complete ∈ h t w) {w : ServiceWorld X O}
    (hw : w.Unfailed) : (finalState ((h.accept t).run w)).Completed :=
  have hscript : (finalState ((runAll HandlerOp.run (h t w)).run w)).Completed := runAll_establishes
    (fun op hop => (hquiet w op hop).succeeds)
    (fun op hop => (hquiet w op hop).preserves_unfailed)
    (fun op _ => op.preserves_completed) (hcompletes w)
    (fun _ hs => HandlerOp.complete_establishes hs) hw
  hscript

end Handlers

/-- No handler takes a completion back. -/
theorem Handler.preserves_completed (h : Handler X O) (t : Transition) :
    Preserves ServiceWorld.Completed (h.accept t) :=
  preserves_get_bind fun w hw => preserves_runAll (fun op _ => op.preserves_completed) w hw

namespace FSMService

/-- **The guards of a service are pure**: `v` tells how each guard that a builder call uses answers,
in whatever world. -/
def GuardsArePure (svc : FSMService X O) (v : GuardValuation (ServiceGuard O)) : Prop :=
  ∀ src, ∀ b ∈ permitsOf svc.calls src, ∀ g, b.guard = .user g →
    ∀ trigger, g trigger = pure (v g trigger)

/-- **A service that keeps to its contract**: every destination is configured, no handler of a
transition fails the operation or raises, and one of them completes it. -/
structure Diligent (svc : FSMService X O) : Prop where
  configured : ∀ src, ∀ b ∈ permitsOf svc.calls src, Configured svc.calls b.destination
  quiet : ∀ t h, svc.Handles t h → ∀ w, ∀ op ∈ h t w, op.IsQuiet
  completes : ∀ src, ∀ b ∈ permitsOf svc.calls src, ∀ trigger, b.trigger = some trigger →
    ∃ h, svc.Handles ⟨src, b.destination, some trigger⟩ h ∧
      ∀ w, .complete ∈ h ⟨src, b.destination, some trigger⟩ w

/-! ## The patches that are accepted -/

section Guards

variable {svc : FSMService X O} {v : GuardValuation (ServiceGuard O)} (hpure : svc.GuardsArePure v)
include hpure

/-- A pure guard answers as `v` tells, and leaves the world as it was. -/
theorem isGuardConditionMet_run_of_pure (selfLink : Str) {src : JString}
    {b : TriggerBehaviour (ServiceGuard O)} (hb : b ∈ permitsOf svc.calls src)
    (w : ServiceWorld X O) : (b.isGuardConditionMet (userCode selfLink)).run w = .ok (b.MetBy v) w := by
  unfold TriggerBehaviour.isGuardConditionMet TriggerBehaviour.MetBy
  cases hg : b.guard with
  | noGuard => rfl
  | user g =>
      show ServiceGuard.test g b.trigger w = _
      unfold ServiceGuard.test
      rw [hpure src b hb g hg b.trigger]
      rfl

/-- Pure guards filter the behaviours of a trigger. -/
theorem guardsMet_run_of_pure (selfLink : Str) (src trigger : JString) (w : ServiceWorld X O) :
    (guardsMet (userCode selfLink) (permits svc.calls src trigger)).run w =
      .ok (behavioursMet v (permitsOf svc.calls src) trigger) w := by
  have hfilter : ∀ bs : List (TriggerBehaviour (ServiceGuard O)),
      (∀ b ∈ bs, b ∈ permitsOf svc.calls src) →
        (guardsMet (userCode selfLink) bs).run w = .ok (bs.filter (TriggerBehaviour.MetBy v)) w := by
    intro bs hbs
    induction bs with
    | nil => rfl
    | cons b bs ih =>
        unfold guardsMet
        rw [bind_run_ok (isGuardConditionMet_run_of_pure hpure selfLink (hbs b List.mem_cons_self) w),
          bind_run_ok (ih fun b hb => hbs b (List.mem_cons_of_mem _ hb)), List.filter_cons]
        rfl
  exact hfilter _ fun b hb => List.mem_of_mem_filter hb

variable {d : FSMServiceDoc X} {p : PatchEvent X O} {body : FSMServiceDoc X}
  {b : TriggerBehaviour (ServiceGuard O)}

/-- The behaviour a patch is accepted for is the only one whose guard is met. -/
theorem Accepts.behavioursMet {w : ServiceWorld X O} (h : svc.Accepts d p body b w) :
    behavioursMet v (permitsOf svc.calls d.state) body.trigger = [b] := by
  obtain ⟨r, w₁, w₂, hr, -, -, hmet⟩ := h.selects
  have hrep := getRepresentation_build_of_configured svc.initState h.configured
  obtain rfl := Option.some.inj (hrep.symm.trans hr)
  rw [represent_callsOn_behavioursOf, guardsMet_run_of_pure hpure] at hmet
  exact (EStateM.Result.ok.inj hmet).1

/-- A patch for the current state is accepted when one guard is met. -/
theorem accepts_of_behavioursMet (hbody : p.body = some body) (htrigger : body.trigger ≠ none)
    (hstate : body.state = none ∨ body.state = d.state)
    (hmet : XenonExt.behavioursMet v (permitsOf svc.calls d.state) body.trigger = [b]) :
    svc.Accepts d p body b (namedWorld d p body) := by
  have hsrc : Configured svc.calls d.state := by
    by_contra hnot
    rw [permitsOf, callsOn_eq_nil hnot] at hmet
    cases hmet
  have hguards : (guardsMet (userCode d.documentSelfLink)
      ((represent d.state (callsOn svc.calls d.state)).behavioursOf body.trigger)).run
        (namedWorld d p body) = .ok [b] (namedWorld d p body) := by
    rw [represent_callsOn_behavioursOf, guardsMet_run_of_pure hpure, hmet]
  -- the guards are asked twice, by the validation and by the transition
  have hfound := (StateRepresentation.tryFindHandler_run_some _).mpr hguards
  have hhandled : ((represent d.state (callsOn svc.calls d.state)).canHandle
      (userCode d.documentSelfLink) body.trigger).run (namedWorld d p body) =
        .ok true (namedWorld d p body) := by
    unfold StateRepresentation.canHandle
    rw [bind_run_ok hfound]
    rfl
  refine ⟨hbody, htrigger, hstate, ?_⟩
  unfold StateMachine.resolve
  rw [show svc.stateMachineConfig.getRepresentation d.state = _ from
    getRepresentation_build_of_configured svc.initState hsrc, orRaise_some, pure_bind,
    bind_run_ok hhandled, if_pos rfl, bind_run_ok hfound]
  rfl

omit hpure in
/-- The moves of the automaton for the body of a patch. -/
theorem destinationOf_eq_some_iff {dest : JString} :
    destinationOf v svc.calls d.state p.label = some dest ↔
      ∃ body b, p.body = some body ∧ body.trigger ≠ none ∧
        (body.state = none ∨ body.state = d.state) ∧
        XenonExt.behavioursMet v (permitsOf svc.calls d.state) body.trigger = [b] ∧
        b.destination = dest := by
  cases hbody : p.body with
  | none =>
      have hlabel : p.label = ⟨none, none⟩ := by rw [PatchEvent.label, hbody]; rfl
      simp [destinationOf, hlabel]
  | some body =>
      have hlabel : p.label = ⟨body.trigger, body.state⟩ := by rw [PatchEvent.label, hbody]; rfl
      have hnamed : ¬ (body.trigger = none ∨ (body.state ≠ none ∧ body.state ≠ d.state)) ↔
          body.trigger ≠ none ∧ (body.state = none ∨ body.state = d.state) := by tauto
      simp only [destinationOf, hlabel, Option.ite_none_left_eq_some, hnamed, Option.some.injEq]
      constructor
      · rintro ⟨⟨htrigger, hstate⟩, hmatch⟩
        match hmet : XenonExt.behavioursMet v (permitsOf svc.calls d.state) body.trigger, hmatch with
        | [b], hmatch => exact ⟨body, b, rfl, htrigger, hstate, hmet, Option.some.inj hmatch⟩
      · rintro ⟨_, b, rfl, htrigger, hstate, hmet, rfl⟩
        exact ⟨⟨htrigger, hstate⟩, by rw [hmet]⟩

/-- **The patches that are accepted are those the automaton has a move for.** -/
theorem accepts_iff_met {dest : JString} :
    destinationOf v svc.calls d.state p.label = some dest ↔
      ∃ body b w, svc.Accepts d p body b w ∧ b.destination = dest := by
  rw [destinationOf_eq_some_iff]
  constructor
  · rintro ⟨body, b, hbody, htrigger, hstate, hmet, hdest⟩
    exact ⟨body, b, _, accepts_of_behavioursMet hpure hbody htrigger hstate hmet, hdest⟩
  · rintro ⟨body, b, w, h, hdest⟩
    exact ⟨body, b, h.body_eq, h.trigger, h.state, h.behavioursMet hpure, hdest⟩

end Guards

/-! ## What becomes of an accepted patch -/

/-- A handler of a transition is among the effects that follow the persister. -/
theorem mem_loggedEffects_of_handles {svc : FSMService X O} {t : Transition} {trigger : Str} (ht : t.trigger = some trigger)
    {h : Handler X O} (hh : svc.Handles t h) (m : ExpiryMap) :
    ∃ rest, loggedEffects svc.calls m t.source t.destination trigger = .persist t :: rest ∧
      (.exit h t ∈ rest ∨ .entry h t ∈ rest) := by
  obtain ⟨source, destination, _⟩ := t
  obtain rfl := ht
  refine ⟨_, rfl, ?_⟩
  rcases hh with hexit | ⟨trigger', heq, hentry⟩
  · exact .inl (List.mem_append_left _ (List.mem_map_of_mem hexit))
  · obtain rfl := Option.some.inj heq
    exact .inr (List.mem_append_right _ (List.mem_append_right _ (List.mem_map_of_mem hentry)))

section Diligent

variable {svc : FSMService X O} (hdiligent : svc.Diligent) {d : FSMServiceDoc X}
  {p : PatchEvent X O} {body : FSMServiceDoc X} {b : TriggerBehaviour (ServiceGuard O)}
  {w : ServiceWorld X O}
include hdiligent

/-- An effect that may follow the persister returns, and does not fail the operation. -/
theorem Diligent.follows (selfLink : Str) {t : Transition} {e : Effect (Handler X O)}
    (he : svc.Follows t e) : Succeeds ((userCode (X := X) (O := O) selfLink).perform e) ∧
      Preserves ServiceWorld.Unfailed ((userCode (X := X) (O := O) selfLink).perform e) ∧
      Preserves ServiceWorld.Completed ((userCode (X := X) (O := O) selfLink).perform e) := by
  cases e with
  | fail error => exact he.elim
  | persist t' => exact he.elim
  | exit h t' =>
      obtain ⟨rfl, hmem⟩ := he
      have hquiet := hdiligent.quiet t' h (.inl hmem)
      exact ⟨Handler.succeeds_of_quiet hquiet, Handler.preserves_unfailed hquiet,
        h.preserves_completed t'⟩
  | entry h t' =>
      obtain ⟨rfl, hmem⟩ := he
      have hquiet := hdiligent.quiet t' h (.inr hmem)
      exact ⟨Handler.succeeds_of_quiet hquiet, Handler.preserves_unfailed hquiet,
        h.preserves_completed t'⟩
  | schedule m t' =>
      -- the scheduler does not touch the answer
      exact ⟨fun w => ⟨(), _, rfl⟩, fun w hw => hw, fun w hw => hw⟩

/-- **A diligent service completes the patches it accepts**, and no exception escapes. -/
theorem Diligent.completed (ha : svc.Accepts d p body b w) :
    (svc.serve d p).world.Completed ∧ (svc.serve d p).raised = none := by
  obtain ⟨trigger, htrigger⟩ := Option.ne_none_iff_exists'.mp ha.trigger
  obtain ⟨r, w₁, w₂, hr, hb, -, -⟩ := ha.selects
  have hrep := getRepresentation_build_of_configured svc.initState ha.configured
  obtain rfl := Option.some.inj (hrep.symm.trans hr)
  rw [represent_callsOn_behavioursOf] at hb
  have hpermit : b ∈ permitsOf svc.calls d.state := List.mem_of_mem_filter hb
  have hbtrigger : b.trigger = some trigger := by
    rw [← htrigger]
    exact of_decide_eq_true (List.mem_filter.mp hb).2
  have hrun := ha.handlePatch_run_logged htrigger (hdiligent.configured d.state b hpermit)
  obtain ⟨h, hhandles, hcompletes⟩ := hdiligent.completes d.state b hpermit trigger hbtrigger
  obtain ⟨rest, hrest, hmem⟩ := mem_loggedEffects_of_handles rfl hhandles
    (svc.expiryMapOf b.destination)
  have hfollows := svc.follows_of_mem_loggedEffects (fun t => represent_expiry_lookup b.destination
    t (callsOn svc.calls b.destination)) hrest
  have heach := fun e he => hdiligent.follows d.documentSelfLink (hfollows e he)
  have hquiet := hdiligent.quiet _ h hhandles
  -- the persister runs first and leaves the operation unanswered
  obtain ⟨w', hpersist, -, hpending, -⟩ :=
    statePopulator_run ⟨d.state, b.destination, some trigger⟩ ha.op_eq.1
  have hunfailed : w'.Unfailed := fun e he => by rw [hpending] at he; cases he
  obtain ⟨_, w'', hw''⟩ := runAll_succeeds (userCode d.documentSelfLink).perform rest
    (fun e he => (heach e he).1) w'
  have hcompleted : w''.Completed := by
    obtain ⟨e, he, hestablishes⟩ : ∃ e ∈ rest, ∀ s : ServiceWorld X O, s.Unfailed →
        (finalState (((userCode d.documentSelfLink).perform e).run s)).Completed := by
      rcases hmem with hmem | hmem
      · exact ⟨_, hmem, fun s hs => Handler.accept_establishes hquiet hcompletes hs⟩
      · exact ⟨_, hmem, fun s hs => Handler.accept_establishes hquiet hcompletes hs⟩
    have hend : (finalState ((runAll (userCode d.documentSelfLink).perform rest).run w')).Completed :=
      runAll_establishes (fun e he => (heach e he).1) (fun e he => (heach e he).2.1)
        (fun e he => (heach e he).2.2) he hestablishes hunfailed
    rw [hw''] at hend
    exact hend
  have hall : (runAll (userCode d.documentSelfLink).perform (loggedEffects svc.calls
      (svc.expiryMapOf b.destination) d.state b.destination trigger)).run w = .ok () w'' := by
    rw [hrest, runAll_cons]
    exact (bind_run_ok hpersist).trans hw''
  rw [performAll_run_ok (s := ⟨w, []⟩) _ hall] at hrun
  obtain ⟨c, hc⟩ := hcompleted
  unfold serve
  rw [hrun]
  simp only [hc]
  exact ⟨⟨c, hc⟩, trivial⟩

/-- What an accepted patch commits is in the destination. -/
theorem Diligent.commit (ha : svc.Accepts d p body b w) :
    ∃ c, svc.commit d p = some c ∧ c.state = b.destination := by
  obtain ⟨⟨c, hc⟩, -⟩ := hdiligent.completed ha
  refine ⟨{ c with documentVersion := p.version }, ?_, (ha.documents_moved.2 c hc).state⟩
  unfold FSMService.commit
  rw [hc]

end Diligent

/-! ## Runs -/

/-- A rejected patch commits nothing. -/
theorem Rejected.commit {svc : FSMService X O} {d : FSMServiceDoc X} {p : PatchEvent X O}
    (h : svc.Rejected d p) : svc.commit d p = none := by
  obtain ⟨e, he⟩ := h.failed
  unfold FSMService.commit
  rw [he]

section Run

variable {svc : FSMService X O} {v : GuardValuation (ServiceGuard O)} (hpure : svc.GuardsArePure v)
  (hdiligent : svc.Diligent)
include hpure hdiligent

/-- **What a patch commits** is in the state the automaton moves to. -/
theorem commit_state_eq (d : FSMServiceDoc X) (p : PatchEvent X O) :
    (svc.commit d p).map FSMServiceDoc.state = destinationOf v svc.calls d.state p.label := by
  cases hmove : destinationOf v svc.calls d.state p.label with
  | some dest =>
      obtain ⟨body, b, w, ha, rfl⟩ := (accepts_iff_met hpure).mp hmove
      obtain ⟨c, hcommit, hstate⟩ := hdiligent.commit ha
      rw [hcommit, Option.map_some, hstate]
  | none =>
      rcases svc.patch_cases d p with h | ⟨body, b, w, ha⟩
      · rw [h.commit]
        rfl
      · rw [(accepts_iff_met hpure).mpr ⟨body, b, w, ha, rfl⟩] at hmove
        cases hmove

/-- **One patch is one step of the automaton.** -/
theorem documentAfter_state_eq (d : FSMServiceDoc X) (p : PatchEvent X O) :
    (svc.documentAfter d p).state = moveOrStay (destinationOf v svc.calls) d.state p.label := by
  rw [moveOrStay, ← commit_state_eq hpure hdiligent d p, documentAfter]
  cases svc.commit d p <;> rfl

/-- **A run of patches is a run of the automaton.** For every service whose guards are pure and whose
handlers keep to their contract, every document and every sequence of patches: the document ends in
the state in which the automaton ends; every single patch of the run is completed exactly when the
automaton has a move for it, and then commits the destination of that move; and a document can be
brought into a state by patches exactly when the automaton has a path there. -/
theorem runPatches_eq_automaton (d₀ : FSMServiceDoc X) (outside : O) :
    (∀ ps : List (PatchEvent X O), (svc.runPatches d₀ ps).state =
      (ps.map PatchEvent.label).foldl (moveOrStay (destinationOf v svc.calls)) d₀.state) ∧
    (∀ (before : List (PatchEvent X O)) p,
      (svc.commit (svc.runPatches d₀ before) p).map FSMServiceDoc.state =
        destinationOf v svc.calls ((before.map PatchEvent.label).foldl
          (moveOrStay (destinationOf v svc.calls)) d₀.state) p.label) ∧
    ∀ state, (∃ ps : List (PatchEvent X O), (svc.runPatches d₀ ps).state = state) ↔
      Relation.ReflTransGen (fun s s' => ∃ label, destinationOf v svc.calls s label = some s')
        d₀.state state := by
  have hrun : ∀ ps : List (PatchEvent X O), (svc.runPatches d₀ ps).state =
      (ps.map PatchEvent.label).foldl (moveOrStay (destinationOf v svc.calls)) d₀.state :=
    fun ps => foldl_abstraction (I := fun _ => True) (fun _ _ h => h)
      (fun d p _ => documentAfter_state_eq hpure hdiligent d p) trivial ps
  refine ⟨hrun, fun before p => ?_, fun state => ?_⟩
  · rw [← hrun before]
    exact commit_state_eq hpure hdiligent _ p
  · rw [← reaches_moveOrStay_iff]
    constructor
    · rintro ⟨ps, rfl⟩
      exact ⟨ps.map PatchEvent.label, (hrun ps).symm⟩
    · rintro ⟨labels, rfl⟩
      -- every label is that of some patch
      let patchOf : PatchLabel → PatchEvent X O := fun label =>
        ⟨some { d₀ with trigger := label.trigger, state := label.state }, outside, [], 0⟩
      have hlabels : (labels.map patchOf).map PatchEvent.label = labels := by
        rw [List.map_map]
        exact List.map_id labels
      exact ⟨labels.map patchOf, by rw [hrun, hlabels]⟩

end Run

end FSMService

/-! ## A sample service -/

section Log

variable {G A : Type} {calls : List (BuilderCall G A)} {state : JString}

/-- A call on a state is one of the calls of the log. -/
theorem mem_callsOn_iff {c : ConfigurationCall G A} : c ∈ callsOn calls state ↔ .on state c ∈ calls := by
  unfold callsOn
  rw [List.mem_filterMap]
  constructor
  · rintro ⟨call, hmem, h⟩
    cases call with
    | configure s => cases h
    | on s c' =>
        obtain ⟨rfl, heq⟩ := Option.ite_none_right_eq_some.mp h
        obtain rfl := Option.some.inj heq
        exact hmem
  · exact fun h => ⟨_, h, if_pos rfl⟩

/-- A behaviour that the log permits comes from one of its calls. -/
theorem mem_permitsOf_iff {b : TriggerBehaviour G} :
    b ∈ permitsOf calls state ↔ ∃ c, .on state c ∈ calls ∧ c.behaviour state = some b := by
  simp only [permitsOf, List.mem_filterMap, mem_callsOn_iff]

/-- An exit action that the log registers comes from one of its calls. -/
theorem mem_exitActionsOf_iff {action : A} :
    action ∈ exitActionsOf calls state ↔ .on state (.onExit action) ∈ calls := by
  simp only [exitActionsOf, List.mem_filterMap, mem_callsOn_iff]
  constructor
  · rintro ⟨c, hmem, h⟩
    cases c with
    | onExit a =>
        obtain rfl := Option.some.inj h
        exact hmem
    | _ => cases h
  · exact fun h => ⟨_, h, rfl⟩

/-- An entry action that the log registers comes from one of its calls. -/
theorem mem_entryActionsOf {action : A} {trigger : Str} (h : action ∈ entryActionsOf calls state trigger) :
    .on state (.onEntry action) ∈ calls ∨ .on state (.onEntryFrom (some trigger) action) ∈ calls := by
  obtain ⟨c, hc, haction⟩ := List.mem_filterMap.mp h
  rw [mem_callsOn_iff] at hc
  cases c with
  | onEntry a =>
      obtain rfl := Option.some.inj haction
      exact .inl hc
  | onEntryFrom t a =>
      obtain ⟨rfl, heq⟩ := Option.ite_none_right_eq_some.mp haction
      obtain rfl := Option.some.inj heq
      exact .inr hc
  | _ => cases haction

end Log

/-- A door that can be opened while a guard allows it, and that closes by itself after a second. -/
def doorService : FSMService Unit Bool where
  initState := some "Closed".toList
  calls :=
    [.on (some "Closed".toList) (.permitIf (some "Push".toList) (some "Open".toList)
        fun _ => pure true),
      .on (some "Closed".toList) (.onExit completeOperation),
      .on (some "Open".toList) (.permit (some "Close".toList) (some "Closed".toList)),
      .on (some "Open".toList) (.onExpiry (some "Close".toList) 1000),
      .on (some "Open".toList) (.onExit completeOperation)]
  validateStartPost op := (true, op)
  initialTrigger _ := none

namespace FSMService

/-- The behaviours that the log of the door permits. -/
theorem mem_permitsOf_door {src : JString} {b : TriggerBehaviour (ServiceGuard Bool)}
    (h : b ∈ permitsOf doorService.calls src) :
    (src = some "Closed".toList ∧
        b = ⟨some "Push".toList, .user fun _ => pure true, some "Open".toList⟩) ∨
      src = some "Open".toList ∧ b = ⟨some "Close".toList, .noGuard, some "Closed".toList⟩ := by
  obtain ⟨c, hmem, hc⟩ := mem_permitsOf_iff.mp h
  simp only [doorService, List.mem_cons, BuilderCall.on.injEq, List.not_mem_nil, or_false] at hmem
  rcases hmem with ⟨rfl, rfl⟩ | ⟨rfl, rfl⟩ | ⟨rfl, rfl⟩ | ⟨rfl, rfl⟩ | ⟨rfl, rfl⟩
  · exact .inl ⟨rfl, (Option.some.inj hc).symm⟩
  · cases hc
  · exact .inr ⟨rfl, (Option.some.inj hc).symm⟩
  · cases hc
  · cases hc

/-- The guard of the door always allows it to be opened. -/
theorem guardsArePure_door : doorService.GuardsArePure fun _ _ => true := by
  intro src b hb g hg trigger
  rcases mem_permitsOf_door hb with ⟨-, rfl⟩ | ⟨-, rfl⟩
  · obtain rfl := Guard.user.inj hg
    rfl
  · cases hg

/-- The only handlers of the door complete the operation. -/
theorem eq_completeOperation_of_handles_door {t : Transition} {h : Handler Unit Bool}
    (hh : doorService.Handles t h) : h = completeOperation := by
  rcases hh with hexit | ⟨trigger, -, hentry⟩
  · have hmem := mem_exitActionsOf_iff.mp hexit
    simp only [doorService, List.mem_cons, BuilderCall.on.injEq, reduceCtorEq, and_false,
      ConfigurationCall.onExit.injEq, List.not_mem_nil, or_false, false_or] at hmem
    exact hmem.elim And.right And.right
  · have hmem := mem_entryActionsOf hentry
    simp [doorService] at hmem

/-- The door keeps to its contract. -/
theorem diligent_door : doorService.Diligent where
  configured := by
    intro src b hb
    rcases mem_permitsOf_door hb with ⟨-, rfl⟩ | ⟨-, rfl⟩ <;> decide
  quiet := by
    intro t h hh w op hop
    obtain rfl := eq_completeOperation_of_handles_door hh
    rw [List.mem_singleton.mp hop]
    trivial
  completes := by
    intro src b hb trigger _
    refine ⟨completeOperation, .inl (mem_exitActionsOf_iff.mpr ?_), fun w => List.mem_cons_self⟩
    rcases mem_permitsOf_door hb with ⟨rfl, -⟩ | ⟨rfl, -⟩ <;> simp [doorService]

/-- A door that is pushed twice and closed once is closed: the second push has no move. -/
theorem runPatches_eq_automaton_door :
    let door : FSMServiceDoc Unit := phoneDoc (some "Closed".toList) none
    let patch : String → PatchEvent Unit Bool := fun trigger =>
      ⟨some (phoneDoc none (some trigger.toList)), true, [], 1⟩
    (doorService.runPatches door [patch "Push", patch "Push", patch "Close"]).state =
        some "Closed".toList ∧
      doorService.commit (doorService.runPatches door [patch "Push"]) (patch "Push") = none := by
  intro door patch
  obtain ⟨hrun, hcommit, -⟩ := runPatches_eq_automaton guardsArePure_door diligent_door door true
  have hpush := hcommit [patch "Push"] (patch "Push")
  exact ⟨(hrun _).trans (by decide +kernel),
    Option.map_eq_none_iff.mp (hpush.trans (by decide +kernel))⟩

end FSMService

end XenonExt
