import XenonExt.Service.Patching

/-! # Which version of a document records its expiry

Entering a state with expiries writes them into the linked state between the exit actions and the
entry actions. A handler that completes the operation commits the linked state of that moment, so
the committed version carries the expiry only when no exit action completes.

* **`runHandlers_uncompleted` / `runHandlers_answers`**: handlers leave an operation uncompleted when
  none of their scripts completes it, and answered when one does and all of them return.
* **`expiry_recorded_iff`**: the version an accepted patch commits records the expiry of its
  destination if and only if no exit action completes the operation, or the document already carried
  that expiry. -/

namespace XenonExt

variable {X O : Type}

/-! ## Scripts of handlers -/

/-- Whether a step completes the operation. -/
def HandlerOp.isComplete : HandlerOp X O → Bool
  | .complete => true
  | _ => false

/-- Whether one of the steps of a script completes the operation. -/
def completes (script : List (HandlerOp X O)) : Bool := script.any HandlerOp.isComplete

/-- Run handlers one after the other. -/
def runHandlers (t : Transition) (hs : List (Handler X O)) :
    EStateM JavaException (ServiceWorld X O) Unit :=
  runAll (fun h => h.accept t) hs

/-- The scripts of handlers that run one after the other, each deciding in the world that the
earlier ones left. -/
def scripts (t : Transition) : List (Handler X O) → ServiceWorld X O → List (List (HandlerOp X O))
  | [], _ => []
  | h :: hs, w => h t w :: scripts t hs (finalState ((h.accept t).run w))

/-- No document was committed by the operation of a world. -/
def ServiceWorld.Uncompleted (w : ServiceWorld X O) : Prop := ∀ c, w.op.outcome ≠ .completed c

/-- Once answered, an operation keeps its answer. -/
theorem HandlerOp.preserves_answer (op : HandlerOp X O) {o : Outcome X} (ho : o ≠ .pending) :
    Preserves (fun w : ServiceWorld X O => w.op.outcome = o) op.run := by
  cases op with
  | setState write => exact preserves_modify fun w hw => hw
  | complete =>
      refine preserves_modify fun w hw => ?_
      cases o with
      | pending => exact absurd rfl ho
      | completed c => simp [ServiceWorld.mapOp, Operation.complete, hw]
      | failed e => simp [ServiceWorld.mapOp, Operation.complete, hw]
  | fail error =>
      refine preserves_modify fun w hw => ?_
      cases o with
      | pending => exact absurd rfl ho
      | completed c => simp [ServiceWorld.mapOp, Operation.fail, hw]
      | failed e => simp [ServiceWorld.mapOp, Operation.fail, hw]
  | outside change => exact preserves_modify fun w hw => hw
  | raise error => exact preserves_throw error

/-- Handlers do not change the answer of an answered operation. -/
theorem preserves_answer_runHandlers (t : Transition) (hs : List (Handler X O)) {o : Outcome X}
    (ho : o ≠ .pending) :
    Preserves (fun w : ServiceWorld X O => w.op.outcome = o) (runHandlers t hs) :=
  preserves_runAll fun _ _ => preserves_get_bind fun w hw =>
    preserves_runAll (fun op _ => HandlerOp.preserves_answer op ho) w hw

/-- A step that does not complete commits nothing. -/
theorem HandlerOp.preserves_uncompleted {op : HandlerOp X O} (h : op.isComplete = false) :
    Preserves ServiceWorld.Uncompleted op.run := by
  cases op with
  | setState write => exact preserves_modify fun w hw => hw
  | complete => cases h
  | fail error => exact preserves_modify fun w hw c hc => hw c (Operation.fail_completed.mp hc)
  | outside change => exact preserves_modify fun w hw => hw
  | raise error => exact preserves_throw error

/-- **Handlers whose scripts do not complete commit nothing**, whether they return or raise. -/
theorem runHandlers_uncompleted (t : Transition) {hs : List (Handler X O)} {w : ServiceWorld X O}
    (h : ∀ s ∈ scripts t hs w, completes s = false) (hw : w.Uncompleted) :
    (finalState ((runHandlers t hs).run w)).Uncompleted := by
  induction hs generalizing w with
  | nil => exact hw
  | cons a hs ih =>
      have hscript : (finalState ((a.accept t).run w)).Uncompleted :=
        preserves_runAll (fun op hop => HandlerOp.preserves_uncompleted
          (by simpa using List.any_eq_false.mp (h _ List.mem_cons_self) op hop)) w hw
      have hrest := ih (fun s hs' => h s (List.mem_cons_of_mem _ hs')) hscript
      show (finalState ((runAll _ (a :: hs)).run w)).Uncompleted
      rw [runAll_cons, EStateM.run_bind]
      cases hrun : (a.accept t).run w with
      | ok r w' =>
          rw [hrun] at hrest
          exact hrest
      | error e w' =>
          rw [hrun] at hscript
          exact hscript

/-- A script that completes and returns leaves the operation answered. -/
theorem runAll_script_answers {script : List (HandlerOp X O)} (h : completes script = true)
    {w w' : ServiceWorld X O} (hrun : (runAll HandlerOp.run script).run w = .ok () w') :
    w'.op.outcome ≠ .pending := by
  induction script generalizing w with
  | nil => cases h
  | cons op script ih =>
      rw [runAll_cons, EStateM.run_bind] at hrun
      cases hop : op.run.run w with
      | error e w₁ => rw [hop] at hrun; cases hrun
      | ok r w₁ =>
          rw [hop] at hrun
          replace hrun : (runAll HandlerOp.run script).run w₁ = .ok () w' := hrun
          cases hc : completes script with
          | true => exact ih hc hrun
          | false =>
              -- the step itself completes, and the later ones keep the answer
              have hcomplete : op.isComplete = true := by
                simpa [completes, List.any_cons, show script.any HandlerOp.isComplete = false from hc]
                  using h
              have hanswered : w₁.op.outcome ≠ .pending := by
                cases op with
                | complete =>
                    cases hop
                    cases ho : w.op.outcome <;> simp [ServiceWorld.mapOp, Operation.complete, ho]
                | _ => cases hcomplete
              have hkept : Preserves (fun w : ServiceWorld X O => w.op.outcome = w₁.op.outcome)
                  (runAll HandlerOp.run script) :=
                preserves_runAll fun op _ => HandlerOp.preserves_answer op hanswered
              have hend := hkept w₁ rfl
              rw [hrun] at hend
              exact fun hp => hanswered (hend.symm.trans hp)

/-- **Handlers of which one completes leave the operation answered** when they all return. -/
theorem runHandlers_answers (t : Transition) {hs : List (Handler X O)} {w w' : ServiceWorld X O}
    (h : ∃ s ∈ scripts t hs w, completes s = true) (hrun : (runHandlers t hs).run w = .ok () w') :
    w'.op.outcome ≠ .pending := by
  induction hs generalizing w with
  | nil =>
      obtain ⟨s, hs, -⟩ := h
      cases hs
  | cons a hs ih =>
      have hcons : runHandlers t (a :: hs) = (do a.accept t; runHandlers t hs) := rfl
      rw [hcons, EStateM.run_bind] at hrun
      cases ha : (a.accept t).run w with
      | error e w₁ => rw [ha] at hrun; cases hrun
      | ok r w₁ =>
          rw [ha] at hrun
          replace hrun : (runHandlers t hs).run w₁ = .ok () w' := hrun
          obtain ⟨s, hs', hc⟩ := h
          rw [scripts, ha] at hs'
          rcases List.mem_cons.mp hs' with rfl | hs'
          · -- this handler answers, and no later one takes the answer back
            have hanswered : w₁.op.outcome ≠ .pending := runAll_script_answers hc ha
            have hend := preserves_answer_runHandlers t hs hanswered w₁ rfl
            rw [hrun] at hend
            exact fun hp => hanswered (hend.symm.trans hp)
          · exact ih ⟨s, hs', hc⟩ hrun

namespace FSMService

/-! ## The expiry a document records -/

/-- **A document records the expiry of a state**: its name and the delays configured for it. -/
def RecordsExpiry (svc : FSMService X O) (state : JString) (c : FSMServiceDoc X) : Prop :=
  c.expireFromState = state ∧ ∃ m : ExpiryMap, c.expiryTriggerAndDelays = some m ∧
    ∀ trigger, m.lookup trigger = lastDelay svc.calls state trigger

/-- The expiry map the machine passes to the scheduler on entering a state. -/
def expiryMapOf (svc : FSMService X O) (state : JString) : ExpiryMap :=
  (represent state (callsOn svc.calls state)).expiryActions

/-- **What each exit action of a transition does** after the persister has run. -/
def exitScripts (svc : FSMService X O) (t : Transition) (w : ServiceWorld X O) :
    List (List (HandlerOp X O)) :=
  scripts t (exitActionsOf svc.calls t.source) (finalState ((statePopulator t).run w))

/-- Handlers leave the expiry fields of the documents as they are. -/
theorem preserves_expiry_runHandlers (t : Transition) (hs : List (Handler X O)) (state : JString)
    (m : Option ExpiryMap) :
    Preserves (ServiceWorld.Documents (O := O) fun c : FSMServiceDoc X =>
      c.expireFromState = state ∧ c.expiryTriggerAndDelays = m) (runHandlers t hs) :=
  preserves_runAll fun h _ => h.preserves_documents t fun _ _ _ _ hc => hc

/-- The scheduler writes the expiry into the linked state, and does not answer. -/
theorem expiryScheduler_run (selfLink : Str) (m : ExpiryMap) (t : Transition)
    (w : ServiceWorld X O) :
    ∃ w', (expiryScheduler selfLink m t).run w = .ok () w' ∧
      w'.op.linkedState = { w.op.linkedState with
        expireFromState := t.destination, expiryTriggerAndDelays := some m } ∧
      w'.op.outcome = w.op.outcome :=
  ⟨_, rfl, rfl, rfl⟩

/-- A state with an expiry delay is configured, and its expiry map is not empty. -/
theorem configured_of_lastDelay {svc : FSMService X O} {state trigger : JString} {delay : Int}
    (h : lastDelay svc.calls state trigger = some delay) :
    Configured svc.calls state ∧ (svc.expiryMapOf state).keys ≠ [] := by
  constructor
  · by_contra hc
    rw [lastDelay, callsOn_eq_nil hc] at h
    cases h
  · intro hkeys
    rw [lastDelay, ← represent_expiry_lookup state] at h
    have hmem : trigger ∈ (svc.expiryMapOf state).keys :=
      AList.mem_keys.mp (AList.lookup_isSome.mp (by
        show ((represent state (callsOn svc.calls state)).expiryActions.lookup trigger).isSome
        rw [h]
        rfl))
    rw [hkeys] at hmem
    cases hmem

/-- The effects the log prescribes, into a state with expiries, as runs of handlers. -/
theorem runAll_loggedEffects (svc : FSMService X O) (selfLink : Str) (src dest : JString)
    (trigger : Str) {m : ExpiryMap} (hm : m.keys ≠ []) :
    let t : Transition := ⟨src, dest, some trigger⟩
    runAll (userCode selfLink).perform (loggedEffects svc.calls m src dest trigger) = (do
      statePopulator t
      runHandlers t (exitActionsOf svc.calls src)
      expiryScheduler selfLink m t
      runHandlers t (entryActionsOf svc.calls dest trigger)) := by
  intro t
  simp only [loggedEffects, if_neg hm]
  rw [runAll_cons, runAll_append, runAll_map, runAll_append, runAll_map, runAll_cons,
    runAll_nil]
  simp only [bind_assoc, pure_bind]
  rfl

section Accepts

variable {svc : FSMService X O} {d : FSMServiceDoc X} {p : PatchEvent X O}
  {body : FSMServiceDoc X} {b : TriggerBehaviour (ServiceGuard O)} {w : ServiceWorld X O}
  (ha : svc.Accepts d p body b w) {trigger : Str} (htrigger : body.trigger = some trigger)
include ha htrigger

/-- An accepted patch into a configured state performs the effects the log prescribes. -/
theorem Accepts.handlePatch_run_logged (hdest : Configured svc.calls b.destination) :
    svc.handlePatch.run ⟨patchWorld d p, []⟩ =
      (performAll (userCode d.documentSelfLink).perform (loggedEffects svc.calls
        (svc.expiryMapOf b.destination) d.state b.destination trigger)).run ⟨w, []⟩ := by
  have hfire := StateMachine.fire_eq_of_configured (userCode d.documentSelfLink)
    svc.stateMachineConfig (t := ⟨d.state, b.destination, some trigger⟩)
    (getRepresentation_build_of_configured svc.initState ha.configured)
    (getRepresentation_build_of_configured svc.initState hdest)
  rw [firingEffects_eq_logged rfl] at hfire
  rw [ha.handlePatch_run, htrigger, hfire]
  exact discard_bind_pure_run _ _ _

variable {expiryTrigger : JString} {delay : Int}
  (hexpiry : lastDelay svc.calls b.destination expiryTrigger = some delay)
include hexpiry

/-- **The phases of an accepted patch.** The exit actions start in a world `w₁` with the old expiry.
If they raise, the host fails the operation; if they return, the entry actions start in a world `w₃`
that has the new expiry in its linked state, and `handlePatch` ends where they do. -/
theorem phases_of_accepts :
    let t : Transition := ⟨d.state, b.destination, some trigger⟩
    let exit := runHandlers t (exitActionsOf svc.calls d.state)
    let entry := runHandlers t (entryActionsOf svc.calls b.destination trigger)
    ∃ w₁ : ServiceWorld X O, svc.exitScripts t w = scripts t (exitActionsOf svc.calls d.state) w₁ ∧
      w₁.op.outcome = .pending ∧
      ((finalState (exit.run w₁)).Documents fun c => c.expireFromState = d.expireFromState ∧
        c.expiryTriggerAndDelays = d.expiryTriggerAndDelays) ∧
      (∀ e w₂, exit.run w₁ = .error e w₂ →
        (svc.serve d p).world = w₂.mapOp fun op => op.fail e) ∧
      ∀ w₂, exit.run w₁ = .ok () w₂ → ∃ w₃ : ServiceWorld X O,
        w₃.op.linkedState = { w₂.op.linkedState with
          expireFromState := b.destination,
          expiryTriggerAndDelays := some (svc.expiryMapOf b.destination) } ∧
        w₃.op.outcome = w₂.op.outcome ∧
        (finalState (svc.handlePatch.run ⟨patchWorld d p, []⟩)).world =
          finalState (entry.run w₃) := by
  intro t exit entry
  obtain ⟨hdest, hkeys⟩ := configured_of_lastDelay hexpiry
  obtain ⟨w₁, hpersist, hlinked, hpending, -⟩ := statePopulator_run t ha.op_eq.1
  -- the persister runs first: what is left are exit, schedule and entry
  have hlogged : (runAll (userCode d.documentSelfLink).perform (loggedEffects svc.calls
      (svc.expiryMapOf b.destination) d.state b.destination trigger)).run w = EStateM.run (do
        exit
        expiryScheduler d.documentSelfLink (svc.expiryMapOf b.destination) t
        entry) w₁ := by
    rw [runAll_loggedEffects svc _ _ _ _ hkeys, bind_run_ok hpersist]
  have hrun := ha.handlePatch_run_logged htrigger hdest
  refine ⟨w₁, ?_, hpending, ?_, fun e w₂ he => ?_, fun w₂ he => ?_⟩
  · show scripts t _ (finalState ((statePopulator t).run w)) = _
    rw [hpersist]
    rfl
  · refine preserves_expiry_runHandlers t _ d.expireFromState d.expiryTriggerAndDelays w₁ ⟨?_, ?_⟩
    · rw [hlinked]
      exact ⟨rfl, rfl⟩
    · exact fun c hc => absurd (hpending.symm.trans hc) (by simp)
  · -- an exit action raises: nothing is scheduled
    rw [bind_run_error he] at hlogged
    obtain ⟨done, x, rest, -, hperform⟩ :=
      performAll_run_error (userCode d.documentSelfLink).perform (s := ⟨w, []⟩) hlogged
    rw [hperform] at hrun
    unfold serve
    rw [hrun]
  · -- the exit actions return: the expiry is written before the entry actions run
    obtain ⟨w₃, hschedule, hlinked₃, houtcome₃⟩ :=
      expiryScheduler_run d.documentSelfLink (svc.expiryMapOf b.destination) t w₂
    refine ⟨w₃, hlinked₃, houtcome₃, ?_⟩
    rw [hrun, finalState_performAll_world, hlogged, bind_run_ok he, bind_run_ok hschedule]

/-- **After an exit action that completes, the version committed carries the old expiry**: the exit
actions run before the scheduler. -/
theorem expiry_of_exit_completes {c : FSMServiceDoc X} (hcommit : svc.commit d p = some c)
    (hexit : ∃ s ∈ svc.exitScripts ⟨d.state, b.destination, some trigger⟩ w, completes s = true) :
    c.expireFromState = d.expireFromState ∧
      c.expiryTriggerAndDelays = d.expiryTriggerAndDelays := by
  obtain ⟨w₁, hscripts, -, hold, hraise, hreturn⟩ := phases_of_accepts ha htrigger hexpiry
  rw [hscripts] at hexit
  obtain ⟨c', hc', rfl⟩ := commit_eq_some hcommit
  cases hrun : (runHandlers ⟨d.state, b.destination, some trigger⟩
      (exitActionsOf svc.calls d.state)).run w₁ with
  | error e w₂ =>
      rw [hrun] at hold
      rw [hraise e w₂ hrun] at hc'
      exact (hold.fail e).2 c' hc'
  | ok r w₂ =>
      rw [hrun] at hold
      obtain ⟨w₃, -, houtcome, hend⟩ := hreturn w₂ hrun
      have hanswered : w₂.op.outcome ≠ .pending := runHandlers_answers _ hexit hrun
      have hkept := preserves_answer_runHandlers ⟨d.state, b.destination, some trigger⟩
        (entryActionsOf svc.calls b.destination trigger) hanswered w₃ houtcome
      rw [serve_answer hanswered (by rw [hend]; exact hkept)] at hc'
      exact hold.2 c' hc'

/-- **When no exit action completes, the version committed carries the new expiry.** -/
theorem expiry_of_exits_uncompleted {c : FSMServiceDoc X} (hcommit : svc.commit d p = some c)
    (hexit : ∀ s ∈ svc.exitScripts ⟨d.state, b.destination, some trigger⟩ w,
      completes s = false) :
    c.expireFromState = b.destination ∧
      c.expiryTriggerAndDelays = some (svc.expiryMapOf b.destination) := by
  obtain ⟨w₁, hscripts, hpending, -, hraise, hreturn⟩ := phases_of_accepts ha htrigger hexpiry
  rw [hscripts] at hexit
  have hnone := runHandlers_uncompleted ⟨d.state, b.destination, some trigger⟩ hexit
    (fun c hc => by rw [hpending] at hc; cases hc)
  obtain ⟨c', hc', rfl⟩ := commit_eq_some hcommit
  cases hrun : (runHandlers ⟨d.state, b.destination, some trigger⟩
      (exitActionsOf svc.calls d.state)).run w₁ with
  | error e w₂ =>
      -- the operation was failed: nothing was committed
      rw [hrun] at hnone
      rw [hraise e w₂ hrun] at hc'
      exact absurd (Operation.fail_completed.mp hc') (hnone c')
  | ok r w₂ =>
      rw [hrun] at hnone
      obtain ⟨w₃, hlinked, houtcome, hend⟩ := hreturn w₂ hrun
      -- the entry actions run on a document that has the expiry already
      have hnew := preserves_expiry_runHandlers ⟨d.state, b.destination, some trigger⟩
        (entryActionsOf svc.calls b.destination trigger) b.destination
        (some (svc.expiryMapOf b.destination)) w₃
        ⟨by rw [hlinked]; exact ⟨rfl, rfl⟩, fun c hc => absurd (houtcome.symm.trans hc) (hnone c)⟩
      rw [← hend] at hnew
      have hserved := serve_invariant hnew (fun w e hw => hw.fail e) (preserves_runAll fun op _ =>
        op.preserves_documents fun _ _ _ hc => hc)
      exact hserved.2 c' hc'

end Accepts

/-- **The committed version records the expiry of the destination if and only if no exit action
completes the operation, or the document carried that expiry already.** For every configuration,
every accepted patch into a state with an expiry, and the version it commits, whichever handlers
complete the operation, fail it or raise. -/
theorem expiry_recorded_iff {svc : FSMService X O} {d : FSMServiceDoc X} {p : PatchEvent X O}
    {body : FSMServiceDoc X} {b : TriggerBehaviour (ServiceGuard O)} {w : ServiceWorld X O}
    (ha : svc.Accepts d p body b w) {trigger : Str} (htrigger : body.trigger = some trigger)
    {expiryTrigger : JString} {delay : Int}
    (hexpiry : lastDelay svc.calls b.destination expiryTrigger = some delay)
    {c : FSMServiceDoc X} (hcommit : svc.commit d p = some c) :
    svc.RecordsExpiry b.destination c ↔
      (∀ s ∈ svc.exitScripts ⟨d.state, b.destination, some trigger⟩ w, completes s = false) ∨
        svc.RecordsExpiry b.destination d := by
  by_cases hexit : ∀ s ∈ svc.exitScripts ⟨d.state, b.destination, some trigger⟩ w,
      completes s = false
  · obtain ⟨hfrom, hmap⟩ := expiry_of_exits_uncompleted ha htrigger hexpiry hcommit hexit
    refine iff_of_true ⟨hfrom, _, hmap, fun e => ?_⟩ (.inl hexit)
    exact represent_expiry_lookup b.destination e (callsOn svc.calls b.destination)
  · have hsome : ∃ s ∈ svc.exitScripts ⟨d.state, b.destination, some trigger⟩ w,
        completes s = true := by
      simpa using hexit
    obtain ⟨hfrom, hmap⟩ := expiry_of_exit_completes ha htrigger hexpiry hcommit hsome
    simp only [hexit, false_or, RecordsExpiry, hfrom, hmap]

/-- **An expiry that no version records**: `Connected` completes its operations in an exit action,
so putting a connected phone on hold commits a version without the expiry of `OnHold`. The entry
action of `OnHold` does not complete. -/
theorem expiry_not_recorded_phone :
    let d := phoneDoc (some "Connected".toList) none
    let trigger := "PlacedOnHold".toList
    let p := phonePatch trigger 3
    let b : TriggerBehaviour (ServiceGuard Unit) := ⟨some trigger, .noGuard, some "OnHold".toList⟩
    let t : Transition := ⟨d.state, b.destination, some trigger⟩
    let w := namedWorld d p (phoneDoc none (some trigger))
    phoneService.Accepts d p (phoneDoc none (some trigger)) b w ∧
      lastDelay phoneService.calls b.destination (some "HungUp".toList) = some 300 ∧
      phoneService.exitScripts t w = [[], [.complete]] ∧
      entryActionsOf phoneService.calls b.destination trigger = [fun _ _ => []] ∧ p.late = [] ∧
      ∃ c, phoneService.commit d p = some c ∧ c.expireFromState = none ∧
        ¬ phoneService.RecordsExpiry b.destination c := by
  intro d trigger p b t w
  have hexitActions : exitActionsOf phoneService.calls (some "Connected".toList) =
      [fun _ _ => [], completeOperation] := by cbv
  have hentryActions : entryActionsOf phoneService.calls (some "OnHold".toList)
      "PlacedOnHold".toList = [fun _ _ => []] := by cbv
  have hpermits : permits phoneService.calls (some "Connected".toList)
      (some "PlacedOnHold".toList) =
        [⟨some "PlacedOnHold".toList, .noGuard, some "OnHold".toList⟩] := by cbv
  have ha : phoneService.Accepts d p (phoneDoc none (some trigger)) b w :=
    accepts_of_unguarded rfl (Option.some_ne_none _) (.inl rfl) (by decide) hpermits rfl
  have hdelay : lastDelay phoneService.calls b.destination (some "HungUp".toList) = some 300 := by
    decide
  have hexits : phoneService.exitScripts t w = [[], [.complete]] := by
    show scripts t (exitActionsOf phoneService.calls (some "Connected".toList)) _ = _
    rw [hexitActions]
    rfl
  obtain ⟨c, hcommit⟩ := Option.isSome_iff_exists.mp
    (show (phoneService.commit d p).isSome = true by decide +kernel)
  have hfrom : c.expireFromState = none :=
    (expiry_of_exit_completes ha rfl hdelay hcommit ⟨[.complete], by rw [hexits]; simp, rfl⟩).1
  refine ⟨ha, hdelay, hexits, hentryActions, rfl, c, hcommit, hfrom, fun hrec => ?_⟩
  have hnone : (none : JString) = some "OnHold".toList := hfrom.symm.trans hrec.1
  cases hnone

/-- Connecting a ringing phone completes in an entry action, and its expiry is recorded. -/
theorem expiry_recorded_iff_phone :
    ∃ c, phoneService.commit (phoneDoc (some "Ringing".toList) none)
        (phonePatch "CallConnected".toList 2) = some c ∧
      phoneService.RecordsExpiry (some "Connected".toList) c := by
  have hexitActions : exitActionsOf phoneService.calls (some "Ringing".toList) =
      [fun _ _ => []] := by cbv
  have hpermits : permits phoneService.calls (some "Ringing".toList)
      (some "CallConnected".toList) =
        [⟨some "CallConnected".toList, .noGuard, some "Connected".toList⟩] := by cbv
  have ha : phoneService.Accepts (phoneDoc (some "Ringing".toList) none)
      (phonePatch "CallConnected".toList 2) (phoneDoc none (some "CallConnected".toList))
      ⟨some "CallConnected".toList, .noGuard, some "Connected".toList⟩ _ :=
    accepts_of_unguarded rfl (Option.some_ne_none _) (.inl rfl) (by decide) hpermits rfl
  obtain ⟨c, hcommit⟩ := Option.isSome_iff_exists.mp
    (show (phoneService.commit (phoneDoc (some "Ringing".toList) none)
      (phonePatch "CallConnected".toList 2)).isSome = true by decide +kernel)
  have hiff := expiry_recorded_iff ha rfl
    (show lastDelay phoneService.calls (some "Connected".toList) (some "HungUp".toList) =
      some 30000 by decide) hcommit
  refine ⟨c, hcommit, hiff.mpr (.inl fun s hs => ?_)⟩
  unfold exitScripts at hs
  have hs' : s ∈ scripts _ (exitActionsOf phoneService.calls (some "Ringing".toList)) _ := hs
  rw [hexitActions] at hs'
  rw [List.mem_singleton.mp hs']
  rfl

end FSMService

end XenonExt
