import XenonExt.StateMachine.CallLog

/-! # The state machine as a stateful service

`FSMService` hosts a machine in a Xenon document: `handleStart` creates the document, `handlePatch`
fires the trigger named in the body of a patch, `statePopulator` is the persister it passes to the
machine, and `ExpiryScheduler` is the scheduler. Of Xenon the model keeps what the code relies on: an
operation carries a linked state and a body, `complete` commits the state linked at that moment, an
operation is answered once, and an exception that escapes a handler fails the operation.

User handlers are sequences of `HandlerOp`s that may depend on everything the handler can read. They
write the fields a subclass adds to the document, and, as the contract of `FSMServiceDoc` asks, not
the four fields of the machine. -/

namespace XenonExt

variable {X O : Type}

/-! ## Documents and operations -/

/-- **The service document**: the fields of the machine, the fields of `ServiceDocument` the code
reads, and the fields `X` that a subclass adds. -/
structure FSMServiceDoc (X : Type) where
  documentSelfLink : Str
  documentVersion : Int
  state : JString
  trigger : JString
  expiryTriggerAndDelays : Option ExpiryMap
  expireFromState : JString
  /-- The fields of the subclass. -/
  fields : X

/-- How an operation stands: unanswered, completed with the document it committed, or failed. -/
inductive Outcome (X : Type)
  | pending
  | completed (committed : FSMServiceDoc X)
  | failed (error : JavaException)

/-- An operation on a document: the state linked to it, its body, and its answer. -/
structure Operation (X : Type) where
  linkedState : FSMServiceDoc X
  body : Option (FSMServiceDoc X)
  statusCode : Nat
  outcome : Outcome X

namespace Operation

/-- `complete`: an unanswered operation commits the state linked to it. -/
def complete (op : Operation X) : Operation X :=
  match op.outcome with
  | .pending => { op with outcome := .completed op.linkedState }
  | _ => op

/-- `fail`: an unanswered operation fails. -/
def fail (op : Operation X) (error : JavaException) : Operation X :=
  match op.outcome with
  | .pending => { op with outcome := .failed error }
  | _ => op

@[simp] theorem complete_linkedState (op : Operation X) :
    op.complete.linkedState = op.linkedState := by
  unfold complete
  split <;> rfl

@[simp] theorem fail_linkedState (op : Operation X) (error : JavaException) :
    (op.fail error).linkedState = op.linkedState := by
  unfold fail
  split <;> rfl

/-- A failed operation commits nothing it had not committed before. -/
theorem fail_completed {op : Operation X} {error : JavaException} {d : FSMServiceDoc X} :
    (op.fail error).outcome = .completed d ↔ op.outcome = .completed d := by
  unfold fail
  cases h : op.outcome <;> simp [h]

end Operation

/-- A timer set by the expiry scheduler: after `delay` it patches the document at `selfLink` with
`trigger`, naming `state`. -/
structure Timer where
  selfLink : Str
  trigger : JString
  delay : Int
  state : JString
  deriving DecidableEq, Repr

/-- What the code handling one operation sees and changes: the operation, the timers it schedules,
and the world outside the service. -/
structure ServiceWorld (X O : Type) where
  op : Operation X
  timers : List Timer
  outside : O

/-! ## User handlers -/

/-- One step of a user handler. -/
inductive HandlerOp (X O : Type)
  /-- `setState` after changing fields of the subclass. -/
  | setState (write : X → X)
  /-- `complete` on the causing operation. -/
  | complete
  /-- `fail` on the causing operation. -/
  | fail (error : JavaException)
  /-- Any effect outside the operation. -/
  | outside (change : O → O)
  /-- Raise an exception. -/
  | raise (error : JavaException)

/-- **A user handler**: what it does, given the transition and everything it can read. -/
abbrev Handler (X O : Type) := Transition → ServiceWorld X O → List (HandlerOp X O)

/-- A guard of a service: a predicate on the trigger that may read and change the outside. -/
abbrev ServiceGuard (O : Type) := JString → EStateM JavaException O Bool

namespace ServiceWorld

/-- Change the operation of a world. -/
def mapOp (f : Operation X → Operation X) (w : ServiceWorld X O) : ServiceWorld X O :=
  { w with op := f w.op }

/-- Change the state linked to the operation of a world. -/
def mapLinked (f : FSMServiceDoc X → FSMServiceDoc X) (w : ServiceWorld X O) :
    ServiceWorld X O :=
  w.mapOp fun op => { op with linkedState := f op.linkedState }

end ServiceWorld

/-- Run one step of a handler. -/
def HandlerOp.run : HandlerOp X O → EStateM JavaException (ServiceWorld X O) Unit
  | .setState write => modify fun w => w.mapLinked fun d => { d with fields := write d.fields }
  | .complete => modify fun w => w.mapOp Operation.complete
  | .fail error => modify fun w => w.mapOp fun op => op.fail error
  | .outside change => modify fun w => { w with outside := change w.outside }
  | .raise error => throw error

/-- Run a handler: decide what to do, then do it up to the first exception. -/
def Handler.accept (h : Handler X O) (t : Transition) :
    EStateM JavaException (ServiceWorld X O) Unit := do
  let w ← get
  runAll HandlerOp.run (h t w)

/-- `completeOperation`: the handler that completes the causing operation. -/
def completeOperation : Handler X O := fun _ _ => [.complete]

/-- A guard runs on the outside of a world. -/
def ServiceGuard.test (g : ServiceGuard O) (trigger : JString) :
    EStateM JavaException (ServiceWorld X O) Bool := fun w =>
  match (g trigger).run w.outside with
  | .ok met o => .ok met { w with outside := o }
  | .error e o => .error e { w with outside := o }

/-! ## The service -/

/-- **A service**: the builder calls of its `stateMachineConfig`, and the methods it overrides. -/
structure FSMService (X O : Type) where
  initState : JString
  calls : List (BuilderCall (ServiceGuard O) (Handler X O))
  /-- `validateStartPost`, which may also answer or mark the operation. -/
  validateStartPost : Operation X → Bool × Operation X
  /-- `initialTrigger`. -/
  initialTrigger : Operation X → Option Str

namespace FSMService

/-- The configuration of the machine. -/
def stateMachineConfig (svc : FSMService X O) : StateMachineConfig (ServiceGuard O) (Handler X O) :=
  .build svc.initState svc.calls

/-- `Objects.toString(stateMachine.initState(), "Start")`. -/
def initialState (svc : FSMService X O) : Str := svc.initState.getD "Start".toList

/-- `handleStart`: validate, default the state, complete, and decide on the self-patch that fires
the initial trigger. A missing body leaves the operation to the host. -/
def handleStart (svc : FSMService X O) (post : Operation X) :
    Operation X × Option (FSMServiceDoc X) :=
  let (valid, op) := svc.validateStartPost post
  if valid then
    match op.body with
    | none => (op.fail .nullPointer, none)
    | some body =>
      let body := { body with state := some (body.state.getD svc.initialState) }
      let op := Operation.complete { op with linkedState := body, body := some body }
      if body.state = some svc.initialState then
        (op, (svc.initialTrigger op).map fun t => { body with trigger := some t })
      else (op, none)
  else if op.statusCode = 200 then
    (Operation.fail { op with statusCode := 400 } (.illegalArgument "Body not valid".toList), none)
  else (op, none)

/-- `statePopulator`: write destination and trigger into the linked state and into the body. -/
def statePopulator (t : Transition) : EStateM JavaException (ServiceWorld X O) Unit := do
  modify fun w => w.mapLinked fun d => { d with trigger := t.trigger, state := t.destination }
  let w ← get
  let body ← orRaise .nullPointer w.op.body
  modify fun w => w.mapOp fun op =>
    { op with body := some { body with trigger := t.trigger, state := t.destination } }

/-- `ExpiryScheduler.accept`: record the expiry in the linked state, then set one timer for each
expiry trigger. -/
def expiryScheduler (selfLink : Str) (triggerAndDelays : ExpiryMap) (t : Transition) :
    EStateM JavaException (ServiceWorld X O) Unit := do
  modify fun w => w.mapLinked fun d =>
    { d with expireFromState := t.destination, expiryTriggerAndDelays := some triggerAndDelays }
  modify fun w => { w with
    timers := w.timers ++ triggerAndDelays.entries.map (fun e =>
      ⟨selfLink, e.1, e.2, t.destination⟩) }

/-- The user code a machine hosted by the service calls, for the document at `selfLink`. -/
def userCode (selfLink : Str) : UserCode (ServiceWorld X O) (ServiceGuard O) (Handler X O) where
  test := ServiceGuard.test
  accept := Handler.accept
  statePersister := statePopulator
  expiryScheduler := some (expiryScheduler selfLink)
  fail error := modify fun w => w.mapOp fun op => op.fail error

/-- Fail the patch as a bad request. -/
def badRequest (selfLink : Str) (message : Str) :
    Machine (ServiceWorld X O) (Handler X O) Unit := do
  modify fun s => { s with world := s.world.mapOp (fun op => { op with statusCode := 400 }) }
  (userCode selfLink).emit (.fail (.illegalArgument message))

/-- The message of a patch for another state. -/
def otherStateMessage (patched src : JString) : Str :=
  " Patched state ".toList ++ text patched ++ " is different from actual state ".toList ++ text src

/-- **`handlePatch`**: reject a missing trigger and a state other than the current one, else fire
the trigger from the current state. -/
def handlePatch (svc : FSMService X O) : Machine (ServiceWorld X O) (Handler X O) Unit := do
  let s ← get
  let currentState := s.world.op.linkedState
  let patchBody ← orRaise .nullPointer s.world.op.body
  let src := currentState.state
  let trigger := patchBody.trigger
  let patched := patchBody.state.or src
  modify fun s => { s with
    world := s.world.mapOp (fun op => { op with body := some { patchBody with state := patched } }) }
  if trigger = none then badRequest currentState.documentSelfLink " Trigger can't be null".toList
  else if patched ≠ src then
    badRequest currentState.documentSelfLink (otherStateMessage patched src)
  else
    discard (StateMachine.fireTrigger (userCode currentState.documentSelfLink)
      svc.stateMachineConfig src trigger)

/-! ## One patch, and a run of patches -/

end FSMService

/-- **A patch as the host delivers it**: its body, the outside world at that moment, what handlers
still do after `handlePatch` has returned, and the version a commit would get. -/
structure PatchEvent (X O : Type) where
  body : Option (FSMServiceDoc X)
  outside : O
  late : List (HandlerOp X O)
  version : Int

/-- What the handling of a patch leaves behind. -/
structure Served (X O : Type) where
  /-- The world after the patch was handled. -/
  world : ServiceWorld X O
  /-- The exception that escaped `handlePatch`, if one did. -/
  raised : Option JavaException

namespace FSMService

/-- The world in which a patch on document `d` is handled. -/
def patchWorld (d : FSMServiceDoc X) (p : PatchEvent X O) : ServiceWorld X O where
  op := { linkedState := d, body := p.body, statusCode := 200, outcome := .pending }
  timers := []
  outside := p.outside

/-- **The host serves a patch**: it runs `handlePatch`, fails the operation when an exception
escapes, and lets an unanswered operation be answered later by its handlers. -/
def serve (svc : FSMService X O) (d : FSMServiceDoc X) (p : PatchEvent X O) : Served X O :=
  match svc.handlePatch.run ⟨patchWorld d p, []⟩ with
  | .error e s => ⟨s.world.mapOp fun op => op.fail e, some e⟩
  | .ok _ s =>
    match s.world.op.outcome with
    | .pending => ⟨finalState ((runAll HandlerOp.run p.late).run s.world), none⟩
    | _ => ⟨s.world, none⟩

/-- The version of the document a patch commits, if it commits one. -/
def commit (svc : FSMService X O) (d : FSMServiceDoc X) (p : PatchEvent X O) :
    Option (FSMServiceDoc X) :=
  match (svc.serve d p).world.op.outcome with
  | .completed d' => some { d' with documentVersion := p.version }
  | _ => none

/-- The document after a patch: the committed version, or the old one. -/
def documentAfter (svc : FSMService X O) (d : FSMServiceDoc X) (p : PatchEvent X O) :
    FSMServiceDoc X :=
  (svc.commit d p).getD d

/-- **The document after a sequence of patches**, handled one at a time. -/
def runPatches (svc : FSMService X O) (d : FSMServiceDoc X) (ps : List (PatchEvent X O)) :
    FSMServiceDoc X :=
  ps.foldl svc.documentAfter d

theorem runPatches_concat (svc : FSMService X O) (d : FSMServiceDoc X)
    (ps : List (PatchEvent X O)) (p : PatchEvent X O) :
    svc.runPatches d (ps ++ [p]) = svc.documentAfter (svc.runPatches d ps) p := by
  simp [runPatches, List.foldl_append]

end FSMService

/-! ## A sample service -/

/-- The telephone as a service: handler `0` completes the operation, the others only log. -/
def phoneService : FSMService Unit Unit where
  initState := some "OffHook".toList
  calls := phoneCalls fun n => if n = 0 then completeOperation else fun _ _ => []
  validateStartPost op := (true, op)
  initialTrigger _ := none

/-- A telephone document in a state. -/
def phoneDoc (state trigger : JString) : FSMServiceDoc Unit where
  documentSelfLink := "/phones/1".toList
  documentVersion := 0
  state := state
  trigger := trigger
  expiryTriggerAndDelays := none
  expireFromState := none
  fields := ()

/-- A post that creates a telephone without saying in which state. -/
def phonePost : Operation Unit where
  linkedState := phoneDoc none none
  body := some (phoneDoc none none)
  statusCode := 200
  outcome := .pending

/-- A patch with a trigger for the current state, whichever it is. -/
def phonePatch (trigger : Str) (version : Int) : PatchEvent Unit Unit where
  body := some (phoneDoc none (some trigger))
  outside := ()
  late := []
  version := version

end XenonExt
