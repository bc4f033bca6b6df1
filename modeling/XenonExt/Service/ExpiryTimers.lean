import XenonExt.Service.Patching

/-! # Timers, visits and expiry patches

A document, the timers its transitions have set, and the patches those timers have sent but that
were not delivered yet. Nothing cancels a timer, and an expiry patch names its state but not the
visit that set the timer, so an old timer can end a later visit of the same state.

* **`run_invariant`**: in every reachable state of the system, whatever the order of client patches,
  timer firings and deliveries, each outstanding expiry belongs to the patch that set its timer.
* **`expiry_ends_own_visit`**: an expiry patch that is accepted ends the visit that set its timer if
  and only if the document has not entered that state again in the meantime. -/

namespace XenonExt

variable {X O : Type}

/-! ## The system -/

/-- **A visit**: the committed patch that moved the document, numbered in the order of patches, when
it did, and the state entered. -/
structure Visit where
  number : Nat
  time : Int
  state : JString
  deriving DecidableEq, Repr

/-- **An expiry**: a timer, with the patch that set it and when. -/
structure Expiry where
  visit : Nat
  scheduledAt : Int
  timer : Timer
  deriving DecidableEq, Repr

/-- A document and everything that is under way for it. -/
structure ExpirySystem (X : Type) where
  doc : FSMServiceDoc X
  /-- The committed transitions, newest first. -/
  visits : List Visit
  /-- The timers that have not fired. -/
  timers : List Expiry
  /-- The patches sent by timers and not yet delivered. -/
  inFlight : List (Expiry × FSMServiceDoc X)
  /-- How many patches were handled. -/
  patches : Nat
  now : Int

/-- What can happen next. -/
inductive ExpiryEvent (X O : Type)
  /-- Time passes. -/
  | tick (millis : Nat)
  /-- A client patches the document; also the self-patch of the initial trigger. -/
  | clientPatch (p : PatchEvent X O)
  /-- A timer that is due fires: it reads the document and sends its patch. -/
  | timerFires (i : Nat)
  /-- A patch sent by a timer is delivered, under the conditions of `p`. -/
  | deliver (i : Nat) (p : PatchEvent X O)

namespace ExpirySystem

/-- A started document, without timers. -/
def start (d : FSMServiceDoc X) (now : Int) : ExpirySystem X where
  doc := d
  visits := []
  timers := []
  inFlight := []
  patches := 0
  now := now

/-- The body an expiry patch carries: the document as read, with trigger and state of the timer. -/
def expiryBody (d : FSMServiceDoc X) (e : Expiry) : FSMServiceDoc X :=
  { d with trigger := e.timer.trigger, state := e.timer.state }

end ExpirySystem

namespace FSMService

/-- Handle a patch: update the document, record the visit if a transition was committed, and keep
the timers that were set. -/
def handle (svc : FSMService X O) (sys : ExpirySystem X) (p : PatchEvent X O) : ExpirySystem X :=
  { sys with
    doc := svc.documentAfter sys.doc p
    visits := match svc.commit sys.doc p with
      | some c => ⟨sys.patches, sys.now, c.state⟩ :: sys.visits
      | none => sys.visits
    timers := sys.timers ++
      (svc.serve sys.doc p).world.timers.map fun timer => ⟨sys.patches, sys.now, timer⟩
    patches := sys.patches + 1 }

/-- One step of the system; an event that cannot happen changes nothing. -/
def expiryStep (svc : FSMService X O) (sys : ExpirySystem X) :
    ExpiryEvent X O → ExpirySystem X
  | .tick millis => { sys with now := sys.now + millis }
  | .clientPatch p => svc.handle sys p
  | .timerFires i =>
    match sys.timers[i]? with
    | some e =>
      if e.scheduledAt + e.timer.delay ≤ sys.now then
        { sys with
          timers := sys.timers.eraseIdx i
          inFlight := sys.inFlight ++ [(e, ExpirySystem.expiryBody sys.doc e)] }
      else sys
    | none => sys
  | .deliver i p =>
    match sys.inFlight[i]? with
    | some (_, body) =>
      svc.handle { sys with inFlight := sys.inFlight.eraseIdx i } { p with body := some body }
    | none => sys

/-- **A run of the system.** -/
def expiryRun (svc : FSMService X O) (sys : ExpirySystem X) (events : List (ExpiryEvent X O)) :
    ExpirySystem X :=
  events.foldl svc.expiryStep sys

theorem expiryRun_concat (svc : FSMService X O) (sys : ExpirySystem X)
    (events : List (ExpiryEvent X O)) (event : ExpiryEvent X O) :
    svc.expiryRun sys (events ++ [event]) = svc.expiryStep (svc.expiryRun sys events) event := by
  simp [expiryRun, List.foldl_append]

/-! ## The invariant -/

/-- **An outstanding expiry**: it was set by an earlier patch, with the delay configured for its
state; and if that patch was committed, it entered that state then. -/
structure Outstanding (svc : FSMService X O) (sys : ExpirySystem X) (e : Expiry) : Prop where
  visit_lt : e.visit < sys.patches
  state_ne_none : e.timer.state ≠ none
  delay : lastDelay svc.calls e.timer.state e.timer.trigger = some e.timer.delay
  entered : ∀ v ∈ sys.visits, v.number = e.visit →
    v.state = e.timer.state ∧ v.time = e.scheduledAt

/-- **The invariant of the system.** -/
structure ExpiryInvariant (svc : FSMService X O) (sys : ExpirySystem X) : Prop where
  state_ne_none : sys.doc.state ≠ none
  visits_decreasing : sys.visits.Pairwise fun v v' => v'.number < v.number
  visits_lt : ∀ v ∈ sys.visits, v.number < sys.patches
  doc_state : ∀ v, sys.visits.head? = some v → sys.doc.state = v.state
  timers : ∀ e ∈ sys.timers, svc.Outstanding sys e
  inFlight : ∀ q ∈ sys.inFlight, svc.Outstanding sys q.1 ∧
    q.2.trigger = q.1.timer.trigger ∧ q.2.state = q.1.timer.state ∧
    q.1.scheduledAt + q.1.timer.delay ≤ sys.now

/-- What a patch does to document and timers, in one place: nothing, or it enters a destination that
is not `null`, whose timers it sets. -/
theorem handled_patch (svc : FSMService X O) {d : FSMServiceDoc X} (hd : d.state ≠ none)
    (p : PatchEvent X O) :
    ∃ dest : JString, dest ≠ none ∧ svc.TimersOf dest (svc.serve d p).world ∧
      ∀ c, svc.commit d p = some c → c.state = dest := by
  rcases svc.patch_cases d p with h | ⟨body, b, w, h⟩
  · refine ⟨d.state, hd, fun timer ht => ?_, fun c hc => ?_⟩
    · rw [h.timers] at ht
      cases ht
    · obtain ⟨c', hc', -⟩ := commit_eq_some hc
      obtain ⟨e, he⟩ := h.failed
      rw [he] at hc'
      cases hc'
  · refine ⟨b.destination, h.selects.edge.destination_ne_none hd, h.timersOf, fun c hc => ?_⟩
    obtain ⟨c', hc', rfl⟩ := commit_of_documents h.documents_moved hc
    exact hc'.state

/-- A patch that commits nothing leaves the document and the visits. -/
theorem handle_of_not_committed {svc : FSMService X O} {sys : ExpirySystem X} {p : PatchEvent X O}
    (hc : svc.commit sys.doc p = none) :
    (svc.handle sys p).doc = sys.doc ∧ (svc.handle sys p).visits = sys.visits := by
  simp only [FSMService.handle, FSMService.documentAfter, hc, Option.getD_none, and_self]

/-- A commit replaces the document and opens a visit with the number of the patch. -/
theorem handle_of_committed {svc : FSMService X O} {sys : ExpirySystem X} {p : PatchEvent X O}
    {c : FSMServiceDoc X} (hc : svc.commit sys.doc p = some c) :
    (svc.handle sys p).doc = c ∧
      (svc.handle sys p).visits = ⟨sys.patches, sys.now, c.state⟩ :: sys.visits := by
  simp only [FSMService.handle, FSMService.documentAfter, hc, Option.getD_some, and_self]

/-- The visits after a patch are those before, and one that a commit opens. -/
theorem mem_visits_handle {svc : FSMService X O} {sys : ExpirySystem X} {p : PatchEvent X O}
    {v : Visit} (hv : v ∈ (svc.handle sys p).visits) : v ∈ sys.visits ∨
      ∃ c, svc.commit sys.doc p = some c ∧ v = ⟨sys.patches, sys.now, c.state⟩ := by
  cases hc : svc.commit sys.doc p with
  | none => exact .inl ((handle_of_not_committed hc).2 ▸ hv)
  | some c =>
      rw [(handle_of_committed hc).2] at hv
      exact (List.mem_cons.mp hv).symm.imp_right fun heq => ⟨c, rfl, heq⟩

/-- An expiry stays outstanding while patches are handled. -/
theorem Outstanding.handle {svc : FSMService X O} {sys : ExpirySystem X} {e : Expiry}
    (h : svc.Outstanding sys e) (p : PatchEvent X O) : svc.Outstanding (svc.handle sys p) e := by
  refine ⟨Nat.lt_succ_of_lt h.visit_lt, h.state_ne_none, h.delay, fun v hv hnumber => ?_⟩
  rcases mem_visits_handle hv with hv | ⟨c, -, rfl⟩
  · exact h.entered v hv hnumber
  · exact absurd h.visit_lt (by simp [← hnumber])

/-- A timer that a patch sets belongs to the visit that the patch opens, if any. -/
theorem ExpiryInvariant.outstanding_new {svc : FSMService X O} {sys : ExpirySystem X}
    (h : svc.ExpiryInvariant sys) (p : PatchEvent X O) {timer : Timer}
    (ht : timer ∈ (svc.serve sys.doc p).world.timers) :
    svc.Outstanding (svc.handle sys p) ⟨sys.patches, sys.now, timer⟩ := by
  obtain ⟨dest, hdest, htimers, hcommit⟩ := svc.handled_patch h.state_ne_none p
  obtain ⟨hstate, hdelay⟩ := htimers timer ht
  refine ⟨Nat.lt_succ_self _, by rw [hstate]; exact hdest, by rw [hstate]; exact hdelay, ?_⟩
  intro v hv hnumber
  rcases mem_visits_handle hv with hv | ⟨c, hc, rfl⟩
  · exact absurd hnumber (Nat.ne_of_lt (h.visits_lt v hv))
  · exact ⟨(hcommit c hc).trans hstate.symm, rfl⟩

/-- **Handling a patch keeps the invariant.** -/
theorem ExpiryInvariant.handle {svc : FSMService X O} {sys : ExpirySystem X}
    (h : svc.ExpiryInvariant sys) (p : PatchEvent X O) :
    svc.ExpiryInvariant (svc.handle sys p) := by
  obtain ⟨dest, hdest, -, hcommit⟩ := svc.handled_patch h.state_ne_none p
  -- timers are old or new
  have houtstanding : ∀ e ∈ (svc.handle sys p).timers, svc.Outstanding (svc.handle sys p) e := by
    intro e he
    rcases List.mem_append.mp he with he | he
    · exact (h.timers e he).handle p
    · obtain ⟨timer, ht, rfl⟩ := List.mem_map.mp he
      exact h.outstanding_new p ht
  have hinFlight : ∀ q ∈ (svc.handle sys p).inFlight, svc.Outstanding (svc.handle sys p) q.1 ∧
      q.2.trigger = q.1.timer.trigger ∧ q.2.state = q.1.timer.state ∧
      q.1.scheduledAt + q.1.timer.delay ≤ (svc.handle sys p).now :=
    fun q hq => ⟨(h.inFlight q hq).1.handle p, (h.inFlight q hq).2⟩
  have hvisits_lt : ∀ v ∈ (svc.handle sys p).visits, v.number < (svc.handle sys p).patches := by
    intro v hv
    rcases mem_visits_handle hv with hv | ⟨c, -, rfl⟩
    · exact Nat.lt_succ_of_lt (h.visits_lt v hv)
    · exact Nat.lt_succ_self _
  cases hc : svc.commit sys.doc p with
  | none =>
      obtain ⟨hdoc, hvisits⟩ := handle_of_not_committed hc
      refine ⟨by rw [hdoc]; exact h.state_ne_none, by rw [hvisits]; exact h.visits_decreasing,
        hvisits_lt, fun v hv => ?_, houtstanding, hinFlight⟩
      rw [hdoc]
      exact h.doc_state v (hvisits ▸ hv)
  | some c =>
      obtain ⟨hdoc, hvisits⟩ := handle_of_committed hc
      refine ⟨?_, ?_, hvisits_lt, fun v hv => ?_, houtstanding, hinFlight⟩
      · rw [hdoc, hcommit c hc]
        exact hdest
      · rw [hvisits]
        exact List.pairwise_cons.mpr ⟨h.visits_lt, h.visits_decreasing⟩
      · rw [hvisits] at hv
        cases hv
        rw [hdoc]

/-- Outstanding expiries are told from the visits and the number of patches alone. -/
theorem Outstanding.congr {svc : FSMService X O} {sys sys' : ExpirySystem X} {e : Expiry}
    (h : svc.Outstanding sys e) (hvisits : sys'.visits = sys.visits)
    (hpatches : sys'.patches = sys.patches) : svc.Outstanding sys' e :=
  ⟨hpatches ▸ h.visit_lt, h.state_ne_none, h.delay, hvisits ▸ h.entered⟩

/-- **Every step of the system keeps the invariant.** -/
theorem ExpiryInvariant.step {svc : FSMService X O} {sys : ExpirySystem X}
    (h : svc.ExpiryInvariant sys) (event : ExpiryEvent X O) :
    svc.ExpiryInvariant (svc.expiryStep sys event) := by
  cases event with
  | clientPatch p => exact h.handle p
  | tick millis =>
      -- time only makes timers due
      refine ⟨h.state_ne_none, h.visits_decreasing, h.visits_lt, h.doc_state,
        fun e he => (h.timers e he).congr rfl rfl, fun q hq => ?_⟩
      obtain ⟨hout, htrigger, hstate, hdue⟩ := h.inFlight q hq
      refine ⟨hout.congr rfl rfl, htrigger, hstate, ?_⟩
      show _ ≤ sys.now + (millis : Int)
      omega
  | timerFires i =>
      simp only [expiryStep]
      cases he : sys.timers[i]? with
      | none => exact h
      | some e =>
          by_cases hdue : e.scheduledAt + e.timer.delay ≤ sys.now
          · -- a due timer moves from the timers to the patches in flight
            simp only [if_pos hdue]
            refine ⟨h.state_ne_none, h.visits_decreasing, h.visits_lt, h.doc_state,
              fun e' he' => (h.timers e' (List.mem_of_mem_eraseIdx he')).congr rfl rfl,
              fun q hq => ?_⟩
            rcases List.mem_append.mp hq with hq | hq
            · exact ⟨(h.inFlight q hq).1.congr rfl rfl, (h.inFlight q hq).2⟩
            · rw [List.mem_singleton.mp hq]
              exact ⟨(h.timers e (List.mem_of_getElem? he)).congr rfl rfl, rfl, rfl, hdue⟩
          · simp only [if_neg hdue]
            exact h
  | deliver i p =>
      simp only [expiryStep]
      cases hq : sys.inFlight[i]? with
      | none => exact h
      | some q =>
          have hrest : svc.ExpiryInvariant { sys with inFlight := sys.inFlight.eraseIdx i } := by
            refine ⟨h.state_ne_none, h.visits_decreasing, h.visits_lt, h.doc_state,
              fun e he => (h.timers e he).congr rfl rfl, fun q hq => ?_⟩
            have hq' := h.inFlight q (List.mem_of_mem_eraseIdx hq)
            exact ⟨hq'.1.congr rfl rfl, hq'.2⟩
          exact hrest.handle _

/-- **Every reachable state of the system satisfies the invariant.** -/
theorem run_invariant (svc : FSMService X O) {d₀ : FSMServiceDoc X} (hd₀ : d₀.state ≠ none)
    (now : Int) (events : List (ExpiryEvent X O)) :
    svc.ExpiryInvariant (svc.expiryRun (.start d₀ now) events) := by
  induction events using List.reverseRecOn with
  | nil =>
      refine ⟨hd₀, List.Pairwise.nil, ?_, ?_, ?_, ?_⟩ <;>
        simp [expiryRun, ExpirySystem.start]
  | append_singleton events event ih =>
      rw [expiryRun_concat]
      exact ih.step event

/-! ## Expiries and visits -/

/-- **A run delivers an expiry patch**: one of its events, in the state `sys` reached by the events
before it, hands the patch `p` of the expiry `e` to the document. -/
def Delivers (svc : FSMService X O) (sys₀ : ExpirySystem X) (events : List (ExpiryEvent X O))
    (sys : ExpirySystem X) (e : Expiry) (p : PatchEvent X O) : Prop :=
  ∃ before i conditions after body, events = before ++ .deliver i conditions :: after ∧
    sys = svc.expiryRun sys₀ before ∧ sys.inFlight[i]? = some (e, body) ∧
    p = { conditions with body := some body }

/-- **The patch of an expiry acts**: its timer was set when the document entered a state, and
`handlePatch` accepts the patch. -/
def Acts (svc : FSMService X O) (sys : ExpirySystem X) (e : Expiry) (p : PatchEvent X O) : Prop :=
  (∃ v ∈ sys.visits, v.number = e.visit) ∧ ∃ body b w, svc.Accepts sys.doc p body b w

/-- **The document is in the visit of an expiry**: it is in the state that the visit entered, no
transition was committed since, and the delay configured for the state has passed in this visit. -/
structure InVisit (svc : FSMService X O) (sys : ExpirySystem X) (e : Expiry) : Prop where
  state : sys.doc.state = e.timer.state
  delay : lastDelay svc.calls e.timer.state e.timer.trigger = some e.timer.delay
  last : ∃ v, sys.visits.head? = some v ∧ v.number = e.visit ∧ v.state = e.timer.state ∧
    v.time + e.timer.delay ≤ sys.now

/-- **The document has not entered the state of an expiry again** since its timer was set. -/
def NotReentered (sys : ExpirySystem X) (e : Expiry) : Prop :=
  ∀ v ∈ sys.visits, e.visit < v.number → v.state ≠ e.timer.state

/-- **An expiry patch that acts ends its own visit if and only if its state was not entered
again.** In any state that satisfies the invariant. -/
theorem inVisit_iff_notReentered {svc : FSMService X O} {sys : ExpirySystem X}
    (h : svc.ExpiryInvariant sys) {e : Expiry} {body : FSMServiceDoc X} {i : Nat}
    {conditions : PatchEvent X O} (hq : sys.inFlight[i]? = some (e, body))
    (hacts : svc.Acts sys e { conditions with body := some body }) :
    svc.InVisit sys e ↔ NotReentered sys e := by
  obtain ⟨⟨v, hv, hnumber⟩, body', b, w, haccepts⟩ := hacts
  obtain ⟨hout, htrigger, hstate, hdue⟩ := h.inFlight (e, body) (List.mem_of_getElem? hq)
  obtain ⟨last, rest, hvisits⟩ := List.exists_cons_of_ne_nil (List.ne_nil_of_mem hv)
  have hdecreasing := h.visits_decreasing
  rw [hvisits] at hdecreasing
  constructor
  · rintro ⟨-, -, v', hlast, hnumber', -, -⟩ u hu hlater
    rw [hvisits] at hlast hu
    cases hlast
    rcases List.mem_cons.mp hu with rfl | hu
    · exact absurd hnumber' (Nat.ne_of_gt hlater)
    · have hless := (List.pairwise_cons.mp hdecreasing).1 u hu
      omega
  · intro hnot
    -- the patch names the current state, which the last visit entered
    have hdoc : sys.doc.state = e.timer.state := by
      have hnamed := haccepts.state
      rw [show body' = body from (Option.some.inj haccepts.body_eq).symm, hstate] at hnamed
      exact (hnamed.resolve_left hout.state_ne_none).symm
    have hlastState : last.state = e.timer.state := by
      rw [← hdoc]
      exact (h.doc_state last (by rw [hvisits]; rfl)).symm
    have hlastNumber : last.number = e.visit := by
      by_contra hne
      rw [hvisits] at hv
      rcases List.mem_cons.mp hv with rfl | hv
      · exact hne hnumber
      · have hless := (List.pairwise_cons.mp hdecreasing).1 v hv
        exact hnot last (by rw [hvisits]; exact List.mem_cons_self) (by omega) hlastState
    have hentered := hout.entered last (by rw [hvisits]; exact List.mem_cons_self) hlastNumber
    exact ⟨hdoc, hout.delay, last, by rw [hvisits]; rfl, hlastNumber, hlastState, by
      rw [hentered.2]
      exact hdue⟩

/-- **An expiry only ends the visit that set its timer, unless the state was entered again.** For
every configuration, every document that `handleStart` starts, every interleaving of client patches,
timer firings and deliveries, and every delivery of an expiry patch that acts: the document has
stayed in the visit that set the timer, for the configured delay, if and only if it has not entered
the state again since. So in a run in which no expiry patch is delivered after its state was entered
again, every expiry patch that acts ends its own visit. -/
theorem expiry_ends_own_visit (svc : FSMService X O) {post op : Operation X}
    (hvalid : svc.validateStartPost post = (true, op)) (hpending : op.outcome = .pending)
    {d₀ : FSMServiceDoc X} (hstart : (svc.handleStart post).1.outcome = .completed d₀) (now : Int)
    (events : List (ExpiryEvent X O)) :
    let sys₀ := ExpirySystem.start d₀ now
    (∀ sys e p, svc.Delivers sys₀ events sys e p → svc.Acts sys e p →
      (svc.InVisit sys e ↔ NotReentered sys e)) ∧
    ((∀ sys e p, svc.Delivers sys₀ events sys e p → NotReentered sys e) →
      ∀ sys e p, svc.Delivers sys₀ events sys e p → svc.Acts sys e p → svc.InVisit sys e) := by
  intro sys₀
  obtain ⟨body, -, rfl⟩ := handleStart_completed hvalid hpending hstart
  have hiff : ∀ sys e p, svc.Delivers sys₀ events sys e p → svc.Acts sys e p →
      (svc.InVisit sys e ↔ NotReentered sys e) := by
    rintro sys e p ⟨before, i, conditions, after, body, -, rfl, hq, rfl⟩ hacts
    exact inVisit_iff_notReentered
      (svc.run_invariant (Option.some_ne_none _) now before) hq hacts
  exact ⟨hiff, fun hrun sys e p hdel hacts => (hiff sys e p hdel hacts).mpr (hrun sys e p hdel)⟩

/-! ## A timer that outlives its visit -/

/-- A post that creates a telephone that is ringing. -/
def ringingPost : Operation Unit :=
  { phonePost with body := some (phoneDoc (some "Ringing".toList) none) }

/-- A phone is connected, hung up after 100 milliseconds, and connected again; when the timer of the
first call fires, its patch is on the way. -/
def secondCall : List (ExpiryEvent Unit Unit) :=
  [.clientPatch (phonePatch "CallConnected".toList 1), .tick 100,
    .clientPatch (phonePatch "HungUp".toList 2), .clientPatch (phonePatch "CallDialed".toList 3),
    .clientPatch (phonePatch "CallConnected".toList 4), .tick 29900, .timerFires 0]

/-- An expiry patch for a connected phone is accepted. -/
theorem phone_accepts_hungUp {d body : FSMServiceDoc Unit} {p : PatchEvent Unit Unit}
    (hd : d.state = some "Connected".toList) (hbody : p.body = some body)
    (htrigger : body.trigger = some "HungUp".toList)
    (hstate : body.state = some "Connected".toList) :
    ∃ b w, phoneService.Accepts d p body b w := by
  have hpermits : permits phoneService.calls (some "Connected".toList) (some "HungUp".toList) =
      [⟨some "HungUp".toList, .noGuard, some "OffHook".toList⟩] := by cbv
  rw [← hd, ← htrigger] at hpermits
  exact ⟨_, _, accepts_of_unguarded hbody (by rw [htrigger]; exact Option.some_ne_none _)
    (.inr (hstate.trans hd.symm)) (by rw [hd]; decide) hpermits rfl⟩

/-- **The timer of the first call hangs up the second one.** The first call was entered by patch `0`
and the second by patch `3`; at time `30000` the expiry patch of the first is accepted and moves the
document to `OffHook`, although the second call was only connected at time `100`. -/
theorem expiry_ends_later_visit :
    let sys := phoneService.expiryRun (.start (phoneDoc (some "Ringing".toList) none) 0) secondCall
    (phoneService.handleStart ringingPost).1.outcome =
        .completed (phoneDoc (some "Ringing".toList) none) ∧
      ∃ e p, phoneService.Delivers (.start (phoneDoc (some "Ringing".toList) none) 0)
          (secondCall ++ [.deliver 0 (phonePatch "HungUp".toList 5)]) sys e p ∧
        phoneService.Acts sys e p ∧ ¬ phoneService.InVisit sys e ∧
        sys.visits.head? = some ⟨3, 100, some "Connected".toList⟩ ∧ e.visit = 0 ∧
        e.timer.delay = 30000 ∧ sys.now = 30000 ∧
        (phoneService.documentAfter sys.doc p).state = some "OffHook".toList := by
  intro sys
  have hdoc : sys.doc.state = some "Connected".toList := by decide +kernel
  have hvisits : sys.visits.head? = some ⟨3, 100, some "Connected".toList⟩ ∧
      (∃ v ∈ sys.visits, v.number = 0) ∧ sys.now = 30000 := by decide +kernel
  have hpatch : sys.inFlight[0]?.map (fun q => (q.1.visit, q.1.timer.delay, q.2.trigger, q.2.state)) =
      some (0, 30000, some "HungUp".toList, some "Connected".toList) := by decide +kernel
  have hmoved : sys.inFlight[0]?.map (fun q => (phoneService.documentAfter sys.doc
      { phonePatch "HungUp".toList 5 with body := some q.2 }).state) =
        some (some "OffHook".toList) := by decide +kernel
  obtain ⟨⟨e, body⟩, hq, hfields⟩ := Option.map_eq_some_iff.mp hpatch
  simp only [Prod.mk.injEq] at hfields
  obtain ⟨hvisit, hdelay, htrigger, hstate⟩ := hfields
  rw [hq] at hmoved
  obtain ⟨hlast, hentered, hnow⟩ := hvisits
  refine ⟨rfl, e, _, ⟨secondCall, 0, _, [], body, rfl, rfl, hq, rfl⟩, ⟨?_, body, ?_⟩, ?_, hlast,
    hvisit, hdelay, hnow, Option.some.inj hmoved⟩
  · rw [hvisit]
    exact hentered
  · exact phone_accepts_hungUp hdoc rfl htrigger hstate
  · rintro ⟨-, -, v, hv, hnumber, -, -⟩
    rw [hlast] at hv
    cases hv
    rw [hvisit] at hnumber
    cases hnumber

/-- A phone whose call is not ended before its timer fires. -/
def firstCall : List (ExpiryEvent Unit Unit) :=
  [.clientPatch (phonePatch "CallConnected".toList 1), .tick 30000, .timerFires 0]

/-- The timer of a call that was not ended ends its own visit. -/
theorem expiry_ends_own_visit_phone :
    let sys := phoneService.expiryRun (.start (phoneDoc (some "Ringing".toList) none) 0) firstCall
    ∃ e, sys.inFlight[0]?.map Prod.fst = some e ∧ phoneService.InVisit sys e := by
  intro sys
  have hdoc : sys.doc.state = some "Connected".toList := by decide +kernel
  have hvisits : sys.visits = [⟨0, 0, some "Connected".toList⟩] := by decide +kernel
  have hpatch : sys.inFlight[0]?.map (fun q => (q.1.visit, q.2.trigger, q.2.state)) =
      some (0, some "HungUp".toList, some "Connected".toList) := by decide +kernel
  obtain ⟨⟨e, body⟩, hq, hfields⟩ := Option.map_eq_some_iff.mp hpatch
  simp only [Prod.mk.injEq] at hfields
  obtain ⟨hvisit, htrigger, hstate⟩ := hfields
  have hiff := (expiry_ends_own_visit phoneService
    (show phoneService.validateStartPost ringingPost = (true, ringingPost) from rfl) rfl
    (show (phoneService.handleStart ringingPost).1.outcome =
      .completed (phoneDoc (some "Ringing".toList) none) from rfl) 0
    (firstCall ++ [.deliver 0 (phonePatch "HungUp".toList 2)])).1 sys e _
    ⟨firstCall, 0, _, [], body, rfl, rfl, hq, rfl⟩
    ⟨⟨⟨0, 0, some "Connected".toList⟩, by rw [hvisits]; exact List.mem_cons_self, hvisit.symm⟩,
      body, phone_accepts_hungUp hdoc rfl htrigger hstate⟩
  refine ⟨e, by rw [hq]; rfl, hiff.mpr fun v hv hlater => ?_⟩
  rw [hvisits] at hv
  rw [List.mem_singleton.mp hv, hvisit] at hlater
  exact absurd hlater (Nat.lt_irrefl 0)

end FSMService

end XenonExt
