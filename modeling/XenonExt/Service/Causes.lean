import XenonExt.Service.HostedDocuments

/-! # Why a document is in its state

The patches of a document come from its clients, from the post that created it, and from the timers
of the states that it has been in. What each of them asks for is one label of the automaton, and the
document takes it or stays.

* **`askedBy`**: what an event of the host asks a document for.
* **`state_hostStep`**: a document follows its automaton, whatever happens on its host.
* **`Caused`**: where the labels come from.
* **`state_eq_asked`**: the state of every document of every run is explained so. -/

namespace XenonExt

variable {X O : Type}

/-! ## What is asked of a document -/

/-- What a patch asks a document for, by who has sent it. -/
inductive Asked
  | byClient (label : PatchLabel)
  | byPost (label : PatchLabel)
  | byExpiry (label : PatchLabel)

namespace Asked

/-- The label of the automaton. -/
def label : Asked → PatchLabel
  | byClient label | byPost label | byExpiry label => label

/-- What a client asks for. -/
def client? : Asked → Option PatchLabel
  | byClient label => some label
  | byPost _ | byExpiry _ => none

end Asked

/-- **What an event of a host asks the document at a link for.** -/
def askedBy (link : Str) (h : FSMHost X) : HostEvent X O → List Asked
  | .tick _ | .post _ _ | .timerFires _ => []
  | .clientPatch l p => if l = link then [.byClient p.label] else []
  | .deliverSelfPatch i _ =>
    match h.selfPatches[i]? with
    | some (l, body) => if l = link then [.byPost ⟨body.trigger, body.state⟩] else []
    | none => []
  | .deliver i _ =>
    match h.inFlight[i]? with
    | some (e, body) =>
      if e.timer.selfLink = link then [.byExpiry ⟨body.trigger, body.state⟩] else []
    | none => []

/-- An event of the host itself: no request of a client. -/
def HostEvent.IsOwn : HostEvent X O → Prop
  | .post _ _ | .clientPatch _ _ => False
  | .tick _ | .deliverSelfPatch _ _ | .timerFires _ | .deliver _ _ => True

/-- What a client asks the document at a link for. -/
def clientLabel (link : Str) : HostEvent X O → Option PatchLabel
  | .clientPatch l p => if l = link then some p.label else none
  | _ => none

/-- What clients ask is read off the events. -/
theorem filterMap_askedBy (link : Str) (h : FSMHost X) (event : HostEvent X O) :
    (askedBy link h event).filterMap Asked.client? = (clientLabel link event).toList := by
  cases event with
  | clientPatch l p => by_cases hl : l = link <;> simp [askedBy, clientLabel, hl, Asked.client?]
  | deliverSelfPatch i p =>
      simp only [askedBy, clientLabel, Option.toList_none]
      split
      · split <;> rfl
      · rfl
  | deliver i p =>
      simp only [askedBy, clientLabel, Option.toList_none]
      split
      · split <;> rfl
      · rfl
  | _ => rfl

/-- A document that exists has a system of its own. -/
theorem FSMHost.exists_view {h : FSMHost X} {link : Str} {hosted : HostedDocument X}
    (hdoc : h.documents link = some hosted) :
    ∃ sys, h.view link = some sys ∧ sys.doc = hosted.doc ∧
      sys.inFlight = h.inFlight.filter (·.1.timer.selfLink = link) :=
  ⟨_, by rw [view, hdoc, Option.map_some], rfl, rfl⟩

namespace FSMService

/-! ## One event -/

section Step

variable {svc : FSMService X O} {v : GuardValuation (ServiceGuard O)} (hpure : svc.GuardsArePure v)
  (hdiligent : svc.Diligent) {h : FSMHost X} {link : Str} {hosted : HostedDocument X}
include hpure hdiligent

/-- A patch of some document, for the document at a link. -/
theorem state_patchAt (hdoc : h.documents link = some hosted) (l : Str) (p : PatchEvent X O) :
    ∃ hosted', (svc.patchAt h l p).documents link = some hosted' ∧
      hosted'.doc.state = (if l = link then [p.label] else []).foldl
        (moveOrStay (destinationOf v svc.calls)) hosted.doc.state := by
  by_cases hl : l = link
  · subst hl
    rw [patchAt_documents_self, hdoc, if_pos rfl]
    exact ⟨_, rfl, documentAfter_state_eq hpure hdiligent hosted.doc p⟩
  · rw [patchAt_documents_of_ne (Ne.symm hl), hdoc, if_neg hl]
    exact ⟨hosted, rfl, rfl⟩

/-- **A document follows its automaton**, whatever happens on its host. -/
theorem state_hostStep (hdoc : h.documents link = some hosted) (event : HostEvent X O) :
    ∃ hosted', (svc.hostStep h event).documents link = some hosted' ∧
      hosted'.doc.state = ((askedBy link h event).map Asked.label).foldl
        (moveOrStay (destinationOf v svc.calls)) hosted.doc.state := by
  have hpatch : ∀ (h' : FSMHost X) l p (asked : PatchLabel → Asked), h'.documents = h.documents →
      (∀ label, (asked label).label = label) → ∃ hosted',
        (svc.patchAt h' l p).documents link = some hosted' ∧
          hosted'.doc.state = ((if l = link then [asked p.label] else []).map Asked.label).foldl
            (moveOrStay (destinationOf v svc.calls)) hosted.doc.state := by
    intro h' l p asked hsame hasked
    obtain ⟨hosted', hdoc', hstate⟩ := state_patchAt hpure hdiligent
      (hsame ▸ hdoc : h'.documents link = some hosted) l p
    refine ⟨hosted', hdoc', hstate.trans ?_⟩
    split
    · rw [List.map_cons, List.map_nil, hasked]
    · rfl
  cases event with
  | tick millis => exact ⟨hosted, hdoc, rfl⟩
  | post l op =>
      refine ⟨hosted, ?_, rfl⟩
      show (svc.postAt h l op).documents link = some hosted
      by_cases hl : link = l
      · subst hl
        rwa [postAt_of_some hdoc]
      · rwa [postAt_documents_of_ne hl]
  | clientPatch l p => exact hpatch h l p .byClient rfl fun _ => rfl
  | deliverSelfPatch i p =>
      simp only [hostStep, askedBy]
      cases h.selfPatches[i]? with
      | none => exact ⟨hosted, hdoc, rfl⟩
      | some s => exact hpatch _ s.1 { p with body := some s.2 } .byPost rfl fun _ => rfl
  | timerFires i =>
      refine ⟨hosted, ?_, rfl⟩
      simp only [hostStep]
      split
      · split <;> exact hdoc
      · exact hdoc
  | deliver i p =>
      simp only [hostStep, askedBy]
      cases h.inFlight[i]? with
      | none => exact ⟨hosted, hdoc, rfl⟩
      | some q =>
          exact hpatch _ q.1.timer.selfLink { p with body := some q.2 } .byExpiry rfl fun _ => rfl

end Step

/-! ## Causes -/

/-- **Where a label comes from**: a client has sent it, the post of the document has sent it with the
initial trigger, or it is that of an expiry of the state it names. -/
def Caused (svc : FSMService X O) (events : List (HostEvent X O)) (link : Str) : Asked → Prop
  | .byClient label => ∃ p, .clientPatch link p ∈ events ∧ p.label = label
  | .byPost label => label.state = some svc.initialState ∧ ∃ op, .post link op ∈ events ∧
      svc.initialTrigger (svc.handleStart op.unanswered).1 = label.trigger
  | .byExpiry label => ∃ delay, lastDelay svc.calls label.state label.trigger = some delay

/-- Causes are requests: a cause stays one where the requests are. -/
theorem Caused.mono {svc : FSMService X O} {events events' : List (HostEvent X O)} {link : Str}
    {asked : Asked} (h : svc.Caused events link asked)
    (hrequests : ∀ event ∈ events, ¬ event.IsOwn → event ∈ events') :
    svc.Caused events' link asked := by
  cases asked with
  | byClient label =>
      obtain ⟨p, hp, hlabel⟩ := h
      exact ⟨p, hrequests _ hp not_false, hlabel⟩
  | byPost label =>
      obtain ⟨hstate, op, hop, htrigger⟩ := h
      exact ⟨hstate, op, hrequests _ hop not_false, htrigger⟩
  | byExpiry label => exact h

/-- A cause stays one when the run goes on. -/
theorem Caused.append {svc : FSMService X O} {events : List (HostEvent X O)} {link : Str}
    {asked : Asked} (h : svc.Caused events link asked) (event : HostEvent X O) :
    svc.Caused (events ++ [event]) link asked :=
  h.mono fun _ he _ => List.mem_append_left _ he

section Causes

variable {svc : FSMService X O} (hvalidates : svc.ValidatesOnly) (now : Int)
  (events : List (HostEvent X O)) {link : Str}
include hvalidates

/-- The invariant of the timers holds of every document. -/
theorem view_invariant {sys : ExpirySystem X}
    (hview : (svc.hostRun (.empty now) events).view link = some sys) : svc.ExpiryInvariant sys := by
  refine view_induction (fun op d link now hcompleted => ?_) (fun sys event h => h.step event) hview
  have hposted : ({ d with documentSelfLink := link } : FSMServiceDoc X).state ≠ none :=
    have hd : d.state ≠ none := hvalidates.state_ne_none hcompleted
    hd
  exact svc.run_invariant hposted now []

/-- A self-patch on its way has its cause. -/
theorem caused_of_mem_selfPatches {body : FSMServiceDoc X}
    (hs : (link, body) ∈ (svc.hostRun (.empty now) events).selfPatches) :
    svc.Caused events link (.byPost ⟨body.trigger, body.state⟩) := by
  obtain ⟨-, hexist⟩ := selfPatchesSent_run hvalidates now events
  obtain ⟨-, op, hop, hstart⟩ := hexist _ (mem_sent_of_mem_selfPatches hs)
  obtain ⟨-, -, -, hstate, htrigger⟩ := handleStart_selfPatch hstart
  exact ⟨hstate, op, hop, htrigger⟩

/-- The patch of an expiry has its cause. -/
theorem caused_of_mem_inFlight {e : Expiry} {body : FSMServiceDoc X}
    (hq : (e, body) ∈ (svc.hostRun (.empty now) events).inFlight) :
    svc.Caused events link (.byExpiry ⟨body.trigger, body.state⟩) := by
  have hexists := (svc.hostRun_invariant now events).inFlight _ hq
  obtain ⟨hosted, hdoc⟩ := Option.ne_none_iff_exists'.mp hexists
  obtain ⟨sys, hview, -, hsame⟩ := FSMHost.exists_view hdoc
  have hmem : (e, body) ∈ sys.inFlight := by
    rw [hsame]
    exact List.mem_filter.mpr ⟨hq, decide_eq_true rfl⟩
  obtain ⟨hout, htrigger, hstate, -⟩ :=
    (view_invariant hvalidates now events hview).inFlight (e, body) hmem
  refine ⟨e.timer.delay, ?_⟩
  rw [hstate, htrigger]
  exact hout.delay

/-- **What an event asks a document for has its cause.** -/
theorem caused_askedBy (event : HostEvent X O) :
    ∀ asked ∈ askedBy link (svc.hostRun (.empty now) events) event,
      svc.Caused (events ++ [event]) link asked := by
  intro asked hasked
  cases event with
  | clientPatch l p =>
      obtain ⟨rfl, rfl⟩ : l = link ∧ asked = .byClient p.label := by
        simp only [askedBy] at hasked
        split at hasked
        · rename_i hl
          exact ⟨hl, List.mem_singleton.mp hasked⟩
        · cases hasked
      exact ⟨p, List.mem_append_right _ List.mem_cons_self, rfl⟩
  | deliverSelfPatch i p =>
      simp only [askedBy] at hasked
      split at hasked
      · rename_i l body hs
        split at hasked
        · rename_i hl
          subst hl
          obtain rfl := List.mem_singleton.mp hasked
          exact (caused_of_mem_selfPatches hvalidates now events (List.mem_of_getElem? hs)).append _
        · cases hasked
      · cases hasked
  | deliver i p =>
      simp only [askedBy] at hasked
      split at hasked
      · rename_i e body hq
        split at hasked
        · obtain rfl := List.mem_singleton.mp hasked
          exact (caused_of_mem_inFlight hvalidates now events (List.mem_of_getElem? hq)).append _
        · cases hasked
      · cases hasked
  | _ => cases hasked

end Causes

/-! ## Runs -/

/-- **A document is in its state because it was asked to be.** In every run of a host, every document
was created by a post, and its state is that of the automaton after the labels that it was asked for:
those of the clients' patches for it, in the order in which they were delivered, and labels that the
host has sent itself, the initial trigger of a post of the document or an expiry of the state that
the label names. -/
theorem state_eq_asked {svc : FSMService X O} {v : GuardValuation (ServiceGuard O)}
    (hvalidates : svc.ValidatesOnly) (hpure : svc.GuardsArePure v) (hdiligent : svc.Diligent)
    (now : Int) (events : List (HostEvent X O)) {link : Str} {hosted : HostedDocument X}
    (hdoc : (svc.hostRun (.empty now) events).documents link = some hosted) :
    ∃ op d₀, ∃ asked : List Asked, .post link op ∈ events ∧
      (svc.handleStart op.unanswered).1.outcome = .completed d₀ ∧
      hosted.doc.state = (asked.map Asked.label).foldl (moveOrStay (destinationOf v svc.calls))
        d₀.state ∧
      (asked.filterMap Asked.client?).Sublist (events.filterMap (clientLabel link)) ∧
      ∀ a ∈ asked, svc.Caused events link a := by
  induction events using List.reverseRecOn generalizing hosted with
  | nil => cases hdoc
  | append_singleton events event ih =>
      rw [hostRun_concat] at hdoc
      rw [List.filterMap_append]
      cases hbefore : (svc.hostRun (.empty now) events).documents link with
      | none =>
          have hnone : (svc.hostRun (.empty now) events).view link = none := by
            rw [FSMHost.view, hbefore, Option.map_none]
          obtain ⟨sys, hview, hsame, -⟩ := FSMHost.exists_view hdoc
          obtain ⟨op, d, rfl, hcompleted, hsys⟩ :=
            view_hostStep_of_none (svc.hostRun_invariant now events) hnone hview
          refine ⟨op, d, [], List.mem_append_right _ List.mem_cons_self, hcompleted, ?_,
            List.nil_sublist _, fun a ha => absurd ha List.not_mem_nil⟩
          rw [← hsame, hsys]
          rfl
      | some hosted₀ =>
          obtain ⟨op, d₀, asked, hop, hcompleted, hstate, hsub, hcaused⟩ := ih hbefore
          obtain ⟨hosted', hdoc', hstate'⟩ := state_hostStep hpure hdiligent hbefore event
          obtain rfl := Option.some.inj (hdoc'.symm.trans hdoc)
          refine ⟨op, d₀, asked ++ askedBy link (svc.hostRun (.empty now) events) event,
            List.mem_append_left _ hop, hcompleted, ?_, ?_, fun a ha => ?_⟩
          · rw [hstate', hstate, List.map_append, List.foldl_append]
          · rw [List.filterMap_append, filterMap_askedBy]
            have hone : (clientLabel link event).toList = [event].filterMap (clientLabel link) := by
              cases h : clientLabel link event <;> simp [h]
            exact hsub.append (hone ▸ List.Sublist.refl _)
          · rcases List.mem_append.mp ha with ha | ha
            · exact (hcaused a ha).append event
            · exact caused_askedBy hvalidates now events event a ha

end FSMService

end XenonExt
