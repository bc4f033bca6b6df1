import XenonExt.Effects.RelatedLists
import XenonExt.Service.VisitExpiry

/-! # The documents of a host

A host keeps many documents of one service class. Clients post and patch them in any order; all
documents share the clock, the executor of the timers and the network that carries the patches of
timers and the self-patches of new documents.

* **`FSMHost.view`**: what of a host concerns one document.
* **`view_hostStep`**: an event of the host is an event of the document it addresses, and of no
  other.
* **`hosted_document_runs`**: so every document of a host runs as if it were alone, from the post
  that created it.
* **`selfPatches_sent_once`**, **`deliver_selfPatch`**: a document gets its initial trigger once, and
  only the initial state takes it.
* **`no_document_overdue`**: no document stays in a state for longer than its expiry allows. -/

namespace XenonExt

variable {X O : Type}

/-! ## Hosts -/

/-- A document on a host, with its visits and the number of its patches. -/
structure HostedDocument (X : Type) where
  doc : FSMServiceDoc X
  visits : List Visit
  patches : Nat

/-- **A host**: its documents by link, the timers of all documents, and the patches on their way. -/
structure FSMHost (X : Type) where
  documents : Str → Option (HostedDocument X)
  /-- The timers that have not fired. -/
  timers : List Expiry
  /-- The patches sent by timers and not yet delivered. -/
  inFlight : List (Expiry × FSMServiceDoc X)
  /-- The self-patches of new documents, not yet delivered. -/
  selfPatches : List (Str × FSMServiceDoc X)
  now : Int

/-- What can happen next on a host. -/
inductive HostEvent (X O : Type)
  /-- Time passes. -/
  | tick (millis : Nat)
  /-- A client posts a document to a link. -/
  | post (link : Str) (op : Operation X)
  /-- A client patches the document at a link. -/
  | clientPatch (link : Str) (p : PatchEvent X O)
  /-- A self-patch is delivered, under the conditions of `p`. -/
  | deliverSelfPatch (i : Nat) (p : PatchEvent X O)
  /-- A timer that is due fires: it reads its document and sends its patch. -/
  | timerFires (i : Nat)
  /-- A patch sent by a timer is delivered, under the conditions of `p`. -/
  | deliver (i : Nat) (p : PatchEvent X O)

namespace FSMHost

/-- A host without documents. -/
def empty (now : Int) : FSMHost X where
  documents := fun _ => none
  timers := []
  inFlight := []
  selfPatches := []
  now := now

/-- **What of a host concerns the document at a link.** -/
def view (h : FSMHost X) (link : Str) : Option (ExpirySystem X) :=
  (h.documents link).map fun hosted =>
    { doc := hosted.doc
      visits := hosted.visits
      timers := h.timers.filter (·.timer.selfLink = link)
      inFlight := h.inFlight.filter (·.1.timer.selfLink = link)
      patches := hosted.patches
      now := h.now }

end FSMHost

/-- A post as the host delivers it: nobody has answered it. -/
def Operation.unanswered (op : Operation X) : Operation X :=
  { op with statusCode := 200, outcome := .pending }

namespace FSMService

/-- The document that a post creates at a link: the one the operation was completed with. -/
def created (svc : FSMService X O) (link : Str) (op : Operation X) : Option (HostedDocument X) :=
  match (svc.handleStart op.unanswered).1.outcome with
  | .completed d => some ⟨{ d with documentSelfLink := link }, [], 0⟩
  | _ => none

/-- The host starts the service of a new document, and sends its self-patch; a link that is taken is
a conflict. -/
def postAt (svc : FSMService X O) (h : FSMHost X) (link : Str) (op : Operation X) : FSMHost X :=
  match h.documents link with
  | some _ => h
  | none =>
    { h with
      documents := Function.update h.documents link (svc.created link op)
      selfPatches := h.selfPatches ++
        ((svc.handleStart op.unanswered).2.map fun body => (link, body)).toList }

/-- A document after a patch: a commit replaces it and opens a visit. -/
def patched (svc : FSMService X O) (now : Int) (hosted : HostedDocument X) (p : PatchEvent X O) :
    HostedDocument X where
  doc := svc.documentAfter hosted.doc p
  visits := match svc.commit hosted.doc p with
    | some c => ⟨hosted.patches, now, c.state⟩ :: hosted.visits
    | none => hosted.visits
  patches := hosted.patches + 1

/-- The timers that a patch of a document sets. -/
def timersSet (svc : FSMService X O) (now : Int) (hosted : HostedDocument X) (p : PatchEvent X O) :
    List Expiry :=
  (svc.serve hosted.doc p).world.timers.map fun timer => ⟨hosted.patches, now, timer⟩

/-- The host serves a patch of the document at a link. -/
def patchAt (svc : FSMService X O) (h : FSMHost X) (link : Str) (p : PatchEvent X O) : FSMHost X :=
  match h.documents link with
  | none => h
  | some hosted =>
    { h with
      documents := Function.update h.documents link (some (svc.patched h.now hosted p))
      timers := h.timers ++ svc.timersSet h.now hosted p }

/-- One step of a host; an event that cannot happen changes nothing. -/
def hostStep (svc : FSMService X O) (h : FSMHost X) : HostEvent X O → FSMHost X
  | .tick millis => { h with now := h.now + millis }
  | .post link op => svc.postAt h link op
  | .clientPatch link p => svc.patchAt h link p
  | .deliverSelfPatch i p =>
    match h.selfPatches[i]? with
    | some (link, body) => svc.patchAt { h with selfPatches := h.selfPatches.eraseIdx i } link
        { p with body := some body }
    | none => h
  | .timerFires i =>
    match h.timers[i]? with
    | some e =>
      if e.scheduledAt + e.timer.delay ≤ h.now then
        { h with
          timers := h.timers.eraseIdx i
          inFlight := h.inFlight ++ ((h.documents e.timer.selfLink).map fun hosted =>
            (e, ExpirySystem.expiryBody hosted.doc e)).toList }
      else h
    | none => h
  | .deliver i p =>
    match h.inFlight[i]? with
    | some (e, body) => svc.patchAt { h with inFlight := h.inFlight.eraseIdx i } e.timer.selfLink
        { p with body := some body }
    | none => h

/-- **A run of a host.** -/
def hostRun (svc : FSMService X O) (h : FSMHost X) (events : List (HostEvent X O)) : FSMHost X :=
  events.foldl svc.hostStep h

theorem hostRun_concat (svc : FSMService X O) (h : FSMHost X) (events : List (HostEvent X O))
    (event : HostEvent X O) :
    svc.hostRun h (events ++ [event]) = svc.hostStep (svc.hostRun h events) event := by
  simp [hostRun, List.foldl_append]

end FSMService

/-- **The events of one document** in an event of its host: time is shared, and everything else
concerns the document it addresses only. -/
def eventsOf (link : Str) (h : FSMHost X) : HostEvent X O → List (ExpiryEvent X O)
  | .tick millis => [.tick millis]
  | .post _ _ => []
  | .clientPatch l p => if l = link then [.clientPatch p] else []
  | .deliverSelfPatch i p =>
    match h.selfPatches[i]? with
    | some (l, body) => if l = link then [.clientPatch { p with body := some body }] else []
    | none => []
  | .timerFires i =>
    match h.timers[i]? with
    | some e =>
      if e.timer.selfLink = link then
        [.timerFires ((h.timers.take i).countP (·.timer.selfLink = link))]
      else []
    | none => []
  | .deliver i p =>
    match h.inFlight[i]? with
    | some (e, _) =>
      if e.timer.selfLink = link then
        [.deliver ((h.inFlight.take i).countP (·.1.timer.selfLink = link)) p]
      else []
    | none => []

namespace FSMService

/-! ## What keeps documents apart -/

/-- **The invariant of a host**: a document knows its link, and timers and their patches belong to
documents that exist. -/
structure HostInvariant (h : FSMHost X) : Prop where
  link : ∀ link hosted, h.documents link = some hosted → hosted.doc.documentSelfLink = link
  timers : ∀ e ∈ h.timers, h.documents e.timer.selfLink ≠ none
  inFlight : ∀ q ∈ h.inFlight, h.documents q.1.timer.selfLink ≠ none

/-- The timers of a patch are for the document that is patched. -/
theorem selfLink_of_mem_timers {svc : FSMService X O} {d : FSMServiceDoc X} {p : PatchEvent X O}
    {timer : Timer} (h : timer ∈ (svc.serve d p).world.timers) :
    timer.selfLink = d.documentSelfLink := by
  rcases svc.patch_cases d p with hrej | ⟨body, b, w, ha⟩
  · rw [hrej.timers] at h
    cases h
  · rcases ha.timers_cases with heq | ⟨heq, -⟩
    · rw [heq] at h
      exact (mem_timersOn_iff.mp h).1
    · rw [heq] at h
      cases h

/-- A patch leaves the link of its document. -/
theorem documentAfter_selfLink (svc : FSMService X O) (d : FSMServiceDoc X) (p : PatchEvent X O) :
    (svc.documentAfter d p).documentSelfLink = d.documentSelfLink := by
  rcases svc.patch_cases d p with h | ⟨body, b, w, h⟩
  · rw [h.documentAfter]
  · cases hcommit : svc.commit d p with
    | none => rw [documentAfter, hcommit, Option.getD_none]
    | some d' =>
        obtain ⟨c, hc, rfl⟩ := commit_of_documents h.documents_moved hcommit
        rw [documentAfter, hcommit, Option.getD_some]
        exact hc.documentSelfLink

section Step

variable {svc : FSMService X O} {h : FSMHost X} {link : Str}

/-- Serving a patch, by the document it addresses. -/
theorem patchAt_of_some {hosted : HostedDocument X} (hdoc : h.documents link = some hosted)
    (p : PatchEvent X O) :
    svc.patchAt h link p =
      { h with
        documents := Function.update h.documents link (some (svc.patched h.now hosted p))
        timers := h.timers ++ svc.timersSet h.now hosted p } := by
  rw [patchAt, hdoc]

/-- A patch for no document changes nothing. -/
theorem patchAt_of_none (hdoc : h.documents link = none) (p : PatchEvent X O) :
    svc.patchAt h link p = h := by
  rw [patchAt, hdoc]

/-- A patch is for one document. -/
theorem patchAt_documents_of_ne {l : Str} (hne : l ≠ link) (p : PatchEvent X O) :
    (svc.patchAt h link p).documents l = h.documents l := by
  cases hdoc : h.documents link with
  | none => rw [patchAt_of_none hdoc]
  | some hosted =>
      rw [patchAt_of_some hdoc]
      exact Function.update_of_ne hne _ _

/-- The document that a patch is for. -/
theorem patchAt_documents_self (p : PatchEvent X O) :
    (svc.patchAt h link p).documents link =
      (h.documents link).map fun hosted => svc.patched h.now hosted p := by
  cases hdoc : h.documents link with
  | none => rw [patchAt_of_none hdoc, hdoc, Option.map_none]
  | some hosted =>
      rw [patchAt_of_some hdoc]
      exact Function.update_self _ _ _

/-- Patches remove no document. -/
theorem patchAt_documents_ne_none {l : Str} (p : PatchEvent X O) (hl : h.documents l ≠ none) :
    (svc.patchAt h link p).documents l ≠ none := by
  by_cases heq : l = link
  · subst heq
    rw [patchAt_documents_self]
    simpa using hl
  · rwa [patchAt_documents_of_ne heq]

/-- The timers of a patch are for the document at its link. -/
theorem selfLink_of_mem_timersSet (hinv : HostInvariant h) {hosted : HostedDocument X}
    (hdoc : h.documents link = some hosted) {now : Int} {p : PatchEvent X O} {e : Expiry}
    (he : e ∈ svc.timersSet now hosted p) : e.timer.selfLink = link := by
  obtain ⟨timer, ht, rfl⟩ := List.mem_map.mp he
  exact (selfLink_of_mem_timers ht).trans (hinv.link _ _ hdoc)

/-- Serving a patch keeps documents and timers together. -/
theorem HostInvariant.patchAt (hinv : HostInvariant h) (p : PatchEvent X O) :
    HostInvariant (svc.patchAt h link p) := by
  cases hdoc : h.documents link with
  | none => rwa [patchAt_of_none hdoc]
  | some hosted =>
      have hkept : ∀ l, h.documents l ≠ none → (svc.patchAt h link p).documents l ≠ none :=
        fun l => patchAt_documents_ne_none p
      refine ⟨fun l hosted' hl => ?_, fun e he => ?_, fun q hq => ?_⟩
      · by_cases heq : l = link
        · subst heq
          rw [patchAt_documents_self, hdoc] at hl
          obtain rfl := Option.some.inj hl
          exact (svc.documentAfter_selfLink _ _).trans (hinv.link _ _ hdoc)
        · rw [patchAt_documents_of_ne heq] at hl
          exact hinv.link l hosted' hl
      · rw [patchAt_of_some hdoc] at he
        rcases List.mem_append.mp he with he | he
        · exact hkept _ (hinv.timers e he)
        · refine hkept _ ?_
          rw [selfLink_of_mem_timersSet hinv hdoc he, hdoc]
          exact Option.some_ne_none _
      · rw [patchAt_of_some hdoc] at hq
        exact hkept _ (hinv.inFlight q hq)

/-- A patch of a document is a patch of its own system. -/
theorem view_patchAt_self (hinv : HostInvariant h) {sys : ExpirySystem X}
    (hview : h.view link = some sys) (p : PatchEvent X O) :
    (svc.patchAt h link p).view link = some (svc.handle sys p) := by
  obtain ⟨hosted, hdoc, rfl⟩ := Option.map_eq_some_iff.mp hview
  have hnew : (svc.timersSet h.now hosted p).filter (·.timer.selfLink = link) =
      svc.timersSet h.now hosted p := by
    rw [List.filter_eq_self]
    intro e he
    exact decide_eq_true (selfLink_of_mem_timersSet hinv hdoc he)
  rw [FSMHost.view, patchAt_documents_self, hdoc, Option.map_some, Option.map_some,
    patchAt_of_some hdoc, List.filter_append, hnew]
  rfl

/-- A patch of a document does not concern another one. -/
theorem view_patchAt_of_ne (hinv : HostInvariant h) {l : Str} (hne : l ≠ link)
    (p : PatchEvent X O) : (svc.patchAt h link p).view l = h.view l := by
  cases hdoc : h.documents link with
  | none => rw [patchAt_of_none hdoc]
  | some hosted =>
      have hnew : (svc.timersSet h.now hosted p).filter (·.timer.selfLink = l) = [] := by
        rw [List.filter_eq_nil_iff]
        intro e he
        rw [selfLink_of_mem_timersSet hinv hdoc he]
        simpa using hne.symm
      rw [FSMHost.view, patchAt_documents_of_ne hne, patchAt_of_some hdoc, List.filter_append, hnew,
        List.append_nil]
      rfl

/-- A post of a link that is taken changes nothing. -/
theorem postAt_of_some {hosted : HostedDocument X} (hdoc : h.documents link = some hosted)
    (op : Operation X) : svc.postAt h link op = h := by
  rw [postAt, hdoc]

/-- A post does not concern the documents at other links. -/
theorem postAt_documents_of_ne {l : Str} (hne : l ≠ link) (op : Operation X) :
    (svc.postAt h link op).documents l = h.documents l := by
  cases hdoc : h.documents link with
  | some hosted => rw [postAt_of_some hdoc]
  | none =>
      rw [postAt, hdoc]
      exact Function.update_of_ne hne _ _

/-- The document that a post creates at a free link. -/
theorem postAt_documents_self (hdoc : h.documents link = none) (op : Operation X) :
    (svc.postAt h link op).documents link = svc.created link op := by
  rw [postAt, hdoc]
  exact Function.update_self _ _ _

/-- A created document knows its link. -/
theorem created_selfLink {op : Operation X} {hosted : HostedDocument X}
    (hcreated : svc.created link op = some hosted) : hosted.doc.documentSelfLink = link := by
  unfold created at hcreated
  split at hcreated
  · obtain rfl := Option.some.inj hcreated
    rfl
  · cases hcreated

/-- A post leaves all timers and what is in flight. -/
theorem postAt_rest (svc : FSMService X O) (h : FSMHost X) (link : Str) (op : Operation X) :
    (svc.postAt h link op).timers = h.timers ∧
    (svc.postAt h link op).inFlight = h.inFlight ∧ (svc.postAt h link op).now = h.now := by
  cases hdoc : h.documents link with
  | some hosted => rw [postAt_of_some hdoc]; exact ⟨rfl, rfl, rfl⟩
  | none => rw [postAt, hdoc]; exact ⟨rfl, rfl, rfl⟩

/-- A post removes no document. -/
theorem postAt_documents_ne_none {l : Str} (op : Operation X) (hl : h.documents l ≠ none) :
    (svc.postAt h link op).documents l ≠ none := by
  by_cases heq : l = link
  · subst heq
    obtain ⟨hosted, hdoc⟩ := Option.ne_none_iff_exists'.mp hl
    rwa [postAt_of_some hdoc]
  · rwa [postAt_documents_of_ne heq]

/-- A post keeps documents and timers together. -/
theorem HostInvariant.postAt (hinv : HostInvariant h) (op : Operation X) :
    HostInvariant (svc.postAt h link op) := by
  obtain ⟨htimers, hinFlight, -⟩ := postAt_rest svc h link op
  refine ⟨fun l hosted hl => ?_, fun e he => ?_, fun q hq => ?_⟩
  · by_cases heq : l = link
    · subst heq
      cases hdoc : h.documents l with
      | some hosted' =>
          rw [postAt_of_some hdoc] at hl
          exact hinv.link l hosted hl
      | none =>
          exact created_selfLink (postAt_documents_self hdoc op ▸ hl)
    · rw [postAt_documents_of_ne heq] at hl
      exact hinv.link l hosted hl
  · exact postAt_documents_ne_none op (hinv.timers e (htimers ▸ he))
  · exact postAt_documents_ne_none op (hinv.inFlight q (hinFlight ▸ hq))

/-- **Every event keeps documents and timers together.** -/
theorem HostInvariant.step (hinv : HostInvariant h) (event : HostEvent X O) :
    HostInvariant (svc.hostStep h event) := by
  cases event with
  | tick millis => exact ⟨hinv.link, hinv.timers, hinv.inFlight⟩
  | post link op => exact hinv.postAt op
  | clientPatch link p => exact hinv.patchAt p
  | deliverSelfPatch i p =>
      simp only [hostStep]
      cases h.selfPatches[i]? with
      | none => exact hinv
      | some s =>
          have hrest : HostInvariant { h with selfPatches := h.selfPatches.eraseIdx i } :=
            ⟨hinv.link, hinv.timers, hinv.inFlight⟩
          exact hrest.patchAt _
  | timerFires i =>
      simp only [hostStep]
      cases he : h.timers[i]? with
      | none => exact hinv
      | some e =>
          by_cases hdue : e.scheduledAt + e.timer.delay ≤ h.now
          · simp only [if_pos hdue]
            refine ⟨hinv.link, fun e' he' => hinv.timers e' (List.mem_of_mem_eraseIdx he'),
              fun q hq => ?_⟩
            rcases List.mem_append.mp hq with hq | hq
            · exact hinv.inFlight q hq
            · rw [Option.mem_toList] at hq
              obtain ⟨hosted, -, rfl⟩ := Option.map_eq_some_iff.mp hq
              exact hinv.timers e (List.mem_of_getElem? he)
          · simp only [if_neg hdue]
            exact hinv
  | deliver i p =>
      simp only [hostStep]
      cases h.inFlight[i]? with
      | none => exact hinv
      | some q =>
          have hrest : HostInvariant { h with inFlight := h.inFlight.eraseIdx i } :=
            ⟨hinv.link, hinv.timers, fun q hq => hinv.inFlight q (List.mem_of_mem_eraseIdx hq)⟩
          exact hrest.patchAt _

/-- In every reachable state of a host documents and timers are together. -/
theorem hostRun_invariant (svc : FSMService X O) (now : Int) (events : List (HostEvent X O)) :
    HostInvariant (svc.hostRun (.empty now) events) := by
  induction events using List.reverseRecOn with
  | nil =>
      refine ⟨fun link hosted hdoc => ?_, fun e he => ?_, fun q hq => ?_⟩
      · cases hdoc
      · cases he
      · cases hq
  | append_singleton events event ih =>
      rw [hostRun_concat]
      exact ih.step event

/-! ## One event of a host -/

/-- What a patch of some document is to the document at a link. -/
theorem view_patchAt (hinv : HostInvariant h) {l : Str} {sys : ExpirySystem X}
    (hview : h.view l = some sys) (p : PatchEvent X O) :
    (svc.patchAt h link p).view l = some (if link = l then svc.handle sys p else sys) := by
  by_cases heq : link = l
  · subst heq
    rw [if_pos rfl]
    exact view_patchAt_self hinv hview p
  · rw [if_neg heq, ← hview]
    exact view_patchAt_of_ne hinv (Ne.symm heq) p

/-- **An event of a host is an event of the document it addresses**, and of no other. -/
theorem view_hostStep (hinv : HostInvariant h) {sys : ExpirySystem X}
    (hview : h.view link = some sys) (event : HostEvent X O) :
    (svc.hostStep h event).view link = some (svc.expiryRun sys (eventsOf link h event)) := by
  cases event with
  | tick millis =>
      obtain ⟨hosted, hdoc, rfl⟩ := Option.map_eq_some_iff.mp hview
      show Option.map _ (h.documents link) = _
      rw [hdoc]
      rfl
  | post l op =>
      obtain ⟨hosted, hdoc, rfl⟩ := Option.map_eq_some_iff.mp hview
      obtain ⟨htimers, hinFlight, hnow⟩ := postAt_rest svc h l op
      have hkept : (svc.postAt h l op).documents link = some hosted := by
        by_cases heq : link = l
        · subst heq
          rwa [postAt_of_some hdoc]
        · rwa [postAt_documents_of_ne heq]
      show FSMHost.view (svc.postAt h l op) link = _
      rw [FSMHost.view, hkept, htimers, hinFlight, hnow]
      rfl
  | clientPatch l p =>
      show (svc.patchAt h l p).view link = _
      rw [view_patchAt hinv hview]
      by_cases heq : l = link <;> simp [eventsOf, heq, expiryRun, expiryStep]
  | deliverSelfPatch i p =>
      simp only [hostStep, eventsOf]
      cases h.selfPatches[i]? with
      | none => exact hview
      | some s =>
          obtain ⟨l, body⟩ := s
          have hrest : HostInvariant { h with selfPatches := h.selfPatches.eraseIdx i } :=
            ⟨hinv.link, hinv.timers, hinv.inFlight⟩
          have hview' : FSMHost.view { h with selfPatches := h.selfPatches.eraseIdx i } link =
              some sys := hview
          simp only
          rw [view_patchAt hrest hview']
          by_cases heq : l = link <;> simp [heq, expiryRun, expiryStep]
  | timerFires i =>
      simp only [hostStep, eventsOf]
      cases he : h.timers[i]? with
      | none => exact hview
      | some e =>
          obtain ⟨hosted, hdoc, rfl⟩ := Option.map_eq_some_iff.mp hview
          by_cases heq : e.timer.selfLink = link
          · -- the timer of this document: it is also the one that fires in its own system
            have hown := getElem?_filter_countP (p := fun e : Expiry => e.timer.selfLink = link) he
              (decide_eq_true heq)
            have herase := filter_eraseIdx_of_pos (p := fun e : Expiry => e.timer.selfLink = link) he
              (decide_eq_true heq)
            simp only [if_pos heq, expiryRun, List.foldl_cons, List.foldl_nil, expiryStep, hown]
            by_cases hdue : e.scheduledAt + e.timer.delay ≤ h.now
            · simp only [if_pos hdue, FSMHost.view, hdoc, Option.map_some, heq, Option.toList_some,
                List.filter_append, herase, List.filter_cons_of_pos, decide_true, List.filter_nil]
            · simp only [if_neg hdue, FSMHost.view, hdoc, Option.map_some]
          · have hother := filter_eraseIdx_of_neg
              (p := fun e : Expiry => e.timer.selfLink = link) he (by simpa using heq)
            simp only [if_neg heq, expiryRun, List.foldl_nil]
            by_cases hdue : e.scheduledAt + e.timer.delay ≤ h.now
            · have hsent : (((h.documents e.timer.selfLink).map fun hosted =>
                  (e, ExpirySystem.expiryBody hosted.doc e)).toList).filter
                    (·.1.timer.selfLink = link) = [] := by
                rw [List.filter_eq_nil_iff]
                intro q hq
                obtain ⟨hosted', -, rfl⟩ := Option.map_eq_some_iff.mp (Option.mem_toList.mp hq)
                simpa using heq
              simp only [if_pos hdue, FSMHost.view, hdoc, Option.map_some, List.filter_append, hsent,
                List.append_nil, hother]
            · simp only [if_neg hdue, FSMHost.view, hdoc, Option.map_some]
  | deliver i p =>
      simp only [hostStep, eventsOf]
      cases hq : h.inFlight[i]? with
      | none => exact hview
      | some q =>
          obtain ⟨e, body⟩ := q
          have hrest : HostInvariant { h with inFlight := h.inFlight.eraseIdx i } :=
            ⟨hinv.link, hinv.timers, fun q hq => hinv.inFlight q (List.mem_of_mem_eraseIdx hq)⟩
          obtain ⟨hosted, hdoc, rfl⟩ := Option.map_eq_some_iff.mp hview
          have hview' : FSMHost.view { h with inFlight := h.inFlight.eraseIdx i } link =
              some { doc := hosted.doc
                     visits := hosted.visits
                     timers := h.timers.filter (·.timer.selfLink = link)
                     inFlight := (h.inFlight.eraseIdx i).filter (·.1.timer.selfLink = link)
                     patches := hosted.patches
                     now := h.now } := by
            rw [FSMHost.view, hdoc]
            rfl
          simp only
          rw [view_patchAt hrest hview']
          by_cases heq : e.timer.selfLink = link
          · have hown := getElem?_filter_countP
              (p := fun q : Expiry × FSMServiceDoc X => q.1.timer.selfLink = link) hq
              (decide_eq_true heq)
            have herase := filter_eraseIdx_of_pos
              (p := fun q : Expiry × FSMServiceDoc X => q.1.timer.selfLink = link) hq
              (decide_eq_true heq)
            simp only [if_pos heq, expiryRun, List.foldl_cons, List.foldl_nil, expiryStep, hown,
              herase]
          · have hother := filter_eraseIdx_of_neg
              (p := fun q : Expiry × FSMServiceDoc X => q.1.timer.selfLink = link) hq
              (by simpa using heq)
            simp only [if_neg heq, expiryRun, List.foldl_nil, hother]

/-- An event that brings a document into being is the post that creates it. -/
theorem view_hostStep_of_none (hinv : HostInvariant h) (hnone : h.view link = none)
    {event : HostEvent X O} {sys : ExpirySystem X}
    (hview : (svc.hostStep h event).view link = some sys) :
    ∃ op d, event = .post link op ∧ (svc.handleStart op.unanswered).1.outcome = .completed d ∧
      sys = .start { d with documentSelfLink := link } h.now := by
  have hdoc : h.documents link = none := Option.map_eq_none_iff.mp hnone
  have hpatch : ∀ (h' : FSMHost X) l p, h'.documents = h.documents →
      (svc.patchAt h' l p).view link ≠ some sys := by
    intro h' l p hsame hsome
    obtain ⟨hosted, hdoc', -⟩ := Option.map_eq_some_iff.mp hsome
    by_cases heq : link = l
    · subst heq
      rw [patchAt_documents_self, hsame, hdoc] at hdoc'
      cases hdoc'
    · rw [patchAt_documents_of_ne heq, hsame, hdoc] at hdoc'
      cases hdoc'
  have hsame : ∀ h' : FSMHost X, h'.documents = h.documents → h'.view link ≠ some sys := by
    intro h' hdocs hsome
    obtain ⟨hosted, hdoc', -⟩ := Option.map_eq_some_iff.mp hsome
    rw [hdocs, hdoc] at hdoc'
    cases hdoc'
  cases event with
  | tick millis => exact absurd hview (hsame _ rfl)
  | clientPatch l p => exact absurd hview (hpatch _ _ _ rfl)
  | deliverSelfPatch i p =>
      simp only [hostStep] at hview
      split at hview
      · refine absurd hview (hpatch _ _ _ ?_)
        rfl
      · exact absurd hview (hsame _ rfl)
  | timerFires i =>
      simp only [hostStep] at hview
      split at hview
      · split at hview
        · refine absurd hview (hsame _ ?_)
          rfl
        · exact absurd hview (hsame _ rfl)
      · exact absurd hview (hsame _ rfl)
  | deliver i p =>
      simp only [hostStep] at hview
      split at hview
      · refine absurd hview (hpatch _ _ _ ?_)
        rfl
      · exact absurd hview (hsame _ rfl)
  | post l op =>
      obtain ⟨htimers, hinFlight, hnow⟩ := postAt_rest svc h l op
      obtain ⟨hosted, hdoc', rfl⟩ := Option.map_eq_some_iff.mp hview
      by_cases heq : link = l
      · subst heq
        change (svc.postAt h link op).documents link = _ at hdoc'
        rw [postAt_documents_self hdoc] at hdoc'
        unfold created at hdoc'
        split at hdoc'
        · rename_i d hstart
          obtain rfl := Option.some.inj hdoc'
          refine ⟨op, d, rfl, hstart, ?_⟩
          -- no timer is left over for a document that did not exist
          have hnotimers : h.timers.filter (·.timer.selfLink = link) = [] := by
            rw [List.filter_eq_nil_iff]
            rintro e he hlink
            exact hinv.timers e he (by rw [of_decide_eq_true hlink, hdoc])
          have hnoflight : h.inFlight.filter (·.1.timer.selfLink = link) = [] := by
            rw [List.filter_eq_nil_iff]
            rintro q hq hlink
            exact hinv.inFlight q hq (by rw [of_decide_eq_true hlink, hdoc])
          show ExpirySystem.mk _ _ ((svc.postAt h link op).timers.filter _)
            ((svc.postAt h link op).inFlight.filter _) _ (svc.postAt h link op).now = _
          rw [htimers, hinFlight, hnow, hnotimers, hnoflight]
          rfl
        · cases hdoc'
      · change (svc.postAt h l op).documents link = _ at hdoc'
        rw [postAt_documents_of_ne heq, hdoc] at hdoc'
        cases hdoc'

end Step

/-! ## Runs of a host -/

/-- What holds of a document when it is created and is kept by its own events, holds of every
document of every reachable host. -/
theorem view_induction {svc : FSMService X O} {P : ExpirySystem X → Prop}
    (hstart : ∀ (op : Operation X) d link now,
      (svc.handleStart op.unanswered).1.outcome = .completed d →
        P (.start { d with documentSelfLink := link } now))
    (hstep : ∀ sys event, P sys → P (svc.expiryStep sys event)) {now : Int}
    {events : List (HostEvent X O)} {link : Str} {sys : ExpirySystem X}
    (hview : (svc.hostRun (.empty now) events).view link = some sys) : P sys := by
  have hrun : ∀ sys, P sys → ∀ own, P (svc.expiryRun sys own) := by
    intro sys hsys own
    induction own using List.reverseRecOn with
    | nil => exact hsys
    | append_singleton own event ih =>
        rw [expiryRun_concat]
        exact hstep _ event ih
  induction events using List.reverseRecOn generalizing sys with
  | nil => cases hview
  | append_singleton events event ih =>
      rw [hostRun_concat] at hview
      have hinv := svc.hostRun_invariant now events
      cases hbefore : (svc.hostRun (.empty now) events).view link with
      | none =>
          obtain ⟨op, d, -, hcompleted, rfl⟩ := view_hostStep_of_none hinv hbefore hview
          exact hstart op d link _ hcompleted
      | some sys' =>
          rw [view_hostStep hinv hbefore event] at hview
          obtain rfl := Option.some.inj hview
          exact hrun _ (ih hbefore) _

/-- **Every document of a host runs as if it were alone.** For every service, every run of a host
with any number of documents, and every document it has then: one event of the run is the post that
created the document, and what the host holds for it, its timers and the patches on their way
included, is what its own system holds after the events that address it, in their order; no event of
another document counts. -/
theorem hosted_document_runs (svc : FSMService X O) (now : Int) (events : List (HostEvent X O))
    {link : Str} {sys : ExpirySystem X}
    (hview : (svc.hostRun (.empty now) events).view link = some sys) :
    ∃ before op after d₀, events = before ++ .post link op :: after ∧
      (svc.hostRun (.empty now) before).view link = none ∧
      (svc.handleStart op.unanswered).1.outcome = .completed d₀ ∧
      sys = svc.expiryRun
        (.start { d₀ with documentSelfLink := link } (svc.hostRun (.empty now) before).now)
        (emitted svc.hostStep (eventsOf link)
          (svc.hostRun (.empty now) (before ++ [.post link op])) after) := by
  induction events using List.reverseRecOn generalizing sys with
  | nil => cases hview
  | append_singleton events event ih =>
      rw [hostRun_concat] at hview
      have hinv := svc.hostRun_invariant now events
      cases hbefore : (svc.hostRun (.empty now) events).view link with
      | none =>
          obtain ⟨op, d, rfl, hcompleted, rfl⟩ := view_hostStep_of_none hinv hbefore hview
          exact ⟨events, op, [], d, rfl, hbefore, hcompleted, rfl⟩
      | some sys' =>
          obtain ⟨before, op, after, d₀, rfl, hnone, hcompleted, rfl⟩ := ih hbefore
          refine ⟨before, op, after ++ [event], d₀, by simp, hnone, hcompleted, ?_⟩
          have hreached : svc.hostRun (.empty now) (before ++ .post link op :: after) =
              after.foldl svc.hostStep (svc.hostRun (.empty now) (before ++ [.post link op])) := by
            simp [hostRun, List.foldl_append]
          rw [view_hostStep hinv hbefore event, hreached] at hview
          obtain rfl := Option.some.inj hview
          rw [emitted_concat, expiryRun, expiryRun, expiryRun, List.foldl_append]

/-! ## Self-patches -/

/-- **`validateStartPost` validates**: it completes nothing, and what it accepts it leaves
unanswered. -/
structure ValidatesOnly (svc : FSMService X O) : Prop where
  uncompleted : ∀ post d, post.outcome = .pending →
    (svc.validateStartPost post).2.outcome ≠ .completed d
  unanswered : ∀ post, post.outcome = .pending → (svc.validateStartPost post).1 = true →
    (svc.validateStartPost post).2.outcome = .pending

/-- A document that is started is in some state. -/
theorem ValidatesOnly.state_ne_none {svc : FSMService X O} (hvalidates : svc.ValidatesOnly)
    {op : Operation X} {d : FSMServiceDoc X}
    (hcompleted : (svc.handleStart op.unanswered).1.outcome = .completed d) : d.state ≠ none := by
  cases hvalid : (svc.validateStartPost op.unanswered).1 with
  | true =>
      have hpending := hvalidates.unanswered op.unanswered rfl hvalid
      obtain ⟨body, -, rfl⟩ :=
        handleStart_completed (Prod.ext hvalid rfl) hpending hcompleted
      exact Option.some_ne_none _
  | false =>
      -- what is not valid is not completed
      have hno := hvalidates.uncompleted op.unanswered d rfl
      unfold handleStart at hcompleted
      simp only [hvalid, Bool.false_eq_true, if_false] at hcompleted
      split at hcompleted
      · rw [Operation.fail_completed] at hcompleted
        exact absurd hcompleted hno
      · exact absurd hcompleted hno

/-- A self-patch names the initial state, and fires the initial trigger. -/
theorem handleStart_selfPatch {svc : FSMService X O} {post : Operation X} {s : FSMServiceDoc X}
    (hs : (svc.handleStart post).2 = some s) :
    ∃ body, (svc.validateStartPost post).1 = true ∧
      (svc.validateStartPost post).2.body = some body ∧
      s.state = some svc.initialState ∧ svc.initialTrigger (svc.handleStart post).1 = s.trigger := by
  cases hvalid : (svc.validateStartPost post).1 with
  | false =>
      unfold handleStart at hs
      simp only [hvalid, Bool.false_eq_true, if_false] at hs
      split at hs <;> cases hs
  | true =>
      unfold handleStart at hs ⊢
      simp only [hvalid, if_true] at hs ⊢
      cases hbody : (svc.validateStartPost post).2.body with
      | none => rw [hbody] at hs; cases hs
      | some body =>
          rw [hbody] at hs
          refine ⟨body, trivial, rfl, ?_⟩
          simp only at hs ⊢
          split at hs
          · rename_i hinitial
            obtain ⟨t, ht, rfl⟩ := Option.map_eq_some_iff.mp hs
            rw [if_pos hinitial]
            exact ⟨hinitial, ht⟩
          · cases hs

/-- A self-patch is sent for a document that was created. -/
theorem ValidatesOnly.created_of_selfPatch {svc : FSMService X O} (hvalidates : svc.ValidatesOnly)
    {op : Operation X} {s : FSMServiceDoc X} (hs : (svc.handleStart op.unanswered).2 = some s)
    (link : Str) : svc.created link op ≠ none := by
  obtain ⟨body, hvalid, hbody, -⟩ := handleStart_selfPatch hs
  have hpending := hvalidates.unanswered op.unanswered rfl hvalid
  have houtcome : ∃ d, (svc.handleStart op.unanswered).1.outcome = .completed d := by
    unfold handleStart
    simp only [hvalid, if_true, hbody, Operation.complete, hpending]
    split <;> exact ⟨_, rfl⟩
  obtain ⟨d, hd⟩ := houtcome
  rw [created, hd]
  exact Option.some_ne_none _

/-- The self-patches that an event sends. -/
def selfPatchesSent (svc : FSMService X O) (h : FSMHost X) :
    HostEvent X O → List (Str × FSMServiceDoc X)
  | .post link op =>
    match h.documents link with
    | some _ => []
    | none => ((svc.handleStart op.unanswered).2.map fun body => (link, body)).toList
  | _ => []

/-- The self-patch that an event delivers, if it delivers one. -/
def selfPatchDelivered (h : FSMHost X) : HostEvent X O → List (Str × FSMServiceDoc X)
  | .deliverSelfPatch i _ => h.selfPatches[i]?.toList
  | _ => []

section SelfPatches

variable {svc : FSMService X O} {h : FSMHost X}

/-- Serving a patch sends no self-patch. -/
theorem patchAt_selfPatches (link : Str) (p : PatchEvent X O) :
    (svc.patchAt h link p).selfPatches = h.selfPatches := by
  cases hdoc : h.documents link with
  | none => rw [patchAt_of_none hdoc]
  | some hosted => rw [patchAt_of_some hdoc]

/-- **One event of the self-patches**: those on their way afterwards and the one delivered are those
on their way before and the one sent. -/
theorem selfPatches_step (svc : FSMService X O) (h : FSMHost X) (event : HostEvent X O) :
    ((svc.hostStep h event).selfPatches : Multiset (Str × FSMServiceDoc X)) +
        (selfPatchDelivered h event : List _) =
      h.selfPatches + (svc.selfPatchesSent h event : List _) := by
  cases event with
  | tick millis => rfl
  | clientPatch link p =>
      have hsame : (svc.hostStep h (.clientPatch link p)).selfPatches = h.selfPatches :=
        patchAt_selfPatches link p
      rw [hsame]
      rfl
  | post link op =>
      simp only [hostStep, selfPatchesSent, selfPatchDelivered, postAt, Multiset.coe_nil, add_zero]
      cases h.documents link with
      | some hosted => simp
      | none => simp
  | deliverSelfPatch i p =>
      simp only [hostStep, selfPatchesSent, selfPatchDelivered, Multiset.coe_nil, add_zero]
      cases hs : h.selfPatches[i]? with
      | none => simp
      | some s =>
          simp only [patchAt_selfPatches, Option.toList_some]
          exact coe_eraseIdx hs
  | timerFires i =>
      have hsame : (svc.hostStep h (.timerFires i)).selfPatches = h.selfPatches := by
        simp only [hostStep]
        split
        · split <;> rfl
        · rfl
      rw [hsame]
      rfl
  | deliver i p =>
      have hsame : (svc.hostStep h (.deliver i p)).selfPatches = h.selfPatches := by
        simp only [hostStep]
        split
        · rw [patchAt_selfPatches]
        · rfl
      rw [hsame]
      rfl

/-- No event removes a document. -/
theorem hostStep_documents_ne_none {link : Str} (hdoc : h.documents link ≠ none)
    (event : HostEvent X O) : (svc.hostStep h event).documents link ≠ none := by
  cases event with
  | tick millis => exact hdoc
  | post l op => exact postAt_documents_ne_none op hdoc
  | clientPatch l p => exact patchAt_documents_ne_none p hdoc
  | deliverSelfPatch i p =>
      simp only [hostStep]
      split
      · exact patchAt_documents_ne_none _ hdoc
      · exact hdoc
  | timerFires i =>
      simp only [hostStep]
      split
      · split <;> exact hdoc
      · exact hdoc
  | deliver i p =>
      simp only [hostStep]
      split
      · exact patchAt_documents_ne_none _ hdoc
      · exact hdoc

/-- An event that sends a self-patch is the post of a new document. -/
theorem eq_post_of_mem_sent {event : HostEvent X O} {s : Str × FSMServiceDoc X}
    (hs : s ∈ svc.selfPatchesSent h event) :
    ∃ op, event = .post s.1 op ∧ h.documents s.1 = none ∧
      (svc.handleStart op.unanswered).2 = some s.2 := by
  cases event with
  | post link op =>
      simp only [selfPatchesSent] at hs
      split at hs
      · cases hs
      · rename_i hdoc
        obtain ⟨body, hbody, rfl⟩ := Option.map_eq_some_iff.mp (Option.mem_toList.mp hs)
        exact ⟨op, rfl, hdoc, hbody⟩
  | _ => cases hs

/-- An event sends at most one self-patch. -/
theorem selfPatchesSent_nodup (event : HostEvent X O) :
    ((svc.selfPatchesSent h event).map Prod.fst).Nodup := by
  cases event with
  | post link op =>
      simp only [selfPatchesSent]
      split
      · exact List.nodup_nil
      · cases (svc.handleStart op.unanswered).2 with
        | none => exact List.nodup_nil
        | some body => exact List.nodup_singleton _
  | _ => exact List.nodup_nil

end SelfPatches

/-- **The self-patches of a run are conserved**: those sent are those on their way and those
delivered. -/
theorem selfPatches_conserved (svc : FSMService X O) (now : Int) (events : List (HostEvent X O)) :
    (emitted svc.hostStep svc.selfPatchesSent (.empty now) events :
        Multiset (Str × FSMServiceDoc X)) =
      (svc.hostRun (.empty now) events).selfPatches +
        (emitted svc.hostStep selfPatchDelivered (.empty now) events : List _) := by
  let onTheirWay : FSMHost X → Multiset (Str × FSMServiceDoc X) := fun h => h.selfPatches
  have hstep : ∀ h event, onTheirWay (svc.hostStep h event) + (selfPatchDelivered h event : List _) =
      onTheirWay h + (svc.selfPatchesSent h event : List _) := svc.selfPatches_step
  have hledger := emitted_balance hstep (.empty now) events
  rw [show onTheirWay (.empty now) = 0 from rfl, zero_add] at hledger
  exact hledger.symm

/-- **No document gets its self-patch twice**: those sent in a run are for documents that exist, at
different links, each sent by the post of its document. -/
theorem selfPatchesSent_run {svc : FSMService X O} (hvalidates : svc.ValidatesOnly) (now : Int)
    (events : List (HostEvent X O)) :
    let sent := emitted svc.hostStep svc.selfPatchesSent (.empty now) events
    (sent.map Prod.fst).Nodup ∧ ∀ s ∈ sent,
      (svc.hostRun (.empty now) events).documents s.1 ≠ none ∧
        ∃ op, .post s.1 op ∈ events ∧ (svc.handleStart op.unanswered).2 = some s.2 := by
  induction events using List.reverseRecOn with
  | nil => exact ⟨List.nodup_nil, fun s hs => nomatch hs⟩
  | append_singleton events event ih =>
      intro sent
      obtain ⟨hnodup, hexist⟩ := ih
      have hsent : sent = emitted svc.hostStep svc.selfPatchesSent (.empty now) events ++
          svc.selfPatchesSent (svc.hostRun (.empty now) events) event := emitted_concat _ _ _ _ _
      rw [hsent, hostRun_concat]
      constructor
      · rw [List.map_append]
        refine hnodup.append (selfPatchesSent_nodup event) fun link hold hnew => ?_
        obtain ⟨s, hs, rfl⟩ := List.mem_map.mp hold
        obtain ⟨s', hs', heq⟩ := List.mem_map.mp hnew
        obtain ⟨op, -, hfree, -⟩ := eq_post_of_mem_sent hs'
        exact (hexist s hs).1 (heq ▸ hfree)
      · intro s hs
        rcases List.mem_append.mp hs with hs | hs
        · obtain ⟨hdoc, op, hop, hstart⟩ := hexist s hs
          exact ⟨hostStep_documents_ne_none hdoc event, op, List.mem_append_left _ hop, hstart⟩
        · obtain ⟨op, rfl, hfree, hstart⟩ := eq_post_of_mem_sent hs
          refine ⟨?_, op, List.mem_append_right _ List.mem_cons_self, hstart⟩
          show (svc.postAt _ s.1 op).documents s.1 ≠ none
          rw [postAt_documents_self hfree]
          exact hvalidates.created_of_selfPatch hstart s.1

/-- A self-patch on its way was sent. -/
theorem mem_sent_of_mem_selfPatches {svc : FSMService X O} {now : Int}
    {events : List (HostEvent X O)} {s : Str × FSMServiceDoc X}
    (hs : s ∈ (svc.hostRun (.empty now) events).selfPatches) :
    s ∈ emitted svc.hostStep svc.selfPatchesSent (.empty now) events := by
  rw [← Multiset.mem_coe, selfPatches_conserved]
  exact Multiset.mem_add.mpr (.inl hs)

/-- **The initial trigger is fired once, and from the initial state only.** For every service whose
`validateStartPost` only validates, whose guards are pure and whose handlers keep to their contract,
and every run of a host:

* the self-patches sent are those on their way and those delivered, and no two are for one document;
* each was sent by the post that created its document, in the initial state and with the initial
  trigger of that post;
* one that is delivered moves its document as the automaton moves from the initial state with the
  initial trigger; a document that has left the initial state stays as it is, and no timer is set. -/
theorem initialTrigger_fires_once {svc : FSMService X O} {v : GuardValuation (ServiceGuard O)}
    (hvalidates : svc.ValidatesOnly) (hpure : svc.GuardsArePure v) (hdiligent : svc.Diligent)
    (now : Int) (events : List (HostEvent X O)) :
    let h := svc.hostRun (.empty now) events
    let sent := emitted svc.hostStep svc.selfPatchesSent (.empty now) events
    (sent : Multiset (Str × FSMServiceDoc X)) = h.selfPatches +
        (emitted svc.hostStep selfPatchDelivered (.empty now) events : List _) ∧
      (sent.map Prod.fst).Nodup ∧
      (∀ s ∈ sent, s.2.state = some svc.initialState ∧ ∃ op, .post s.1 op ∈ events ∧
        svc.initialTrigger (svc.handleStart op.unanswered).1 = s.2.trigger) ∧
      ∀ i link body p hosted, h.selfPatches[i]? = some (link, body) →
        h.documents link = some hosted →
          ∃ hosted', (svc.hostStep h (.deliverSelfPatch i p)).documents link = some hosted' ∧
            (hosted.doc.state = some svc.initialState → hosted'.doc.state =
              moveOrStay (destinationOf v svc.calls) (some svc.initialState) ⟨body.trigger, none⟩) ∧
            (hosted.doc.state ≠ some svc.initialState → hosted'.doc = hosted.doc ∧
              (svc.hostStep h (.deliverSelfPatch i p)).timers = h.timers) := by
  intro h sent
  obtain ⟨hnodup, hexist⟩ := selfPatchesSent_run hvalidates now events
  have hsent : ∀ s ∈ sent, s.2.state = some svc.initialState ∧ ∃ op, .post s.1 op ∈ events ∧
      svc.initialTrigger (svc.handleStart op.unanswered).1 = s.2.trigger := by
    intro s hs
    obtain ⟨-, op, hop, hstart⟩ := hexist s hs
    obtain ⟨-, -, -, hstate, htrigger⟩ := handleStart_selfPatch hstart
    exact ⟨hstate, op, hop, htrigger⟩
  refine ⟨svc.selfPatches_conserved now events, hnodup, hsent, ?_⟩
  intro i link body p hosted hs hdoc
  have hstate : body.state = some svc.initialState :=
    (hsent (link, body) (mem_sent_of_mem_selfPatches (List.mem_of_getElem? hs))).1
  let h' : FSMHost X := { h with selfPatches := h.selfPatches.eraseIdx i }
  have hstep : svc.hostStep h (.deliverSelfPatch i p) =
      svc.patchAt h' link { p with body := some body } := by
    simp only [hostStep, hs]
    rfl
  have hdoc' : h'.documents link = some hosted := hdoc
  rw [hstep, patchAt_documents_self, hdoc', Option.map_some]
  refine ⟨_, rfl, fun hinitial => ?_, fun hleft => ?_⟩
  · refine (documentAfter_state_eq hpure hdiligent _ _).trans ?_
    rw [hinitial]
    -- a label that names the current state is as good as one that names none
    simp [moveOrStay, destinationOf, label_expiry, hstate]
  · have hrejected : svc.Rejected hosted.doc { p with body := some body } := by
      refine svc.rejected_of_not_named hosted.doc fun body' hbody' => ?_
      obtain rfl := Option.some.inj hbody'
      exact .inr ⟨by rw [hstate]; exact Option.some_ne_none _, by rw [hstate]; exact hleft.symm⟩
    refine ⟨hrejected.documentAfter, ?_⟩
    rw [patchAt_of_some hdoc']
    show h.timers ++ (svc.serve hosted.doc _).world.timers.map _ = h.timers
    rw [hrejected.timers, List.map_nil, List.append_nil]

/-! ## Deadlines -/

/-- **No document is overdue.** For every service whose `validateStartPost` only validates, whose
guards are pure and whose handlers keep to their contract, and every run of a host with any number of
documents: when no timer is due and no patch is on its way, no document has stayed in a state with an
expiry that has a move for as long as its delay. -/
theorem no_document_overdue {svc : FSMService X O} {v : GuardValuation (ServiceGuard O)}
    (hvalidates : svc.ValidatesOnly) (hpure : svc.GuardsArePure v) (hdiligent : svc.Diligent)
    (now : Int) (events : List (HostEvent X O)) :
    let h := svc.hostRun (.empty now) events
    (∀ e ∈ h.timers, h.now < e.scheduledAt + e.timer.delay) → h.inFlight = [] →
      ∀ link hosted visit, h.documents link = some hosted → hosted.visits.head? = some visit →
        ∀ trigger delay dest, lastDelay svc.calls visit.state (some trigger) = some delay →
          destinationOf v svc.calls visit.state ⟨some trigger, visit.state⟩ = some dest →
            h.now < visit.time + delay := by
  intro h hnotDue hnone link hosted visit hdoc hvisit trigger delay dest hdelay hdest
  have hview : h.view link = some
      { doc := hosted.doc
        visits := hosted.visits
        timers := h.timers.filter (·.timer.selfLink = link)
        inFlight := h.inFlight.filter (·.1.timer.selfLink = link)
        patches := hosted.patches
        now := h.now } := by
    rw [FSMHost.view, hdoc, Option.map_some]
  have hboth := view_induction
    (P := fun sys => svc.ExpiryInvariant sys ∧ svc.ExpiriesUnderWay v sys)
    (fun op d link now hcompleted => by
      have hd : d.state ≠ none := hvalidates.state_ne_none hcompleted
      have hposted : ({ d with documentSelfLink := link } : FSMServiceDoc X).state ≠ none := hd
      exact ⟨svc.run_invariant hposted now [], run_expiriesUnderWay hpure hdiligent hposted now []⟩)
    (fun sys event hP => ⟨hP.1.step event, hP.2.step hpure hdiligent hP.1 event⟩) hview
  obtain ⟨e, he, hset⟩ := hboth.2 visit hvisit trigger delay dest hdelay hdest
  -- nothing is in flight, so the expiry of the visit is a pending timer
  have hpending : e ∈ h.timers := by
    rcases Multiset.mem_add.mp he with he | he
    · exact List.mem_of_mem_filter (Multiset.mem_coe.mp he)
    · obtain ⟨q, hq, -⟩ := List.mem_map.mp (Multiset.mem_coe.mp he)
      have hmem : q ∈ h.inFlight := List.mem_of_mem_filter hq
      rw [hnone] at hmem
      cases hmem
  have hlt := hnotDue e hpending
  rwa [hset.time, hset.delay] at hlt

/-! ## Two doors -/

/-- The door that is pushed open as soon as it is there. -/
def openingDoor : FSMService Unit Bool :=
  { doorService with initialTrigger := fun _ => some "Push".toList }

/-- The guards and the handlers of the opening door are those of the door. -/
theorem diligent_openingDoor : openingDoor.Diligent :=
  ⟨diligent_door.configured, diligent_door.quiet, diligent_door.completes⟩

/-- The opening door only validates: it accepts every post as it is. -/
theorem validatesOnly_openingDoor : openingDoor.ValidatesOnly where
  uncompleted _ _ hpending hcompleted := by
    cases hpending.symm.trans hcompleted
  unanswered _ hpending _ := hpending

/-- Two doors are posted; the first gets its self-patch, and its timer fires. -/
def twoDoors : List (HostEvent Unit Bool) :=
  [.post "/doors/1".toList phonePost, .tick 5, .post "/doors/2".toList phonePost,
    .deliverSelfPatch 0 ⟨none, true, [], 1⟩, .tick 1000, .timerFires 0]

/-- The second of two doors runs from its own post. -/
theorem hosted_document_runs_doors :
    ∃ before op after, twoDoors = before ++ .post "/doors/2".toList op :: after ∧
      (openingDoor.hostRun (.empty 0) before).view "/doors/2".toList = none := by
  have hthere : ((openingDoor.hostRun (.empty 0) twoDoors).view "/doors/2".toList).isSome = true := by
    decide +kernel
  obtain ⟨sys, hview⟩ := Option.isSome_iff_exists.mp hthere
  obtain ⟨before, op, after, -, heq, hnone, -, -⟩ :=
    hosted_document_runs openingDoor 0 twoDoors hview
  exact ⟨before, op, after, heq, hnone⟩

/-- Each of two doors gets its self-patch once. -/
theorem initialTrigger_fires_once_doors :
    ((emitted openingDoor.hostStep openingDoor.selfPatchesSent (.empty 0) twoDoors).map
      Prod.fst).Nodup :=
  (initialTrigger_fires_once validatesOnly_openingDoor (v := fun _ _ => true) guardsArePure_door
    diligent_openingDoor 0 twoDoors).2.1

/-- A door that was pushed five milliseconds ago is not overdue. -/
theorem no_document_overdue_doors :
    let events := twoDoors.take 4
    ∀ hosted visit, (openingDoor.hostRun (.empty 0) events).documents "/doors/1".toList =
      some hosted → hosted.visits.head? = some visit → visit.state = some "Open".toList →
        (openingDoor.hostRun (.empty 0) events).now < visit.time + 1000 := by
  intro events hosted visit hdoc hvisit hopen
  have hnotDue : ∀ e ∈ (openingDoor.hostRun (.empty 0) events).timers,
      (openingDoor.hostRun (.empty 0) events).now < e.scheduledAt + e.timer.delay := by
    decide +kernel
  have hnone : (openingDoor.hostRun (.empty 0) events).inFlight.length = 0 := by decide +kernel
  refine no_document_overdue validatesOnly_openingDoor (v := fun _ _ => true) guardsArePure_door
    diligent_openingDoor 0 events hnotDue (List.eq_nil_of_length_eq_zero hnone) _ _ _ hdoc hvisit
    "Close".toList 1000 (some "Closed".toList) ?_ ?_
  · rw [hopen]
    decide +kernel
  · rw [hopen]
    decide +kernel

end FSMService

end XenonExt
