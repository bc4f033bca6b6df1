import XenonExt.Service.Patching
import XenonExt.StateMachine.DotFile

/-! # The history graph of a document

`generateDotFile(docs)` sorts the versions of a document and prints an edge for each pair of
consecutive ones. On the versions committed by a run of patches it prints the walk of the run.

* **`mergeSort_eq_of_perm`**: sorting undoes any permutation of versions that increase.
* **`historyLines_history`**: the printed lines are those of the committed transitions, in order.
* **`generateDotFile_history`**: the text does not depend on the order of the versions, and each of
  its edges is an edge of the graph of the configuration. -/

namespace XenonExt

variable {X O : Type}

/-- **Sorting by a key undoes a permutation** of a list whose keys increase. -/
theorem mergeSort_eq_of_perm {α : Type} (key : α → Int) {l l' : List α} (hperm : l'.Perm l)
    (hkeys : l.Pairwise fun a b => key a < key b) :
    l'.mergeSort (fun a b => key a ≤ key b) = l := by
  have hsorted : (l'.mergeSort fun a b => key a ≤ key b).Pairwise
      fun a b => decide (key a ≤ key b) = true :=
    List.pairwise_mergeSort (fun a b c => by simp only [decide_eq_true_eq]; omega)
      (fun a b => by simp only [Bool.or_eq_true, decide_eq_true_eq]; omega) l'
  have hsorted' : l.Pairwise fun a b => decide (key a ≤ key b) = true :=
    hkeys.imp fun h => decide_eq_true (Int.le_of_lt h)
  refine List.Perm.eq_of_pairwise (fun a b ha hb hab hba => ?_) hsorted hsorted'
    ((List.mergeSort_perm l' _).trans hperm)
  -- keys that increase tell the elements apart
  have ha' : a ∈ l := hperm.mem_iff.mp (List.mem_mergeSort.mp ha)
  have hnodup : (l.map key).Nodup := List.pairwise_map.mpr (hkeys.imp Int.ne_of_lt)
  have hkey : key a = key b := by
    have h₁ := of_decide_eq_true hab
    have h₂ := of_decide_eq_true hba
    omega
  exact List.inj_on_of_nodup_map hnodup ha' hb hkey

/-! ## The generator -/

/-- The edge statement for the version at position `cur` of the sorted array: from its state to that
of the next version, by the trigger of the next version; none at the end. -/
def historyLine (docs : List (FSMServiceDoc X)) (cur : Nat) : Option Str :=
  match docs[cur]?, docs[cur + 1]? with
  | some doc, some nxt => nxt.state.map fun dest => edgeLine doc.state (some dest) nxt.trigger
  | _, _ => none

/-- The loop of `generateDotFile(docs)` over the sorted array. -/
def historyLines (docs : List (FSMServiceDoc X)) : List Str :=
  (List.range docs.length).filterMap (historyLine docs)

/-- The header of the history graph. -/
def historyHeader : Str :=
  "digraph G \x7b\n\tnode [shape = box, \n\tstyle = filled];\n".toList

/-- **`generateDotFile(docs)`**: sort by version, then print the loop between header and brace. -/
def generateDotFileOf (docs : List (FSMServiceDoc X)) : Str :=
  historyHeader ++
    (historyLines (docs.mergeSort fun a b => a.documentVersion ≤ b.documentVersion)).flatten ++
    "\x7d".toList

/-- The loop prints the first pair of versions and goes on with the rest. -/
theorem historyLines_cons_cons (doc nxt : FSMServiceDoc X) (rest : List (FSMServiceDoc X)) :
    historyLines (doc :: nxt :: rest) =
      (nxt.state.map fun dest => edgeLine doc.state (some dest) nxt.trigger).toList ++
        historyLines (nxt :: rest) := by
  have hshift : historyLine (doc :: nxt :: rest) ∘ Nat.succ = historyLine (nxt :: rest) := rfl
  unfold historyLines
  rw [List.length_cons, List.range_succ_eq_map, List.filterMap_cons, List.filterMap_map, hshift]
  have hhead : historyLine (doc :: nxt :: rest) 0 =
      nxt.state.map fun dest => edgeLine doc.state (some dest) nxt.trigger := rfl
  rw [hhead]
  cases nxt.state <;> rfl

/-! ## The versions and transitions of a run -/

namespace FSMService

/-- All versions of a document along a run of patches: the one it starts with, and those the patches
commit. -/
def history (svc : FSMService X O) (d : FSMServiceDoc X) :
    List (PatchEvent X O) → List (FSMServiceDoc X)
  | [] => [d]
  | p :: ps => match svc.commit d p with
    | some c => d :: svc.history c ps
    | none => svc.history d ps

/-- **The transitions a run commits**: one for each accepted patch, from the state before to the
state after, with the trigger of the patch. -/
def committedTransitions (svc : FSMService X O) (d : FSMServiceDoc X) :
    List (PatchEvent X O) → List Transition
  | [] => []
  | p :: ps => match svc.commit d p with
    | some c =>
      ⟨d.state, c.state, p.body.bind fun body => body.trigger⟩ :: svc.committedTransitions c ps
    | none => svc.committedTransitions d ps

/-- The history of a run starts with the document. -/
theorem history_eq_cons (svc : FSMService X O) (d : FSMServiceDoc X)
    (ps : List (PatchEvent X O)) : ∃ rest, svc.history d ps = d :: rest := by
  induction ps with
  | nil => exact ⟨[], rfl⟩
  | cons p ps ih =>
      unfold history
      cases svc.commit d p with
      | none => exact ih
      | some c => exact ⟨_, rfl⟩

/-- **A committed patch**: the new version is joined to the old one by an edge, listed in the
representation of the old state under the trigger of the patch. -/
theorem committed_patch {svc : FSMService X O} {d c : FSMServiceDoc X} {p : PatchEvent X O}
    (h : svc.commit d p = some c) :
    svc.Edge d.state c.state ∧ c.trigger = p.body.bind (fun body => body.trigger) ∧
      ∃ r b, svc.stateMachineConfig.getRepresentation d.state = some r ∧
        b ∈ r.behavioursOf c.trigger ∧ c.state = b.destination := by
  -- a rejected patch commits nothing, so the patch was accepted
  rcases svc.patch_cases d p with hrej | ⟨body, b, w, hacc⟩
  · obtain ⟨c', hc', -⟩ := commit_eq_some h
    obtain ⟨e, he⟩ := hrej.failed
    rw [he] at hc'
    cases hc'
  · obtain ⟨c', hmoved, rfl⟩ := commit_of_documents hacc.documents_moved h
    obtain ⟨r, w₁, w₂, hr, hb, -, -⟩ := hacc.selects
    have htrigger : c'.trigger = body.trigger := hmoved.trigger
    have hstate : c'.state = b.destination := hmoved.state
    refine ⟨?_, ?_, r, b, hr, ?_, hstate⟩
    · show svc.Edge d.state c'.state
      rw [hstate]
      exact hacc.selects.edge
    · show c'.trigger = _
      rw [htrigger, hacc.body_eq]
      rfl
    · show b ∈ r.behavioursOf c'.trigger
      rw [htrigger]
      exact hb

/-- A run of `n` committed transitions has `n + 1` versions. -/
theorem length_history (svc : FSMService X O) (d : FSMServiceDoc X) (ps : List (PatchEvent X O)) :
    (svc.history d ps).length = (svc.committedTransitions d ps).length + 1 := by
  induction ps generalizing d with
  | nil => rfl
  | cons p ps ih =>
      unfold history committedTransitions
      cases svc.commit d p with
      | none => exact ih d
      | some c => simp only [List.length_cons, ih]

/-- **The lines of a history are those of the committed transitions**, in the order of the run. -/
theorem historyLines_history (svc : FSMService X O) {d : FSMServiceDoc X} (hd : d.state ≠ none)
    (ps : List (PatchEvent X O)) :
    historyLines (svc.history d ps) =
      (svc.committedTransitions d ps).map fun t => edgeLine t.source t.destination t.trigger := by
  induction ps generalizing d with
  | nil => rfl
  | cons p ps ih =>
      unfold history committedTransitions
      cases hc : svc.commit d p with
      | none => exact ih hd
      | some c =>
          obtain ⟨hedge, htrigger, -⟩ := committed_patch hc
          have hne : c.state ≠ none := hedge.destination_ne_none hd
          obtain ⟨dest, hdest⟩ := Option.ne_none_iff_exists'.mp hne
          obtain ⟨rest, hrest⟩ := svc.history_eq_cons c ps
          simp only [hrest, historyLines_cons_cons]
          rw [← hrest, ih hne, ← htrigger, hdest]
          rfl

/-- **Every committed transition has its line in the graph of the configuration.** -/
theorem edgeLine_of_committed (svc : FSMService X O) (d : FSMServiceDoc X)
    (ps : List (PatchEvent X O)) {t : Transition} (ht : t ∈ svc.committedTransitions d ps) :
    edgeLine t.source t.destination t.trigger ∈ svc.stateMachineConfig.edgeLines := by
  induction ps generalizing d with
  | nil => cases ht
  | cons p ps ih =>
      unfold committedTransitions at ht
      cases hc : svc.commit d p with
      | none =>
          rw [hc] at ht
          exact ih d ht
      | some c =>
          rw [hc] at ht
          rcases List.mem_cons.mp ht with rfl | ht
          · obtain ⟨-, htrigger, r, b, hr, hb, hstate⟩ := committed_patch hc
            show edgeLine d.state c.state _ ∈ _
            rw [← htrigger, hstate]
            exact StateMachineConfig.edgeLine_mem_edgeLines hr hb
          · exact ih c ht

/-- **The history graph is a walk in the graph of the machine, whatever the order of the versions.**
For every configuration, every document that `handleStart` starts, every run of patches, and every
permutation of the versions it commits (their numbers increasing along the run), the text of the
history graph is the header, one edge line for each committed transition in the order of the run,
and the closing brace; and each of these lines is among the lines of `generateDotFile()`, where it
stands between those before and those after it. -/
theorem generateDotFile_history (svc : FSMService X O) {post op : Operation X}
    (hvalid : svc.validateStartPost post = (true, op)) (hpending : op.outcome = .pending)
    {d₀ : FSMServiceDoc X} (hstart : (svc.handleStart post).1.outcome = .completed d₀)
    (ps : List (PatchEvent X O))
    (hversions : (svc.history d₀ ps).Pairwise fun a b => a.documentVersion < b.documentVersion)
    {docs : List (FSMServiceDoc X)} (hdocs : docs.Perm (svc.history d₀ ps)) :
    let transitions := svc.committedTransitions d₀ ps
    docs.length = transitions.length + 1 ∧
      generateDotFileOf docs = historyHeader ++
        (transitions.map fun t => edgeLine t.source t.destination t.trigger).flatten ++
          "\x7d".toList ∧
      ∀ t ∈ transitions,
        edgeLine t.source t.destination t.trigger ∈ svc.stateMachineConfig.edgeLines ∧
        ∃ before after : List Str,
          svc.stateMachineConfig.edgeLines =
            before ++ edgeLine t.source t.destination t.trigger :: after ∧
          svc.stateMachineConfig.generateDotFile = "digraph G \x7b\n".toList ++
            (before.flatten ++ (edgeLine t.source t.destination t.trigger ++ after.flatten)) ++
              "\x7d".toList := by
  intro transitions
  obtain ⟨body, -, rfl⟩ := handleStart_completed hvalid hpending hstart
  refine ⟨hdocs.length_eq.trans (svc.length_history _ ps), ?_, fun t ht => ?_⟩
  · unfold generateDotFileOf
    rw [mergeSort_eq_of_perm FSMServiceDoc.documentVersion hdocs hversions,
      svc.historyLines_history (Option.some_ne_none _) ps]
  · have hline := svc.edgeLine_of_committed _ ps ht
    exact ⟨hline, StateMachineConfig.generateDotFile_of_mem hline⟩

/-- A telephone that dials and connects, its versions in another order. -/
theorem generateDotFile_history_phone :
    let d₀ := phoneDoc (some "OffHook".toList) none
    let versions := phoneService.history d₀
      [phonePatch "CallDialed".toList 1, phonePatch "CallConnected".toList 2]
    generateDotFileOf versions.reverse = historyHeader ++
      (edgeLine (some "OffHook".toList) (some "Ringing".toList) (some "CallDialed".toList) ++
        edgeLine (some "Ringing".toList) (some "Connected".toList) (some "CallConnected".toList)) ++
        "\x7d".toList := by
  intro d₀ versions
  have htransitions : phoneService.committedTransitions d₀
      [phonePatch "CallDialed".toList 1, phonePatch "CallConnected".toList 2] =
      [⟨some "OffHook".toList, some "Ringing".toList, some "CallDialed".toList⟩,
        ⟨some "Ringing".toList, some "Connected".toList, some "CallConnected".toList⟩] := by
    decide +kernel
  have hversions : (versions.map FSMServiceDoc.documentVersion).Pairwise (· < ·) := by
    decide +kernel
  have hgraph := (generateDotFile_history phoneService
    (show phoneService.validateStartPost phonePost = (true, phonePost) from rfl) rfl
    (show (phoneService.handleStart phonePost).1.outcome = .completed d₀ from rfl)
    [phonePatch "CallDialed".toList 1, phonePatch "CallConnected".toList 2]
    (List.pairwise_map.mp hversions) versions.reverse_perm).2.1
  rw [htransitions] at hgraph
  exact hgraph

end FSMService

end XenonExt
