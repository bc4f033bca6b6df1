import Mathlib.Data.List.Infix
import XenonExt.Java.Separators
import XenonExt.Java.Split
import XenonExt.StateMachine.DotFile

/-! # What the graph of a configuration tells

An edge statement puts three names between an arrow and a label, without quotes or escapes. Names that
contain these let a statement be read in several ways, and the graph then fits several machines.

* **`ReadsOneWay`**: the names that can be read back, and `edgeText_inj_iff` that these are all.
* **`edgeLines_perm`**: every permitted transition has its own edge statement.
* **`graphDetermines_iff`**: the edge statements determine the transitions of exactly those
  configurations whose statements read one way. -/

namespace XenonExt

/-! ## Reading an edge statement -/

/-- What stands between source and destination. -/
def arrow : Str := " -> ".toList

/-- The arrow without the space after it. -/
def arrowHead : Str := " ->".toList

/-- What stands between destination and trigger. -/
def label : Str := " [ label = \"".toList

@[simp] theorem length_arrow : arrow.length = 4 := rfl

@[simp] theorem length_arrowHead : arrowHead.length = 3 := rfl

@[simp] theorem length_label : label.length = 12 := rfl

/-- The names of an edge statement with what stands between them. -/
def edgeText (source destination trigger : Str) : Str :=
  source ++ (arrow ++ (destination ++ (label ++ trigger)))

/-- The start of the arrow does not overlap with itself, unlike the arrow. -/
theorem borderless_arrowHead : Borderless arrowHead := by decide

/-- The label does not overlap with itself. -/
theorem borderless_label : Borderless label := by decide

/-- The arrow ends in a space, which is read with the destination. -/
theorem arrow_append (t : Str) : arrow ++ t = arrowHead ++ ' ' :: t := rfl

/-- **Names that can be read back from their edge statement**: the arrow does not stand in the source,
nor across its end, after its first character; it does not stand in the destination, nor across its
start, before its last character; the label does not stand in the destination after its first
character, nor in the trigger before its last. -/
structure ReadsOneWay (source destination trigger : Str) : Prop where
  source : ¬ arrow <:+: (source ++ [' ']).tail
  destination_arrow : ¬ arrow <:+: (' ' :: destination).dropLast
  destination_label : ¬ label <:+: destination.tail
  trigger : ¬ label <:+: trigger.dropLast

instance (source destination trigger : Str) : Decidable (ReadsOneWay source destination trigger) :=
  decidable_of_iff (¬ arrow <:+: (source ++ [' ']).tail ∧ ¬ arrow <:+: (' ' :: destination).dropLast ∧
      ¬ label <:+: destination.tail ∧ ¬ label <:+: trigger.dropLast)
    ⟨fun ⟨h₁, h₂, h₃, h₄⟩ => ⟨h₁, h₂, h₃, h₄⟩, fun h => ⟨h.1, h.2, h.3, h.4⟩⟩

/-- Names that read one way have the only source with which the statement can be read. -/
theorem ReadsOneWay.source_eq {s d t s' d' t' : Str} (h : ReadsOneWay s d t) (hs' : s' ≠ [])
    (hd' : d' ≠ []) (ht' : t' ≠ []) (heq : edgeText s d t = edgeText s' d' t') : s = s' := by
  rw [edgeText, edgeText, arrow_append, arrow_append] at heq
  rcases List.append_eq_append_iff.mp heq with ⟨a, rfl, ha⟩ | ⟨c, rfl, hc⟩
  · cases a with
    | nil => rw [List.append_nil]
    | cons e a =>
        -- the arrow of the other reading stands after the arrow
        obtain ⟨a', -, hrest⟩ :=
          eq_append_of_borderless borderless_arrowHead (List.cons_ne_nil e a) ha
        have hrest : (' ' :: d) ++ (label ++ t) = (a' ++ (arrow ++ d')) ++ (label ++ t') := by
          rw [arrow_append]
          simpa using hrest
        rcases List.append_eq_append_iff.mp hrest with ⟨b, hb, hlabel⟩ | ⟨b, hb, -⟩
        · cases b with
          | nil =>
              rw [List.append_nil] at hb
              exact absurd ((infix_dropLast_iff (by decide)).mpr ⟨a', d', hd', hb.symm⟩)
                h.destination_arrow
          | cons f b =>
              obtain ⟨b', -, ht⟩ :=
                eq_append_of_borderless borderless_label (List.cons_ne_nil f b) hlabel
              exact absurd ((infix_dropLast_iff (by decide)).mpr ⟨b', t', ht', ht⟩) h.trigger
        · have hd : ' ' :: d = a' ++ (arrow ++ (d' ++ b)) := by rw [hb]; simp
          exact absurd ((infix_dropLast_iff (by decide)).mpr
            ⟨a', d' ++ b, List.append_ne_nil_of_left_ne_nil hd' b, hd⟩) h.destination_arrow
  · cases c with
    | nil => rw [List.append_nil]
    | cons e c =>
        -- the arrow of the other reading stands before the arrow
        obtain ⟨c', hc', hrest⟩ :=
          eq_append_of_borderless borderless_arrowHead (List.cons_ne_nil e c) hc
        have hspace : ∃ v, c' ++ [' '] = ' ' :: v := by
          cases c' with
          | nil => exact ⟨[], rfl⟩
          | cons f c' =>
              obtain ⟨rfl, -⟩ := List.cons.inj hrest
              exact ⟨c' ++ [' '], rfl⟩
        obtain ⟨v, hv⟩ := hspace
        refine absurd ((infix_tail_iff (by decide)).mpr ⟨s', v, hs', ?_⟩) h.source
        rw [hc', arrow_append, ← hv]
        simp

/-- Names that read one way are the only names with which the statement can be read. -/
theorem ReadsOneWay.eq {s d t s' d' t' : Str} (h : ReadsOneWay s d t) (hs' : s' ≠ [])
    (hd' : d' ≠ []) (ht' : t' ≠ []) (heq : edgeText s d t = edgeText s' d' t') :
    s = s' ∧ d = d' ∧ t = t' := by
  obtain rfl := h.source_eq hs' hd' ht' heq
  have hrest : d ++ (label ++ t) = d' ++ (label ++ t') :=
    List.append_cancel_left (List.append_cancel_left heq)
  rcases List.append_eq_append_iff.mp hrest with ⟨a, rfl, ha⟩ | ⟨c, rfl, hc⟩
  · cases a with
    | nil =>
        rw [List.nil_append] at ha
        exact ⟨rfl, (List.append_nil d).symm, List.append_cancel_left ha⟩
    | cons e a =>
        obtain ⟨a', -, ht⟩ := eq_append_of_borderless borderless_label (List.cons_ne_nil e a) ha
        exact absurd ((infix_dropLast_iff (by decide)).mpr ⟨a', t', ht', ht⟩) h.trigger
  · cases c with
    | nil =>
        rw [List.nil_append] at hc
        exact ⟨rfl, List.append_nil d', (List.append_cancel_left hc).symm⟩
    | cons e c =>
        obtain ⟨c', hc', -⟩ := eq_append_of_borderless borderless_label (List.cons_ne_nil e c) hc
        refine absurd ((infix_tail_iff (by decide)).mpr ⟨d', c', hd', ?_⟩) h.destination_label
        rw [hc']

/-- **The names that can be read back**: a statement has one reading, with names that are not empty,
exactly when its names read one way. -/
theorem edgeText_inj_iff {s d t : Str} (hs : s ≠ []) (hd : d ≠ []) (ht : t ≠ []) :
    (∀ s' d' t', s' ≠ [] → d' ≠ [] → t' ≠ [] → edgeText s d t = edgeText s' d' t' →
      s = s' ∧ d = d' ∧ t = t') ↔ ReadsOneWay s d t := by
  constructor
  · intro hread
    refine ⟨fun h => ?_, fun h => ?_, fun h => ?_, fun h => ?_⟩
    · obtain ⟨u, v, hu, huv⟩ := (infix_tail_iff (by decide)).mp h
      have heq : edgeText s d t = edgeText u (v ++ ("-> ".toList ++ d)) t := by
        have hsplit : edgeText s d t = (s ++ [' ']) ++ ("-> ".toList ++ (d ++ (label ++ t))) := by
          simp [edgeText, arrow]
        rw [hsplit, huv, edgeText]
        simp only [List.append_assoc]
      obtain ⟨rfl, -, -⟩ := hread u _ t hu (by simp) ht heq
      have hlength := congrArg List.length huv
      simp only [List.length_append, length_arrow, List.length_singleton] at hlength
      omega
    · obtain ⟨u, v, hv, huv⟩ := (infix_dropLast_iff (by decide)).mp h
      have heq : edgeText s d t = edgeText (s ++ (arrowHead ++ u)) v t := by
        have hsplit : edgeText s d t = s ++ (arrowHead ++ ((' ' :: d) ++ (label ++ t))) := rfl
        rw [hsplit, huv, edgeText]
        simp only [List.append_assoc]
      obtain ⟨hsource, -, -⟩ := hread _ v t (by simp [hs]) hv ht heq
      have hlength := congrArg List.length hsource
      simp only [List.length_append, length_arrowHead] at hlength
      omega
    · obtain ⟨u, v, hu, rfl⟩ := (infix_tail_iff (by decide)).mp h
      have heq : edgeText s (u ++ (label ++ v)) t = edgeText s u (v ++ (label ++ t)) := by
        simp only [edgeText, List.append_assoc]
      obtain ⟨-, hdestination, -⟩ := hread s u _ hs hu (by simp [ht]) heq
      have hlength := congrArg List.length hdestination
      simp only [List.length_append, length_label] at hlength
      omega
    · obtain ⟨u, v, hv, rfl⟩ := (infix_dropLast_iff (by decide)).mp h
      have heq : edgeText s d (u ++ (label ++ v)) = edgeText s (d ++ (label ++ u)) v := by
        simp only [edgeText, List.append_assoc]
      obtain ⟨-, hdestination, -⟩ := hread s _ v hs (by simp [hd]) hv heq
      have hlength := congrArg List.length hdestination
      simp only [List.length_append, length_label] at hlength
      omega
  · intro h s' d' t' hs' hd' ht' heq
    exact h.eq hs' hd' ht' heq

/-! ## Entries of maps -/

section Entries

variable {κ β : Type} [DecidableEq κ]

/-- The entry of a key may be put first. -/
theorem entries_perm_of_lookup {m : AList fun _ : κ => β} {k : κ} {v : β}
    (h : m.lookup k = some v) : m.entries.Perm (⟨k, v⟩ :: m.entries.kerase k) := by
  have hmem : (⟨k, v⟩ : Sigma fun _ : κ => β) ∈ m.entries := AList.mem_lookup_iff.mp h
  obtain ⟨v', l, l', -, hentries, hkerase⟩ :=
    List.exists_of_kerase (List.mem_keys_of_mem hmem)
  have hmem' : (⟨k, v'⟩ : Sigma fun _ : κ => β) ∈ m.entries := by
    rw [hentries]
    exact List.mem_append_right _ List.mem_cons_self
  have hv : m.lookup k = some v' := AList.mem_lookup_iff.mpr hmem'
  obtain rfl : v = v' := Option.some.inj (h.symm.trans hv)
  rw [hkerase, hentries]
  exact List.perm_middle

/-- Without an entry for a key there is nothing to erase. -/
theorem kerase_entries_of_lookup {m : AList fun _ : κ => β} {k : κ} (h : m.lookup k = none) :
    m.entries.kerase k = m.entries :=
  List.kerase_of_notMem_keys (AList.lookup_eq_none.mp h)

end Entries

/-! ## The transitions of a configuration -/

variable {G A : Type}

namespace StateRepresentation

/-- All behaviours of a state. -/
def behaviours (r : StateRepresentation G A) : List (TriggerBehaviour G) :=
  r.triggerBehaviours.entries.flatMap Sigma.snd

/-- A behaviour is added to those of the state. -/
theorem behaviours_addTriggerBehaviour (r : StateRepresentation G A) (b : TriggerBehaviour G) :
    (r.addTriggerBehaviour b).behaviours.Perm (r.behaviours ++ [b]) := by
  have hinsert : (r.addTriggerBehaviour b).behaviours =
      (r.behavioursOf b.trigger ++ [b]) ++
        (r.triggerBehaviours.entries.kerase b.trigger).flatMap Sigma.snd := by
    rw [behaviours, addTriggerBehaviour, AList.entries_insert, List.flatMap_cons]
  have hold : r.behaviours.Perm (r.behavioursOf b.trigger ++
      (r.triggerBehaviours.entries.kerase b.trigger).flatMap Sigma.snd) := by
    unfold behaviours behavioursOf
    cases h : r.triggerBehaviours.lookup b.trigger with
    | none =>
        rw [kerase_entries_of_lookup h]
        exact List.Perm.refl _
    | some bs => exact (entries_perm_of_lookup h).flatMap_right Sigma.snd
  rw [hinsert, List.append_assoc]
  refine List.Perm.trans (List.Perm.append_left _ List.perm_append_comm) ?_
  rw [← List.append_assoc]
  exact (hold.append_right [b]).symm

end StateRepresentation

/-- A configuration call adds the behaviour it permits, if it permits one. -/
theorem ConfigurationCall.behaviours_apply (r : StateRepresentation G A)
    (c : ConfigurationCall G A) :
    (c.apply r).behaviours.Perm (r.behaviours ++ (c.behaviour r.state).toList) := by
  have hpermit : ∀ (t destination : JString) (guard : Guard G),
      (finalState ((do
          StateConfiguration.enforceNotIdentityTransition destination
          StateConfiguration.publicPermitIf t destination guard :
            StateConfiguration.Step G A Unit).run r)).behaviours.Perm
        (r.behaviours ++ (if destination = none ∨ destination = r.state then none
          else some (⟨t, guard, destination⟩ : TriggerBehaviour G)).toList) := by
    intro t destination guard
    rw [StateConfiguration.permit_finalState]
    by_cases h : destination = none ∨ destination = r.state
    · rw [if_pos h, if_pos h, Option.toList_none, List.append_nil]
    · rw [if_neg h, if_neg h]
      exact r.behaviours_addTriggerBehaviour _
  cases c with
  | permit t destination => exact hpermit t destination .noGuard
  | permitIf t destination guard => exact hpermit t destination (.user guard)
  | permitReentry t => exact r.behaviours_addTriggerBehaviour ⟨t, .noGuard, r.state⟩
  | permitReentryIf t guard => exact r.behaviours_addTriggerBehaviour ⟨t, .user guard, r.state⟩
  | onEntry action => exact List.Perm.of_eq (List.append_nil _).symm
  | onEntryFrom t action => exact List.Perm.of_eq (List.append_nil _).symm
  | onExpiry t delay => exact List.Perm.of_eq (List.append_nil _).symm
  | onExit action => exact List.Perm.of_eq (List.append_nil _).symm

/-- The edge statement of a transition. -/
def Transition.edge (t : Transition) : Str := edgeLine t.source t.destination t.trigger

/-- The transition of a behaviour of a state. -/
def TriggerBehaviour.transition (state : JString) (b : TriggerBehaviour G) : Transition :=
  ⟨state, b.destination, b.trigger⟩

/-- The transition that a builder call permits, if it permits one. -/
def BuilderCall.transition : BuilderCall G A → Option Transition
  | .configure _ => none
  | .on state call => (call.behaviour state).map (TriggerBehaviour.transition state)

/-- **The transitions that a log of builder calls permits**, in call order. -/
def transitionsOf (calls : List (BuilderCall G A)) : List Transition :=
  calls.filterMap BuilderCall.transition

namespace StateMachineConfig

/-- The transitions of one state. -/
def transitionsAt (entry : Sigma fun _ : JString => StateRepresentation G A) : List Transition :=
  entry.2.behaviours.map (TriggerBehaviour.transition entry.1)

/-- The transitions of a configuration, in the order in which they are printed. -/
def transitions (c : StateMachineConfig G A) : List Transition :=
  c.stateConfiguration.entries.flatMap transitionsAt

/-- The edge statements are those of the transitions. -/
theorem edgeLines_eq (c : StateMachineConfig G A) :
    c.edgeLines = c.transitions.map Transition.edge := by
  unfold edgeLines transitions transitionsAt StateRepresentation.behaviours
  simp only [List.map_flatMap, List.map_map]
  rfl

/-- Configuring a state adds no transition. -/
theorem transitions_configure (c : StateMachineConfig G A) (state : JString) :
    (c.configure state).1.transitions = c.transitions := by
  unfold configure getOrCreateRepresentation
  cases h : c.getRepresentation state with
  | some r => rfl
  | none =>
      have hkerase : c.stateConfiguration.entries.kerase state = c.stateConfiguration.entries :=
        kerase_entries_of_lookup h
      show List.flatMap transitionsAt (c.stateConfiguration.insert state (.new state)).entries = _
      rw [AList.entries_insert, List.flatMap_cons, hkerase]
      rfl

/-- A call on a configured state adds the transition of the behaviour it permits. -/
theorem transitions_put_apply {c : StateMachineConfig G A} {state : JString}
    {r : StateRepresentation G A} (h : c.getRepresentation state = some r)
    (call : ConfigurationCall G A) :
    (c.put (call.apply r)).transitions.Perm
      (c.transitions ++ (BuilderCall.on state call).transition.toList) := by
  have hstate : r.state = state := state_of_getRepresentation h
  have hkey : (call.apply r).state = state := (call.apply_state r).trans hstate
  have hentries : (c.put (call.apply r)).transitions = transitionsAt ⟨state, call.apply r⟩ ++
      (c.stateConfiguration.entries.kerase state).flatMap transitionsAt := by
    rw [transitions, put, AList.entries_insert, List.flatMap_cons, hkey]
  have hold : c.transitions.Perm (transitionsAt ⟨state, r⟩ ++
      (c.stateConfiguration.entries.kerase state).flatMap transitionsAt) :=
    (entries_perm_of_lookup h).flatMap_right transitionsAt
  have hnew : (transitionsAt ⟨state, call.apply r⟩).Perm
      (transitionsAt ⟨state, r⟩ ++ (BuilderCall.on state call).transition.toList) := by
    have hmap := (call.behaviours_apply r).map (TriggerBehaviour.transition state)
    rw [List.map_append, hstate] at hmap
    refine hmap.trans (List.Perm.of_eq (congrArg _ ?_))
    rw [BuilderCall.transition]
    cases call.behaviour state <;> rfl
  rw [hentries]
  refine (hnew.append_right _).trans ?_
  rw [List.append_assoc]
  refine (List.Perm.append_left _ List.perm_append_comm).trans ?_
  rw [← List.append_assoc]
  exact (hold.append_right _).symm

/-- **A builder call adds the transition it permits**, if it permits one. -/
theorem transitions_apply (c : StateMachineConfig G A) (call : BuilderCall G A) :
    (c.apply call).transitions.Perm (c.transitions ++ call.transition.toList) := by
  rw [← c.transitions_configure call.state]
  cases call with
  | configure state => exact List.Perm.of_eq (List.append_nil _).symm
  | on state call => exact transitions_put_apply (c.getRepresentation_configure_self state) call

/-- **The transitions of a configuration are those that the builder calls permit**, in some order. -/
theorem transitions_perm (initState : JString) (calls : List (BuilderCall G A)) :
    (build initState calls).transitions.Perm (transitionsOf calls) := by
  induction calls using List.reverseRecOn with
  | nil => exact List.Perm.refl _
  | append_singleton calls call ih =>
      rw [build_concat, transitionsOf, List.filterMap_append]
      refine ((build initState calls).transitions_apply call).trans (ih.append ?_)
      rw [List.filterMap_cons, List.filterMap_nil]
      cases call.transition <;> exact List.Perm.refl _

/-- **Every permitted transition has its own edge statement**, whatever the names are. -/
theorem edgeLines_perm (initState : JString) (calls : List (BuilderCall G A)) :
    (build initState calls).edgeLines.Perm ((transitionsOf calls).map Transition.edge) := by
  rw [edgeLines_eq]
  exact (transitions_perm initState calls).map Transition.edge

end StateMachineConfig

/-! ## Transitions and their edge statements -/

namespace Transition

/-- The names of a transition are strings that are not empty. -/
def Named (t : Transition) : Prop :=
  (∃ s ∈ t.source, s ≠ []) ∧ (∃ d ∈ t.destination, d ≠ []) ∧ ∃ g ∈ t.trigger, g ≠ []

instance (t : Transition) : Decidable t.Named := by
  unfold Named
  infer_instance

/-- The names of a transition, taken out. -/
theorem Named.exists {t : Transition} (h : t.Named) :
    ∃ s d g : Str, s ≠ [] ∧ d ≠ [] ∧ g ≠ [] ∧ t = ⟨some s, some d, some g⟩ := by
  obtain ⟨⟨s, hs, hs'⟩, ⟨d, hd, hd'⟩, ⟨g, hg, hg'⟩⟩ := h
  obtain ⟨source, destination, trigger⟩ := t
  obtain rfl : source = some s := hs
  obtain rfl : destination = some d := hd
  obtain rfl : trigger = some g := hg
  exact ⟨s, d, g, hs', hd', hg', rfl⟩

/-- The edge statement of a transition can be read in one way only. -/
def ReadsOneWay (t : Transition) : Prop :=
  XenonExt.ReadsOneWay (text t.source) (text t.destination) (text t.trigger)

instance (t : Transition) : Decidable t.ReadsOneWay := by
  unfold ReadsOneWay
  infer_instance

/-- Two edge statements are equal when their names print alike. -/
theorem edge_eq_iff (s d g s' d' g' : Str) :
    edge ⟨some s, some d, some g⟩ = edge ⟨some s', some d', some g'⟩ ↔
      edgeText s d g = edgeText s' d' g' := by
  have hedge : ∀ s d g : Str, edge ⟨some s, some d, some g⟩ =
      "\t".toList ++ (edgeText s d g ++ "\" ];\n".toList) := by
    intro s d g
    show "\t".toList ++ s ++ arrow ++ d ++ label ++ g ++ "\" ];\n".toList = _
    rw [edgeText]
    simp only [List.append_assoc]
  rw [hedge, hedge, List.append_cancel_left_eq, List.append_cancel_right_eq]

/-- **A transition can be told from its edge statement** exactly when the statement reads one way. -/
theorem edge_inj_iff {t : Transition} (ht : t.Named) :
    (∀ t' : Transition, t'.Named → t'.edge = t.edge → t' = t) ↔ t.ReadsOneWay := by
  obtain ⟨s, d, g, hs, hd, hg, rfl⟩ := ht.exists
  refine Iff.trans ?_ (edgeText_inj_iff hs hd hg)
  constructor
  · intro h s' d' g' hs' hd' hg' heq
    have ht' := h ⟨some s', some d', some g'⟩ ⟨⟨s', rfl, hs'⟩, ⟨d', rfl, hd'⟩, ⟨g', rfl, hg'⟩⟩
      ((edge_eq_iff s' d' g' s d g).mpr heq.symm)
    cases ht'
    exact ⟨rfl, rfl, rfl⟩
  · intro h t' ht' heq
    obtain ⟨s', d', g', hs', hd', hg', rfl⟩ := ht'.exists
    obtain ⟨rfl, rfl, rfl⟩ := h s' d' g' hs' hd' hg' ((edge_eq_iff s' d' g' s d g).mp heq).symm
    rfl

/-- A builder call that permits a transition. -/
def call (t : Transition) : BuilderCall G A :=
  if t.destination = t.source then .on t.source (.permitReentry t.trigger)
  else .on t.source (.permit t.trigger t.destination)

/-- Every transition with names can be permitted. -/
theorem call_transition {t : Transition} (ht : t.Named) :
    (t.call : BuilderCall G A).transition = some t := by
  obtain ⟨s, d, g, -, -, -, rfl⟩ := ht.exists
  unfold call
  split
  · rename_i h
    cases h
    rfl
  · rename_i h
    simp only [BuilderCall.transition, ConfigurationCall.behaviour, reduceCtorEq, false_or, if_neg h]
    rfl

end Transition

/-- The transitions of calls that permit transitions with names. -/
theorem transitionsOf_map_call {l : List Transition} (h : ∀ t ∈ l, t.Named) :
    transitionsOf (l.map fun t => (t.call : BuilderCall G A)) = l := by
  rw [transitionsOf, List.filterMap_map]
  exact (List.filterMap_congr fun t ht => Transition.call_transition (h t ht)).trans
    List.filterMap_some

/-! ## The lines of the text -/

namespace Transition

/-- The edge statement without the line break at its end. -/
def line (t : Transition) : Str :=
  "\t".toList ++ text t.source ++ arrow ++ text t.destination ++ label ++ text t.trigger ++
    "\" ];".toList

/-- An edge statement ends in a line break. -/
theorem edge_eq_line (t : Transition) : t.edge = t.line ++ ['\n'] := by
  show "\t".toList ++ text t.source ++ arrow ++ text t.destination ++ label ++ text t.trigger ++
    ("\" ];".toList ++ ['\n']) = _
  rw [line, List.append_assoc _ "\" ];".toList]

/-- There is no line break in the names of a transition. -/
def OneLine (t : Transition) : Prop :=
  '\n' ∉ text t.source ∧ '\n' ∉ text t.destination ∧ '\n' ∉ text t.trigger

/-- Without a line break in the names there is none in the edge statement before its end. -/
theorem oneLine_iff (t : Transition) : t.OneLine ↔ '\n' ∉ t.line := by
  have hnone : '\n' ∉ "\t".toList ∧ '\n' ∉ arrow ∧ '\n' ∉ label ∧ '\n' ∉ "\" ];".toList := by decide
  obtain ⟨htab, harrow, hlabel, hend⟩ := hnone
  simp only [OneLine, line, List.mem_append, htab, harrow, hlabel, hend, false_or, or_false, not_or,
    and_assoc]

end Transition

/-- The text after a line break, for edge statements that are lines. -/
theorem rooted_lines (l : List Transition) :
    rooted '\n' (l.map Transition.line) ++ ['\n'] = '\n' :: (l.map Transition.edge).flatten := by
  induction l with
  | nil => rfl
  | cons t l ih =>
      rw [List.map_cons, rooted_cons, List.append_assoc, ih, List.map_cons, List.flatten_cons,
        Transition.edge_eq_line]
      simp

/-- A header, edge statements and a last line, put together. -/
theorem rooted_document (header lastLine : Str) (l : List Transition) :
    rooted '\n' (header :: (l.map Transition.line ++ [lastLine])) =
      '\n' :: (header ++ ['\n'] ++ (l.map Transition.edge).flatten ++ lastLine) := by
  have hlast : rooted '\n' [lastLine] = ['\n'] ++ lastLine := by
    rw [rooted_cons, rooted_nil, List.append_nil, List.singleton_append]
  rw [rooted_cons, rooted_append, hlast, ← List.append_assoc (rooted '\n' _), rooted_lines]
  simp only [List.append_assoc, List.cons_append, List.nil_append]

/-- **The lines of the text** are a header, the edge statements and a brace, when no name has a line
break. -/
theorem lines_generateDotFile {c : StateMachineConfig G A} (hlines : ∀ t ∈ c.transitions, t.OneLine) :
    c.generateDotFile.splitOn '\n' =
      "digraph G \x7b".toList :: (c.transitions.map Transition.line ++ ["\x7d".toList]) := by
  have hrooted : '\n' :: c.generateDotFile = rooted '\n'
      ("digraph G \x7b".toList :: (c.transitions.map Transition.line ++ ["\x7d".toList])) := by
    have hheader : "digraph G \x7b\n".toList = "digraph G \x7b".toList ++ ['\n'] := by decide
    have htext : c.generateDotFile =
        "digraph G \x7b\n".toList ++ c.edgeLines.flatten ++ "\x7d".toList := rfl
    rw [rooted_document, htext, StateMachineConfig.edgeLines_eq, hheader]
  have hsegments : ∀ s ∈ "digraph G \x7b".toList ::
      (c.transitions.map Transition.line ++ ["\x7d".toList]), '\n' ∉ s := by
    intro s hs
    rcases List.mem_cons.mp hs with rfl | hs
    · decide
    · rcases List.mem_append.mp hs with hs | hs
      · obtain ⟨t, ht, rfl⟩ := List.mem_map.mp hs
        exact (t.oneLine_iff).mp (hlines t ht)
      · rw [List.mem_singleton.mp hs]
        decide
  have hsplit := splitOn_rooted hsegments
  rw [← hrooted, List.splitOn_cons_eq_if_modifyHead, beq_self_eq_true, if_pos rfl] at hsplit
  exact (List.cons.inj hsplit).2

/-- Texts with the same lines, in whatever order, are texts with the same edge statements. -/
theorem lines_perm_iff {c c' : StateMachineConfig G A} (hlines : ∀ t ∈ c.transitions, t.OneLine)
    (hlines' : ∀ t ∈ c'.transitions, t.OneLine) :
    (c.generateDotFile.splitOn '\n').Perm (c'.generateDotFile.splitOn '\n') ↔
      c.edgeLines.Perm c'.edgeLines := by
  have hedge : ∀ l : List Transition, l.map Transition.edge =
      (l.map Transition.line).map (· ++ ['\n']) := by
    intro l
    rw [List.map_map]
    exact List.map_congr_left fun t _ => t.edge_eq_line
  have hline : ∀ l : List Transition, l.map Transition.line =
      (l.map Transition.edge).map List.dropLast := by
    intro l
    rw [List.map_map]
    exact List.map_congr_left fun t _ => by
      rw [Function.comp_apply, Transition.edge_eq_line, List.dropLast_concat]
  rw [lines_generateDotFile hlines, lines_generateDotFile hlines', List.perm_cons,
    List.perm_append_right_iff, StateMachineConfig.edgeLines_eq, StateMachineConfig.edgeLines_eq]
  constructor
  · intro h
    rw [hedge, hedge]
    exact h.map _
  · intro h
    rw [hline, hline]
    exact h.map _

/-! ## Which machines the graph determines -/

/-- **The graph determines the machine**: every machine built with names that gives the same edge
statements, in whatever order, permits the same transitions. -/
def GraphDetermines (calls : List (BuilderCall G A)) : Prop :=
  ∀ (initState initState' : JString) (calls' : List (BuilderCall G A)),
    (∀ t ∈ transitionsOf calls', t.Named) →
      (StateMachineConfig.build initState calls).edgeLines.Perm
        (StateMachineConfig.build initState' calls').edgeLines →
          (transitionsOf calls).Perm (transitionsOf calls')

/-- The text determines the machine among those without line breaks in their names: every such machine
whose text has the same lines, in whatever order, permits the same transitions. -/
def TextDetermines (calls : List (BuilderCall G A)) : Prop :=
  ∀ (initState initState' : JString) (calls' : List (BuilderCall G A)),
    (∀ t ∈ transitionsOf calls', t.Named ∧ t.OneLine) →
      ((StateMachineConfig.build initState calls).generateDotFile.splitOn '\n').Perm
        ((StateMachineConfig.build initState' calls').generateDotFile.splitOn '\n') →
          (transitionsOf calls).Perm (transitionsOf calls')

/-- A transition whose statement has another reading can be exchanged for it. -/
theorem exists_other_machine {calls : List (BuilderCall G A)}
    (hnamed : ∀ t ∈ transitionsOf calls, t.Named) {t : Transition} (ht : t ∈ transitionsOf calls)
    (hread : ¬ t.ReadsOneWay) :
    ∃ calls' : List (BuilderCall G A), (∀ x ∈ transitionsOf calls', x.Named) ∧
      (transitionsOf calls').map Transition.edge = (transitionsOf calls).map Transition.edge ∧
      ¬ (transitionsOf calls).Perm (transitionsOf calls') := by
  have hother := mt (Transition.edge_inj_iff (hnamed t ht)).mp hread
  simp only [not_forall] at hother
  obtain ⟨t', ht', hedge, hne⟩ := hother
  obtain ⟨l, l', hcalls⟩ := List.append_of_mem ht
  have hnamed' : ∀ x ∈ l ++ t' :: l', x.Named := by
    intro x hx
    rcases List.mem_append.mp hx with hx | hx
    · exact hnamed x (hcalls ▸ List.mem_append_left _ hx)
    · rcases List.mem_cons.mp hx with rfl | hx
      · exact ht'
      · exact hnamed x (hcalls ▸ List.mem_append_right _ (List.mem_cons_of_mem _ hx))
  refine ⟨(l ++ t' :: l').map Transition.call, ?_⟩
  rw [transitionsOf_map_call hnamed', hcalls]
  refine ⟨hnamed', ?_, fun hperm => ?_⟩
  · rw [List.map_append, List.map_append, List.map_cons, List.map_cons, hedge]
  · rw [List.perm_append_left_iff] at hperm
    have hsingle : [t].Perm [t'] := (List.perm_append_right_iff l').mp hperm
    exact hne (List.singleton_perm_singleton.mp hsingle).symm

/-- The edge statements determine the transitions when each of them reads one way. -/
theorem perm_of_readsOneWay {calls calls' : List (BuilderCall G A)}
    (hnamed : ∀ t ∈ transitionsOf calls, t.Named) (hnamed' : ∀ t ∈ transitionsOf calls', t.Named)
    (hread : ∀ t ∈ transitionsOf calls, t.ReadsOneWay) {initState initState' : JString}
    (h : (StateMachineConfig.build initState calls).edgeLines.Perm
      (StateMachineConfig.build initState' calls').edgeLines) :
    (transitionsOf calls).Perm (transitionsOf calls') := by
  have hmap := (StateMachineConfig.edgeLines_perm initState calls).symm.trans
    (h.trans (StateMachineConfig.edgeLines_perm initState' calls'))
  refine perm_of_map_perm Transition.edge hmap fun t ht t' ht' hedge => ?_
  exact (Transition.edge_inj_iff (hnamed t ht)).mpr (hread t ht) t' (hnamed' t' ht') hedge

/-- Equal statements are the statements of the configurations. -/
theorem edgeLines_perm_of_map_eq {calls calls' : List (BuilderCall G A)}
    (h : (transitionsOf calls').map Transition.edge = (transitionsOf calls).map Transition.edge)
    (initState initState' : JString) :
    (StateMachineConfig.build initState calls).edgeLines.Perm
      (StateMachineConfig.build initState' calls').edgeLines :=
  (StateMachineConfig.edgeLines_perm initState calls).trans
    ((List.Perm.of_eq h.symm).trans (StateMachineConfig.edgeLines_perm initState' calls').symm)

/-- **The generated graph determines the machine exactly when its edge statements read one way.** For
every log of builder calls, with names that are not empty, each permitted transition has its own edge
statement; and the statements are those of no other multiset of transitions if and only if the names
of every transition can be read back from its statement. The same holds of the lines of the text,
among machines whose names have no line breaks. -/
theorem graphDetermines_iff {calls : List (BuilderCall G A)}
    (hnamed : ∀ t ∈ transitionsOf calls, t.Named) :
    (∀ initState, (StateMachineConfig.build initState calls).edgeLines.Perm
      ((transitionsOf calls).map Transition.edge)) ∧
      (GraphDetermines calls ↔ ∀ t ∈ transitionsOf calls, t.ReadsOneWay) ∧
      ((∀ t ∈ transitionsOf calls, t.OneLine) →
        (TextDetermines calls ↔ ∀ t ∈ transitionsOf calls, t.ReadsOneWay)) := by
  have honeLine : ∀ (initState : JString) (calls : List (BuilderCall G A)),
      (∀ t ∈ transitionsOf calls, t.OneLine) →
        ∀ t ∈ (StateMachineConfig.build initState calls).transitions, t.OneLine :=
    fun initState calls h t ht =>
      h t ((StateMachineConfig.transitions_perm initState calls).subset ht)
  refine ⟨fun initState => StateMachineConfig.edgeLines_perm initState calls, ⟨?_, ?_⟩,
    fun hlines => ⟨?_, ?_⟩⟩
  · intro h t ht
    by_contra hread
    obtain ⟨calls', hnamed', hedges, hne⟩ := exists_other_machine hnamed ht hread
    exact hne (h none none calls' hnamed' (edgeLines_perm_of_map_eq hedges none none))
  · exact fun hread _ _ _ hnamed' h => perm_of_readsOneWay hnamed hnamed' hread h
  · intro h t ht
    by_contra hread
    obtain ⟨calls', hnamed', hedges, hne⟩ := exists_other_machine hnamed ht hread
    -- the other machine has the same statements, so they are lines as well
    have hlines' : ∀ x ∈ transitionsOf calls', x.OneLine := by
      intro x hx
      have hmem : x.edge ∈ (transitionsOf calls).map Transition.edge :=
        hedges ▸ List.mem_map_of_mem hx
      obtain ⟨y, hy, hyx⟩ := List.mem_map.mp hmem
      rw [Transition.edge_eq_line, Transition.edge_eq_line, List.append_cancel_right_eq] at hyx
      exact x.oneLine_iff.mpr (hyx ▸ y.oneLine_iff.mp (hlines y hy))
    refine hne (h none none calls' (fun x hx => ⟨hnamed' x hx, hlines' x hx⟩) ?_)
    exact (lines_perm_iff (honeLine none calls hlines) (honeLine none calls' hlines')).mpr
      (edgeLines_perm_of_map_eq hedges none none)
  · intro hread initState initState' calls' hcalls' h
    have hedges := (lines_perm_iff (honeLine initState calls hlines)
      (honeLine initState' calls' fun t ht => (hcalls' t ht).2)).mp h
    exact perm_of_readsOneWay hnamed (fun t ht => (hcalls' t ht).1) hread hedges

/-- **Two machines with one graph**: from `a` to `b -> c`, and from `a -> b` to `c`. -/
theorem graph_a_b_c_not_determines :
    let calls : List (BuilderCall Empty Nat) :=
      [.on (some "a".toList) (.permit (some "go".toList) (some "b -> c".toList))]
    let calls' : List (BuilderCall Empty Nat) :=
      [.on (some "a -> b".toList) (.permit (some "go".toList) (some "c".toList))]
    (StateMachineConfig.build none calls).generateDotFile =
        (StateMachineConfig.build none calls').generateDotFile ∧
      ¬ GraphDetermines calls := by
  intro calls calls'
  refine ⟨by decide, fun h => ?_⟩
  have hnamed : ∀ t ∈ transitionsOf calls', t.Named := by decide
  have hedges : (StateMachineConfig.build none calls).edgeLines =
      (StateMachineConfig.build none calls').edgeLines := by decide
  have hperm := h none none calls' hnamed (List.Perm.of_eq hedges)
  exact absurd (List.singleton_perm_singleton.mp hperm) (by decide)

/-- The graph of the telephone determines its transitions. -/
theorem graphDetermines_phone : GraphDetermines (phoneCalls id : List (BuilderCall Empty Nat)) := by
  have hnamed : ∀ t ∈ transitionsOf (phoneCalls id : List (BuilderCall Empty Nat)), t.Named := by
    decide +kernel
  have hread : ∀ t ∈ transitionsOf (phoneCalls id : List (BuilderCall Empty Nat)),
      t.ReadsOneWay := by
    decide +kernel
  exact (graphDetermines_iff hnamed).2.1.mpr hread

end XenonExt
