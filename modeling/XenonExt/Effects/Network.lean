import Mathlib.Data.List.Perm.Basic
import Mathlib.Data.List.Perm.Subperm
import XenonExt.Effects.RelatedLists

/-! # Messages on their way to a state

Messages are sent to a state, overtake each other, may get lost, and are handled where they arrive,
among steps of the state itself. Nothing here depends on what messages and states are.

* **`Network`, `NetworkEvent`**: a state with the messages on their way to it.
* **`happened`**: what happens to the state, in the order of arrival; each message at most once
  (`happened_subperm`), and any order is one of some run (`happened_inOrder`).
* **`state_run_encode`**: messages that travel in an encoded form do to the state what happens in
  terms of the messages themselves.
* **`state_run_relay`**: a relay that sends on what arrives is a network of its own behind the first
  one, with the events of `relayed`. -/

namespace XenonExt

variable {σ μ ν ε : Type}

/-- What is made of some elements is made of more of them. -/
theorem subperm_filterMap {l l' : List μ} (f : μ → Option ν) (h : l.Subperm l') :
    (l.filterMap f).Subperm (l'.filterMap f) := by
  obtain ⟨l₀, hperm, hsub⟩ := h
  exact ⟨l₀.filterMap f, hperm.filterMap f, hsub.filterMap f⟩

/-- A state, and the messages on their way to it. -/
structure Network (σ μ : Type) where
  state : σ
  inFlight : List μ

/-- What happens in a network: a message is sent, arrives or is lost, or the state makes a step. -/
inductive NetworkEvent (ν ε : Type)
  | send (message : ν)
  | arrive (k : ℕ)
  | lose (k : ℕ)
  | move (e : ε)

namespace Network

/-- **One event**. A message travels in the form that `encode` gives it, if there is one. -/
def step (encode : ν → Option μ) (handle : σ → μ → σ) (move : σ → ε → σ) (s : Network σ μ) :
    NetworkEvent ν ε → Network σ μ
  | .send message => { s with inFlight := s.inFlight ++ (encode message).toList }
  | .arrive k => match s.inFlight[k]? with
    | some m => ⟨handle s.state m, s.inFlight.eraseIdx k⟩
    | none => s
  | .lose k => { s with inFlight := s.inFlight.eraseIdx k }
  | .move e => { s with state := move s.state e }

/-- A run of a network that starts without messages. -/
def run (encode : ν → Option μ) (handle : σ → μ → σ) (move : σ → ε → σ) (s : σ)
    (events : List (NetworkEvent ν ε)) : Network σ μ :=
  events.foldl (step encode handle move) ⟨s, []⟩

/-- Networks of one state, whose messages do the same when they are handled. -/
structure Alike (handle : σ → μ → σ) (handle' : σ → ν → σ) (s : Network σ μ) (t : Network σ ν) :
    Prop where
  state_eq : s.state = t.state
  inFlight : List.Forall₂ (fun m n => ∀ x, handle x m = handle' x n) s.inFlight t.inFlight

/-- **What happens to the state**: the messages that arrive, and its own steps. -/
def happened : List ν → List (NetworkEvent ν ε) → List (ν ⊕ ε)
  | _, [] => []
  | inFlight, .send n :: events => happened (inFlight ++ [n]) events
  | inFlight, .arrive k :: events => match inFlight[k]? with
    | some n => .inl n :: happened (inFlight.eraseIdx k) events
    | none => happened inFlight events
  | inFlight, .lose k :: events => happened (inFlight.eraseIdx k) events
  | inFlight, .move e :: events => .inr e :: happened inFlight events

/-- The messages that are sent. -/
def sent : List (NetworkEvent ν ε) → List ν
  | [] => []
  | .send n :: events => n :: sent events
  | .arrive _ :: events | .lose _ :: events | .move _ :: events => sent events

/-- A message is sent by an event. -/
theorem mem_sent_iff {n : ν} {events : List (NetworkEvent ν ε)} :
    n ∈ sent events ↔ .send n ∈ events := by
  induction events with
  | nil => exact ⟨fun h => absurd h List.not_mem_nil, fun h => absurd h List.not_mem_nil⟩
  | cons e events ih =>
      cases e with
      | send m => rw [sent, List.mem_cons, List.mem_cons, ih, NetworkEvent.send.injEq]
      | arrive k | lose k | move e =>
          rw [sent, ih, List.mem_cons, or_iff_right (by simp)]

/-- A step of the state that happens is one of the events. -/
theorem move_mem_of_mem_happened {inFlight : List ν} {events : List (NetworkEvent ν ε)} {e : ε}
    (h : .inr e ∈ happened inFlight events) : .move e ∈ events := by
  induction events generalizing inFlight with
  | nil => cases h
  | cons event events ih =>
      cases event with
      | send n => exact List.mem_cons_of_mem _ (ih h)
      | arrive k =>
          simp only [happened] at h
          split at h
          · exact List.mem_cons_of_mem _ (ih ((List.mem_cons.mp h).resolve_left Sum.inr_ne_inl))
          · exact List.mem_cons_of_mem _ (ih h)
      | lose k => exact List.mem_cons_of_mem _ (ih h)
      | move e' =>
          rcases List.mem_cons.mp h with h | h
          · obtain rfl := Sum.inr.inj h
            exact List.mem_cons_self
          · exact List.mem_cons_of_mem _ (ih h)

/-- **No message happens that was not sent**, and none more often than it was sent. -/
theorem happened_subperm (inFlight : List ν) (events : List (NetworkEvent ν ε)) :
    ((happened inFlight events).filterMap Sum.getLeft?).Subperm (inFlight ++ sent events) := by
  induction events generalizing inFlight with
  | nil => exact List.nil_subperm
  | cons e events ih =>
      cases e with
      | send n =>
          have ih := ih (inFlight ++ [n])
          rwa [List.append_assoc] at ih
      | arrive k =>
          simp only [happened, sent]
          by_cases hk : k < inFlight.length
          · rw [List.getElem?_eq_getElem hk]
            have hperm : (inFlight[k] :: (inFlight.eraseIdx k ++ sent events)).Perm
                (inFlight ++ sent events) :=
              (List.getElem_cons_eraseIdx_perm hk).append_right (sent events)
            exact ((List.subperm_cons _).mpr (ih (inFlight.eraseIdx k))).trans hperm.subperm
          · rw [List.getElem?_eq_none (Nat.not_lt.mp hk)]
            exact ih inFlight
      | lose k =>
          rw [happened, sent]
          exact (ih (inFlight.eraseIdx k)).trans
            ((List.eraseIdx_sublist inFlight k).append_right (sent events)).subperm
      | move e => exact ih inFlight

/-- Messages that arrive as they are sent. -/
def inOrder (messages : List ν) : List (NetworkEvent ν ε) :=
  messages.flatMap fun message => [.send message, .arrive 0]

theorem sent_inOrder (messages : List ν) :
    sent (inOrder messages : List (NetworkEvent ν ε)) = messages := by
  induction messages with
  | nil => rfl
  | cons message messages ih => exact congrArg (message :: ·) ih

theorem happened_inOrder (messages : List ν) :
    happened [] (inOrder messages : List (NetworkEvent ν ε)) = messages.map .inl := by
  induction messages with
  | nil => rfl
  | cons message messages ih => exact congrArg (.inl message :: ·) ih

theorem send_mem_inOrder_iff {message : ν} {messages : List ν} :
    .send message ∈ (inOrder messages : List (NetworkEvent ν ε)) ↔ message ∈ messages := by
  simp [inOrder]

/-- A network of messages does to the state what happens to it. -/
theorem state_foldl_some (handle : σ → ν → σ) (move : σ → ε → σ) (s : Network σ ν)
    (events : List (NetworkEvent ν ε)) :
    (events.foldl (step some handle move) s).state =
      (happened s.inFlight events).foldl (fun x => Sum.elim (handle x) (move x)) s.state := by
  induction events generalizing s with
  | nil => rfl
  | cons e events ih =>
      rw [List.foldl_cons, ih]
      cases e with
      | send n => rfl
      | arrive k =>
          simp only [step, happened]
          cases s.inFlight[k]? <;> rfl
      | lose k => rfl
      | move e => rfl

variable {encode : ν → Option μ} {handle : σ → μ → σ} {handle' : σ → ν → σ} {move : σ → ε → σ}

/-- **One event keeps networks alike**, if a message that is sent has a form that does the same. -/
theorem Alike.step {s : Network σ μ} {t : Network σ ν} (h : Alike handle handle' s t)
    {e : NetworkEvent ν ε}
    (hencode : ∀ n, e = .send n → ∃ m, encode n = some m ∧ ∀ x, handle x m = handle' x n) :
    Alike handle handle' (s.step encode handle move e) (t.step some handle' move e) := by
  cases e with
  | send n =>
      obtain ⟨m, hm, hsame⟩ := hencode n rfl
      refine ⟨h.state_eq, ?_⟩
      simp only [Network.step, hm, Option.toList_some]
      exact List.rel_append h.inFlight (.cons hsame .nil)
  | arrive k =>
      simp only [Network.step]
      have hlength := h.inFlight.length_eq
      by_cases hk : k < s.inFlight.length
      · rw [List.getElem?_eq_getElem hk, List.getElem?_eq_getElem (hlength ▸ hk)]
        refine ⟨?_, forall₂_eraseIdx h.inFlight k⟩
        rw [h.state_eq]
        exact h.inFlight.get hk (hlength ▸ hk) t.state
      · rw [List.getElem?_eq_none (Nat.not_lt.mp hk),
          List.getElem?_eq_none (hlength ▸ Nat.not_lt.mp hk)]
        exact h
  | lose k => exact ⟨h.state_eq, forall₂_eraseIdx h.inFlight k⟩
  | move e => exact ⟨congrArg (move · e) h.state_eq, h.inFlight⟩

/-- **A network of encoded messages** does to the state what happens in terms of the messages. -/
theorem state_run_encode {events : List (NetworkEvent ν ε)}
    (hencode : ∀ n, NetworkEvent.send n ∈ events →
      ∃ m, encode n = some m ∧ ∀ x, handle x m = handle' x n) (s : σ) :
    (run encode handle move s events).state =
      (happened [] events).foldl (fun x => Sum.elim (handle' x) (move x)) s := by
  have halike : Alike handle handle' (run encode handle move s events)
      (events.foldl (step some handle' move) ⟨s, []⟩) :=
    List.foldl_rel ⟨rfl, .nil⟩ fun e he _ _ halike => halike.step fun n hn => hencode n (hn ▸ he)
  rw [halike.state_eq, state_foldl_some]

/-! ## Relays -/

section Relay

variable {ν' μ' : Type} (relay : ν → Option ν') (encode' : ν' → Option μ') {serve : σ → μ' → σ}
  {receive : Network σ μ' → μ → Network σ μ'}

/-- What happens behind a relay without new messages. -/
def ownEvent : NetworkEvent Empty ε → NetworkEvent ν' ε
  | .arrive k => .arrive k
  | .lose k => .lose k
  | .move e => .move e

/-- Such an event: a message arrives at the state or is lost, or the state makes a step. -/
def stepBehind (serve : σ → μ' → σ) (move : σ → ε → σ) :
    Network σ μ' → NetworkEvent Empty ε → Network σ μ' :=
  step (fun n : Empty => n.elim) serve move

theorem step_ownEvent (s : Network σ μ') (e : NetworkEvent Empty ε) :
    step encode' serve move s (ownEvent e) = stepBehind serve move s e := by
  cases e with
  | send n => exact n.elim
  | _ => rfl

/-- What a relay does: a message that arrives is sent on, or causes no message. -/
def relayed : ν ⊕ NetworkEvent Empty ε → List (NetworkEvent ν' ε) :=
  Sum.elim (fun n => (relay n).toList.map .send) fun e => [ownEvent e]

/-- What a relay has sent on is what arrived. -/
theorem sent_relayed (l : List (ν ⊕ NetworkEvent Empty ε)) :
    sent (l.flatMap (relayed relay)) = (l.filterMap Sum.getLeft?).filterMap relay := by
  induction l with
  | nil => rfl
  | cons x l ih =>
      cases x with
      | inl n =>
          have hleft : (Sum.inl n :: l).filterMap Sum.getLeft? = n :: l.filterMap Sum.getLeft? := rfl
          rw [List.flatMap_cons, hleft]
          cases hn : relay n with
          | none =>
              rw [List.filterMap_cons_none hn, ← ih, relayed, Sum.elim_inl, hn]
              rfl
          | some m =>
              rw [List.filterMap_cons_some hn, ← ih, relayed, Sum.elim_inl, hn]
              rfl
      | inr e => cases e with
        | send message => exact message.elim
        | _ => exact ih

/-- **A relay is a network behind a network**: what arrives at it is sent on, so the state behind it
has what a network of its own makes of the events there. -/
theorem state_run_relay {events : List (NetworkEvent ν (NetworkEvent Empty ε))}
    (hencode : ∀ n, NetworkEvent.send n ∈ events → ∃ m, encode n = some m ∧ ∀ s,
      receive s m = ((relay n).toList.map .send).foldl (step encode' serve move) s) (s : σ) :
    (run encode receive (stepBehind serve move) ⟨s, []⟩ events).state =
      run encode' serve move s ((happened [] events).flatMap (relayed relay)) := by
  rw [state_run_encode hencode, run, List.foldl_flatMap]
  refine List.foldl_ext _ _ _ fun s x _ => ?_
  cases x with
  | inl n => rfl
  | inr e =>
      -- what happens behind the relay is an event of the network there
      exact (step_ownEvent encode' s e).symm

end Relay

end Network

end XenonExt
