import Mathlib.Data.List.Forall2
import Mathlib.Order.Monotone.Basic

/-! # Replicas that are fed by a queue

A source takes new values. Some of them are sent to a replica, over a queue that keeps their order,
and the replica takes over one after the other.

* **`ReplicaStep`**: what a step may do.
* **`exists_readTimes`**: the replica shows the source as it was, and never goes back in time.
* **`CaughtUp`**: what is still to come leads to the source as it is. -/

namespace XenonExt

variable {V : Type*}

/-- A source, the values on their way, the oldest first, and a replica. -/
structure ReplicaState (V : Type*) where
  source : V
  queue : List V
  replica : V

/-- **A step**: the source takes a value, which may be the one it has, and sends it or not; or the
replica takes over the oldest value on its way. -/
inductive ReplicaStep : ReplicaState V → ReplicaState V → Prop
  | write (s : ReplicaState V) (value : V) (sent : Bool) :
      ReplicaStep s { s with
        source := value
        queue := s.queue ++ if sent then [value] else [] }
  | takeOver (source value : V) (queue : List V) (replica : V) :
      ReplicaStep ⟨source, value :: queue, replica⟩ ⟨source, queue, value⟩

/-- Nothing happens. -/
theorem ReplicaStep.stay (s : ReplicaState V) : ReplicaStep s s := by
  have hwrite := ReplicaStep.write s s.source false
  simpa using hwrite

/-! ## Reads never go back -/

/-- Times for a run that goes on. -/
def extendTimes (time : ℕ → ℕ) (n next : ℕ) (t : ℕ) : ℕ := if t ≤ n then time t else next

/-- Times that go on with no earlier one stay in order. -/
theorem monotone_extendTimes {time : ℕ → ℕ} {n next : ℕ} (h : Monotone time) (hnext : time n ≤ next) :
    Monotone (extendTimes time n next) := by
  intro a b hab
  simp only [extendTimes]
  by_cases hb : b ≤ n
  · rw [if_pos hb, if_pos (hab.trans hb)]
    exact h hab
  · rw [if_neg hb]
    split
    · rename_i ha
      exact (h ha).trans hnext
    · exact le_rfl

/-- Times of the past that go on with one of the past stay so. -/
theorem extendTimes_le {time : ℕ → ℕ} {n next : ℕ} (h : ∀ t, time t ≤ t) (hnext : next ≤ n + 1)
    (t : ℕ) : extendTimes time n next t ≤ t := by
  simp only [extendTimes]
  split
  · exact h t
  · omega

/-- **When a replica read**: for each moment so far a time that it shows the source of, and for each
value on its way the time of its source, all of them in order. -/
structure ReadTimes (s : ℕ → ReplicaState V) (n : ℕ) (time : ℕ → ℕ) (times : List ℕ) : Prop where
  monotone : Monotone time
  le : ∀ t, time t ≤ t
  replica_eq : ∀ t ≤ n, (s t).replica = (s (time t)).source
  queue_eq : List.Forall₂ (fun i value => (s i).source = value) times (s n).queue
  sorted : (time n :: times).Pairwise (· ≤ ·)
  le_now : ∀ i ∈ times, i ≤ n

variable {s : ℕ → ReplicaState V} {n : ℕ} {time : ℕ → ℕ} {times : List ℕ}

/-- The next moment shows the source of some time, which is none before those shown so far. -/
theorem ReadTimes.replica_extend (h : ReadTimes s n time times) {next : ℕ}
    (hnext : (s (n + 1)).replica = (s next).source) :
    ∀ t ≤ n + 1, (s t).replica = (s (extendTimes time n next t)).source := by
  intro t ht
  rcases Nat.le_succ_iff.mp ht with hle | rfl
  · rw [extendTimes, if_pos hle]
    exact h.replica_eq t hle
  · rw [extendTimes, if_neg (Nat.not_succ_le_self n)]
    exact hnext

/-- **One more step** of the run has read times too. -/
theorem ReadTimes.step (h : ReadTimes s n time times) (hstep : ReplicaStep (s n) (s (n + 1))) :
    ∃ time' times', ReadTimes s (n + 1) time' times' := by
  have hsorted := List.pairwise_cons.mp h.sorted
  generalize hbefore : s n = before at hstep
  generalize hafter : s (n + 1) = after at hstep
  cases hstep with
  | write _ value sent =>
      -- the replica goes on to show what it showed, and a value that is sent is of this moment
      have hlast : extendTimes time n (time n) (n + 1) = time n := by
        rw [extendTimes, if_neg (Nat.not_succ_le_self n)]
      have hle : ∀ i ∈ times ++ if sent then [n + 1] else [], i ≤ n + 1 := by
        intro i hi
        rcases List.mem_append.mp hi with hi | hi
        · exact (h.le_now i hi).trans (Nat.le_succ n)
        · cases sent with
          | false => exact absurd hi List.not_mem_nil
          | true => exact (List.mem_singleton.mp hi).le
      refine ⟨extendTimes time n (time n), times ++ if sent then [n + 1] else [],
        monotone_extendTimes h.monotone le_rfl,
        extendTimes_le h.le ((h.le n).trans (Nat.le_succ n)), h.replica_extend ?_, ?_, ?_, hle⟩
      · rw [hafter, ← h.replica_eq n le_rfl, hbefore]
      · rw [hafter]
        refine List.rel_append (hbefore ▸ h.queue_eq) ?_
        cases sent with
        | false => exact .nil
        | true => exact .cons (by rw [hafter]) .nil
      · rw [hlast, ← List.cons_append, List.pairwise_append]
        refine ⟨h.sorted, by cases sent <;> simp, fun i hi j hj => ?_⟩
        cases sent with
        | false => exact absurd hj List.not_mem_nil
        | true =>
            obtain rfl := List.mem_singleton.mp hj
            rcases List.mem_cons.mp hi with rfl | hi
            · exact (h.le n).trans (Nat.le_succ n)
            · exact (h.le_now i hi).trans (Nat.le_succ n)
  | takeOver source value queue replica =>
      -- the replica goes on to the time of the oldest value
      have hqueue := h.queue_eq
      rw [hbefore] at hqueue
      obtain ⟨i, rest, hi, hrest, rfl⟩ := List.forall₂_cons_right_iff.mp hqueue
      have hnow : i ≤ n + 1 := (h.le_now i List.mem_cons_self).trans (Nat.le_succ n)
      refine ⟨extendTimes time n i, rest,
        monotone_extendTimes h.monotone (hsorted.1 i List.mem_cons_self),
        extendTimes_le h.le hnow, h.replica_extend ?_, ?_, ?_, fun j hj => ?_⟩
      · rw [hafter, hi]
      · rw [hafter]
        exact hrest
      · rw [extendTimes, if_neg (Nat.not_succ_le_self n)]
        exact hsorted.2
      · exact (h.le_now j (List.mem_cons_of_mem i hj)).trans (Nat.le_succ n)

/-- **A replica shows the source as it was, and never goes back in time**: in every run from a replica
that shows its source, with nothing on its way. -/
theorem exists_readTimes (hqueue : (s 0).queue = []) (hreplica : (s 0).replica = (s 0).source)
    (hstep : ∀ t, ReplicaStep (s t) (s (t + 1))) (n : ℕ) :
    ∃ time : ℕ → ℕ, Monotone time ∧ (∀ t, time t ≤ t) ∧
      ∀ t ≤ n, (s t).replica = (s (time t)).source := by
  have htimes : ∃ time times, ReadTimes s n time times := by
    induction n with
    | zero =>
        refine ⟨fun _ => 0, [], fun _ _ _ => le_rfl, Nat.zero_le, fun t ht => ?_, ?_, by simp,
          by simp⟩
        · rw [Nat.le_zero.mp ht]
          exact hreplica
        · rw [hqueue]
          exact .nil
    | succ n ih =>
        obtain ⟨time, times, h⟩ := ih
        exact h.step (hstep n)
  obtain ⟨time, times, h⟩ := htimes
  exact ⟨time, h.monotone, h.le, h.replica_eq⟩

/-! ## Replicas that catch up -/

/-- **What is on its way leads to the source**: the newest value on its way, or without any the
replica, is the source. -/
def CaughtUp (s : ReplicaState V) : Prop := s.queue.getLast?.getD s.replica = s.source

/-- A value that is sent leads there. -/
theorem caughtUp_write (s : ReplicaState V) (value : V) :
    CaughtUp { s with source := value, queue := s.queue ++ [value] } := by
  rw [CaughtUp, List.getLast?_concat, Option.getD_some]

/-- Taking over a value changes nothing of that. -/
theorem caughtUp_takeOver {source value replica : V} {queue : List V}
    (h : CaughtUp ⟨source, value :: queue, replica⟩) : CaughtUp ⟨source, queue, value⟩ := by
  rw [CaughtUp, List.getLast?_cons, Option.getD_some] at h
  exact h

/-- **With nothing on its way the replica is the source.** -/
theorem CaughtUp.replica_eq {s : ReplicaState V} (h : CaughtUp s) (hqueue : s.queue = []) :
    s.replica = s.source := by
  rw [CaughtUp, hqueue] at h
  exact h

end XenonExt
