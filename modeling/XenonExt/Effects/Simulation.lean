import Mathlib.Algebra.Order.Group.Multiset
import Mathlib.Data.List.Induction
import Mathlib.Logic.Relation

/-! # Runs of machines, and runs that simulate others

A machine is a step function, and a run a fold over events. The rules here take a fact about one
step of two machines to their runs.

* **`foldl_abstraction`**: a function that commutes with every step commutes with runs.
* **`reaches_moveOrStay_iff`**: what a machine with refusals reaches is what its moves reach.
* **`emitted`**: the log of a run; **`emitted_balance`**: what is held, taken in and handed out over a
  run. -/

namespace XenonExt

variable {σ τ ε δ : Type*}

/-! ## Functions of states -/

/-- **A function of the state that commutes with every step**, as long as an invariant holds, makes
every run a run of the machine it leads to. -/
theorem foldl_abstraction {step : σ → ε → σ} {step' : τ → δ → τ} {I : σ → Prop} {f : σ → τ}
    {g : ε → δ} (hI : ∀ s e, I s → I (step s e))
    (h : ∀ s e, I s → f (step s e) = step' (f s) (g e)) {s : σ} (hs : I s) (events : List ε) :
    f (events.foldl step s) = (events.map g).foldl step' (f s) := by
  induction events generalizing s with
  | nil => rfl
  | cons e events ih =>
      rw [List.foldl_cons, ih (hI s e hs), h s e hs, List.map_cons, List.foldl_cons]

/-! ## Machines with refusals -/

/-- A step of a machine that may refuse an event, and then stays where it is. -/
def moveOrStay (move : σ → ε → Option σ) (s : σ) (e : ε) : σ := (move s e).getD s

/-- **What runs reach is what moves reach**: refusals add nothing. -/
theorem reaches_moveOrStay_iff {move : σ → ε → Option σ} {s s' : σ} :
    (∃ events : List ε, events.foldl (moveOrStay move) s = s') ↔
      Relation.ReflTransGen (fun a b => ∃ e, move a e = some b) s s' := by
  constructor
  · rintro ⟨events, rfl⟩
    induction events using List.reverseRecOn with
    | nil => exact .refl
    | append_singleton events e ih =>
        rw [List.foldl_append, List.foldl_cons, List.foldl_nil, moveOrStay]
        cases hmove : move (events.foldl (moveOrStay move) s) e with
        | none => exact ih
        | some b => exact ih.tail ⟨e, hmove⟩
  · intro h
    induction h with
    | refl => exact ⟨[], rfl⟩
    | tail _ hstep ih =>
        obtain ⟨events, rfl⟩ := ih
        obtain ⟨e, he⟩ := hstep
        refine ⟨events ++ [e], ?_⟩
        rw [List.foldl_append, List.foldl_cons, List.foldl_nil, moveOrStay, he, Option.getD_some]

/-! ## Logs -/

/-- **The log of a run**: what its steps emit, in order. -/
def emitted {α : Type*} (step : σ → ε → σ) (emit : σ → ε → List α) : σ → List ε → List α
  | _, [] => []
  | s, e :: events => emit s e ++ emitted step emit (step s e) events

/-- The log of a run that goes on is the log so far and what the last step emits. -/
theorem emitted_concat {α : Type*} (step : σ → ε → σ) (emit : σ → ε → List α) (s : σ)
    (events : List ε) (e : ε) :
    emitted step emit s (events ++ [e]) =
      emitted step emit s events ++ emit (events.foldl step s) e := by
  induction events generalizing s with
  | nil => exact List.append_nil _
  | cons e' events ih =>
      rw [List.cons_append, emitted, ih, emitted, List.append_assoc, List.foldl_cons]

/-- **A ledger**: when every step hands out or still holds exactly what was held or is taken in, so
does every run. -/
theorem emitted_balance {α : Type*} {step : σ → ε → σ} {held : σ → Multiset α}
    {into out : σ → ε → List α}
    (h : ∀ s e, held (step s e) + (out s e : Multiset α) = held s + (into s e : List α)) (s : σ)
    (events : List ε) :
    held (events.foldl step s) + (emitted step out s events : Multiset α) =
      held s + (emitted step into s events : List α) := by
  induction events generalizing s with
  | nil => rfl
  | cons e events ih =>
      rw [List.foldl_cons, emitted, emitted, ← Multiset.coe_add, ← Multiset.coe_add,
        add_left_comm, ih, add_left_comm, ← add_assoc, h, add_assoc]

end XenonExt
