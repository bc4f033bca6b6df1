import Mathlib.Data.List.Basic

/-! # Effectful computations with a trace of calls

A program that calls out to code it does not control is run in `EStateM ε (Traced σ ev)`: the
component `world : σ` is everything the foreign code can see and change, and `trace : List ev`
records which foreign calls were made, in order. A call that raises is recorded too, and a raised
exception keeps the state reached so far. Nothing here depends on what the calls are.

* **`quietly body`**: run foreign code that is not worth recording (a pure query).
* **`call event body`**: record `event` and run the foreign code `body`.
* **`performAll body evs`**: perform a list of calls one after the other, stopping at the first
  exception. A program whose calls are known in advance *equals* `performAll` of that list, and
  `performAll_run` then reads off both the trace and the world.
* **`Preserves I body`**: an invariant of the state survives a run, also one that raises. It goes
  through binds, lists of calls and the recording of a trace. -/

namespace XenonExt

variable {ε σ ev α β : Type}

/-- The world the foreign code acts on, with the **trace** of the calls made so far. -/
structure Traced (σ ev : Type) where
  /-- What the foreign code sees and changes. -/
  world : σ
  /-- The calls made so far, oldest first. -/
  trace : List ev

/-- The state in which a run ends, whether it returned or raised. -/
def finalState : EStateM.Result ε σ α → σ
  | .ok _ s => s
  | .error _ s => s

@[simp] theorem finalState_ok (a : α) (s : σ) :
    finalState (.ok a s : EStateM.Result ε σ α) = s := rfl

@[simp] theorem finalState_error (e : ε) (s : σ) :
    finalState (.error e s : EStateM.Result ε σ α) = s := rfl

/-- **A computation succeeds** when it returns, and does not raise, from every state. -/
def Succeeds (body : EStateM ε σ α) : Prop := ∀ s, ∃ a s', body.run s = .ok a s'

@[simp] theorem throw_run (e : ε) (s : σ) : (throw e : EStateM ε σ α).run s = .error e s := rfl

/-- Evaluate a possibly missing value: `none` raises `missing`. -/
def orRaise (missing : ε) : Option α → EStateM ε σ α
  | some a => pure a
  | none => throw missing

@[simp] theorem orRaise_some (missing : ε) (a : α) :
    (orRaise missing (some a) : EStateM ε σ α) = pure a := rfl

@[simp] theorem orRaise_none_run (missing : ε) (s : σ) :
    (orRaise missing (none : Option α) : EStateM ε σ α).run s = .error missing s := rfl

/-- Sequencing two runs, read at a state. -/
theorem bind_run_ok {x : EStateM ε σ α} {f : α → EStateM ε σ β} {s s' : σ} {a : α}
    (h : x.run s = .ok a s') : (x >>= f).run s = (f a).run s' := by
  rw [EStateM.run_bind, h]

/-- An exception of the first computation is the exception of the sequence. -/
theorem bind_run_error {x : EStateM ε σ α} {f : α → EStateM ε σ β} {s s' : σ} {e : ε}
    (h : x.run s = .error e s') : (x >>= f).run s = .error e s' := by
  rw [EStateM.run_bind, h]

/-- A `try` without an exception. -/
theorem tryCatch_run_ok {x : EStateM ε σ α} {f : ε → EStateM ε σ α} {s s' : σ} {a : α}
    (h : x.run s = .ok a s') : (tryCatch x f).run s = .ok a s' := by
  have h' : x s = .ok a s' := h
  simp only [tryCatch, tryCatchThe, MonadExceptOf.tryCatch, EStateM.tryCatch, EStateM.run, h']

/-- An exception is caught in the state in which it was raised. -/
theorem tryCatch_run_error {x : EStateM ε σ α} {f : ε → EStateM ε σ α} {s s' : σ} {e : ε}
    (h : x.run s = .error e s') : (tryCatch x f).run s = (f e).run s' := by
  have h' : x s = .error e s' := h
  simp only [tryCatch, tryCatchThe, MonadExceptOf.tryCatch, EStateM.tryCatch, EStateM.run, h']
  rfl

/-- Discarding the value of a run that returns. -/
theorem discard_run_ok {x : EStateM ε σ α} {s s' : σ} {a : α} (h : x.run s = .ok a s') :
    (discard x).run s = .ok () s' := by
  have hmap : discard x = (do let _ ← x; pure ()) := rfl
  rw [hmap, bind_run_ok h, EStateM.run_pure]

/-- A run that raises raises also when its value is discarded. -/
theorem discard_run_error {x : EStateM ε σ α} {s s' : σ} {e : ε} (h : x.run s = .error e s') :
    (discard x).run s = .error e s' := by
  have hmap : discard x = (do let _ ← x; pure ()) := rfl
  rw [hmap, bind_run_error h]

/-- A value that is returned only to be discarded. -/
theorem discard_bind_pure_run (x : EStateM ε σ Unit) (a : α) (s : σ) :
    (discard (do x; pure a)).run s = x.run s := by
  cases h : x.run s with
  | ok r s' => exact discard_run_ok (bind_run_ok h)
  | error e s' => exact discard_run_error (bind_run_error h)

/-- Discarding the values of equal runs. -/
theorem discard_run_congr {x : EStateM ε σ α} {y : EStateM ε σ α} {s s' : σ}
    (h : x.run s = y.run s') : (discard x).run s = (discard y).run s' := by
  cases hy : y.run s' with
  | ok a s'' => rw [discard_run_ok hy, discard_run_ok (h.trans hy)]
  | error e s'' => rw [discard_run_error hy, discard_run_error (h.trans hy)]

/-- Discarding the value does not change where a run ends. -/
theorem finalState_discard (x : EStateM ε σ α) (s : σ) :
    finalState ((discard x).run s) = finalState (x.run s) := by
  cases h : x.run s with
  | ok a s' => rw [discard_run_ok h, finalState_ok, finalState_ok]
  | error e s' => rw [discard_run_error h, finalState_error, finalState_error]

/-! ## Invariants -/

/-- **A computation preserves `I`**: from a state in `I` it ends in one, returning or raising. -/
def Preserves (I : σ → Prop) (body : EStateM ε σ α) : Prop := ∀ s, I s → I (finalState (body.run s))

section Preserves

variable {I : σ → Prop}

theorem preserves_pure (a : α) : Preserves I (pure a : EStateM ε σ α) := fun _ hs => hs

theorem preserves_throw (e : ε) : Preserves I (throw e : EStateM ε σ α) := fun _ hs => hs

theorem preserves_modify {f : σ → σ} (h : ∀ s, I s → I (f s)) :
    Preserves I (modify f : EStateM ε σ PUnit) := h

theorem preserves_orRaise (missing : ε) (a : Option α) :
    Preserves I (orRaise missing a : EStateM ε σ α) := by
  cases a with
  | none => exact preserves_throw missing
  | some a => exact preserves_pure a

/-- A sequence preserves what both its parts preserve. -/
theorem Preserves.bind {x : EStateM ε σ α} {f : α → EStateM ε σ β} (hx : Preserves I x)
    (hf : ∀ a, Preserves I (f a)) : Preserves I (x >>= f) := by
  intro s hs
  have hxs := hx s hs
  rw [EStateM.run_bind]
  cases h : x.run s with
  | ok a s' =>
      rw [h] at hxs
      exact hf a s' hxs
  | error e s' =>
      rw [h] at hxs
      exact hxs

/-- Reading the state first changes nothing, and the rest may use the state read. -/
theorem preserves_get_bind {f : σ → EStateM ε σ β}
    (hf : ∀ s, I s → I (finalState ((f s).run s))) : Preserves I (get >>= f) :=
  fun s hs => hf s hs

end Preserves

/-! ## Calls -/

/-- Transport the result of a run on the world to a run on the traced world. -/
def Traced.lift (trace : List ev) : EStateM.Result ε σ α → EStateM.Result ε (Traced σ ev) α
  | .ok a w => .ok a ⟨w, trace⟩
  | .error e w => .error e ⟨w, trace⟩

@[simp] theorem Traced.lift_ok (trace : List ev) (a : α) (w : σ) :
    Traced.lift trace (.ok a w : EStateM.Result ε σ α) = .ok a ⟨w, trace⟩ := rfl

@[simp] theorem Traced.lift_error (trace : List ev) (e : ε) (w : σ) :
    Traced.lift trace (.error e w : EStateM.Result ε σ α) = .error e ⟨w, trace⟩ := rfl

/-- A transported result ends in the world of the result. -/
theorem finalState_lift_world (trace : List ev) (r : EStateM.Result ε σ α) :
    (finalState (Traced.lift trace r)).world = finalState r := by
  cases r <;> rfl

/-- Run foreign code without recording it. -/
def quietly (body : EStateM ε σ α) : EStateM ε (Traced σ ev) α :=
  fun s => Traced.lift s.trace (body.run s.world)

/-- **Record a call and make it.** The record stays when the call raises. -/
def call (event : ev) (body : EStateM ε σ α) : EStateM ε (Traced σ ev) α :=
  fun s => Traced.lift (s.trace ++ [event]) (body.run s.world)

@[simp] theorem quietly_run (body : EStateM ε σ α) (s : Traced σ ev) :
    (quietly body).run s = Traced.lift s.trace (body.run s.world) := rfl

@[simp] theorem call_run (event : ev) (body : EStateM ε σ α) (s : Traced σ ev) :
    (call event body).run s = Traced.lift (s.trace ++ [event]) (body.run s.world) := rfl

@[simp] theorem quietly_pure (a : α) :
    quietly (pure a : EStateM ε σ α) = (pure a : EStateM ε (Traced σ ev) α) := rfl

/-- Unrecorded code may be recorded piece by piece, each piece unrecorded. -/
theorem quietly_bind (x : EStateM ε σ α) (f : α → EStateM ε σ β) :
    quietly (x >>= f) = (do let a ← quietly x; quietly (f a) : EStateM ε (Traced σ ev) β) := by
  funext s
  show Traced.lift s.trace ((x >>= f).run s.world) = EStateM.run (do
    let a ← quietly x
    quietly (f a)) s
  rw [EStateM.run_bind, EStateM.run_bind, quietly_run]
  cases x.run s.world with
  | ok a w => rfl
  | error e w => rfl

/-! ## Performing a list of calls -/

variable (body : ev → EStateM ε σ Unit)

/-- **Perform the calls of a list** in order, recording each, up to the first exception. -/
def performAll : List ev → EStateM ε (Traced σ ev) Unit
  | [] => pure ()
  | e :: es => do
    call e (body e)
    performAll es

/-- Run the bodies of a list of calls on the world alone, up to the first exception. -/
def runAll : List ev → EStateM ε σ Unit
  | [] => pure ()
  | e :: es => do
    body e
    runAll es

@[simp] theorem performAll_nil : performAll body [] = (pure () : EStateM ε (Traced σ ev) Unit) :=
  rfl

@[simp] theorem runAll_nil : runAll body [] = (pure () : EStateM ε σ Unit) := rfl

theorem performAll_cons (e : ev) (es : List ev) :
    performAll body (e :: es) = (do call e (body e); performAll body es) := rfl

theorem runAll_cons (e : ev) (es : List ev) :
    runAll body (e :: es) = (do body e; runAll body es) := rfl

/-- Performing a concatenation is performing its two parts in turn. -/
theorem performAll_append (es fs : List ev) :
    performAll body (es ++ fs) = (do performAll body es; performAll body fs) := by
  induction es with
  | nil => simp only [List.nil_append, performAll_nil, pure_bind]
  | cons e es ih => simp only [List.cons_append, performAll_cons, ih, bind_assoc]

/-- Running a concatenation is running its two parts in turn. -/
theorem runAll_append (es fs : List ev) :
    runAll body (es ++ fs) = (do runAll body es; runAll body fs) := by
  induction es with
  | nil => simp only [List.nil_append, runAll_nil, pure_bind]
  | cons e es ih => simp only [List.cons_append, runAll_cons, ih, bind_assoc]

/-- Running the images of a list is running the list with the images' bodies. -/
theorem runAll_map (xs : List α) (event : α → ev) :
    runAll body (xs.map event) = runAll (fun x => body (event x)) xs := by
  induction xs with
  | nil => rfl
  | cons x xs ih => rw [List.map_cons, runAll_cons, runAll_cons, ih]

/-- A loop over a list that performs one call for each element performs the list of those calls. -/
theorem forM_call_eq_performAll (xs : List α) (event : α → ev) :
    (xs.forM fun x => call (event x) (body (event x))) = performAll body (xs.map event) := by
  induction xs with
  | nil => rfl
  | cons x xs ih =>
      show (do call (event x) (body (event x)); xs.forM fun x => call (event x) (body (event x))) = _
      rw [ih, List.map_cons, performAll_cons]

/-- **The world of a performed list is the world of its bodies**, and the trace grows by the whole
list when no body raises. -/
theorem performAll_run_ok {es : List ev} {s : Traced σ ev} {w : σ}
    (h : (runAll body es).run s.world = .ok () w) :
    (performAll body es).run s = .ok () ⟨w, s.trace ++ es⟩ := by
  induction es generalizing s with
  | nil =>
      cases h
      simp only [performAll_nil, EStateM.run_pure, List.append_nil]
  | cons e es ih =>
      rw [runAll_cons, EStateM.run_bind] at h
      rw [performAll_cons, EStateM.run_bind, call_run]
      -- the rest runs from the world after `e`, with `e` at the end of the trace
      cases he : (body e).run s.world with
      | ok a w' =>
          rw [he] at h
          simpa using ih (s := ⟨w', s.trace ++ [e]⟩) h
      | error x w' => rw [he] at h; cases h

/-- When a body raises, the trace grows by the calls up to and including the one that raised. -/
theorem performAll_run_error {es : List ev} {s : Traced σ ev} {x : ε} {w : σ}
    (h : (runAll body es).run s.world = .error x w) :
    ∃ done e rest, es = done ++ e :: rest ∧
      (performAll body es).run s = .error x ⟨w, s.trace ++ (done ++ [e])⟩ := by
  induction es generalizing s with
  | nil => cases h
  | cons e es ih =>
      rw [runAll_cons, EStateM.run_bind] at h
      rw [performAll_cons, EStateM.run_bind, call_run]
      cases he : (body e).run s.world with
      | ok a w' =>
          rw [he] at h
          -- `e` went well: the exception is one of the rest
          obtain ⟨done, e', rest, rfl, hrun⟩ := ih (s := ⟨w', s.trace ++ [e]⟩) h
          exact ⟨e :: done, e', rest, rfl, by simpa using hrun⟩
      | error x' w' =>
          rw [he] at h
          cases h
          -- `e` raises: it is recorded, and nothing after it
          exact ⟨[], e, es, rfl, by simp⟩

/-- Recording a list of calls does not change what they do to the world. -/
theorem finalState_performAll_world (es : List ev) (s : Traced σ ev) :
    (finalState ((performAll body es).run s)).world = finalState ((runAll body es).run s.world) := by
  cases h : (runAll body es).run s.world with
  | ok a w => rw [performAll_run_ok body h, finalState_ok, finalState_ok]
  | error e w =>
      obtain ⟨done, x, rest, -, hrun⟩ := performAll_run_error body h
      rw [hrun, finalState_error, finalState_error]

/-- Calls with an exception after them raise, and leave the world of their bodies. -/
theorem performAll_throw_run (es : List ev) (x : ε) (s : Traced σ ev) :
    ∃ x' s', EStateM.run (do performAll body es; throw x : EStateM ε (Traced σ ev) α) s = .error x' s' ∧
      s'.world = finalState ((runAll body es).run s.world) := by
  cases h : (runAll body es).run s.world with
  | ok a w => exact ⟨x, _, bind_run_ok (performAll_run_ok body h), rfl⟩
  | error e w =>
      obtain ⟨done, e', rest, -, hrun⟩ := performAll_run_error body h
      exact ⟨e, _, bind_run_error hrun, rfl⟩

/-- If every body succeeds, running a list of them succeeds. -/
theorem runAll_succeeds (es : List ev) (h : ∀ e ∈ es, Succeeds (body e)) :
    Succeeds (runAll body es) := by
  induction es with
  | nil => exact fun s => ⟨(), s, rfl⟩
  | cons e es ih =>
      intro s
      obtain ⟨a, s', hs⟩ := h e List.mem_cons_self s
      obtain ⟨b, s'', hs'⟩ := ih (fun e' he' => h e' (List.mem_cons_of_mem e he')) s'
      exact ⟨b, s'', by rw [runAll_cons, bind_run_ok hs, hs']⟩

/-- **Calls that succeed are all recorded**: performing a list of them returns and appends the
whole list to the trace. -/
theorem performAll_run_of_succeeds {es : List ev} (h : ∀ e ∈ es, Succeeds (body e))
    (s : Traced σ ev) : ∃ w, (performAll body es).run s = .ok () ⟨w, s.trace ++ es⟩ := by
  obtain ⟨_, w, hw⟩ := runAll_succeeds body es h s.world
  exact ⟨w, performAll_run_ok body hw⟩

/-! ## Invariants of recorded calls -/

section Preserves

variable {body} {I : σ → Prop}

/-- Recording a call does not change what it does to the world. -/
theorem Preserves.call {e : ev} {x : EStateM ε σ α} (hx : Preserves I x) :
    Preserves (fun s : Traced σ ev => I s.world) (call e x) := by
  intro s hs
  rw [call_run, finalState_lift_world]
  exact hx s.world hs

/-- A list of calls preserves what each of them preserves. -/
theorem preserves_performAll {es : List ev} (h : ∀ e ∈ es, Preserves I (body e)) :
    Preserves (fun s : Traced σ ev => I s.world) (performAll body es) := by
  induction es with
  | nil => exact preserves_pure ()
  | cons e es ih =>
      rw [performAll_cons]
      exact (h e List.mem_cons_self).call.bind fun _ =>
        ih fun e' he' => h e' (List.mem_cons_of_mem e he')

/-- The same on the world alone. -/
theorem preserves_runAll {es : List ev} (h : ∀ e ∈ es, Preserves I (body e)) :
    Preserves I (runAll body es) := by
  induction es with
  | nil => exact preserves_pure ()
  | cons e es ih =>
      rw [runAll_cons]
      exact (h e List.mem_cons_self).bind fun _ =>
        ih fun e' he' => h e' (List.mem_cons_of_mem e he')

/-- **What one call of a list establishes holds at the end**, when none of them raises and all of
them keep both what it is established from and what it establishes. -/
theorem runAll_establishes {J : σ → Prop} {es : List ev} (hsucceeds : ∀ e ∈ es, Succeeds (body e))
    (hI : ∀ e ∈ es, Preserves I (body e)) (hJ : ∀ e ∈ es, Preserves J (body e)) {e : ev}
    (he : e ∈ es) (hestablishes : ∀ s, I s → J (finalState ((body e).run s))) {s : σ} (hs : I s) :
    J (finalState ((runAll body es).run s)) := by
  induction es generalizing s with
  | nil => cases he
  | cons e' es ih =>
      obtain ⟨a, s', hrun⟩ := hsucceeds e' List.mem_cons_self s
      rw [runAll_cons, bind_run_ok hrun]
      rcases List.mem_cons.mp he with rfl | he
      · -- established now, and kept by the calls that follow
        have hnow := hestablishes s hs
        rw [hrun] at hnow
        exact preserves_runAll (fun e he => hJ e (List.mem_cons_of_mem _ he)) s' hnow
      · have hstep := hI e' List.mem_cons_self s hs
        rw [hrun] at hstep
        exact ih (fun e he => hsucceeds e (List.mem_cons_of_mem _ he))
          (fun e he => hI e (List.mem_cons_of_mem _ he))
          (fun e he => hJ e (List.mem_cons_of_mem _ he)) he hstep

end Preserves

end XenonExt
