import XenonExt.Util.HttpError

/-! # Cycles of causes

`initCause` lets throwables refer to each other in a circle. `from` does not follow a throwable that
is its own cause, and has no other guard.

* **`calledFor`**: the throwables that `from` is called for.
* **`OnlySelfReferences`**: no circle of two or more is reached.
* **`fromThrowable_terminates_iff`**: on a finite heap `from` terminates exactly then. -/

namespace XenonExt

namespace HttpErrorResponse

variable {E O : Type} (throwables : E → ThrowableObject E O)

/-- Whoever is met again on the way down the causes of a throwable is its own cause. -/
def OnlySelfReferences (e : E) : Prop :=
  ∀ m k c, follow (fun c => (throwables c).cause) m e = some c →
    follow (fun c => (throwables c).cause) (k + 1) c = some c → (throwables c).cause = some c

variable {throwables} in
/-- A throwable that is its own cause stays the end of the way. -/
theorem follow_self {c : E} (h : (throwables c).cause = some c) (n : Nat) :
    follow (fun c => (throwables c).cause) n c = some c := by
  induction n with
  | zero => rfl
  | succ n ih => rw [follow_succ', ih, Option.bind_some, h]

variable [DecidableEq E]

/-- The throwables that `from(e)` and the calls within it are for, in order. -/
def calledFor : Nat → E → List E
  | 0, e => [e]
  | stack + 1, e => match properCause throwables e with
    | some c => e :: calledFor stack c
    | none => [e]

variable {throwables} {e : E}

/-- When the stack has room for the whole chain, `from` is called for its elements. -/
theorem calledFor_eq {es : List E} {stack : Nat} (hes : ChainFrom (properCause throwables) e es)
    (hstack : es.length ≤ stack + 1) : calledFor throwables stack e = es := by
  induction hes generalizing stack with
  | last hlast =>
      cases stack with
      | zero => rfl
      | succ stack => simp only [calledFor, hlast]
  | cons hnext hrest ih =>
      cases stack with
      | zero =>
          -- a chain of two does not fit
          cases hrest <;> simp at hstack
      | succ stack =>
          simp only [calledFor, hnext, List.cons.injEq, true_and]
          exact ih (Nat.le_of_succ_le_succ hstack)

/-- `from` does not follow a throwable that is its own cause. -/
theorem properCause_eq_some_iff {c : E} :
    properCause throwables e = some c ↔ (throwables e).cause = some c ∧ e ≠ c := by
  rw [properCause, Option.filter_eq_some_iff, decide_eq_true_eq]

/-- Where `from` has gone, the causes lead. -/
theorem follow_cause_of_properCause {n : Nat} {c : E}
    (h : follow (properCause throwables) n e = some c) :
    follow (fun c => (throwables c).cause) n e = some c := by
  induction n generalizing c with
  | zero => exact h
  | succ n ih =>
      rw [follow_succ', Option.bind_eq_some_iff] at h ⊢
      obtain ⟨d, hd, hc⟩ := h
      exact ⟨d, ih hd, (properCause_eq_some_iff.mp hc).1⟩

/-- Where the causes lead, `from` goes, unless the last throwable is its own cause. -/
theorem follow_properCause_of_cause {n : Nat} {c : E} (hown : (throwables c).cause ≠ some c)
    (h : follow (fun c => (throwables c).cause) n e = some c) :
    follow (properCause throwables) n e = some c := by
  induction n generalizing e with
  | zero => exact h
  | succ n ih =>
      rw [follow_succ, Option.bind_eq_some_iff] at h ⊢
      obtain ⟨d, hd, hrest⟩ := h
      refine ⟨d, properCause_eq_some_iff.mpr ⟨hd, ?_⟩, ih hrest⟩
      -- who is its own cause leads nowhere else
      rintro rfl
      rw [follow_self hd, Option.some.injEq] at hrest
      exact hown (hrest ▸ hd)

/-- `from` comes back to a throwable exactly when it reaches a circle of two or more. -/
theorem returns_properCause_iff :
    Returns (properCause throwables) e ↔ ¬ OnlySelfReferences throwables e := by
  constructor
  · rintro ⟨m, k, c, hc, hcycle⟩ hself
    have hown := hself m k c (follow_cause_of_properCause hc) (follow_cause_of_properCause hcycle)
    -- such a throwable `from` does not follow
    rw [follow_succ, Option.bind_eq_some_iff] at hcycle
    obtain ⟨d, hd, -⟩ := hcycle
    obtain ⟨hcause, hne⟩ := properCause_eq_some_iff.mp hd
    exact hne (Option.some.inj (hown.symm.trans hcause))
  · intro h
    rw [OnlySelfReferences] at h
    push Not at h
    obtain ⟨m, k, c, hc, hcycle, hown⟩ := h
    exact ⟨m, k, c, follow_properCause_of_cause hown hc, follow_properCause_of_cause hown hcycle⟩

/-- **On a finite heap `from` terminates, and is called for every throwable at most once, exactly
when no circle of two or more throwables is reached.** -/
theorem fromThrowable_terminates_iff [Finite E] (throwables : E → ThrowableObject E O) (e : E) :
    (∃ stack rsp, fromThrowable throwables stack (some e) = .ok rsp ∧
        (calledFor throwables stack e).Nodup) ↔
      OnlySelfReferences throwables e := by
  have hends : (∃ es, ChainFrom (properCause throwables) e es) ↔ OnlySelfReferences throwables e := by
    rw [exists_chainFrom_iff, returns_properCause_iff, not_not]
  rw [← hends]
  constructor
  · rintro ⟨stack, rsp, hrsp, -⟩
    exact exists_chainFrom_of_follow ((fromThrowable_isOk_iff stack e).mp ⟨rsp, hrsp⟩)
  · rintro ⟨es, hes⟩
    obtain ⟨rsp, hrsp⟩ := exists_fromThrowable_eq_ok hes (Nat.le_succ _)
    refine ⟨es.length, rsp, hrsp, ?_⟩
    rw [calledFor_eq hes (Nat.le_succ _)]
    exact hes.nodup

/-- Two exceptions that are the cause of each other. -/
def mutualCauses (c : Bool) : ThrowableObject Bool Str where
  typeName := "java.lang.RuntimeException".toList
  throwableClass := .otherException
  message := none
  cause := some !c
  stackTrace := []

/-- On these `from` overflows every stack. -/
theorem mutualCauses_not_terminates :
    ¬ ∃ stack rsp, fromThrowable mutualCauses stack (some true) = .ok rsp ∧
      (calledFor mutualCauses stack true).Nodup := by
  rintro ⟨stack, rsp, hrsp, -⟩
  obtain ⟨es, hes⟩ := exists_chainFrom_of_follow
    ((fromThrowable_isOk_iff stack true).mp ⟨rsp, hrsp⟩)
  exact hes.not_returns ⟨0, 1, true, rfl, rfl⟩

/-- An exception that is its own cause is no obstacle. -/
theorem fromThrowable_terminates_self :
    ∃ stack rsp,
      fromThrowable (fun c => { mutualCauses c with cause := some c }) stack (some true) = .ok rsp ∧
        (calledFor (fun c => { mutualCauses c with cause := some c }) stack true).Nodup :=
  (fromThrowable_terminates_iff (fun c => { mutualCauses c with cause := some c }) true).mpr
    fun _ _ _ _ _ => rfl

end HttpErrorResponse

end XenonExt
