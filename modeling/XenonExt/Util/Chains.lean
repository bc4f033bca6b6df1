import Mathlib.Data.Fintype.Pigeonhole
import Mathlib.Data.List.Forall2
import Mathlib.Data.Set.Finite.Basic
import Mathlib.Logic.Function.Iterate
import Mathlib.SetTheory.Cardinal.Finite

/-! # Chains of references

A partial function that names the next element of a chain, such as a reference that may be absent.
Nothing here depends on what refers to what.

* **`follow`**: the element so many steps down.
* **`ChainFrom`**: the elements of a chain that ends.
* **`ChainFrom.simulate`**: chains of two structures that refer in the same way.
* **`exists_chainFrom_iff`**: in a finite structure a chain ends exactly when it never returns to an
  element. -/

namespace XenonExt

variable {α β : Type} {next : α → Option α} {next' : β → Option β}

/-! ## Steps along a chain -/

/-- The element so many steps below another one, if the chain is that long. -/
def follow (next : α → Option α) (n : Nat) (a : α) : Option α := (fun o => o.bind next)^[n] (some a)

@[simp] theorem follow_zero (a : α) : follow next 0 a = some a := rfl

/-- The end of a chain stays its end. -/
theorem iterate_bind_none (n : Nat) : (fun o => o.bind next)^[n] none = none :=
  Function.iterate_fixed rfl n

/-- A walk in two parts. -/
theorem follow_add (m n : Nat) (a : α) :
    follow next (m + n) a = (follow next m a).bind (follow next n) := by
  rw [follow, Nat.add_comm, Function.iterate_add_apply]
  change (fun o => o.bind next)^[n] (follow next m a) = _
  cases follow next m a with
  | none => exact iterate_bind_none n
  | some b => rfl

/-- One more step at the start. -/
theorem follow_succ (n : Nat) (a : α) :
    follow next (n + 1) a = (next a).bind (follow next n) := by
  rw [Nat.add_comm, follow_add]
  rfl

/-- One more step at the end. -/
theorem follow_succ' (n : Nat) (a : α) :
    follow next (n + 1) a = (follow next n a).bind next := by
  rw [follow_add]
  rfl

/-- Beyond its end a chain has no elements. -/
theorem follow_eq_none_of_le {m n : Nat} {a : α} (h : follow next m a = none) (hle : m ≤ n) :
    follow next n a = none := by
  obtain ⟨k, rfl⟩ := Nat.exists_eq_add_of_le hle
  rw [follow_add, h]
  rfl

/-! ## Chains that end -/

/-- The elements of a chain, from the first to the last. -/
inductive ChainFrom (next : α → Option α) : α → List α → Prop
  | last {a : α} (h : next a = none) : ChainFrom next a [a]
  | cons {a b : α} {as : List α} (h : next a = some b) (hb : ChainFrom next b as) :
      ChainFrom next a (a :: as)

namespace ChainFrom

variable {a : α} {as : List α}

/-- The elements are those that the walk meets. -/
theorem follow_eq (h : ChainFrom next a as) (n : Nat) : follow next n a = as[n]? := by
  induction h generalizing n with
  | last hlast =>
      cases n with
      | zero => rfl
      | succ n => rw [follow_succ, hlast]; rfl
  | cons hnext _ ih =>
      cases n with
      | zero => rfl
      | succ n => rw [follow_succ, hnext, List.getElem?_cons_succ]; exact ih n

/-- A chain has one list of elements. -/
theorem unique {bs : List α} (h : ChainFrom next a as) (hbs : ChainFrom next a bs) : as = bs :=
  List.ext_getElem? fun n => (h.follow_eq n).symm.trans (hbs.follow_eq n)

/-- Every element is reached from the first. -/
theorem exists_follow (h : ChainFrom next a as) {b : α} (hb : b ∈ as) :
    ∃ n, follow next n a = some b := by
  obtain ⟨n, hn⟩ := List.getElem?_of_mem hb
  exact ⟨n, (h.follow_eq n).trans hn⟩

/-- Where two references agree on the elements, they have the same chain. -/
theorem congr {f g : α → Option α} (h : ChainFrom f a as) (hfg : ∀ b ∈ as, f b = g b) :
    ChainFrom g a as := by
  induction h with
  | last hlast => exact .last (hfg _ (List.mem_singleton_self _) ▸ hlast)
  | cons hnext _ ih =>
      refine .cons (hfg _ List.mem_cons_self ▸ hnext) (ih fun b hb => ?_)
      exact hfg b (List.mem_cons_of_mem _ hb)

/-- **Two structures that refer in the same way have chains of one length**, related element by
element. -/
theorem simulate {R : α → β → Prop} (hR : ∀ a b, R a b → Option.Rel R (next a) (next' b)) {b : β}
    (h : ChainFrom next a as) (hab : R a b) :
    ∃ bs, ChainFrom next' b bs ∧ List.Forall₂ R as bs := by
  induction h generalizing b with
  | last hlast =>
      have hrel := hR _ b hab
      rw [hlast] at hrel
      cases hb : next' b with
      | none => exact ⟨[b], .last hb, .cons hab .nil⟩
      | some _ =>
          rw [hb] at hrel
          exact nomatch hrel
  | cons hnext _ ih =>
      have hrel := hR _ b hab
      rw [hnext] at hrel
      cases hb : next' b with
      | none =>
          rw [hb] at hrel
          exact nomatch hrel
      | some b' =>
          rw [hb] at hrel
          cases hrel with
          | some hab' =>
              obtain ⟨bs, hbs, hall⟩ := ih hab'
              exact ⟨b :: bs, .cons hb hbs, .cons hab hall⟩

end ChainFrom

/-- A walk that comes to an end has met a whole chain. -/
theorem exists_chainFrom_of_follow {n : Nat} {a : α} (h : follow next n a = none) :
    ∃ as, ChainFrom next a as := by
  induction n generalizing a with
  | zero => exact nomatch h
  | succ n ih =>
      rw [follow_succ] at h
      cases hnext : next a with
      | none => exact ⟨[a], .last hnext⟩
      | some b =>
          rw [hnext] at h
          obtain ⟨as, has⟩ := ih h
          exact ⟨a :: as, .cons hnext has⟩

/-! ## Finite structures -/

/-- The walk from an element comes back to some element. -/
def Returns (next : α → Option α) (a : α) : Prop :=
  ∃ m k b, follow next m a = some b ∧ follow next (k + 1) b = some b

/-- Once it has come back to an element, a walk never ends. -/
theorem follow_ne_none_of_cycle {k : Nat} {b : α} (h : follow next (k + 1) b = some b) (n : Nat) :
    follow next n b ≠ none := by
  intro hnone
  -- by so many rounds the end would have been passed
  have hround : ∀ rounds, follow next (rounds * (k + 1)) b = some b := by
    intro rounds
    induction rounds with
    | zero => rw [Nat.zero_mul, follow_zero]
    | succ rounds ih => rw [Nat.succ_mul, follow_add, ih, Option.bind_some, h]
  have hpassed := follow_eq_none_of_le hnone (Nat.le_mul_of_pos_right n k.succ_pos)
  rw [hround n] at hpassed
  exact nomatch hpassed

/-- In a finite structure a walk that meets no end within its size comes back. -/
theorem returns_of_follow_ne_none [Finite α] {a : α} (h : follow next (Nat.card α) a ≠ none) :
    Returns next a := by
  have := Fintype.ofFinite α
  have hsome : ∀ i : Fin (Nat.card α + 1), ∃ b, follow next i a = some b := by
    intro i
    refine Option.ne_none_iff_exists'.mp fun hnone => h ?_
    exact follow_eq_none_of_le hnone (Nat.le_of_lt_succ i.isLt)
  choose met hmet using hsome
  have hcard : Fintype.card α < Fintype.card (Fin (Nat.card α + 1)) := by
    rw [Fintype.card_fin, Nat.card_eq_fintype_card]
    exact Nat.lt_succ_self _
  obtain ⟨i, j, hne, heq⟩ := Fintype.exists_ne_map_eq_of_card_lt met hcard
  -- the earlier of the two visits starts the round
  wlog hlt : i < j generalizing i j
  · exact this j i hne.symm heq.symm (lt_of_le_of_ne (not_lt.mp hlt) hne.symm)
  obtain ⟨k, hk⟩ := Nat.exists_eq_add_of_lt (Fin.lt_def.mp hlt)
  refine ⟨i, k, met i, hmet i, ?_⟩
  have hj := hmet j
  rw [hk, Nat.add_assoc, follow_add, hmet i, Option.bind_some, ← heq] at hj
  exact hj

/-- A chain that ends never comes back. -/
theorem ChainFrom.not_returns {a : α} {as : List α} (h : ChainFrom next a as) :
    ¬ Returns next a := by
  rintro ⟨m, k, b, hb, hcycle⟩
  have hend : follow next (m + as.length) a = none := by
    rw [h.follow_eq]
    exact List.getElem?_eq_none (Nat.le_add_left _ _)
  rw [follow_add, hb] at hend
  exact follow_ne_none_of_cycle hcycle _ hend

/-- No element of a chain that ends refers to itself. -/
theorem ChainFrom.next_ne_self {a b : α} {as : List α} (h : ChainFrom next a as) (hb : b ∈ as) :
    next b ≠ some b := by
  intro hself
  obtain ⟨n, hn⟩ := h.exists_follow hb
  refine h.not_returns ⟨n, 0, b, hn, ?_⟩
  rw [follow_succ, hself, Option.bind_some, follow_zero]

/-- The elements of a chain are different. -/
theorem ChainFrom.nodup {a : α} {as : List α} (h : ChainFrom next a as) : as.Nodup := by
  rw [List.nodup_iff_getElem?_ne_getElem?]
  intro i j hlt hj heq
  obtain ⟨k, rfl⟩ := Nat.exists_eq_add_of_lt hlt
  have hi : follow next i a = some as[i + k + 1] := by
    rw [h.follow_eq, heq, List.getElem?_eq_getElem hj]
  refine h.not_returns ⟨i, k, as[i + k + 1], hi, ?_⟩
  have hmet := h.follow_eq (i + k + 1)
  rw [Nat.add_assoc, follow_add, hi, Option.bind_some] at hmet
  rw [hmet]
  exact List.getElem?_eq_getElem hj

/-- **In a finite structure a chain ends exactly when it never comes back to an element.** -/
theorem exists_chainFrom_iff [Finite α] (a : α) :
    (∃ as, ChainFrom next a as) ↔ ¬ Returns next a := by
  constructor
  · rintro ⟨as, has⟩
    exact has.not_returns
  · intro h
    by_contra hno
    refine h (returns_of_follow_ne_none fun hend => hno ?_)
    exact exists_chainFrom_of_follow hend

end XenonExt
