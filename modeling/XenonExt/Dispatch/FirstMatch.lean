import Mathlib.Data.List.Basic
import Mathlib.Data.List.Forall2
import Mathlib.Data.List.Perm.Basic

/-! # First match in groups

A table of entries comes in groups, and a lookup takes the first entry that matches. The order of
the groups is fixed, the order inside a group is not. Nothing here depends on what the entries are.

* **`Reordered`**: the same groups, each in some order.
* **`Unambiguous`**: in the first group with a match there is only one.
* **`firstMatch_stable_iff`**: the first match is the same for all orders exactly when it is
  unambiguous.
* **`Settled`**, **`forall_unambiguous_iff`**: that this is so for every request, seen from pairs of
  entries. -/

namespace XenonExt

variable {α : Type}

/-- The same groups, each in some order. -/
abbrev Reordered (groups groups' : List (List α)) : Prop := List.Forall₂ List.Perm groups groups'

/-- The first entry that matches. -/
def firstMatch (p : α → Bool) (groups : List (List α)) : Option α := groups.flatten.find? p

/-- In the first group with a match all matches are one entry. -/
def Unambiguous (p : α → Bool) : List (List α) → Prop
  | [] => True
  | group :: groups => (∀ a ∈ group, ∀ b ∈ group, p a → p b → a = b) ∧
    ((∀ a ∈ group, ¬ p a) → Unambiguous p groups)

variable {p : α → Bool}

/-- The match of the first group, else that of the others. -/
theorem firstMatch_cons (group : List α) (groups : List (List α)) :
    firstMatch p (group :: groups) = (group.find? p).or (firstMatch p groups) := by
  rw [firstMatch, List.flatten_cons, List.find?_append]
  rfl

/-- Any match is the first one when there is only one. -/
theorem find?_eq_some_of_forall {group : List α} (h : ∀ a ∈ group, ∀ b ∈ group, p a → p b → a = b)
    {a : α} (ha : a ∈ group) (hp : p a) : group.find? p = some a := by
  cases hfind : group.find? p with
  | none => exact absurd hp (List.find?_eq_none.mp hfind a ha)
  | some b =>
      rw [h b (List.mem_of_find?_eq_some hfind) a ha (List.find?_some hfind) hp]

/-- One match is found in every order. -/
theorem find?_perm {group group' : List α} (hperm : group.Perm group')
    (h : ∀ a ∈ group, ∀ b ∈ group, p a → p b → a = b) : group'.find? p = group.find? p := by
  cases hfind : group'.find? p with
  | none =>
      refine (List.find?_eq_none.mpr fun a ha => ?_).symm
      exact List.find?_eq_none.mp hfind a (hperm.mem_iff.mp ha)
  | some b =>
      have hb : b ∈ group := hperm.mem_iff.mpr (List.mem_of_find?_eq_some hfind)
      exact (find?_eq_some_of_forall h hb (List.find?_some hfind)).symm

/-- An unambiguous match is found in every order. -/
theorem Unambiguous.firstMatch_eq {groups groups' : List (List α)} (h : Unambiguous p groups)
    (hreordered : Reordered groups groups') : firstMatch p groups' = firstMatch p groups := by
  induction hreordered with
  | nil => rfl
  | @cons group group' groups groups' hperm _ ih =>
      rw [firstMatch_cons, firstMatch_cons, find?_perm hperm h.1]
      cases hfind : group.find? p with
      | some a => rfl
      | none =>
          rw [ih (h.2 fun a ha => List.find?_eq_none.mp hfind a ha)]

/-- An entry can come first in its group. -/
theorem exists_reordered_head {group : List α} {a : α} (ha : a ∈ group) (hp : p a)
    (groups : List (List α)) :
    ∃ groups', Reordered (group :: groups) groups' ∧ firstMatch p groups' = some a := by
  obtain ⟨s, t, rfl⟩ := List.append_of_mem ha
  refine ⟨(a :: (s ++ t)) :: groups, .cons List.perm_middle ?_, ?_⟩
  · exact List.forall₂_same.mpr fun group _ => List.Perm.refl group
  · rw [firstMatch_cons, List.find?_cons_of_pos hp]
    rfl

/-- An ambiguous match is not found in some order. -/
theorem exists_reordered_ne {groups : List (List α)} (h : ¬ Unambiguous p groups) :
    ∃ groups', Reordered groups groups' ∧ firstMatch p groups' ≠ firstMatch p groups := by
  induction groups with
  | nil => exact absurd trivial h
  | cons group groups ih =>
      rw [Unambiguous, not_and_or] at h
      rcases h with h | h
      · push Not at h
        obtain ⟨a, ha, b, hb, hpa, hpb, hne⟩ := h
        obtain ⟨groups₁, hreordered₁, hfirst₁⟩ := exists_reordered_head ha hpa groups
        obtain ⟨groups₂, hreordered₂, hfirst₂⟩ := exists_reordered_head hb hpb groups
        -- the first match cannot be both of two entries
        by_cases heq : firstMatch p groups₁ = firstMatch p (group :: groups)
        · refine ⟨groups₂, hreordered₂, fun heq' => hne ?_⟩
          exact Option.some.inj (hfirst₁.symm.trans (heq.trans (heq'.symm.trans hfirst₂)))
        · exact ⟨groups₁, hreordered₁, heq⟩
      · push Not at h
        obtain ⟨hnone, hambiguous⟩ := h
        obtain ⟨groups', hreordered, hfirst⟩ := ih hambiguous
        refine ⟨group :: groups', .cons (List.Perm.refl group) hreordered, ?_⟩
        have hfind : group.find? p = none :=
          List.find?_eq_none.mpr fun a ha => by simpa using hnone a ha
        rwa [firstMatch_cons, firstMatch_cons, hfind, Option.none_or, Option.none_or]

/-- **The first match is the same for all orders exactly when it is unambiguous.** -/
theorem firstMatch_stable_iff {groups : List (List α)} :
    (∀ groups', Reordered groups groups' → firstMatch p groups' = firstMatch p groups) ↔
      Unambiguous p groups := by
  refine ⟨fun hstable => ?_, fun h groups' hreordered => h.firstMatch_eq hreordered⟩
  by_contra h
  obtain ⟨groups', hreordered, hne⟩ := exists_reordered_ne h
  exact hne (hstable groups' hreordered)

/-! ## All requests -/

/-- **Every two entries of a group are settled** by the entries before the group. -/
def Settled (settles : List α → α → α → Prop) : List α → List (List α) → Prop
  | _, [] => True
  | before, group :: groups => (∀ a ∈ group, ∀ b ∈ group, a ≠ b → settles before a b) ∧
    Settled settles (before ++ group) groups

instance decidableSettled (settles : List α → α → α → Prop) [DecidableEq α]
    [∀ before a b, Decidable (settles before a b)] :
    ∀ before groups, Decidable (Settled settles before groups)
  | _, [] => .isTrue trivial
  | before, group :: groups =>
    @instDecidableAnd _ _ inferInstance (decidableSettled settles (before ++ group) groups)

/-- **No request is ambiguous** exactly when every two entries of a group are settled: an entry before
the group matches what both match. -/
theorem forall_unambiguous_iff {ρ : Type} {sent : ρ → Prop} {p : ρ → α → Bool}
    {settles : List α → α → α → Prop} {entries : List α}
    (hsettles : ∀ before ⊆ entries, ∀ a ∈ entries, ∀ b ∈ entries,
      (settles before a b ↔ ∀ x, sent x → p x a → p x b → ∃ c ∈ before, p x c))
    {groups : List (List α)} {before : List α} (hbefore : before ⊆ entries)
    (hgroups : groups.flatten ⊆ entries) :
    (∀ x, sent x → (∀ c ∈ before, ¬ p x c) → Unambiguous (p x) groups) ↔
      Settled settles before groups := by
  induction groups generalizing before with
  | nil => exact iff_of_true (fun _ _ _ => trivial) trivial
  | cons group groups ih =>
      rw [List.flatten_cons, List.append_subset] at hgroups
      have hrest := ih (List.append_subset.mpr ⟨hbefore, hgroups.1⟩) hgroups.2
      rw [Settled, ← hrest]
      constructor
      · intro h
        refine ⟨fun a ha b hb hne => ?_, fun x hx hnone => ?_⟩
        · rw [hsettles before hbefore a (hgroups.1 ha) b (hgroups.1 hb)]
          intro x hx hpa hpb
          -- otherwise the group is the first one with a match, and has two
          by_contra hnone
          push Not at hnone
          exact hne ((h x hx hnone).1 a ha b hb hpa hpb)
        · have hbefore : ∀ c ∈ before, ¬ p x c := fun c hc => hnone c (List.mem_append_left _ hc)
          exact (h x hx hbefore).2 fun a ha => hnone a (List.mem_append_right _ ha)
      · rintro ⟨hgroup, hlater⟩ x hx hnone
        refine ⟨fun a ha b hb hpa hpb => ?_, fun hnone' => hlater x hx fun c hc => ?_⟩
        · by_contra hne
          obtain ⟨c, hc, hpc⟩ := (hsettles before hbefore a (hgroups.1 ha) b (hgroups.1 hb)).mp
            (hgroup a ha b hb hne) x hx hpa hpb
          exact hnone c hc hpc
        · rcases List.mem_append.mp hc with hc | hc
          · exact hnone c hc
          · exact hnone' c hc

end XenonExt
