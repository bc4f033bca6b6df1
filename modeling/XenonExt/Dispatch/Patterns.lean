import XenonExt.Effects.RelatedLists

/-! # Patterns of sequences

A pattern has an element or a hole at each position, and a sequence matches it that has the elements
of the pattern at their positions. Nothing here depends on what the elements are.

* **`Pattern.Matches`**: a sequence matches a pattern.
* **`Pattern.meet`**: the pattern of what matches two patterns (`matches_meet_iff`).
* **`Pattern.fill`**: the sequence of a pattern with one new element in its holes, which matches
  another pattern exactly when that one subsumes the pattern (`matches_fill_iff`). -/

namespace XenonExt

variable {α : Type}

/-- A pattern: the element at each position, or `none` for a hole. -/
abbrev Pattern (α : Type) : Type := List (Option α)

namespace Pattern

/-- An element may stand at a position. -/
def Takes (a : Option α) (x : α) : Prop := a = none ∨ a = some x

/-- **A sequence matches a pattern.** -/
def Matches (p : Pattern α) (xs : List α) : Prop := List.Forall₂ Takes p xs

/-- What stands at a position of both of two patterns. -/
def meetAt [DecidableEq α] : Option α → Option α → Option (Option α)
  | none, b => some b
  | a, none => some a
  | some a, some b => if a = b then some (some a) else none

/-- **The meet of two patterns**, which they have unless their lengths differ or they have different
elements at one position. -/
def meet [DecidableEq α] : Pattern α → Pattern α → Option (Pattern α)
  | [], [] => some []
  | a :: p, b :: q => (meetAt a b).bind fun c => (meet p q).map (c :: ·)
  | _, _ => none

/-- **A pattern subsumes another one** if it has holes and the elements of that one. -/
def Subsumes (p q : Pattern α) : Prop := List.Forall₂ (fun a b => a = none ∨ a = b) p q

instance [DecidableEq α] (p q : Pattern α) : Decidable (Subsumes p q) := by
  unfold Subsumes
  infer_instance

/-- The sequence of a pattern, with one element in all its holes. -/
def fill (x : α) (p : Pattern α) : List α := p.map fun a => a.getD x

variable {p q : Pattern α} {xs : List α} {x : α}

@[simp] theorem matches_nil : Matches ([] : Pattern α) xs ↔ xs = [] := List.forall₂_nil_left_iff

/-- What matches a pattern of two positions and more. -/
theorem matches_cons_iff {a : Option α} :
    Matches (a :: p) xs ↔ ∃ x rest, xs = x :: rest ∧ Takes a x ∧ Matches p rest := by
  rw [Matches, List.forall₂_cons_left_iff]
  constructor
  · rintro ⟨x, rest, htakes, hmatches, rfl⟩
    exact ⟨x, rest, rfl, htakes, hmatches⟩
  · rintro ⟨x, rest, rfl, htakes, hmatches⟩
    exact ⟨x, rest, htakes, hmatches, rfl⟩

/-- A pattern of given elements, and what follows. -/
theorem matches_append_iff {fixed : List α} :
    Matches (fixed.map some ++ p) xs ↔ ∃ rest, xs = fixed ++ rest ∧ Matches p rest := by
  induction fixed generalizing xs with
  | nil => simp
  | cons a fixed ih =>
      rw [List.map_cons, List.cons_append, matches_cons_iff]
      constructor
      · rintro ⟨x, rest, rfl, htakes, hrest⟩
        obtain ⟨rest, rfl, hmatches⟩ := ih.mp hrest
        obtain rfl := Option.some.inj (htakes.resolve_left (Option.some_ne_none _))
        exact ⟨rest, rfl, hmatches⟩
      · rintro ⟨rest, rfl, hmatches⟩
        exact ⟨a, fixed ++ rest, rfl, .inr rfl, ih.mpr ⟨rest, rfl, hmatches⟩⟩

section Meet

variable [DecidableEq α]

/-- What may stand at a position of both of two patterns. -/
theorem takes_meetAt_iff {a b : Option α} :
    (Takes a x ∧ Takes b x) ↔ ∃ c, meetAt a b = some c ∧ Takes c x := by
  cases a with
  | none => simp [Takes, meetAt]
  | some a =>
      cases b with
      | none => simp [Takes, meetAt]
      | some b =>
          by_cases hab : a = b
          · simp [Takes, meetAt, hab]
          · simp only [Takes, meetAt, if_neg hab, reduceCtorEq, false_or, Option.some.injEq,
              false_and, exists_false, iff_false, not_and]
            rintro rfl rfl
            exact hab rfl

/-- **What matches two patterns** is what matches their meet. -/
theorem matches_meet_iff :
    (Matches p xs ∧ Matches q xs) ↔ ∃ r, meet p q = some r ∧ Matches r xs := by
  induction p generalizing q xs with
  | nil =>
      cases q with
      | nil => simp [meet]
      | cons b q =>
          simp only [meet, reduceCtorEq, false_and, exists_false, iff_false, not_and, matches_nil]
          rintro rfl h
          cases h
  | cons a p ih =>
      cases q with
      | nil =>
          simp only [meet, reduceCtorEq, false_and, exists_false, iff_false, not_and, matches_nil]
          rintro h rfl
          cases h
      | cons b q =>
          cases xs with
          | nil =>
              refine iff_of_false (fun h => nomatch h.1) ?_
              rintro ⟨r, hr, hmatches⟩
              obtain ⟨c, -, hr⟩ := Option.bind_eq_some_iff.mp hr
              obtain ⟨r, -, rfl⟩ := Option.map_eq_some_iff.mp hr
              cases hmatches
          | cons x xs =>
              have hsplit : (Matches (a :: p) (x :: xs) ∧ Matches (b :: q) (x :: xs)) ↔
                  (Takes a x ∧ Takes b x) ∧ (Matches p xs ∧ Matches q xs) := by
                simp only [Matches, List.forall₂_cons]
                tauto
              rw [hsplit, takes_meetAt_iff, ih, meet]
              constructor
              · rintro ⟨⟨c, hc, htakes⟩, r, hr, hmatches⟩
                exact ⟨c :: r, by rw [hc, hr]; rfl, .cons htakes hmatches⟩
              · rintro ⟨r, hr, hmatches⟩
                obtain ⟨c, hc, hr⟩ := Option.bind_eq_some_iff.mp hr
                obtain ⟨r, hr', rfl⟩ := Option.map_eq_some_iff.mp hr
                cases hmatches with
                | cons htakes hmatches => exact ⟨⟨c, hc, htakes⟩, r, hr', hmatches⟩

/-- The elements of a meet are elements of the two patterns. -/
theorem mem_of_mem_meet {r : Pattern α} (hmeet : meet p q = some r) {y : α} (hy : some y ∈ r) :
    some y ∈ p ∨ some y ∈ q := by
  induction p generalizing q r with
  | nil =>
      cases q with
      | nil => exact absurd (Option.some.inj hmeet ▸ hy) List.not_mem_nil
      | cons b q => exact nomatch hmeet
  | cons a p ih =>
      cases q with
      | nil => exact nomatch hmeet
      | cons b q =>
          obtain ⟨c, hc, hmeet⟩ := Option.bind_eq_some_iff.mp hmeet
          obtain ⟨r, hr, rfl⟩ := Option.map_eq_some_iff.mp hmeet
          rcases List.mem_cons.mp hy with rfl | hy
          · -- an element at this position is one of the first elements
            have htakes := (takes_meetAt_iff (x := y)).mpr ⟨some y, hc, .inr rfl⟩
            rcases htakes.1 with rfl | rfl
            · rcases htakes.2 with rfl | rfl
              · exact nomatch hc
              · exact .inr List.mem_cons_self
            · exact .inl List.mem_cons_self
          · exact (ih hr hy).imp (List.mem_cons_of_mem _) (List.mem_cons_of_mem _)

end Meet

/-! ## The holes filled -/

/-- A pattern with its holes filled matches it. -/
theorem matches_fill (x : α) (p : Pattern α) : Matches p (fill x p) := by
  rw [Matches, fill, List.forall₂_map_right_iff, List.forall₂_same]
  intro a _
  cases a with
  | none => exact .inl rfl
  | some a => exact .inr rfl

/-- The elements in a filled pattern. -/
theorem mem_fill {y : α} (hy : y ∈ fill x p) : y = x ∨ some y ∈ p := by
  obtain ⟨a, ha, rfl⟩ := List.mem_map.mp hy
  cases a with
  | none => exact .inl rfl
  | some a => exact .inr ha

/-- **A pattern whose holes are filled with a new element** matches the patterns that subsume it. -/
theorem matches_fill_iff (hx : some x ∉ p) : Matches p (fill x q) ↔ Subsumes p q := by
  rw [Matches, fill, List.forall₂_map_right_iff, Subsumes]
  refine forall₂_congr_of_mem fun a ha b => ?_
  cases b with
  | some b => rfl
  | none =>
      have hne : a ≠ some x := fun h => hx (h ▸ ha)
      simp [Takes, hne]

/-- What matches a pattern matches the patterns that subsume it. -/
theorem Matches.of_subsumes (h : Matches q xs) (hsubsumes : Subsumes p q) : Matches p xs := by
  induction hsubsumes generalizing xs with
  | nil => exact h
  | cons hab _ ih =>
      cases h with
      | cons htakes hrest =>
          refine .cons ?_ (ih hrest)
          rcases hab with rfl | rfl
          · exact .inl rfl
          · exact htakes

end Pattern

end XenonExt
