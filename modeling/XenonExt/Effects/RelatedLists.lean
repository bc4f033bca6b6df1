import Mathlib.Data.List.Forall2

/-! # Lists related element by element

Facts about `List.Forall₂` beyond Mathlib's, and the loop that either fails or relates every element
to its result.

* **`forall₂_comp`**, **`forall₂_exists_right`**, **`forall₂_congr_of_mem`**: composition, the partner
  of an element, and relations that agree.
* **`mapM_eq_ok_iff`**: a loop that returns has returned on every element.
* **`foldlM_rel`**: two loops whose rounds keep their states related.
* **`filter_eraseIdx_of_pos`**: taking an element out of a list takes it out of its part. -/

namespace XenonExt

variable {α β γ ε : Type}

/-- Related to related elements: the lists are related by the composition. -/
theorem forall₂_comp {R : α → β → Prop} {S : β → γ → Prop} {T : α → γ → Prop} {as : List α}
    {bs : List β} {cs : List γ} (hR : List.Forall₂ R as bs) (hS : List.Forall₂ S bs cs)
    (hT : ∀ a ∈ as, ∀ b c, R a b → S b c → T a c) : List.Forall₂ T as cs := by
  induction hR generalizing cs with
  | nil =>
      cases hS with
      | nil => exact .nil
  | cons hab _ ih =>
      cases hS with
      | cons hbc hrest =>
          refine .cons (hT _ List.mem_cons_self _ _ hab hbc) (ih hrest fun a ha => ?_)
          exact hT a (List.mem_cons_of_mem _ ha)

/-- Every element on the left is related to one on the right. -/
theorem forall₂_exists_right {R : α → β → Prop} {as : List α} {bs : List β}
    (h : List.Forall₂ R as bs) {a : α} (ha : a ∈ as) : ∃ b ∈ bs, R a b := by
  induction h with
  | nil => simp at ha
  | cons hab _ ih =>
      rcases List.mem_cons.mp ha with rfl | ha
      · exact ⟨_, List.mem_cons_self, hab⟩
      · obtain ⟨b, hb, hR⟩ := ih ha
        exact ⟨b, List.mem_cons_of_mem _ hb, hR⟩

/-- The elements at one position are related. -/
theorem forall₂_getElem? {R : α → β → Prop} {as : List α} {bs : List β}
    (h : List.Forall₂ R as bs) {i : Nat} {a : α} (ha : as[i]? = some a) :
    ∃ b, bs[i]? = some b ∧ R a b := by
  induction h generalizing i with
  | nil => simp at ha
  | cons hab _ ih =>
      cases i with
      | zero => exact ⟨_, rfl, Option.some.inj ha ▸ hab⟩
      | succ i => exact ih ha

/-- Related lists without the elements at one position. -/
theorem forall₂_eraseIdx {R : α → β → Prop} {as : List α} {bs : List β} (h : List.Forall₂ R as bs)
    (i : Nat) : List.Forall₂ R (as.eraseIdx i) (bs.eraseIdx i) := by
  induction h generalizing i with
  | nil => exact .nil
  | cons hab hrest ih =>
      cases i with
      | zero => exact hrest
      | succ i => exact .cons hab (ih i)

/-- Relations that agree on the elements on the left relate the same lists. -/
theorem forall₂_congr_of_mem {R S : α → β → Prop} {as : List α} {bs : List β}
    (h : ∀ a ∈ as, ∀ b, R a b ↔ S a b) : List.Forall₂ R as bs ↔ List.Forall₂ S as bs := by
  induction as generalizing bs with
  | nil => rw [List.forall₂_nil_left_iff, List.forall₂_nil_left_iff]
  | cons a as ih =>
      cases bs with
      | nil => exact iff_of_false (fun h => nomatch h) fun h => nomatch h
      | cons b bs =>
          rw [List.forall₂_cons, List.forall₂_cons, h a List.mem_cons_self,
            ih fun a ha => h a (List.mem_cons_of_mem _ ha)]

/-- **A loop returns** when its body returns on every element. -/
theorem mapM_eq_ok_iff {f : α → Except ε β} {as : List α} {bs : List β} :
    as.mapM f = .ok bs ↔ List.Forall₂ (fun a b => f a = .ok b) as bs := by
  induction as generalizing bs with
  | nil =>
      rw [List.mapM_nil, List.forall₂_nil_left_iff]
      exact ⟨fun h => (Except.ok.inj h).symm, fun h => h ▸ rfl⟩
  | cons a as ih =>
      rw [List.mapM_cons, List.forall₂_cons_left_iff]
      cases hb : f a with
      | error e =>
          refine iff_of_false (fun h => nomatch h) ?_
          rintro ⟨b, -, h, -⟩
          exact nomatch h
      | ok b =>
          cases hbs : as.mapM f with
          | error e =>
              refine iff_of_false (fun h => nomatch h) ?_
              rintro ⟨-, bs', -, h, -⟩
              exact nomatch hbs.symm.trans (ih.mpr h)
          | ok bs' =>
              constructor
              · intro h
                exact ⟨b, bs', rfl, ih.mp hbs, (Except.ok.inj h).symm⟩
              · rintro ⟨b', bs'', hb', hrest, rfl⟩
                obtain rfl := Except.ok.inj hb'
                obtain rfl := Except.ok.inj (hbs.symm.trans (ih.mpr hrest))
                rfl

/-- A loop whose body is the same on every element is the same. -/
theorem mapM_congr_mem {f g : α → Except ε β} {as : List α} (h : ∀ a ∈ as, f a = g a) :
    as.mapM f = as.mapM g := by
  induction as with
  | nil => rfl
  | cons a as ih =>
      rw [List.mapM_cons, List.mapM_cons, h a List.mem_cons_self,
        ih fun a ha => h a (List.mem_cons_of_mem _ ha)]

/-- **Two loops run alike** when each of their rounds does: both stop, or their states are related. -/
theorem foldlM_rel {R : β → γ → Prop} {f : β → α → Option β} {g : γ → α → Option γ} {as : List α}
    (h : ∀ a ∈ as, ∀ b c, R b c → Option.Rel R (f b a) (g c a)) {b : β} {c : γ} (hbc : R b c) :
    Option.Rel R (as.foldlM f b) (as.foldlM g c) := by
  induction as generalizing b c with
  | nil => exact .some hbc
  | cons a as ih =>
      rw [List.foldlM_cons, List.foldlM_cons]
      have ih := fun b c => @ih (fun a ha => h a (List.mem_cons_of_mem _ ha)) b c
      have hround := h a List.mem_cons_self b c hbc
      generalize f b a = b', g c a = c' at hround ⊢
      cases hround with
      | some hround => exact ih _ _ hround
      | none => exact .none

/-! ## A list and its part -/

section Part

variable {p : α → Bool} {l : List α} {i : Nat} {a : α}

/-- A list around one of its positions. -/
theorem eq_take_append_cons (h : l[i]? = some a) : l = l.take i ++ a :: l.drop (i + 1) := by
  obtain ⟨hi, rfl⟩ := List.getElem?_eq_some_iff.mp h
  rw [List.getElem_cons_drop, List.take_append_drop]

/-- The part of a list around one of its elements. -/
theorem filter_around (h : l[i]? = some a) (ha : p a) :
    l.filter p = (l.take i).filter p ++ a :: (l.drop (i + 1)).filter p := by
  conv_lhs => rw [eq_take_append_cons h]
  rw [List.filter_append, List.filter_cons_of_pos ha]

/-- Where an element of a list is in its part: after those before it that are in the part. -/
theorem getElem?_filter_countP (h : l[i]? = some a) (ha : p a) :
    (l.filter p)[(l.take i).countP p]? = some a := by
  rw [filter_around h ha, List.countP_eq_length_filter, List.getElem?_append_right (Nat.le_refl _),
    Nat.sub_self, List.getElem?_cons_zero]

/-- Taking an element out of a list takes it out of its part. -/
theorem filter_eraseIdx_of_pos (h : l[i]? = some a) (ha : p a) :
    (l.eraseIdx i).filter p = (l.filter p).eraseIdx ((l.take i).countP p) := by
  rw [filter_around h ha, List.countP_eq_length_filter,
    List.eraseIdx_append_of_length_le (Nat.le_refl _), Nat.sub_self, List.eraseIdx_cons_zero,
    List.eraseIdx_eq_take_drop_succ, List.filter_append]

/-- Taking another element out of a list leaves its part. -/
theorem filter_eraseIdx_of_neg (h : l[i]? = some a) (ha : ¬ p a) :
    (l.eraseIdx i).filter p = l.filter p := by
  rw [List.eraseIdx_eq_take_drop_succ, List.filter_append]
  conv_rhs => rw [eq_take_append_cons h, List.filter_append, List.filter_cons_of_neg ha]

end Part

end XenonExt
