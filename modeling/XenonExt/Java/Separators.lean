import Mathlib.Data.List.Basic
import Mathlib.Data.List.Perm.Basic

/-! # Separators in texts

When parts of a text are put together with a separator between them, and the parts may contain it,
the text can be read in several ways. Separators without a border do not overlap, so that another
reading has another occurrence inside one of the parts.

* **`Borderless`**: no end of the separator is its start.
* **`eq_append_of_borderless`**: two occurrences lie apart.
* **`infix_tail_iff`**, **`infix_dropLast_iff`**: occurrences after the start, and before the end.
* **`perm_of_map_perm`**: images that can be read in one way determine a list up to its order. -/

namespace XenonExt

variable {α β : Type} {sep : List α}

/-- **A text without a border**: no proper end of it is its start. -/
def Borderless (sep : List α) : Prop := ∀ k < sep.length, 0 < k → ¬ sep.drop k <+: sep

instance [DecidableEq α] (sep : List α) : Decidable (Borderless sep) := by
  unfold Borderless
  infer_instance

/-- **Two occurrences of a text without a border lie apart.** -/
theorem eq_append_of_borderless (hsep : Borderless sep) {x t t' : List α} (hx : x ≠ [])
    (h : sep ++ t = x ++ (sep ++ t')) : ∃ x', x = sep ++ x' ∧ t = x' ++ (sep ++ t') := by
  rcases List.append_eq_append_iff.mp h with ⟨a, ha, ht⟩ | ⟨c, hc, hrest⟩
  · exact ⟨a, ha, ht⟩
  · cases c with
    | nil =>
        refine ⟨[], by rw [List.append_nil, hc, List.append_nil], ?_⟩
        rw [List.nil_append, ← List.nil_append t, ← hrest]
    | cons d c =>
        -- the second occurrence would start inside the first
        have hdrop : sep.drop x.length = d :: c := by rw [hc, List.drop_left]
        have hlength : sep.length = x.length + (d :: c).length := by rw [hc, List.length_append]
        have hboth : d :: c <+: sep ++ t' := hrest ▸ List.prefix_append (d :: c) t
        have hprefix : d :: c <+: sep :=
          List.prefix_of_prefix_length_le hboth (List.prefix_append sep t') (by omega)
        have hpos : 0 < x.length := List.length_pos_iff.mpr hx
        refine absurd hprefix (hdrop ▸ hsep x.length ?_ hpos)
        rw [hlength, List.length_cons]
        omega

/-- An occurrence after the start. -/
theorem infix_tail_iff (hsep : sep ≠ []) {t : List α} :
    sep <:+: t.tail ↔ ∃ u v, u ≠ [] ∧ t = u ++ (sep ++ v) := by
  constructor
  · rintro ⟨u, v, h⟩
    cases t with
    | nil =>
        rw [List.tail_nil, List.append_assoc, List.append_eq_nil_iff, List.append_eq_nil_iff] at h
        exact absurd h.2.1 hsep
    | cons c t =>
        rw [List.tail_cons] at h
        exact ⟨c :: u, v, List.cons_ne_nil c u, by rw [← h]; simp⟩
  · rintro ⟨u, v, hu, rfl⟩
    obtain ⟨c, u, rfl⟩ := List.exists_cons_of_ne_nil hu
    exact ⟨u, v, by simp⟩

/-- An occurrence before the end. -/
theorem infix_dropLast_iff (hsep : sep ≠ []) {t : List α} :
    sep <:+: t.dropLast ↔ ∃ u v, v ≠ [] ∧ t = u ++ (sep ++ v) := by
  constructor
  · rintro ⟨u, v, h⟩
    rcases List.eq_nil_or_concat' t with rfl | ⟨init, c, rfl⟩
    · rw [List.dropLast_nil, List.append_assoc, List.append_eq_nil_iff,
        List.append_eq_nil_iff] at h
      exact absurd h.2.1 hsep
    · rw [List.dropLast_concat] at h
      exact ⟨u, v ++ [c], List.concat_ne_nil c v, by rw [← h]; simp⟩
  · rintro ⟨u, v, hv, rfl⟩
    refine ⟨u, v.dropLast, ?_⟩
    rw [List.dropLast_append_of_ne_nil (List.append_ne_nil_of_right_ne_nil sep hv),
      List.dropLast_append_of_ne_nil hv, List.append_assoc]

/-- **Images that can be read in one way determine a list**, up to its order. -/
theorem perm_of_map_perm (f : α → β) {l l' : List α} (h : (l.map f).Perm (l'.map f))
    (hread : ∀ a ∈ l, ∀ b ∈ l', f b = f a → b = a) : l.Perm l' := by
  induction l generalizing l' with
  | nil => rw [List.map_eq_nil_iff.mp (List.nil_perm.mp h)]
  | cons a l ih =>
      have hmem : f a ∈ l'.map f := h.subset List.mem_cons_self
      obtain ⟨b, hb, hfb⟩ := List.mem_map.mp hmem
      obtain rfl := hread a List.mem_cons_self b hb hfb
      obtain ⟨before, after, rfl⟩ := List.append_of_mem hb
      have hmiddle : (before ++ b :: after).Perm (b :: (before ++ after)) := List.perm_middle
      refine List.Perm.trans (List.Perm.cons b (ih ?_ ?_)) hmiddle.symm
      · exact (h.trans (hmiddle.map f)).cons_inv
      · intro a ha b' hb'
        exact hread a (List.mem_cons_of_mem _ ha) b' (hmiddle.symm.subset (List.mem_cons_of_mem _ hb'))

end XenonExt
