import Mathlib.Data.List.DropRight
import XenonExt.Java.Strings

/-! # `String.split`

Java's `split` at one character drops the empty strings at the end, and leaves a string without the
character whole.

* **`split`**: the operation, and `rooted`, the text in which every segment is led by the separator.
* **`split_rooted` / `split_tail_rooted`**: splitting gives the segments back, after one empty
  string when the text starts with the separator.
* **`split_concat`**: a separator at the end changes nothing. -/

namespace XenonExt

variable {sep : Char}

/-- `s.split(sep)`. -/
def split (sep : Char) (s : Str) : List Str :=
  if sep ∈ s then (s.splitOn sep).rdropWhile List.isEmpty else [s]

/-- The text of segments, each led by the separator. -/
def rooted (sep : Char) (segments : List Str) : Str := segments.flatMap (sep :: ·)

@[simp] theorem rooted_nil : rooted sep [] = [] := rfl

@[simp] theorem rooted_cons (s : Str) (segments : List Str) :
    rooted sep (s :: segments) = sep :: s ++ rooted sep segments := rfl

@[simp] theorem rooted_append (segments segments' : List Str) :
    rooted sep (segments ++ segments') = rooted sep segments ++ rooted sep segments' :=
  List.flatMap_append

/-- The text has the characters of the segments. -/
theorem mem_rooted {s : Str} {segments : List Str} (hs : s ∈ segments) {c : Char} (hc : c ∈ s) :
    c ∈ rooted sep segments :=
  List.mem_flatMap.mpr ⟨s, hs, List.mem_cons_of_mem _ hc⟩

/-- A text without the separator in front belongs to the first part. -/
theorem splitOn_append_of_not_mem {s : Str} (hs : sep ∉ s) (t : Str) :
    (s ++ t).splitOn sep = (t.splitOn sep).modifyHead (s ++ ·) := by
  induction s with
  | nil =>
      rw [List.nil_append]
      cases t.splitOn sep <;> rfl
  | cons c s ih =>
      have hc : (c == sep) = false := beq_false_of_ne (List.ne_of_not_mem_cons hs).symm
      rw [List.cons_append, List.splitOn_cons_eq_if_modifyHead, hc,
        ih (List.not_mem_of_not_mem_cons hs), List.modifyHead_modifyHead]
      rfl

/-- The parts of a text of segments. -/
theorem splitOn_rooted {segments : List Str} (h : ∀ s ∈ segments, sep ∉ s) :
    (rooted sep segments).splitOn sep = [] :: segments := by
  induction segments with
  | nil => rfl
  | cons s segments ih =>
      rw [rooted_cons, List.cons_append, List.splitOn_cons_eq_if_modifyHead, beq_self_eq_true,
        splitOn_append_of_not_mem (h s List.mem_cons_self),
        ih fun s hs => h s (List.mem_cons_of_mem _ hs)]
      simp

/-- Nothing is dropped from segments that are not empty. -/
theorem rdropWhile_isEmpty_eq_self {segments : List Str} (h : ∀ s ∈ segments, s ≠ []) :
    segments.rdropWhile List.isEmpty = segments := by
  rw [List.rdropWhile_eq_self_iff]
  intro hne hempty
  exact h _ (List.getLast_mem hne) (List.isEmpty_iff.mp hempty)

/-- **Splitting a text of segments** gives an empty string and the segments. -/
theorem split_rooted {segments : List Str} (hsep : ∀ s ∈ segments, sep ∉ s)
    (hne : ∀ s ∈ segments, s ≠ []) : split sep (rooted sep segments) = [] :: segments := by
  rcases List.eq_nil_or_concat' segments with rfl | ⟨init, last, rfl⟩
  · rfl
  · have hmem : sep ∈ rooted sep (init ++ [last]) := by simp
    have hlast : ¬ last.isEmpty := fun he => hne last (by simp) (List.isEmpty_iff.mp he)
    rw [split, if_pos hmem, splitOn_rooted hsep, ← List.cons_append,
      List.rdropWhile_concat_neg _ _ _ hlast]

/-- **Splitting a text of segments without the separator in front** gives the segments. -/
theorem split_tail_rooted {segments : List Str} (hsep : ∀ s ∈ segments, sep ∉ s)
    (hne : ∀ s ∈ segments, s ≠ []) (hnil : segments ≠ []) :
    split sep (rooted sep segments).tail = segments := by
  obtain ⟨s, rest, rfl⟩ := List.exists_cons_of_ne_nil hnil
  have hs : sep ∉ s := hsep s List.mem_cons_self
  have hparts : (s ++ rooted sep rest).splitOn sep = s :: rest := by
    rw [splitOn_append_of_not_mem hs, splitOn_rooted fun s hs => hsep s (List.mem_cons_of_mem _ hs)]
    simp
  rw [rooted_cons, List.cons_append, List.tail_cons, split]
  by_cases hmem : sep ∈ s ++ rooted sep rest
  · rw [if_pos hmem, hparts, rdropWhile_isEmpty_eq_self hne]
  · rw [if_neg hmem, ← hparts, List.splitOn_eq_singleton hmem]

/-- **A separator at the end changes nothing.** -/
theorem split_concat {s : Str} (hs : s ≠ []) : split sep (s ++ [sep]) = split sep s := by
  have hmem : sep ∈ s ++ [sep] := List.mem_append_right _ (List.mem_singleton_self sep)
  have hparts : (s ++ [sep]).splitOn sep = s.splitOn sep ++ [[]] :=
    List.splitOn_append_cons_self s []
  rw [split, if_pos hmem, hparts, List.rdropWhile_concat_pos _ _ _ List.isEmpty_nil, split]
  by_cases h : sep ∈ s
  · rw [if_pos h]
  · rw [if_neg h, List.splitOn_eq_singleton h, List.rdropWhile_singleton, if_neg]
    exact fun he => hs (List.isEmpty_iff.mp he)

/-! ## The parts of any text -/

/-- The parts of a text do not have the separator. -/
theorem not_mem_of_mem_splitOn {s t : Str} (ht : t ∈ s.splitOn sep) : sep ∉ t := by
  induction s generalizing t with
  | nil =>
      rw [List.splitOn_nil, List.mem_singleton] at ht
      exact ht ▸ List.not_mem_nil
  | cons c s ih =>
      rw [List.splitOn_cons_eq_if_modifyHead] at ht
      split at ht
      · rcases List.mem_cons.mp ht with rfl | ht
        · exact List.not_mem_nil
        · exact ih ht
      · rename_i hc
        obtain ⟨part, rest, hparts⟩ := List.exists_cons_of_ne_nil (List.splitOn_ne_nil sep s)
        rw [hparts, List.modifyHead_cons] at ht
        rcases List.mem_cons.mp ht with rfl | ht
        · have hpart : sep ∉ part := ih (hparts ▸ List.mem_cons_self)
          have hne : sep ≠ c := fun h => hc (beq_iff_eq.mpr h.symm)
          simp [hne, hpart]
        · exact ih (hparts ▸ List.mem_cons_of_mem _ ht)

/-- A text is its parts, with a separator between them. -/
theorem rooted_splitOn (s : Str) : rooted sep (s.splitOn sep) = sep :: s := by
  induction s with
  | nil => rfl
  | cons c s ih =>
      rw [List.splitOn_cons_eq_if_modifyHead]
      split
      · rename_i hc
        rw [rooted_cons, ih, beq_iff_eq.mp hc]
        rfl
      · obtain ⟨part, rest, hparts⟩ := List.exists_cons_of_ne_nil (List.splitOn_ne_nil sep s)
        rw [hparts, rooted_cons, List.cons_append, List.cons.injEq] at ih
        rw [hparts, List.modifyHead_cons, rooted_cons, ← ih.2]
        rfl

/-- Every part stands in the text. -/
theorem infix_of_mem_splitOn {s t : Str} (ht : t ∈ s.splitOn sep) : t <:+: s := by
  obtain ⟨init, rest, hparts⟩ := List.append_of_mem ht
  have htext : rooted sep (s.splitOn sep) = sep :: s := rooted_splitOn s
  rw [hparts, rooted_append, rooted_cons] at htext
  cases init with
  | nil => exact ⟨[], rooted sep rest, (List.cons.inj htext).2⟩
  | cons part init =>
      refine ⟨part ++ rooted sep init ++ [sep], rooted sep rest, ?_⟩
      rw [rooted_cons, List.cons_append, List.cons_append, List.cons.injEq] at htext
      simpa using htext.2

/-- Java's `split` only leaves out empty parts. -/
theorem mem_split_iff {s t : Str} (ht : t ≠ []) : t ∈ split sep s ↔ t ∈ s.splitOn sep := by
  rw [split]
  split
  · refine ⟨fun h => (List.rdropWhile_prefix _ _).subset h, fun h => ?_⟩
    rw [← List.rdropWhile_append_rtakeWhile (p := List.isEmpty) (l := s.splitOn sep),
      List.mem_append] at h
    exact h.resolve_right fun h => ht (List.isEmpty_iff.mp (List.mem_rtakeWhile_imp h))
  · rename_i hsep
    rw [List.splitOn_eq_singleton hsep]

/-- Separators at the end belong to empty parts at the end. -/
theorem rdropWhile_rooted {segments : List Str} (h : ∀ s ∈ segments, sep ∉ s) :
    (rooted sep segments).rdropWhile (· = sep) = rooted sep (segments.rdropWhile List.isEmpty) := by
  induction segments using List.reverseRecOn with
  | nil => rfl
  | append_singleton segments s ih =>
      rcases List.eq_nil_or_concat' s with rfl | ⟨init, c, rfl⟩
      · rw [List.rdropWhile_concat_pos _ _ _ List.isEmpty_nil, rooted_append, rooted_cons,
          rooted_nil, List.append_nil, List.rdropWhile_concat_pos _ _ _ (by simp)]
        exact ih fun s hs => h s (List.mem_append_left _ hs)
      · have hc : ¬ c = sep := by
          rintro rfl
          exact h _ List.mem_concat_self List.mem_concat_self
        rw [List.rdropWhile_concat_neg _ _ _ (by simp), rooted_append, rooted_cons, rooted_nil,
          List.append_nil, ← List.cons_append, ← List.append_assoc,
          List.rdropWhile_concat_neg _ _ _ (by simpa using hc)]

/-- **Splitting a text that starts with the separator** gives an empty string and the other parts,
or nothing when there is nothing but separators. -/
theorem split_cons_self (s : Str) :
    split sep (sep :: s) =
      if (s.splitOn sep).rdropWhile List.isEmpty = [] then []
      else [] :: (s.splitOn sep).rdropWhile List.isEmpty := by
  have hparts : (sep :: s).splitOn sep = [] :: s.splitOn sep := by
    rw [← rooted_splitOn, splitOn_rooted fun t ht => not_mem_of_mem_splitOn ht]
  rw [split, if_pos List.mem_cons_self, hparts]
  generalize s.splitOn sep = parts
  induction parts using List.reverseRecOn with
  | nil => rfl
  | append_singleton parts part ih =>
      rw [← List.cons_append]
      cases hpart : part.isEmpty with
      | true => rw [List.rdropWhile_concat_pos _ _ _ hpart, List.rdropWhile_concat_pos _ _ _ hpart, ih]
      | false =>
          rw [List.rdropWhile_concat_neg _ _ _ (by simp [hpart]),
            List.rdropWhile_concat_neg _ _ _ (by simp [hpart]), if_neg (List.concat_ne_nil _ _)]
          rfl

end XenonExt
