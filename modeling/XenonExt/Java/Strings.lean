import Mathlib.Data.List.Basic

/-! # Java strings

A Java string is a list of characters, and a reference that may be `null` is an `Option`. -/

namespace XenonExt

/-- A Java string that is not `null`. -/
abbrev Str := List Char

/-- A Java string reference, `null` being `none`. -/
abbrev JString := Option Str

/-- The text Java's formatter and concatenation print for a string reference. -/
def text : JString → Str
  | some s => s
  | none => "null".toList

@[simp] theorem text_some (s : Str) : text (some s) = s := rfl

/-- Texts that are equal agree up to the first occurrence of a character, and after it. -/
theorem append_cons_inj {c : Char} {a b x y : Str} (ha : c ∉ a) (hb : c ∉ b)
    (h : a ++ c :: x = b ++ c :: y) : a = b ∧ x = y := by
  induction a generalizing b with
  | nil =>
      cases b with
      | nil => exact ⟨rfl, (List.cons.inj h).2⟩
      | cons d b => exact absurd ((List.cons.inj h).1 ▸ List.mem_cons_self) hb
  | cons d a ih =>
      cases b with
      | nil => exact absurd ((List.cons.inj h).1 ▸ List.mem_cons_self) ha
      | cons d' b =>
          obtain ⟨rfl, htail⟩ := List.cons.inj h
          obtain ⟨rfl, rfl⟩ := ih (List.not_mem_of_not_mem_cons ha)
            (List.not_mem_of_not_mem_cons hb) htail
          exact ⟨rfl, rfl⟩

/-- A text without a character does not stand in front of it. -/
theorem not_prefix_cons {c : Char} {a : Str} (ha : c ∉ a) (hne : a ≠ []) (t : Str) :
    ¬ a <+: c :: t := by
  intro h
  obtain ⟨d, a, rfl⟩ := List.exists_cons_of_ne_nil hne
  exact List.ne_of_not_mem_cons ha (List.cons_prefix_cons.mp h).1.symm

/-- A text without a character does not reach over it. -/
theorem prefix_append_cons_iff {c : Char} {a : Str} (ha : c ∉ a) (s t : Str) :
    a <+: s ++ c :: t ↔ a <+: s := by
  induction a generalizing s with
  | nil => exact iff_of_true List.nil_prefix List.nil_prefix
  | cons d a ih =>
      have ih := @ih (List.not_mem_of_not_mem_cons ha)
      cases s with
      | nil =>
          refine iff_of_false (not_prefix_cons ha (List.cons_ne_nil d a) t) fun h => ?_
          exact List.cons_ne_nil d a (List.prefix_nil.mp h)
      | cons e s => rw [List.cons_append, List.cons_prefix_cons, List.cons_prefix_cons, ih]

end XenonExt
