import Mathlib.Data.List.Basic
import XenonExt.Java.Strings

/-! # `String.replaceAll` of a quoted text

`replaceAll` takes a pattern and a replacement in which a backslash escapes and a dollar sign refers
to a group. A quoted pattern has no groups, so `$0`, the whole match, is the only reference that
does not throw.

* **`replaceAll`**: replace every occurrence of a text, from left to right.
* **`replaceAll_append`**: what cannot start an occurrence stays.
* **`replaceAll_self_append`**: an occurrence in front is replaced. -/

namespace XenonExt

variable {target replacement : Str}

/-- The text a replacement stands for, given the matched text; `none` when Java throws. A reference
takes all the zeros after it, the only digits that do not make up the number of a missing group. -/
def expandReplacement (matched : Str) (inReference : Bool) : Str → Option Str
  | [] => some []
  | ['\\'] => none
  | '\\' :: c :: rest => (expandReplacement matched false rest).map (c :: ·)
  | '$' :: '0' :: rest => (expandReplacement matched true rest).map (matched ++ ·)
  | '$' :: _ => none
  | c :: rest =>
    if inReference ∧ c = '0' then expandReplacement matched true rest
    else (expandReplacement matched false rest).map (c :: ·)

/-- Replace the occurrences of the target after the first `skip` characters, which belong to the
occurrence before. -/
def replaceFrom (target replacement : Str) : Nat → Str → Option Str
  | _, [] => some []
  | skip + 1, _ :: text => replaceFrom target replacement skip text
  | 0, c :: text =>
    if target <+: c :: text then
      (expandReplacement target false replacement).bind fun r =>
        (replaceFrom target replacement (target.length - 1) text).map (r ++ ·)
    else (replaceFrom target replacement 0 text).map (c :: ·)

/-- `text.replaceAll(Pattern.quote(target), replacement)` for a target that is not empty; `none`
when Java throws. -/
def replaceAll (target replacement text : Str) : Option Str := replaceFrom target replacement 0 text

@[simp] theorem replaceAll_nil : replaceAll target replacement [] = some [] := rfl

/-- A replacement without escapes and references stands for itself. -/
theorem expandReplacement_eq_self (matched : Str) (inReference : Bool) {r : Str}
    (hescape : '\\' ∉ r) (hreference : '$' ∉ r) (hzero : inReference = false) :
    expandReplacement matched inReference r = some r := by
  subst hzero
  induction r with
  | nil => rfl
  | cons c r ih =>
      have hc : c ≠ '\\' := (List.ne_of_not_mem_cons hescape).symm
      have hc' : c ≠ '$' := (List.ne_of_not_mem_cons hreference).symm
      rw [expandReplacement, ih (List.not_mem_of_not_mem_cons hescape)
        (List.not_mem_of_not_mem_cons hreference)]
      · simp
      all_goals simp_all

/-- A replacement does not stand for itself with escapes in front. -/
theorem expandReplacement_ne_escaped {m : Char} {matched : Str} (hm : m ≠ '\\')
    (inReference : Bool) (r : Str) (k : Nat) (hzero : inReference = false) :
    expandReplacement (m :: matched) inReference r ≠ some (List.replicate (k + 1) '\\' ++ r) := by
  intro h
  fun_induction expandReplacement (m :: matched) inReference r generalizing k with
  | case1 => exact absurd (Option.some.inj h) (by simp [List.replicate_succ])
  | case2 => exact nomatch h
  | case3 inReference c rest ih =>
      -- the character that is escaped is an escape itself, and two more are to come
      obtain ⟨e, he, hcons⟩ := Option.map_eq_some_iff.mp h
      rw [List.replicate_succ, List.cons_append, List.cons.injEq] at hcons
      obtain ⟨rfl, rfl⟩ := hcons
      refine ih (k + 1) rfl (he.trans (congrArg some ?_))
      rw [List.replicate_succ', List.replicate_succ', List.append_assoc, List.append_assoc]
      rfl
  | case4 =>
      obtain ⟨e, -, hcons⟩ := Option.map_eq_some_iff.mp h
      exact hm (List.cons.inj hcons).1
  | case5 => exact nomatch h
  | case6 inReference c rest _ _ _ _ hreference => exact absurd (hzero ▸ hreference.1) (by decide)
  | case7 inReference c rest hend hescape =>
      obtain ⟨e, -, hcons⟩ := Option.map_eq_some_iff.mp h
      obtain rfl : c = '\\' := (List.cons.inj hcons).1
      cases rest with
      | nil => exact hend rfl rfl
      | cons d rest => exact hescape d rest rfl rfl

/-- **A replacement that stands for itself** has no escapes and no references, where the matched
text starts with neither. -/
theorem not_mem_of_expandReplacement_self {m : Char} {matched : Str} (hm : m ≠ '\\') (hm' : m ≠ '$')
    {inReference : Bool} {r : Str} (hzero : inReference = false)
    (h : expandReplacement (m :: matched) inReference r = some r) : '\\' ∉ r ∧ '$' ∉ r := by
  fun_induction expandReplacement (m :: matched) inReference r with
  | case1 => exact ⟨List.not_mem_nil, List.not_mem_nil⟩
  | case2 => exact nomatch h
  | case3 inReference c rest ih =>
      obtain ⟨e, he, hcons⟩ := Option.map_eq_some_iff.mp h
      obtain ⟨rfl, rfl⟩ := List.cons.inj hcons
      exact absurd he (expandReplacement_ne_escaped hm false rest 0 rfl)
  | case4 =>
      obtain ⟨e, -, hcons⟩ := Option.map_eq_some_iff.mp h
      exact absurd (List.cons.inj hcons).1 hm'
  | case5 => exact nomatch h
  | case6 inReference c rest _ _ _ _ hreference => exact absurd (hzero ▸ hreference.1) (by decide)
  | case7 inReference c rest hend hescape _ hreference _ ih =>
      obtain ⟨e, he, hcons⟩ := Option.map_eq_some_iff.mp h
      obtain ⟨-, rfl⟩ := List.cons.inj hcons
      obtain ⟨hrest, hrest'⟩ := ih rfl he
      have hc : c ≠ '\\' := by
        rintro rfl
        cases e with
        | nil => exact hend rfl rfl
        | cons d e => exact hescape d e rfl rfl
      have hc' : c ≠ '$' := fun heq => hreference heq
      exact ⟨List.not_mem_cons_of_ne_of_not_mem hc.symm hrest,
        List.not_mem_cons_of_ne_of_not_mem hc'.symm hrest'⟩

/-- The characters of the occurrence before are passed over. -/
theorem replaceFrom_length_append (a text : Str) :
    replaceFrom target replacement a.length (a ++ text) = replaceAll target replacement text := by
  induction a with
  | nil => rfl
  | cons c a ih => exact ih

/-- A character at which no occurrence starts stays. -/
theorem replaceAll_cons {d : Char} {text : Str} (h : ¬ target <+: d :: text) :
    replaceAll target replacement (d :: text) =
      (replaceAll target replacement text).map (d :: ·) := by
  rw [replaceAll, replaceFrom, if_neg h]
  rfl

/-- **What cannot start an occurrence stays.** -/
theorem replaceAll_append {c : Char} {a : Str} (ha : c ∉ a) (text : Str) :
    replaceAll (c :: target) replacement (a ++ text) =
      (replaceAll (c :: target) replacement text).map (a ++ ·) := by
  induction a with
  | nil => simp
  | cons d a ih =>
      have hd : ¬ c :: target <+: d :: (a ++ text) := by
        rw [List.cons_prefix_cons]
        exact fun h => List.ne_of_not_mem_cons ha h.1
      rw [List.cons_append, replaceAll_cons hd, ih (List.not_mem_of_not_mem_cons ha),
        Option.map_map]
      rfl

/-- A text in which no occurrence can start stays as it is. -/
theorem replaceAll_of_not_mem {c : Char} {text : Str} (h : c ∉ text) :
    replaceAll (c :: target) replacement text = some text := by
  rw [← List.append_nil text, replaceAll_append h, replaceAll_nil, Option.map_some]

/-- **An occurrence in front is replaced.** -/
theorem replaceAll_self_append {c : Char} (text : Str) :
    replaceAll (c :: target) replacement (c :: target ++ text) =
      (expandReplacement (c :: target) false replacement).bind fun r =>
        (replaceAll (c :: target) replacement text).map (r ++ ·) := by
  rw [List.cons_append, replaceAll, replaceFrom, if_pos]
  · simp only [List.length_cons, Nat.add_sub_cancel, replaceFrom_length_append]
  · exact List.prefix_append (c :: target) text

/-- **A text without an occurrence** stays as it is. -/
theorem replaceAll_of_not_occurs {text : Str} (h : ¬ target <:+: text) :
    replaceAll target replacement text = some text := by
  induction text with
  | nil => rfl
  | cons c text ih =>
      have hprefix : ¬ target <+: c :: text := fun hp => h hp.isInfix
      have hoccurs : ¬ target <:+: text := fun hi => h (hi.trans (List.suffix_cons c text).isInfix)
      rw [replaceAll_cons hprefix, ih hoccurs, Option.map_some]

/-- Replacing after the first characters, up to a character that the target does not have. -/
theorem replaceFrom_append_cons {sep : Char} (hsep : sep ∉ target) (hne : target ≠ []) (s t : Str)
    {skip : Nat} (hskip : skip ≤ s.length) :
    replaceFrom target replacement skip (s ++ sep :: t) =
      (replaceFrom target replacement skip s).bind fun a =>
        (replaceAll target replacement t).map (a ++ sep :: ·) := by
  induction s generalizing skip with
  | nil =>
      obtain rfl := Nat.le_zero.mp hskip
      exact replaceAll_cons (not_prefix_cons hsep hne t)
  | cons c s ih =>
      cases skip with
      | succ skip => exact ih (Nat.le_of_succ_le_succ hskip)
      | zero =>
          have hfront : target <+: c :: (s ++ sep :: t) ↔ target <+: c :: s :=
            prefix_append_cons_iff hsep (c :: s) t
          rw [List.cons_append, replaceFrom, replaceFrom]
          simp only [hfront]
          split
          · -- the occurrence is passed over before the character comes
            rename_i hstart
            have hlength : target.length - 1 ≤ s.length := Nat.sub_le_of_le_add hstart.length_le
            rw [ih hlength]
            cases expandReplacement target false replacement <;>
              cases replaceFrom target replacement (target.length - 1) s <;>
              cases replaceAll target replacement t <;> simp
          · rw [ih (Nat.zero_le _)]
            cases replaceFrom target replacement 0 s <;>
              cases replaceAll target replacement t <;> simp

/-- **No occurrence reaches over a character that the target does not have.** -/
theorem replaceAll_append_cons {sep : Char} (hsep : sep ∉ target) (hne : target ≠ []) (s t : Str) :
    replaceAll target replacement (s ++ sep :: t) =
      (replaceAll target replacement s).bind fun a =>
        (replaceAll target replacement t).map (a ++ sep :: ·) :=
  replaceFrom_append_cons hsep hne s t (Nat.zero_le _)

/-- Replacing by nothing makes a text shorter in which the target occurs. -/
theorem replaceFrom_nil_length (c : Char) (a : Str) (skip : Nat) (text : Str) :
    ∃ r, replaceFrom (c :: a) [] skip text = some r ∧ r.length ≤ text.length ∧
      (skip = 0 → c :: a <:+: text → r.length < text.length) := by
  induction text generalizing skip with
  | nil =>
      refine ⟨[], rfl, Nat.le_refl _, fun _ hoccurs => ?_⟩
      exact absurd (List.infix_nil.mp hoccurs) (List.cons_ne_nil c a)
  | cons d text ih =>
      cases skip with
      | succ skip =>
          obtain ⟨r, hr, hle, -⟩ := ih skip
          exact ⟨r, hr, Nat.le_succ_of_le hle, fun h => nomatch h⟩
      | zero =>
          rw [replaceFrom]
          split
          · obtain ⟨r, hr, hle, -⟩ := ih ((c :: a).length - 1)
            exact ⟨r, by rw [hr]; rfl, Nat.le_succ_of_le hle, fun _ _ => Nat.lt_succ_of_le hle⟩
          · rename_i hprefix
            obtain ⟨r, hr, hle, hlt⟩ := ih 0
            refine ⟨d :: r, by rw [hr]; rfl, Nat.succ_le_succ hle, fun _ hoccurs => ?_⟩
            exact Nat.succ_lt_succ (hlt rfl ((List.infix_cons_iff.mp hoccurs).resolve_left hprefix))

end XenonExt
