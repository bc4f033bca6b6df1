import Mathlib.Data.List.Find
import Mathlib.Data.List.Infix
import Mathlib.Data.List.Nodup
import XenonExt.Java.Replace

/-! # Simultaneous substitution

The placeholder of a name is the name in braces. Substitution puts a value in for every placeholder
of a text, all at once, and does not look at the values; `replaceAll` puts in one value at a time,
and looks at what the ones before have put in.

* **`substitute`**: the substitution.
* **`substitute_append_brace`**: no placeholder reaches over a brace that opens another one.
* **`replaceAll_braced`**: `replaceAll` substitutes what the replacement stands for.
* **`substitute_substitute_iff`**: a value put in after the others is put in with them, exactly when
  these have made no new placeholder of its name. -/

namespace XenonExt

/-- No braces. -/
def Braceless (s : Str) : Prop := '\x7b' ∉ s ∧ '\x7d' ∉ s

instance (s : Str) : Decidable (Braceless s) := by
  unfold Braceless
  infer_instance

/-- The placeholder of a name. -/
def braced (name : Str) : Str := '\x7b' :: name ++ ['\x7d']

/-- The value for the placeholder in front of a text. -/
def valueInFront (values : List (Str × Str)) (text : Str) : Option (Str × Str) :=
  values.find? fun v => braced v.1 <+: text

/-- Substitute after the first `skip` characters, which belong to the placeholder before. -/
def substituteFrom (values : List (Str × Str)) : Nat → Str → Str
  | _, [] => []
  | skip + 1, _ :: text => substituteFrom values skip text
  | 0, c :: text => match valueInFront values (c :: text) with
    | some v => v.2 ++ substituteFrom values (v.1.length + 1) text
    | none => c :: substituteFrom values 0 text

/-- **Simultaneous substitution**: every placeholder that has a value is replaced by it. -/
def substitute (values : List (Str × Str)) (text : Str) : Str := substituteFrom values 0 text

/-- How often a text that is not empty occurs. -/
def occurrences (target : Str) : Str → Nat
  | [] => 0
  | c :: text => (if target <+: c :: text then 1 else 0) + occurrences target text

/-- Values for names without braces, one for each. -/
structure OneEach (values : List (Str × Str)) : Prop where
  nodup : (values.map Prod.fst).Nodup
  braceless : ∀ v ∈ values, Braceless v.1

/-! ## Placeholders in front -/

theorem braced_append (name rest : Str) :
    braced name ++ rest = '\x7b' :: (name ++ '\x7d' :: rest) := by
  simp only [braced, List.cons_append, List.append_assoc, List.nil_append]

@[simp] theorem length_braced (name : Str) : (braced name).length = name.length + 2 := by
  simp [braced]

theorem braced_ne_nil (name : Str) : braced name ≠ [] := List.cons_ne_nil _ _

/-- There is one placeholder in front of a text at most. -/
theorem eq_of_braced_prefix {m n text : Str} (hm : Braceless m) (hn : Braceless n)
    (hmtext : braced m <+: text) (hntext : braced n <+: text) : m = n := by
  obtain ⟨t, rfl⟩ := hntext
  obtain ⟨t', ht'⟩ := hmtext
  rw [braced_append, braced_append] at ht'
  exact (append_cons_inj hm.2 hn.2 (List.cons.inj ht').2).1

/-- The placeholder of a name without braces has no other placeholder in it. -/
theorem eq_of_braced_occurs {m n : Str} (hn : Braceless n) (h : braced m <:+: braced n) : m = n := by
  obtain ⟨x, y, hxy⟩ := h
  cases x with
  | cons c x =>
      -- the brace that opens the placeholder would not be the first character
      have htail : x ++ braced m ++ y = n ++ ['\x7d'] := (List.cons.inj hxy).2
      have hmem : '\x7b' ∈ n ++ ['\x7d'] := by
        rw [← htail]
        simp [braced]
      simp [hn.1] at hmem
  | nil =>
      rw [List.nil_append, braced_append, braced, List.cons_append, List.cons.injEq] at hxy
      rcases List.eq_nil_or_concat' y with rfl | ⟨y, c, rfl⟩
      · exact List.append_cancel_right hxy.2
      · -- the brace that closes it would not be the last one
        have hconcat : m ++ '\x7d' :: (y ++ [c]) = m ++ '\x7d' :: y ++ [c] := by simp
        have hsplit := List.append_inj' (hconcat.symm.trans hxy.2) rfl
        exact absurd (hsplit.1 ▸ by simp) hn.2

/-- A placeholder in front of a text ends before the next brace that opens one. -/
theorem braced_prefix_append_iff {m : Str} (hm : Braceless m) (c : Char) (y rest : Str) :
    braced m <+: c :: (y ++ '\x7b' :: rest) ↔ braced m <+: c :: y := by
  constructor
  · intro h
    have hcut : c :: y ++ ['\x7b'] <+: c :: (y ++ '\x7b' :: rest) := ⟨rest, by simp⟩
    rcases List.prefix_or_prefix_of_prefix h hcut with hshort | hlong
    · rcases List.prefix_concat_iff.mp hshort with heq | hstart
      · -- a placeholder ends in a brace that closes it
        have hlast : (braced m).getLast? = some '\x7d' := List.getLast?_concat
        rw [heq, List.getLast?_concat] at hlast
        exact absurd (Option.some.inj hlast) (by decide)
      · exact hstart
    · -- after its first character a placeholder has no brace that opens one
      rw [List.cons_append, braced, List.cons_append] at hlong
      have hmem : '\x7b' ∈ m ++ ['\x7d'] :=
        (List.cons_prefix_cons.mp hlong).2.subset List.mem_concat_self
      simp [hm.1] at hmem
  · intro h
    refine h.trans ⟨'\x7b' :: rest, ?_⟩
    rw [List.cons_append]

/-! ## Substitution, piece by piece -/

section Substitute

variable {values : List (Str × Str)}

theorem valueInFront_eq_none {text : Str} :
    valueInFront values text = none ↔ ∀ v ∈ values, ¬ braced v.1 <+: text := by
  simp only [valueInFront, List.find?_eq_none, decide_eq_true_eq]

theorem valueInFront_eq_some {text : Str} {v : Str × Str} (h : valueInFront values text = some v) :
    v ∈ values ∧ braced v.1 <+: text := by
  refine ⟨List.mem_of_find?_eq_some h, ?_⟩
  have hfound := List.find?_some h
  exact of_decide_eq_true hfound

/-- With one value for each name, the value for the placeholder in front is its value. -/
theorem valueInFront_eq_some_iff (hvalues : OneEach values) {text : Str} {v : Str × Str} :
    valueInFront values text = some v ↔ v ∈ values ∧ braced v.1 <+: text := by
  refine ⟨valueInFront_eq_some, fun ⟨hmem, hstart⟩ => ?_⟩
  cases hfound : valueInFront values text with
  | none => exact absurd hstart (valueInFront_eq_none.mp hfound v hmem)
  | some w =>
      obtain ⟨hwmem, hwprefix⟩ := valueInFront_eq_some hfound
      have hname := eq_of_braced_prefix (hvalues.braceless w hwmem) (hvalues.braceless v hmem)
        hwprefix hstart
      rw [List.inj_on_of_nodup_map hvalues.nodup hwmem hmem hname]

/-- The characters of the placeholder before are passed over. -/
theorem substituteFrom_length_append (a text : Str) :
    substituteFrom values a.length (a ++ text) = substitute values text := by
  induction a with
  | nil => rfl
  | cons c a ih => exact ih

/-- A character at which no placeholder starts stays. -/
theorem substitute_cons {c : Char} {text : Str} (h : ∀ v ∈ values, ¬ braced v.1 <+: c :: text) :
    substitute values (c :: text) = c :: substitute values text := by
  rw [substitute, substituteFrom, valueInFront_eq_none.mpr h]
  rfl

/-- What has no brace to open a placeholder stays. -/
theorem substitute_append_of_not_mem {a : Str} (ha : '\x7b' ∉ a) (text : Str) :
    substitute values (a ++ text) = a ++ substitute values text := by
  induction a with
  | nil => rfl
  | cons c a ih =>
      rw [List.cons_append, substitute_cons, ih (List.not_mem_of_not_mem_cons ha),
        List.cons_append]
      intro v _ hstart
      rw [braced, List.cons_append, List.cons_prefix_cons] at hstart
      exact List.ne_of_not_mem_cons ha hstart.1

/-- Substitution after the first characters of a text that ends where a placeholder may start. -/
theorem substituteFrom_append_brace (hvalues : ∀ v ∈ values, Braceless v.1) (y rest : Str)
    {skip : Nat} (hskip : skip ≤ y.length) :
    substituteFrom values skip (y ++ '\x7b' :: rest) =
      substituteFrom values skip y ++ substitute values ('\x7b' :: rest) := by
  induction y generalizing skip with
  | nil =>
      obtain rfl := Nat.le_zero.mp hskip
      rfl
  | cons c y ih =>
      cases skip with
      | succ skip => exact ih (Nat.le_of_succ_le_succ hskip)
      | zero =>
          have hfront : valueInFront values (c :: (y ++ '\x7b' :: rest)) =
              valueInFront values (c :: y) :=
            List.find?_congr fun v hv =>
              decide_eq_decide.mpr (braced_prefix_append_iff (hvalues v hv) c y rest)
          rw [List.cons_append, substituteFrom, substituteFrom, hfront]
          cases hv : valueInFront values (c :: y) with
          | none => exact congrArg (c :: ·) (ih (Nat.zero_le _))
          | some v =>
              -- the placeholder is passed over before the text ends
              have hlength := (valueInFront_eq_some hv).2.length_le
              rw [length_braced, List.length_cons] at hlength
              simp only [ih (show v.1.length + 1 ≤ y.length by omega), List.append_assoc]

/-- **No placeholder reaches over a brace that opens one.** -/
theorem substitute_append_brace (hvalues : ∀ v ∈ values, Braceless v.1) (y rest : Str) :
    substitute values (y ++ '\x7b' :: rest) =
      substitute values y ++ substitute values ('\x7b' :: rest) :=
  substituteFrom_append_brace hvalues y rest (Nat.zero_le _)

/-- **A placeholder that has a value** is replaced by it. -/
theorem substitute_braced (hvalues : OneEach values) {name value : Str}
    (hmem : (name, value) ∈ values) (rest : Str) :
    substitute values (braced name ++ rest) = value ++ substitute values rest := by
  have hfront : valueInFront values ('\x7b' :: (name ++ ['\x7d'] ++ rest)) = some (name, value) :=
    (valueInFront_eq_some_iff hvalues).mpr ⟨hmem, List.prefix_append (braced name) rest⟩
  have hlength : (name ++ ['\x7d']).length = name.length + 1 := by simp
  rw [braced, List.cons_append, List.cons_append, substitute, substituteFrom, hfront]
  simp only [← hlength, substituteFrom_length_append]

/-- **A placeholder without a value** stays. -/
theorem substitute_braced_of_not_mem (hvalues : ∀ v ∈ values, Braceless v.1) {name : Str}
    (hname : Braceless name) (hmem : name ∉ values.map Prod.fst) (rest : Str) :
    substitute values (braced name ++ rest) = braced name ++ substitute values rest := by
  have htail : '\x7b' ∉ name ++ ['\x7d'] := by simp [hname.1]
  have hfront : ∀ v ∈ values, ¬ braced v.1 <+: '\x7b' :: (name ++ ['\x7d'] ++ rest) := by
    intro v hv hstart
    have heq := eq_of_braced_prefix (hvalues v hv) hname hstart
      (List.prefix_append (braced name) rest)
    exact hmem (heq ▸ List.mem_map_of_mem hv)
  rw [braced, List.cons_append, List.cons_append, substitute_cons hfront,
    substitute_append_of_not_mem htail]
  rfl

/-- Values whose placeholders do not occur make no difference. -/
theorem substitute_append_of_not_occurs (more : List (Str × Str)) {text : Str}
    (h : ∀ v ∈ more, ¬ braced v.1 <:+: text) :
    substitute (values ++ more) text = substitute values text := by
  have hfrom : ∀ skip, substituteFrom (values ++ more) skip text =
      substituteFrom values skip text := by
    induction text with
    | nil => exact fun _ => rfl
    | cons c text ih =>
        have ih := ih fun v hv hoccurs => h v hv (hoccurs.trans (List.suffix_cons c text).isInfix)
        intro skip
        cases skip with
        | succ skip => exact ih skip
        | zero =>
            have hmore : valueInFront more (c :: text) = none :=
              valueInFront_eq_none.mpr fun v hv hstart => h v hv hstart.isInfix
            have hfront : valueInFront (values ++ more) (c :: text) =
                valueInFront values (c :: text) := by
              rw [valueInFront] at hmore
              rw [valueInFront, List.find?_append, hmore, Option.or_none, valueInFront]
            simp only [substituteFrom, hfront, ih]
  exact hfrom 0

/-- Without values every text stays. -/
theorem substitute_nil (text : Str) : substitute [] text = text := by
  induction text with
  | nil => rfl
  | cons c text ih => exact congrArg (c :: ·) ih

/-- **The order of the values makes no difference.** -/
theorem substitute_perm {values' : List (Str × Str)} (hvalues : OneEach values)
    (hvalues' : OneEach values') (hperm : values.Perm values') (text : Str) :
    substitute values text = substitute values' text := by
  have hfrom : ∀ skip, substituteFrom values skip text = substituteFrom values' skip text := by
    induction text with
    | nil => exact fun _ => rfl
    | cons c text ih =>
        intro skip
        cases skip with
        | succ skip => exact ih skip
        | zero =>
            have hfront : valueInFront values (c :: text) = valueInFront values' (c :: text) := by
              refine Option.ext fun v => ?_
              rw [valueInFront_eq_some_iff hvalues, valueInFront_eq_some_iff hvalues',
                hperm.mem_iff]
            simp only [substituteFrom, hfront, ih]
  exact hfrom 0

end Substitute

/-! ## One placeholder -/

/-- A text with an occurrence is a text without one, the occurrence and a rest. -/
theorem exists_first_occurrence {target text : Str} (hne : target ≠ []) (h : target <:+: text) :
    ∃ y rest, text = y ++ target ++ rest ∧ ¬ target <:+: y := by
  induction text with
  | nil => exact absurd (List.infix_nil.mp h) hne
  | cons c text ih =>
      by_cases hstart : target <+: c :: text
      · obtain ⟨rest, hrest⟩ := hstart
        exact ⟨[], rest, hrest.symm, fun hnil => hne (List.infix_nil.mp hnil)⟩
      · obtain ⟨y, rest, rfl, hy⟩ := ih ((List.infix_cons_iff.mp h).resolve_left hstart)
        refine ⟨c :: y, rest, rfl, fun hoccurs => ?_⟩
        rcases List.infix_cons_iff.mp hoccurs with hfront | hlater
        · refine hstart (hfront.trans ?_)
          rw [List.append_assoc]
          exact List.prefix_append (c :: y) _
        · exact hy hlater

/-- **Texts are built from their occurrences of a placeholder.** -/
@[elab_as_elim]
theorem braced_induction {n : Str} {motive : Str → Prop}
    (base : ∀ y, ¬ braced n <:+: y → motive y)
    (step : ∀ y rest, ¬ braced n <:+: y → motive rest → motive (y ++ braced n ++ rest))
    (text : Str) : motive text := by
  induction hlength : text.length using Nat.strongRecOn generalizing text with
  | ind k ih =>
      by_cases h : braced n <:+: text
      · obtain ⟨y, rest, rfl, hy⟩ := exists_first_occurrence (braced_ne_nil n) h
        refine step y rest hy (ih rest.length ?_ rest rfl)
        simp only [List.length_append, length_braced] at hlength
        omega
      · exact base text h

/-- **`replaceAll` substitutes what the replacement stands for.** -/
theorem replaceAll_braced {name replacement value : Str}
    (hvalue : expandReplacement (braced name) false replacement = some value) (text : Str) :
    replaceAll (braced name) replacement text = some (substitute [(name, value)] text) := by
  have hfrom : ∀ skip, replaceFrom (braced name) replacement skip text =
      some (substituteFrom [(name, value)] skip text) := by
    induction text with
    | nil => exact fun _ => rfl
    | cons c text ih =>
        intro skip
        cases skip with
        | succ skip => exact ih skip
        | zero =>
            rw [replaceFrom, substituteFrom]
            by_cases hstart : braced name <+: c :: text
            · simp [hstart, hvalue, ih, valueInFront]
            · simp [hstart, ih, valueInFront]
  exact hfrom 0

/-- A replacement that throws does so when there is something to replace. -/
theorem replaceAll_eq_none {target replacement text : Str}
    (hthrows : expandReplacement target false replacement = none) (hne : target ≠ [])
    (hoccurs : target <:+: text) : replaceAll target replacement text = none := by
  induction text with
  | nil => exact absurd (List.infix_nil.mp hoccurs) hne
  | cons c text ih =>
      by_cases hstart : target <+: c :: text
      · rw [replaceAll, replaceFrom, if_pos hstart, hthrows, Option.bind_none]
      · rw [replaceAll_cons hstart, ih ((List.infix_cons_iff.mp hoccurs).resolve_left hstart),
          Option.map_none]

/-! ## Counting occurrences -/

section Occurrences

variable {name : Str}

theorem occurrences_cons (target : Str) (c : Char) (text : Str) : occurrences target (c :: text) =
    (if target <+: c :: text then 1 else 0) + occurrences target text := rfl

/-- A text that does not occur is counted zero times. -/
theorem occurrences_eq_zero_iff {target : Str} (hne : target ≠ []) {text : Str} :
    occurrences target text = 0 ↔ ¬ target <:+: text := by
  induction text with
  | nil => simpa [occurrences] using hne
  | cons c text ih =>
      rw [occurrences_cons, Nat.add_eq_zero_iff, ih, List.infix_cons_iff, not_or]
      refine and_congr_left fun _ => ?_
      split <;> simp_all

theorem occurrences_of_not_occurs {text : Str} (h : ¬ braced name <:+: text) :
    occurrences (braced name) text = 0 := (occurrences_eq_zero_iff (braced_ne_nil name)).mpr h

/-- What has no brace to open a placeholder has no occurrence that starts in it. -/
theorem occurrences_append_of_not_mem {a : Str} (ha : '\x7b' ∉ a) (text : Str) :
    occurrences (braced name) (a ++ text) = occurrences (braced name) text := by
  induction a with
  | nil => rfl
  | cons c a ih =>
      have hfront : ¬ braced name <+: c :: (a ++ text) := by
        intro hstart
        rw [braced, List.cons_append, List.cons_prefix_cons] at hstart
        exact List.ne_of_not_mem_cons ha hstart.1
      rw [List.cons_append, occurrences_cons, if_neg hfront, Nat.zero_add,
        ih (List.not_mem_of_not_mem_cons ha)]

/-- No occurrence reaches over a brace that opens one. -/
theorem occurrences_append_braced (hname : Braceless name) (y rest : Str) :
    occurrences (braced name) (y ++ braced name ++ rest) =
      occurrences (braced name) y + (1 + occurrences (braced name) rest) := by
  induction y with
  | nil =>
      have htail : '\x7b' ∉ name ++ ['\x7d'] := by simp [hname.1]
      have hfront : braced name <+: '\x7b' :: (name ++ ['\x7d'] ++ rest) :=
        List.prefix_append (braced name) rest
      have hsplit : braced name ++ rest = '\x7b' :: (name ++ ['\x7d'] ++ rest) := rfl
      rw [List.nil_append, hsplit, occurrences_cons, if_pos hfront,
        occurrences_append_of_not_mem htail, occurrences, Nat.zero_add]
  | cons c y ih =>
      have hfront : braced name <+: c :: (y ++ braced name ++ rest) ↔ braced name <+: c :: y := by
        rw [List.append_assoc, braced_append]
        exact braced_prefix_append_iff hname c y _
      have hsplit : c :: y ++ braced name ++ rest = c :: (y ++ braced name ++ rest) := rfl
      rw [hsplit, occurrences_cons, ih, occurrences_cons, Nat.add_assoc]
      simp only [hfront]

/-- No occurrence reaches over a character that the target does not have. -/
theorem occurrences_append_cons {sep : Char} {target : Str} (hsep : sep ∉ target)
    (hne : target ≠ []) (s t : Str) :
    occurrences target (s ++ sep :: t) = occurrences target s + occurrences target t := by
  induction s with
  | nil =>
      rw [List.nil_append, occurrences_cons, if_neg (not_prefix_cons hsep hne t), occurrences]
  | cons c s ih =>
      have hfront : target <+: c :: (s ++ sep :: t) ↔ target <+: c :: s :=
        prefix_append_cons_iff hsep (c :: s) t
      rw [List.cons_append, occurrences_cons, ih, occurrences_cons, Nat.add_assoc]
      simp only [hfront]

end Occurrences

/-! ## One value after the others -/

section After

variable {values : List (Str × Str)} {name : Str}

/-- One value for one name. -/
theorem oneEach_singleton (hname : Braceless name) (value : Str) : OneEach [(name, value)] where
  nodup := List.nodup_singleton name
  braceless := fun _ hv => List.mem_singleton.mp hv ▸ hname

/-- The last of the values is the only one of its name. -/
theorem OneEach.concat (hvalues : OneEach values) (hname : Braceless name)
    (hnew : name ∉ values.map Prod.fst) (value : Str) : OneEach (values ++ [(name, value)]) where
  nodup := by
    rw [List.map_append, List.map_singleton, List.nodup_append]
    refine ⟨hvalues.nodup, List.nodup_singleton name, fun a ha b hb heq => hnew ?_⟩
    have hname : a = name := heq.trans (List.mem_singleton.mp hb)
    exact hname ▸ ha
  braceless := by
    intro v hv
    rcases List.mem_append.mp hv with hv | hv
    · exact hvalues.braceless v hv
    · exact List.mem_singleton.mp hv ▸ hname

/-- **One value**, put in for the occurrences of its placeholder. -/
theorem substitute_singleton_append (hname : Braceless name) (value y rest : Str) :
    substitute [(name, value)] (y ++ braced name ++ rest) =
      substitute [(name, value)] y ++ value ++ substitute [(name, value)] rest := by
  have hone := oneEach_singleton hname value
  rw [List.append_assoc, braced_append, substitute_append_brace hone.braceless, ← braced_append,
    substitute_braced hone List.mem_cons_self, List.append_assoc]

/-- Values for other names leave the placeholder in its place. -/
theorem substitute_append_braced (hvalues : ∀ v ∈ values, Braceless v.1) (hname : Braceless name)
    (hnew : name ∉ values.map Prod.fst) (y rest : Str) :
    substitute values (y ++ braced name ++ rest) =
      substitute values y ++ braced name ++ substitute values rest := by
  rw [List.append_assoc, braced_append, substitute_append_brace hvalues, ← braced_append,
    substitute_braced_of_not_mem hvalues hname hnew, List.append_assoc]

/-- The last of the values is put in its place. -/
theorem substitute_concat_append_braced (hvalues : OneEach values) (hname : Braceless name)
    (hnew : name ∉ values.map Prod.fst) (value y rest : Str) :
    substitute (values ++ [(name, value)]) (y ++ braced name ++ rest) =
      substitute (values ++ [(name, value)]) y ++ value ++
        substitute (values ++ [(name, value)]) rest := by
  have hconcat := hvalues.concat hname hnew value
  rw [List.append_assoc, braced_append, substitute_append_brace hconcat.braceless, ← braced_append,
    substitute_braced hconcat (List.mem_append_right _ List.mem_cons_self), List.append_assoc]

/-- A value for a placeholder that does not occur. -/
theorem substitute_concat_of_not_occurs (value : Str) {y : Str} (hy : ¬ braced name <:+: y) :
    substitute (values ++ [(name, value)]) y = substitute values y :=
  substitute_append_of_not_occurs _ fun _ hv => List.mem_singleton.mp hv ▸ hy

theorem substitute_singleton_of_not_occurs (value : Str) {y : Str} (hy : ¬ braced name <:+: y) :
    substitute [(name, value)] y = y :=
  (substitute_append_of_not_occurs [(name, value)]
    fun _ hv => List.mem_singleton.mp hv ▸ hy).trans (substitute_nil y)

/-- The length of a text with one value put in. -/
theorem length_substitute_singleton (hname : Braceless name) (value text : Str) :
    (substitute [(name, value)] text).length +
        occurrences (braced name) text * (braced name).length =
      text.length + occurrences (braced name) text * value.length := by
  induction text using braced_induction (n := name) with
  | base y hy =>
      rw [substitute_singleton_of_not_occurs value hy,
        occurrences_of_not_occurs hy, Nat.zero_mul, Nat.zero_mul]
  | step y rest hy ih =>
      rw [substitute_singleton_append hname, substitute_singleton_of_not_occurs value hy,
        occurrences_append_braced hname, occurrences_of_not_occurs hy]
      simp only [List.length_append, Nat.zero_add, Nat.add_mul, Nat.one_mul]
      omega

/-- **A text does not change** exactly when there is nothing to replace, or a placeholder is
replaced by itself. -/
theorem substitute_singleton_eq_self_iff (hname : Braceless name) (value text : Str) :
    substitute [(name, value)] text = text ↔
      occurrences (braced name) text = 0 ∨ value = braced name := by
  constructor
  · intro hself
    by_cases hoccurs : braced name <:+: text
    · -- the placeholder and its value have the same length, and the same place
      have hlength := length_substitute_singleton hname value text
      have hpos : 0 < occurrences (braced name) text := Nat.pos_of_ne_zero fun hzero =>
        (occurrences_eq_zero_iff (braced_ne_nil name)).mp hzero hoccurs
      rw [hself, Nat.add_left_cancel_iff] at hlength
      have hsame := Nat.eq_of_mul_eq_mul_left hpos hlength
      obtain ⟨y, rest, rfl, hy⟩ := exists_first_occurrence (braced_ne_nil name) hoccurs
      rw [substitute_singleton_append hname, substitute_singleton_of_not_occurs value hy,
        List.append_assoc, List.append_assoc, List.append_cancel_left_eq] at hself
      exact .inr (List.append_inj hself hsame.symm).1
    · exact .inl ((occurrences_eq_zero_iff (braced_ne_nil name)).mpr hoccurs)
  · rintro (hzero | rfl)
    · exact substitute_singleton_of_not_occurs value
        ((occurrences_eq_zero_iff (braced_ne_nil name)).mp hzero)
    · induction text using braced_induction (n := name) with
      | base y hy => exact substitute_singleton_of_not_occurs _ hy
      | step y rest hy ih =>
          rw [substitute_singleton_append hname, substitute_singleton_of_not_occurs _ hy, ih]

variable (hvalues : OneEach values) (hname : Braceless name) (hnew : name ∉ values.map Prod.fst)

include hvalues hname hnew

/-- Values for other names take no placeholder away. -/
theorem occurrences_le_substitute (text : Str) :
    occurrences (braced name) text ≤ occurrences (braced name) (substitute values text) := by
  induction text using braced_induction (n := name) with
  | base y hy =>
      rw [occurrences_of_not_occurs hy]
      exact Nat.zero_le _
  | step y rest hy ih =>
      rw [substitute_append_braced hvalues.braceless hname hnew, occurrences_append_braced hname,
        occurrences_append_braced hname, occurrences_of_not_occurs hy]
      omega

/-- The length of a text with one more value put in. -/
theorem length_substitute_concat (value text : Str) :
    (substitute (values ++ [(name, value)]) text).length +
        occurrences (braced name) text * (braced name).length =
      (substitute values text).length + occurrences (braced name) text * value.length := by
  induction text using braced_induction (n := name) with
  | base y hy =>
      rw [substitute_concat_of_not_occurs value hy,
        occurrences_of_not_occurs hy, Nat.zero_mul, Nat.zero_mul]
  | step y rest hy ih =>
      rw [substitute_concat_append_braced hvalues hname hnew,
        substitute_concat_of_not_occurs value hy,
        substitute_append_braced hvalues.braceless hname hnew, occurrences_append_braced hname,
        occurrences_of_not_occurs hy]
      simp only [List.length_append, Nat.zero_add, Nat.add_mul, Nat.one_mul]
      omega

/-- When the others have made no new placeholder, the value is put in with them. -/
theorem substitute_substitute_of_occurrences_eq (value : Str) {text : Str}
    (h : occurrences (braced name) (substitute values text) = occurrences (braced name) text) :
    substitute [(name, value)] (substitute values text) =
      substitute (values ++ [(name, value)]) text := by
  induction text using braced_induction (n := name) with
  | base y hy =>
      rw [occurrences_of_not_occurs hy] at h
      rw [substitute_concat_of_not_occurs value hy]
      exact (substitute_singleton_eq_self_iff hname value _).mpr (.inl h)
  | step y rest hy ih =>
      have hrest := occurrences_le_substitute hvalues hname hnew rest
      rw [substitute_append_braced hvalues.braceless hname hnew, occurrences_append_braced hname,
        occurrences_append_braced hname, occurrences_of_not_occurs hy]
        at h
      rw [substitute_append_braced hvalues.braceless hname hnew, substitute_singleton_append hname,
        ih (by omega), (substitute_singleton_eq_self_iff hname value _).mpr (.inl (by omega)),
        substitute_concat_append_braced hvalues hname hnew,
        substitute_concat_of_not_occurs value hy]

/-- A placeholder that stands for itself is put in with the others. -/
theorem substitute_concat_braced (text : Str) :
    substitute (values ++ [(name, braced name)]) text = substitute values text := by
  induction text using braced_induction (n := name) with
  | base y hy => exact substitute_concat_of_not_occurs _ hy
  | step y rest hy ih =>
      rw [substitute_concat_append_braced hvalues hname hnew,
        substitute_concat_of_not_occurs _ hy, ih,
        substitute_append_braced hvalues.braceless hname hnew]

/-- A value as long as its placeholder, put in for a placeholder that the others have made, is the
placeholder. -/
theorem eq_braced_of_length_eq {value : Str} (hlength : value.length = (braced name).length)
    {text : Str} (hafter : substitute [(name, value)] (substitute values text) =
      substitute (values ++ [(name, value)]) text)
    (hmade : occurrences (braced name) (substitute values text) ≠
      occurrences (braced name) text) : value = braced name := by
  have hsame : ∀ t, (substitute [(name, value)] t).length = t.length := by
    intro t
    have ht := length_substitute_singleton hname value t
    rw [hlength] at ht
    exact Nat.add_right_cancel ht
  induction text using braced_induction (n := name) with
  | base y hy =>
      rw [substitute_concat_of_not_occurs value hy] at hafter
      rw [occurrences_of_not_occurs hy] at hmade
      exact ((substitute_singleton_eq_self_iff hname value _).mp hafter).resolve_left hmade
  | step y rest hy ih =>
      rw [substitute_append_braced hvalues.braceless hname hnew, substitute_singleton_append hname,
        substitute_concat_append_braced hvalues hname hnew,
        substitute_concat_of_not_occurs value hy, List.append_assoc, List.append_assoc] at hafter
      obtain ⟨hfront, hrest⟩ := List.append_inj hafter (hsame _)
      rw [substitute_append_braced hvalues.braceless hname hnew, occurrences_append_braced hname,
        occurrences_append_braced hname, occurrences_of_not_occurs hy]
        at hmade
      -- the new placeholder is in the part before the first one, or after it
      rcases (substitute_singleton_eq_self_iff hname value _).mp hfront with hzero | heq
      · exact ih (List.append_cancel_left hrest) (by omega)
      · exact heq

/-- **A value put in after the others** is put in with them, if and only if these have made no new
placeholder of its name, or it is that placeholder. -/
theorem substitute_substitute_iff (value text : Str) :
    substitute [(name, value)] (substitute values text) =
        substitute (values ++ [(name, value)]) text ↔
      occurrences (braced name) (substitute values text) = occurrences (braced name) text ∨
        value = braced name := by
  constructor
  · intro hafter
    by_cases hmade : occurrences (braced name) (substitute values text) =
        occurrences (braced name) text
    · exact .inl hmade
    · -- more placeholders are replaced than there were, and the length is the same
      have hle := occurrences_le_substitute hvalues hname hnew text
      have hlong := length_substitute_singleton hname value (substitute values text)
      have hlong' := length_substitute_concat hvalues hname hnew value text
      rw [hafter] at hlong
      obtain ⟨more, hmore⟩ := Nat.exists_eq_add_of_lt (lt_of_le_of_ne hle (Ne.symm hmade))
      rw [hmore, Nat.add_mul, Nat.add_mul, Nat.add_mul, Nat.add_mul] at hlong
      have hlength : (more + 1) * (braced name).length = (more + 1) * value.length := by
        rw [Nat.add_mul, Nat.add_mul]
        omega
      exact .inr (eq_braced_of_length_eq hvalues hname hnew
        (Nat.eq_of_mul_eq_mul_left (Nat.succ_pos more) hlength).symm hafter hmade)
  · rintro (heq | rfl)
    · exact substitute_substitute_of_occurrences_eq hvalues hname hnew value heq
    · rw [substitute_concat_braced hvalues hname hnew]
      exact (substitute_singleton_eq_self_iff hname _ _).mpr (.inr rfl)

end After

end XenonExt
