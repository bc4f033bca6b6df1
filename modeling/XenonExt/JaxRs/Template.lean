import XenonExt.JaxRs.Placeholders

/-! # Templates

A template is a list of segments, literal ones and placeholders, with or without a slash at either
end. The client fills in its text by replacing the placeholders, and the server takes the text
apart at the slashes.

* **`Segment`, `slashed`**: segments, and the text of a list of them.
* **`replaceAll_slashed`**: replacing a placeholder in the text fills it in the segments.
* **`split_slashed` / `normalized_slashed`**: what splitting and normalizing make of the text.
* **`lookup_parsePathParams`**: the position found for a placeholder holds it. -/

namespace XenonExt

/-- A segment of a template. -/
inductive Segment
  | literal (s : Str)
  | placeholder (name : Str)
  deriving DecidableEq, Repr

namespace Segment

/-- The text of a segment. -/
def text : Segment → Str
  | literal s => s
  | placeholder name => '\x7b' :: name ++ ['\x7d']

/-- No slash and no brace. -/
def plainChar (c : Char) : Prop := c ≠ uriPathChar ∧ c ≠ '\x7b' ∧ c ≠ '\x7d'

instance (c : Char) : Decidable (plainChar c) := by
  unfold plainChar
  infer_instance

/-- A segment without slashes, whose only braces are those of the placeholder; a literal one is not
empty. -/
def Plain : Segment → Prop
  | literal s => s ≠ [] ∧ ∀ c ∈ s, plainChar c
  | placeholder name => ∀ c ∈ name, plainChar c

instance : DecidablePred Plain
  | literal s => @instDecidableAnd _ _ inferInstance (List.decidableBAll plainChar s)
  | placeholder name => List.decidableBAll plainChar name

/-- A segment without slashes; a literal one has no braces either, and is not empty. -/
def Whole : Segment → Prop
  | literal s => s ≠ [] ∧ ∀ c ∈ s, plainChar c
  | placeholder name => uriPathChar ∉ name

/-- Fill in a placeholder. -/
def fill (name value : Str) : Segment → Segment
  | literal s => literal s
  | placeholder m => if m = name then literal value else placeholder m

/-- Fill in every placeholder that has a value. -/
def fillAll (values : List (Str × Str)) : Segment → Segment
  | literal s => literal s
  | placeholder name => (values.lookup name).elim (placeholder name) literal

/-- Without values every segment stays. -/
theorem map_fillAll_nil (segments : List Segment) : segments.map (fillAll []) = segments := by
  have hfill : fillAll [] = id := by
    funext s
    cases s <;> rfl
  rw [hfill, List.map_id]

/-- Filling in one more placeholder. -/
theorem fill_fillAll (values : List (Str × Str)) (name value : Str) (s : Segment) :
    (s.fillAll values).fill name value = s.fillAll (values ++ [(name, value)]) := by
  cases s with
  | literal s => rfl
  | placeholder m =>
      rw [fillAll, fillAll, List.lookup_append]
      cases values.lookup m with
      | some value' => rfl
      | none =>
          by_cases hm : m = name
          · simp [fill, hm]
          · have hne : (m == name) = false := beq_false_of_ne hm
            simp [fill, hm, List.lookup_cons, hne]

/-- A plain segment is whole. -/
theorem Plain.whole {s : Segment} (h : s.Plain) : s.Whole := by
  cases s with
  | literal s => exact h
  | placeholder name => exact fun hmem => (h _ hmem).1 rfl

/-- A whole segment is not empty. -/
theorem Whole.text_ne_nil {s : Segment} (h : s.Whole) : s.text ≠ [] := by
  cases s with
  | literal s => exact h.1
  | placeholder name => exact List.cons_ne_nil _ _

/-- A whole segment has no slash. -/
theorem Whole.not_mem_text {s : Segment} (h : s.Whole) : uriPathChar ∉ s.text := by
  cases s with
  | literal s => exact fun hmem => (h.2 _ hmem).1 rfl
  | placeholder name =>
      intro hmem
      have hname : uriPathChar ∉ name := h
      simp [text, hname, uriPathChar] at hmem

/-- A whole segment is a placeholder when its text is that of one. -/
theorem Whole.eq_placeholder {s : Segment} (h : s.Whole) {name : Str}
    (htext : s.text = (placeholder name).text) : s = placeholder name := by
  cases s with
  | literal s =>
      have hbrace : '\x7b' ∈ s := by
        rw [text] at htext
        exact htext ▸ List.mem_cons_self
      exact absurd rfl (h.2 _ hbrace).2.1
  | placeholder m => exact congrArg placeholder (List.append_cancel_right (List.cons.inj htext).2)

/-- Filling in plain texts keeps a segment plain. -/
theorem Plain.fillAll {s : Segment} (h : s.Plain) {values : List (Str × Str)}
    (hvalues : ∀ p ∈ values, (literal p.2).Plain) : (s.fillAll values).Plain := by
  cases s with
  | literal s => exact h
  | placeholder m =>
      rw [Segment.fillAll]
      cases hvalue : values.lookup m with
      | none => exact h
      | some value =>
          obtain ⟨init, rest, hmem, -⟩ := List.lookup_eq_some_iff.mp hvalue
          have hp : (m, value) ∈ values := hmem ▸ List.mem_append_right _ List.mem_cons_self
          exact hvalues _ hp

/-- A plain name has no brace. -/
theorem Plain.not_mem_name {name : Str} (h : (placeholder name).Plain) :
    '\x7b' ∉ name ∧ '\x7d' ∉ name :=
  ⟨fun hmem => (h _ hmem).2.1 rfl, fun hmem => (h _ hmem).2.2 rfl⟩

/-- Placeholders of different names do not start with each other. -/
theorem not_prefix_placeholder {name m : Str} (hname : (placeholder name).Plain)
    (hm : (placeholder m).Plain) (hne : m ≠ name) (rest : Str) :
    ¬ (placeholder name).text <+: (placeholder m).text ++ rest := by
  rintro ⟨t, ht⟩
  rw [text, text, List.cons_append, List.cons_append, List.cons_append, List.cons_append,
    List.append_assoc, List.append_assoc] at ht
  exact hne (append_cons_inj hname.not_mem_name.2 hm.not_mem_name.2 (List.cons.inj ht).2).1.symm

/-- Replacing a placeholder fills in the segment in front. -/
theorem replaceAll_text_append {name value : Str} {s : Segment} (hname : (placeholder name).Plain)
    (hs : s.Plain) (hescape : '\\' ∉ value) (hreference : '$' ∉ value) (rest : Str) :
    replaceAll (placeholder name).text value (s.text ++ rest) =
      (replaceAll (placeholder name).text value rest).map ((s.fill name value).text ++ ·) := by
  cases s with
  | literal s => exact replaceAll_append (fun hmem => (hs.2 _ hmem).2.1 rfl) rest
  | placeholder m =>
      -- the placeholder itself, or one of another name, which is left alone
      by_cases hm : m = name
      · subst hm
        rw [fill, if_pos rfl]
        refine (replaceAll_self_append rest).trans ?_
        rw [expandReplacement_eq_self _ _ hescape hreference rfl]
        rfl
      · have htail : '\x7b' ∉ m ++ ['\x7d'] := by simp [hs.not_mem_name.1]
        rw [fill, if_neg hm]
        have hrest : replaceAll (placeholder name).text value (m ++ ['\x7d'] ++ rest) =
            (replaceAll (placeholder name).text value rest).map (m ++ ['\x7d'] ++ ·) :=
          replaceAll_append htail rest
        refine (replaceAll_cons (not_prefix_placeholder hname hs hm rest)).trans ?_
        refine (congrArg (Option.map ('\x7b' :: ·)) hrest).trans ?_
        rw [Option.map_map]
        rfl

end Segment

/-! ## The text of segments -/

/-- Segments with a slash between them, and at either end if there is one. -/
def slashed (leadingSlash trailingSlash : Bool) (segments : List Str) : Str :=
  (if leadingSlash then rooted uriPathChar segments else (rooted uriPathChar segments).tail) ++
    if trailingSlash then [uriPathChar] else []

section Slashed

variable {leadingSlash trailingSlash : Bool} {segments : List Str}

variable (hsep : ∀ s ∈ segments, uriPathChar ∉ s) (hne : ∀ s ∈ segments, s ≠ [])
  (hnil : segments ≠ [])

include hsep hne hnil

/-- The text of segments without the slash in front is not empty and does not end in a slash. -/
theorem tail_rooted_ne_nil : (rooted uriPathChar segments).tail ≠ [] ∧
    (rooted uriPathChar segments).tail.getLast? ≠ some uriPathChar := by
  obtain ⟨s, rest, rfl⟩ := List.exists_cons_of_ne_nil hnil
  obtain ⟨c, s, rfl⟩ := List.exists_cons_of_ne_nil (hne s List.mem_cons_self)
  have hlast := getLast?_rooted_ne hsep hne
  rw [rooted_cons, List.cons_append, List.cons_append, List.getLast?_cons_cons] at hlast
  exact ⟨List.cons_ne_nil _ _, hlast⟩

/-- The text before the slash at the end, if there is one. -/
theorem slashed_false_spec (leading : Bool) : slashed leading false segments ≠ [] ∧
    (slashed leading false segments).getLast? ≠ some uriPathChar ∧
    normalized (slashed leading false segments) = rooted uriPathChar segments ∧
    split uriPathChar (slashed leading false segments) =
      if leading then [] :: segments else segments := by
  cases leading with
  | true =>
      have htext : slashed true false segments = rooted uriPathChar segments := List.append_nil _
      obtain ⟨s, rest, rfl⟩ := List.exists_cons_of_ne_nil hnil
      rw [htext]
      exact ⟨List.cons_ne_nil _ _, getLast?_rooted_ne hsep hne, normalized_rooted hsep hne,
        split_rooted hsep hne⟩
  | false =>
      have htext : slashed false false segments = (rooted uriPathChar segments).tail :=
        List.append_nil _
      obtain ⟨htail, hlast⟩ := tail_rooted_ne_nil hsep hne hnil
      rw [htext]
      exact ⟨htail, hlast, normalized_tail_rooted hsep hne, split_tail_rooted hsep hne hnil⟩

/-- **Normalizing** gives every segment a slash in front. -/
theorem normalized_slashed :
    normalized (slashed leadingSlash trailingSlash segments) = rooted uriPathChar segments := by
  obtain ⟨htext, hlast, hnormalized, -⟩ := slashed_false_spec hsep hne hnil leadingSlash
  cases trailingSlash with
  | false => exact hnormalized
  | true =>
      have hconcat : slashed leadingSlash true segments =
        slashed leadingSlash false segments ++ [uriPathChar] := by simp [slashed]
      rw [hconcat, normalized_concat htext hlast, hnormalized]

/-- **Splitting** gives the segments, after an empty string if there is a slash in front. -/
theorem split_slashed : split uriPathChar (slashed leadingSlash trailingSlash segments) =
    if leadingSlash then [] :: segments else segments := by
  obtain ⟨htext, -, -, hsplit⟩ := slashed_false_spec hsep hne hnil leadingSlash
  cases trailingSlash with
  | false => exact hsplit
  | true =>
      have hconcat : slashed leadingSlash true segments =
        slashed leadingSlash false segments ++ [uriPathChar] := by simp [slashed]
      rw [hconcat, split_concat htext, hsplit]

end Slashed

/-- The segments in the parts of a text; a slash in front counts. -/
theorem getElem?_parts {leadingSlash : Bool} {segments : List Str} {i : Nat} {s : Str} (hs : s ≠ [])
    (h : (if leadingSlash then [] :: segments else segments)[i]? = some s) :
    ∃ j, segments[j]? = some s ∧ i = j + if leadingSlash then 1 else 0 := by
  cases leadingSlash with
  | false => exact ⟨i, h, rfl⟩
  | true =>
      cases i with
      | zero => exact absurd (Option.some.inj h).symm hs
      | succ j => exact ⟨j, h, rfl⟩

/-- A template: what the `Path` of a method is made of. -/
structure Template where
  leadingSlash : Bool
  trailingSlash : Bool
  segments : List Segment
  segments_ne_nil : segments ≠ []

namespace Template

/-- The text of a template in which some placeholders have been replaced. -/
def textWith (values : List (Str × Str)) (t : Template) : Str :=
  slashed t.leadingSlash t.trailingSlash ((t.segments.map (Segment.fillAll values)).map Segment.text)

/-- The text of a template. -/
def text (t : Template) : Str := t.textWith []

/-- The segments of a template, if there is one. -/
def segmentsOf (template : Option Template) : List Segment := (template.map segments).getD []

end Template

/-- Plain segments are whole. -/
theorem forall_whole {segments : List Segment} (h : ∀ s ∈ segments, s.Plain) :
    ∀ s ∈ segments, s.Whole := fun s hs => (h s hs).whole

/-- The texts of whole segments have no slash. -/
theorem forall_text_not_mem {segments : List Segment} (h : ∀ s ∈ segments, s.Whole) :
    ∀ t ∈ segments.map Segment.text, uriPathChar ∉ t :=
  List.forall_mem_map.mpr fun s hs => (h s hs).not_mem_text

/-- The texts of whole segments are not empty. -/
theorem forall_text_ne_nil {segments : List Segment} (h : ∀ s ∈ segments, s.Whole) :
    ∀ t ∈ segments.map Segment.text, t ≠ [] :=
  List.forall_mem_map.mpr fun s hs => (h s hs).text_ne_nil

/-! ## Filling in -/

section Fill

variable {name value : Str} {segments : List Segment}

/-- Replacing a placeholder fills in the segments in front. -/
theorem replaceAll_rooted_append (segments : List Segment)
    (hname : (Segment.placeholder name).Plain) (hsegments : ∀ s ∈ segments, s.Plain)
    (hescape : '\\' ∉ value) (hreference : '$' ∉ value) (rest : Str) :
    replaceAll (Segment.placeholder name).text value
        (rooted uriPathChar (segments.map Segment.text) ++ rest) =
      (replaceAll (Segment.placeholder name).text value rest).map
        (rooted uriPathChar ((segments.map (Segment.fill name value)).map Segment.text) ++ ·) := by
  induction segments with
  | nil => simp
  | cons s segments ih =>
      -- neither the slash nor the segment in front can start an occurrence that ends later
      have hslash : '\x7b' ∉ [uriPathChar] := by decide
      have hfirst : ∀ t, replaceAll (Segment.placeholder name).text value ([uriPathChar] ++ t) =
          (replaceAll (Segment.placeholder name).text value t).map ([uriPathChar] ++ ·) :=
        replaceAll_append hslash
      have ih := ih fun s hs => hsegments s (List.mem_cons_of_mem _ hs)
      have hs := Segment.replaceAll_text_append hname (hsegments s List.mem_cons_self) hescape
        hreference (rooted uriPathChar (segments.map Segment.text) ++ rest)
      rw [ih, Option.map_map] at hs
      rw [List.map_cons, rooted_cons, List.append_assoc, List.cons_append,
        ← List.singleton_append, hfirst, hs, Option.map_map]
      simp [Function.comp_def]

/-- **Replacing a placeholder in the text** fills it in the segments. -/
theorem replaceAll_slashed (leadingSlash trailingSlash : Bool)
    (hname : (Segment.placeholder name).Plain) (hsegments : ∀ s ∈ segments, s.Plain)
    (hescape : '\\' ∉ value) (hreference : '$' ∉ value) :
    replaceAll (Segment.placeholder name).text value
        (slashed leadingSlash trailingSlash (segments.map Segment.text)) =
      some (slashed leadingSlash trailingSlash
        ((segments.map (Segment.fill name value)).map Segment.text)) := by
  have hrest : replaceAll (Segment.placeholder name).text value
      (if trailingSlash then [uriPathChar] else []) =
        some (if trailingSlash then [uriPathChar] else []) :=
    replaceAll_of_not_mem (by cases trailingSlash <;> decide)
  have hrooted := fun segments (h : ∀ s ∈ segments, s.Plain) =>
    replaceAll_rooted_append segments hname h hescape hreference
      (if trailingSlash then [uriPathChar] else [])
  simp only [hrest, Option.map_some] at hrooted
  -- without the slash in front the first segment is not led by one
  cases leadingSlash with
  | true => exact hrooted segments hsegments
  | false =>
      cases segments with
      | nil => simpa [slashed] using hrest
      | cons s segments =>
          have hs := Segment.replaceAll_text_append hname (hsegments s List.mem_cons_self) hescape
            hreference (rooted uriPathChar (segments.map Segment.text) ++
              if trailingSlash then [uriPathChar] else [])
          rw [hrooted segments fun s hs => hsegments s (List.mem_cons_of_mem _ hs),
            Option.map_some] at hs
          simpa [slashed] using hs

/-- Replacing one more placeholder of a template. -/
theorem Template.replaceAll_textWith {t : Template} {values : List (Str × Str)}
    (hname : (Segment.placeholder name).Plain) (hsegments : ∀ s ∈ t.segments, s.Plain)
    (hvalues : ∀ v ∈ values, (Segment.literal v.2).Plain)
    (hescape : '\\' ∉ value) (hreference : '$' ∉ value) :
    replaceAll (Segment.placeholder name).text value (t.textWith values) =
      some (t.textWith (values ++ [(name, value)])) := by
  have hfilled : ∀ s ∈ t.segments.map (Segment.fillAll values), s.Plain :=
    List.forall_mem_map.mpr fun s hs => (hsegments s hs).fillAll hvalues
  have hfill : (t.segments.map (Segment.fillAll values)).map (Segment.fill name value) =
      t.segments.map (Segment.fillAll (values ++ [(name, value)])) := by
    rw [List.map_map]
    exact List.map_congr_left fun s _ => Segment.fill_fillAll values name value s
  rw [textWith, replaceAll_slashed _ _ hname hfilled hescape hreference, hfill]
  rfl

end Fill

/-! ## The positions of placeholders -/

namespace MethodInfoBuilder

/-- A whole segment is read as a placeholder when it is one. -/
theorem isPlaceholder_text_iff {s : Segment} (hs : s.Whole) :
    isPlaceholder s.text ↔ ∃ name, s = .placeholder name := by
  constructor
  · intro h
    exact ⟨_, hs.eq_placeholder (isPlaceholder_and_name_iff.mp ⟨h, rfl⟩)⟩
  · rintro ⟨name, rfl⟩
    exact (isPlaceholder_and_name_iff.mpr rfl).1

/-- **The position found for a placeholder** is that of its last segment; a slash in front
counts. -/
theorem lookup_parsePathParams (leadingSlash trailingSlash : Bool) {segments : List Segment}
    {name : Str} (hsegments : ∀ s ∈ segments, s.Whole)
    (hname : Segment.placeholder name ∈ segments) :
    ∃ j, segments[j]? = some (.placeholder name) ∧
      (∀ k > j, segments[k]? ≠ some (.placeholder name)) ∧
      (parsePathParams (some (slashed leadingSlash trailingSlash
        (segments.map Segment.text)))).lookup name = some (j + if leadingSlash then 1 else 0) := by
  obtain ⟨j, hj, hlast⟩ := exists_last_index hname
  have hsplit : split uriPathChar (slashed leadingSlash trailingSlash
      (segments.map Segment.text)) = _ := split_slashed (forall_text_not_mem hsegments)
    (forall_text_ne_nil hsegments) (List.ne_nil_of_mem (List.mem_map_of_mem hname))
  refine ⟨j, hj, hlast, ?_⟩
  rw [lookup_parsePathParams_iff, hsplit]
  constructor
  · have htext : (segments.map Segment.text)[j]? = some (Segment.placeholder name).text := by
      rw [List.getElem?_map, hj, Option.map_some]
    cases leadingSlash with
    | false => exact htext
    | true => exact htext
  · intro k hk htext
    -- a later part of that text would be a later segment
    obtain ⟨i, hi, rfl⟩ := getElem?_parts (List.concat_ne_nil _ _) htext
    rw [List.getElem?_map, Option.map_eq_some_iff] at hi
    obtain ⟨s, hs, htext⟩ := hi
    have hs' := (hsegments s (List.mem_of_getElem? hs)).eq_placeholder htext
    exact hlast i (by omega) (hs' ▸ hs)

end MethodInfoBuilder

end XenonExt
