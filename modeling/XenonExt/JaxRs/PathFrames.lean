import XenonExt.JaxRs.UriUtils

/-! # Paths with holes

A path that is put together from stretches, some of which are left open. Whatever non-empty segment
is put into the open ones, the server sees the same segments around it.

* **`split_append_normalized`**: the segments of a path with another one added to it.
* **`split_filled`**: the segments of a path of parts, whatever stands in the holes.
* **`exists_frame`**: the segments of a path with holes are a list with as many holes. -/

namespace XenonExt

/-- The parts of a path that is added to another one: a slash in front separates the two. -/
def addedParts (path : Str) : List Str :=
  if path.head? = some uriPathChar then path.tail.splitOn uriPathChar
  else path.splitOn uriPathChar

/-- A path that has been normalized has the parts of the path, but for an empty one at the end. -/
theorem normalized_parts {path : Str} (hne : path ≠ []) : ∃ rest,
    normalized path = uriPathChar :: rest ∧
      (rest.splitOn uriPathChar = addedParts path ∨
        rest.splitOn uriPathChar ++ [[]] = addedParts path) := by
  have hconcat : ∀ s : Str, (s ++ [uriPathChar]).splitOn uriPathChar =
      s.splitOn uriPathChar ++ [[]] := fun s => List.splitOn_append_cons_self s []
  by_cases hlast : path.getLast? = some uriPathChar
  · obtain ⟨path, rfl⟩ := List.getLast?_eq_some_iff.mp hlast
    cases path with
    | nil => exact ⟨[], rfl, .inl rfl⟩
    | cons c path =>
        have hlast' : (c :: path ++ [uriPathChar]).getLast? = some uriPathChar := hlast
        by_cases hc : c = uriPathChar
        · subst hc
          refine ⟨path, ?_, .inr (hconcat path).symm⟩
          simp only [normalized, if_neg hne, if_pos hlast', List.dropLast_concat, List.head?_cons,
            if_true]
        · have hfront : ¬ some c = some uriPathChar := fun h => hc (Option.some.inj h)
          refine ⟨c :: path, ?_, .inr ?_⟩
          · simp only [normalized, if_neg hne, if_pos hlast', List.dropLast_concat, List.head?_cons,
              if_neg hfront]
          · rw [addedParts, List.cons_append, List.head?_cons, if_neg hfront, ← List.cons_append,
              hconcat]
  · obtain ⟨c, path, rfl⟩ := List.exists_cons_of_ne_nil hne
    rw [normalized_eq hne hlast]
    by_cases hc : c = uriPathChar
    · subst hc
      exact ⟨path, rfl, .inl rfl⟩
    · have hfront : ¬ some c = some uriPathChar := fun h => hc (Option.some.inj h)
      refine ⟨c :: path, ?_, .inl ?_⟩
      · rw [List.head?_cons, if_neg hfront]
      · rw [addedParts, List.head?_cons, if_neg hfront]

/-- **The segments of a path with another one added to it.** -/
theorem split_append_normalized (base : Str) {path : Str} (hne : path ≠ []) :
    split uriPathChar (base ++ normalized path) =
      (base.splitOn uriPathChar ++ addedParts path).rdropWhile List.isEmpty := by
  obtain ⟨rest, hrest, hparts⟩ := normalized_parts hne
  have hmem : uriPathChar ∈ base ++ uriPathChar :: rest :=
    List.mem_append_right _ List.mem_cons_self
  rw [hrest, split, if_pos hmem, List.splitOn_append_cons_self]
  rcases hparts with hparts | hparts
  · rw [hparts]
  · -- the empty part at the end is dropped
    rw [← hparts, ← List.append_assoc, List.rdropWhile_concat_pos _ _ _ List.isEmpty_nil]

/-- The parts of a text without the slash in front. -/
theorem splitOn_tail_rooted {parts : List Str} (hparts : ∀ s ∈ parts, uriPathChar ∉ s)
    (hne : parts ≠ []) : (rooted uriPathChar parts).tail.splitOn uriPathChar = parts := by
  obtain ⟨s, rest, rfl⟩ := List.exists_cons_of_ne_nil hne
  rw [rooted_cons, List.cons_append, List.tail_cons,
    splitOn_append_of_not_mem (hparts s List.mem_cons_self),
    splitOn_rooted fun s hs => hparts s (List.mem_cons_of_mem _ hs), List.modifyHead_cons,
    List.append_nil]

/-- What a text without the slash in front adds to a path: an empty part in front is the slash. -/
theorem addedParts_tail_rooted {parts : List Str} (hparts : ∀ s ∈ parts, uriPathChar ∉ s)
    (hne : parts ≠ []) (hne' : parts ≠ [[]]) :
    addedParts (rooted uriPathChar parts).tail =
      if parts.head? = some [] then parts.tail else parts := by
  have hsplit := splitOn_tail_rooted hparts hne
  obtain ⟨s, rest, rfl⟩ := List.exists_cons_of_ne_nil hne
  cases s with
  | nil =>
      have hrest : rest ≠ [] := fun h => hne' (h ▸ rfl)
      have hsplit' := splitOn_tail_rooted (fun s hs => hparts s (List.mem_cons_of_mem _ hs)) hrest
      obtain ⟨s', rest', rfl⟩ := List.exists_cons_of_ne_nil hrest
      rw [addedParts]
      exact hsplit'
  | cons c s =>
      have hc : c ≠ uriPathChar := fun h => hparts _ List.mem_cons_self (h ▸ List.mem_cons_self)
      have hfront : ¬ some c = some uriPathChar := fun h => hc (Option.some.inj h)
      have hhead : (rooted uriPathChar ((c :: s) :: rest)).tail.head? = some c := rfl
      rw [addedParts, hhead, if_neg hfront, hsplit, List.head?_cons, if_neg (by simp)]

/-! ## Holes -/

/-- A path of stretches, with a slash before each of them and a value in the open ones. -/
def filled (stretches : List (Option Str)) (value : Str) : Str :=
  rooted uriPathChar (stretches.map (·.getD value))

/-- The parts of stretches: a hole is one part. -/
def holedParts (stretches : List (Option Str)) : List (Option Str) :=
  stretches.flatMap fun stretch => match stretch with
    | none => [none]
    | some s => (s.splitOn uriPathChar).map some

section Holes

variable {stretches : List (Option Str)} {value : Str}

theorem filled_cons (stretch : Option Str) (stretches : List (Option Str)) (value : Str) :
    filled (stretch :: stretches) value =
      uriPathChar :: (stretch.getD value ++ filled stretches value) := rfl

theorem filled_append (stretches stretches' : List (Option Str)) (value : Str) :
    filled (stretches ++ stretches') value = filled stretches value ++ filled stretches' value := by
  rw [filled, List.map_append, rooted_append]
  rfl

theorem filled_holedParts (stretches : List (Option Str)) (value : Str) :
    filled (holedParts stretches) value = filled stretches value := by
  induction stretches with
  | nil => rfl
  | cons stretch stretches ih =>
      rw [holedParts] at ih
      rw [holedParts, List.flatMap_cons, filled_append, ih, filled_cons, filled]
      cases stretch with
      | none => simp
      | some s =>
          have hs : ((s.splitOn uriPathChar).map some).map (·.getD value) =
              s.splitOn uriPathChar := by
            rw [List.map_map]
            exact List.map_id _
          simp only [hs, rooted_splitOn, Option.getD_some, List.cons_append]

theorem count_none_map_some (parts : List Str) : (parts.map some).count none = 0 :=
  List.count_eq_zero.mpr (by simp)

theorem count_none_holedParts (stretches : List (Option Str)) :
    (holedParts stretches).count none = stretches.count none := by
  induction stretches with
  | nil => rfl
  | cons stretch stretches ih =>
      rw [holedParts] at ih
      rw [holedParts, List.flatMap_cons, List.count_append, ih]
      cases stretch with
      | none => rw [List.count_cons_self, List.count_cons_self, List.count_nil, Nat.add_comm]
      | some s =>
          rw [count_none_map_some, List.count_cons_of_ne (Option.some_ne_none s), Nat.zero_add]

theorem holedParts_not_mem {s : Str} (hs : some s ∈ holedParts stretches) : uriPathChar ∉ s := by
  obtain ⟨stretch, -, hstretch⟩ := List.mem_flatMap.mp hs
  cases stretch with
  | none => exact absurd (List.mem_singleton.mp hstretch) (Option.some_ne_none s)
  | some t =>
      obtain ⟨s', hs', heq⟩ := List.mem_map.mp hstretch
      exact Option.some.inj heq ▸ not_mem_of_mem_splitOn hs'

theorem holedParts_ne_nil (hne : stretches ≠ []) : holedParts stretches ≠ [] := by
  obtain ⟨stretch, rest, rfl⟩ := List.exists_cons_of_ne_nil hne
  rw [holedParts, List.flatMap_cons]
  refine List.append_ne_nil_of_left_ne_nil ?_ _
  cases stretch with
  | none => exact List.cons_ne_nil _ _
  | some s => simp [List.splitOn_ne_nil]

/-- Dropping elements at the end, before or after they are mapped. -/
theorem rdropWhile_map {α β : Type} (f : α → β) (p : β → Bool) (l : List α) :
    (l.map f).rdropWhile p = (l.rdropWhile (p ∘ f)).map f := by
  rw [List.rdropWhile, List.rdropWhile, ← List.map_reverse, List.dropWhile_map, List.map_reverse]

/-- Dropping elements at the end drops no others. -/
theorem count_rdropWhile {α : Type} [BEq α] [LawfulBEq α] {p : α → Bool} {a : α} (ha : p a = false)
    (l : List α) : (l.rdropWhile p).count a = l.count a := by
  have hdropped : (l.rtakeWhile p).count a = 0 := by
    refine List.count_eq_zero.mpr fun hmem => ?_
    rw [List.mem_rtakeWhile_imp hmem] at ha
    exact Bool.noConfusion ha
  rw [← List.rdropWhile_append_rtakeWhile (p := p) (l := l), List.count_append]
  simp only [List.rdropWhile_append_rtakeWhile, hdropped, Nat.add_zero]

/-- The segments of a base path and of parts, some of which are holes: an empty part in front is a
slash, and the empty ones at the end are dropped. -/
def frameOf (base : Str) (parts : List (Option Str)) : List (Option Str) :=
  (((normalized base).splitOn uriPathChar).map some ++
    if parts.head? = some (some []) then parts.tail else parts).rdropWhile (· = some [])

theorem count_none_frameOf (base : Str) (parts : List (Option Str)) :
    (frameOf base parts).count none = parts.count none := by
  rw [frameOf, count_rdropWhile (by simp), List.count_append, count_none_map_some, Nat.zero_add]
  split
  · rename_i hhead
    obtain ⟨rest, rfl⟩ := List.head?_eq_some_iff.mp hhead
    rw [List.tail_cons, List.count_cons_of_ne (Option.some_ne_none _)]
  · rfl

/-- A part is empty in the path exactly when it is an empty text. -/
theorem isEmpty_getD (hvalue : value ≠ []) (part : Option Str) :
    (part.getD value).isEmpty = decide (part = some []) := by
  cases part with
  | none => simpa using hvalue
  | some s => cases s <;> simp

theorem map_getD_ne (hvalue : value ≠ []) {parts : List (Option Str)} (hne : parts ≠ [some []]) :
    parts.map (·.getD value) ≠ [[]] := by
  intro h
  obtain ⟨part, rfl, hpart⟩ := List.map_eq_singleton_iff.mp h
  have hempty := isEmpty_getD hvalue part
  rw [hpart] at hempty
  exact hne (congrArg (fun p => [p]) (of_decide_eq_true hempty.symm))

theorem head?_map_getD (hvalue : value ≠ []) (parts : List (Option Str)) :
    (parts.map (·.getD value)).head? = some [] ↔ parts.head? = some (some []) := by
  cases parts with
  | nil => simp
  | cons part parts =>
      rw [List.map_cons, List.head?_cons, List.head?_cons, Option.some_inj, Option.some_inj,
        ← List.isEmpty_iff, isEmpty_getD hvalue, decide_eq_true_eq]

/-- **The segments of a path of parts**, whatever stands in the holes. -/
theorem split_filled (base : Str) {parts : List (Option Str)}
    (hsep : ∀ s, some s ∈ parts → uriPathChar ∉ s) (hne : parts ≠ []) (hne' : parts ≠ [some []])
    (hvalue : value ≠ []) (hslash : uriPathChar ∉ value) :
    split uriPathChar (normalized base ++ normalized (filled parts value).tail) =
      (frameOf base parts).map (·.getD value) := by
  have hsep' : ∀ s ∈ parts.map (·.getD value), uriPathChar ∉ s := by
    refine List.forall_mem_map.mpr fun part hpart => ?_
    cases part with
    | none => exact hslash
    | some s => exact hsep s hpart
  have hparts : parts.map (·.getD value) ≠ [] := by simpa using hne
  have hparts' := map_getD_ne hvalue hne'
  have htext : (rooted uriPathChar (parts.map (·.getD value))).tail ≠ [] := by
    intro h
    have hsplit := splitOn_tail_rooted hsep' hparts
    rw [h] at hsplit
    exact hparts' hsplit.symm
  have hempty : List.isEmpty ∘ (fun part : Option Str => part.getD value) =
      fun part => decide (part = some []) := funext (isEmpty_getD hvalue)
  rw [filled, split_append_normalized _ htext, addedParts_tail_rooted hsep' hparts hparts', frameOf,
    ← hempty, ← rdropWhile_map, List.map_append, List.map_map]
  simp only [head?_map_getD hvalue]
  refine congrArg (List.rdropWhile List.isEmpty) (congrArg₂ (· ++ ·) (List.map_id _).symm ?_)
  split
  · exact List.map_tail.symm
  · rfl

/-- **The segments of a path with holes** are a list with as many holes: whatever segment is put
into the holes of the path stands in the holes of the list, and nothing else in the list depends on
it. -/
theorem exists_frame (base : Str) (hne : stretches ≠ []) : ∃ frame : List (Option Str),
    frame.count none = stretches.count none ∧
      ∀ value : Str, value ≠ [] → uriPathChar ∉ value →
        split uriPathChar (normalized base ++ normalized (filled stretches value).tail) =
          frame.map (·.getD value) := by
  by_cases hempty : holedParts stretches = [some []]
  · -- nothing is added to the path
    refine ⟨(split uriPathChar (normalized base)).map some, ?_, fun value _ _ => ?_⟩
    · rw [count_none_map_some, ← count_none_holedParts stretches, hempty]
      rfl
    · rw [← filled_holedParts, hempty, List.map_map]
      exact (congrArg (split uriPathChar) (List.append_nil _)).trans (List.map_id _).symm
  · refine ⟨frameOf base (holedParts stretches), ?_, fun value hvalue hslash => ?_⟩
    · rw [count_none_frameOf, count_none_holedParts]
    · rw [← filled_holedParts]
      exact split_filled base (fun _ hs => holedParts_not_mem hs) (holedParts_ne_nil hne) hempty
        hvalue hslash

end Holes

end XenonExt
