import XenonExt.Java.Replace
import XenonExt.JaxRs.ProxyHandler

/-! # Placeholders on both sides

The client looks for the text of a placeholder anywhere in a template. The server takes the template
apart at its slashes, and looks for parts that are placeholders.

* **`lookup_parsePathParams_iff`**: the server keeps the last part that is the placeholder.
* **`fills_iff_occurs`**: the client fills in a placeholder exactly when it occurs.
* **`fills_iff_bound_iff`**: the two agree exactly when a placeholder that occurs is a whole part. -/

namespace XenonExt

/-! ## The server -/

/-- The last position of a value in a list, found by its index. -/
theorem getLast?_filter_zipIdx {α : Type} [DecidableEq α] (l : List α) (a : α) (i : Nat) :
    ((l.zipIdx.filter fun p => p.1 = a).getLast?.map Prod.snd = some i) ↔
      l[i]? = some a ∧ ∀ k > i, l[k]? ≠ some a := by
  induction l using List.reverseRecOn with
  | nil => simp
  | append_singleton l b ih =>
      rw [List.zipIdx_append, List.filter_append]
      by_cases hb : b = a
      · -- the value at the end is the last one
        subst hb
        have hend : (l ++ [b])[l.length]? = some b := List.getElem?_concat_length
        simp only [Nat.zero_add, List.zipIdx_singleton, decide_true, List.filter_singleton,
          cond_true, List.getLast?_concat, Option.map_some, Option.some.injEq]
        constructor
        · rintro rfl
          refine ⟨hend, fun k hk => ?_⟩
          rw [List.getElem?_eq_none (by simp; omega)]
          exact (Option.some_ne_none b).symm
        · rintro ⟨hi, hlast⟩
          by_contra hne
          have hlt : i < (l ++ [b]).length := (List.getElem?_eq_some_iff.mp hi).1
          rw [List.length_append, List.length_singleton] at hlt
          exact hlast l.length (by omega) hend
      · have hpart : ∀ k : Nat, (l ++ [b])[k]? = some a ↔ l[k]? = some a := by
          intro k
          rcases Nat.lt_trichotomy k l.length with hk | rfl | hk
          · rw [List.getElem?_append_left hk]
          · simp [hb]
          · rw [List.getElem?_eq_none (by simp; omega), List.getElem?_eq_none (by omega)]
        simp only [Nat.zero_add, List.zipIdx_singleton, hb, decide_false, List.filter_singleton,
          cond_false, List.append_nil, ih, hpart, ne_eq]

/-- Every value of a list has a last position. -/
theorem exists_last_index {α : Type} [DecidableEq α] {l : List α} {a : α} (ha : a ∈ l) :
    ∃ i : Nat, l[i]? = some a ∧ ∀ k > i, l[k]? ≠ some a := by
  cases hlast : (l.zipIdx.filter fun p => p.1 = a).getLast? with
  | none =>
      obtain ⟨i, hi⟩ := List.mem_iff_getElem?.mp ha
      have hmem : (a, i) ∈ l.zipIdx := List.mem_zipIdx_iff_getElem?.mpr hi
      have hdropped := List.filter_eq_nil_iff.mp (List.getLast?_eq_none_iff.mp hlast) _ hmem
      exact absurd (decide_eq_true rfl) hdropped
  | some p => exact ⟨p.2, (getLast?_filter_zipIdx l a p.2).mp (by rw [hlast]; rfl)⟩

namespace MethodInfoBuilder

/-- A token is read as the placeholder of a name when it is its text. -/
theorem isPlaceholder_and_name_iff {token name : Str} :
    isPlaceholder token ∧ token.tail.dropLast = name ↔ token = '\x7b' :: name ++ ['\x7d'] := by
  constructor
  · rintro ⟨⟨-, hhead, hlast⟩, rfl⟩
    cases token with
    | nil => exact nomatch hhead
    | cons c token =>
        obtain rfl := Option.some.inj hhead
        -- the brace at the end is not the one in front
        cases token with
        | nil => exact absurd (Option.some.inj hlast) (by decide)
        | cons d rest =>
            rw [List.getLast?_cons_cons] at hlast
            rw [List.tail_cons, List.cons_append, List.dropLast_append_getLast? _ hlast]
  · rintro rfl
    exact ⟨⟨Nat.succ_pos _, rfl, List.getLast?_concat⟩, List.dropLast_concat⟩

/-- The last placeholder of a name is the one whose position is kept. -/
theorem lookup_foldl_insert (tokens : List (Str × Nat)) (pathParams : AList fun _ : Str => Nat)
    (name : Str) :
    (tokens.foldl (fun pathParams token =>
        if isPlaceholder token.1 then pathParams.insert token.1.tail.dropLast token.2
        else pathParams) pathParams).lookup name =
      ((tokens.filter fun token =>
        isPlaceholder token.1 ∧ token.1.tail.dropLast = name).getLast?.map Prod.snd).or
        (pathParams.lookup name) := by
  induction tokens generalizing pathParams with
  | nil => rfl
  | cons token tokens ih =>
      rw [List.foldl_cons, ih, List.filter_cons]
      by_cases hplaceholder : isPlaceholder token.1
      · rw [if_pos hplaceholder]
        by_cases hname : token.1.tail.dropLast = name
        · -- this position stands unless a later token has the name
          subst hname
          rw [if_pos (by simpa using hplaceholder), AList.lookup_insert, List.getLast?_cons]
          cases (tokens.filter _).getLast? <;> rfl
        · rw [if_neg (by simp [hname]), AList.lookup_insert_ne (Ne.symm hname)]
      · rw [if_neg hplaceholder, if_neg (by simp [hplaceholder])]

/-- **The position kept for a name** is that of the last part that is its placeholder. -/
theorem lookup_parsePathParams_iff (uri name : Str) (i : Nat) :
    (parsePathParams (some uri)).lookup name = some i ↔
      (split uriPathChar uri)[i]? = some ('\x7b' :: name ++ ['\x7d']) ∧
        ∀ k > i, (split uriPathChar uri)[k]? ≠ some ('\x7b' :: name ++ ['\x7d']) := by
  rw [parsePathParams]
  split
  · rw [lookup_foldl_insert, AList.lookup_empty, Option.or_none, ← getLast?_filter_zipIdx]
    simp only [isPlaceholder_and_name_iff]
  · rename_i hbraces
    -- without a brace in the text no part is a placeholder
    rw [AList.lookup_empty]
    refine iff_of_false (Option.some_ne_none i).symm fun h => hbraces ?_
    have hmem := List.mem_of_getElem? h.1
    rw [mem_split_iff (List.concat_ne_nil _ _)] at hmem
    have hoccurs := (infix_of_mem_splitOn hmem).subset
    exact ⟨hoccurs List.mem_cons_self, hoccurs List.mem_concat_self⟩

/-- **A name is bound** when its placeholder is one of the parts. -/
theorem lookup_parsePathParams_isSome (uri name : Str) :
    ((parsePathParams (some uri)).lookup name).isSome ↔
      '\x7b' :: name ++ ['\x7d'] ∈ uri.splitOn uriPathChar := by
  rw [← mem_split_iff (List.concat_ne_nil _ _), Option.isSome_iff_exists]
  constructor
  · rintro ⟨i, hi⟩
    exact List.mem_of_getElem? ((lookup_parsePathParams_iff uri name i).mp hi).1
  · intro hmem
    obtain ⟨i, hi⟩ := exists_last_index hmem
    exact ⟨i, (lookup_parsePathParams_iff uri name i).mpr hi⟩

end MethodInfoBuilder

/-! ## The client -/

namespace ProxyHandler

/-- The replacement that `buildOperation` makes for a parameter of this name changes the template,
for some value. -/
def Fills (uri name : Str) : Prop :=
  ∃ value filled, replaceAll (placeholder (some name)) value uri = some filled ∧ filled ≠ uri

/-- **The client fills in a placeholder** exactly when it occurs. -/
theorem fills_iff_occurs (uri name : Str) :
    Fills uri name ↔ placeholder (some name) <:+: uri := by
  constructor
  · rintro ⟨value, filled, hfilled, hne⟩
    by_contra hoccurs
    rw [replaceAll_of_not_occurs hoccurs] at hfilled
    exact hne (Option.some.inj hfilled).symm
  · intro hoccurs
    -- an empty value makes the text shorter
    obtain ⟨filled, hfilled, -, hshorter⟩ := replaceFrom_nil_length '\x7b' (name ++ ['\x7d']) 0 uri
    refine ⟨[], filled, hfilled, fun heq => ?_⟩
    have hlt := hshorter rfl hoccurs
    rw [heq] at hlt
    exact Nat.lt_irrefl _ hlt

/-- **Client and server read the same placeholders** of a template if and only if a placeholder that
occurs is one of the parts between the slashes. -/
theorem fills_iff_bound_iff (uri name : Str) :
    (Fills uri name ↔ ((MethodInfoBuilder.parsePathParams (some uri)).lookup name).isSome) ↔
      (placeholder (some name) <:+: uri → placeholder (some name) ∈ uri.splitOn uriPathChar) := by
  rw [fills_iff_occurs, MethodInfoBuilder.lookup_parsePathParams_isSome]
  exact ⟨fun h => h.mp, fun h => ⟨h, infix_of_mem_splitOn⟩⟩

/-- **A placeholder next to literal text** is filled in by the client and not bound by the
server. -/
theorem not_fills_iff_bound_suffix :
    ¬ (Fills "/a{x}".toList "x".toList ↔
      ((MethodInfoBuilder.parsePathParams (some "/a{x}".toList)).lookup "x".toList).isSome) := by
  have hfills : Fills "/a{x}".toList "x".toList := ⟨"1".toList, "/a1".toList, by decide, by decide⟩
  have hbound : (MethodInfoBuilder.parsePathParams (some "/a{x}".toList)).lookup "x".toList = none := by
    decide
  intro h
  have hsome := h.mp hfills
  rw [hbound] at hsome
  exact nomatch hsome

end ProxyHandler

end XenonExt
