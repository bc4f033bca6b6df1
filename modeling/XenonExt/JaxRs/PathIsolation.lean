import XenonExt.Effects.RelatedLists
import XenonExt.JaxRs.DynamicRoutes
import XenonExt.JaxRs.PathFrames
import XenonExt.JaxRs.PathSubstitution

/-! # What an argument for the path can change

The client pastes an argument into the path as it is, and the server takes the path apart at its
slashes. A call is compared with the loop that leaves one argument open: the path it makes is the
open one with the argument in its place, so that two calls differ there only.

* **`replaceAll_filled`**: replacing goes stretch by stretch, from slash to slash.
* **`collectOpen`**, **`foldlM_collect_holds`**: the loop with the argument left open, and that every
  call follows it.
* **`Isolated`**: the server sees the same segments around the argument, and the same query.
* **`buildOperation_isolated`**: an argument that is one segment is isolated. -/

namespace XenonExt

variable {O : Type}

/-! ## Replacing in a path with holes -/

section Holes

variable {target replacement value value' : Str} {stretches : List (Option Str)}

/-- What does not have a slash is not found before one. -/
theorem replaceAll_slash (hslash : uriPathChar ∉ target) (hne : target ≠ []) (path : Str) :
    replaceAll target replacement (uriPathChar :: path) =
      (replaceAll target replacement path).map (uriPathChar :: ·) :=
  replaceAll_cons (not_prefix_cons hslash hne path)

theorem replaceAll_append_filled (hslash : uriPathChar ∉ target) (hne : target ≠ []) (s : Str) :
    replaceAll target replacement (s ++ filled stretches value) =
      (replaceAll target replacement s).bind fun a =>
        (replaceAll target replacement (filled stretches value)).map (a ++ ·) := by
  cases stretches with
  | nil => simp [filled]
  | cons stretch stretches =>
      rw [filled_cons, replaceAll_append_cons hslash hne, replaceAll_slash hslash hne]
      simp only [Option.map_map, Function.comp_def]

/-- **Replacing goes stretch by stretch**, when the target has no slash. -/
theorem replaceAll_filled (hslash : uriPathChar ∉ target) (hne : target ≠ [])
    {f : Option Str → Option (Option Str)}
    (hf : ∀ stretch ∈ stretches, replaceAll target replacement (stretch.getD value) =
      (f stretch).map (·.getD value')) :
    replaceAll target replacement (filled stretches value) =
      (stretches.mapM f).map (filled · value') := by
  induction stretches with
  | nil => rfl
  | cons stretch stretches ih =>
      have ih := ih fun stretch hstretch => hf stretch (List.mem_cons_of_mem _ hstretch)
      rw [filled_cons, replaceAll_slash hslash hne, replaceAll_append_filled hslash hne, ih,
        hf stretch List.mem_cons_self, List.mapM_cons]
      cases f stretch with
      | none => rfl
      | some after => cases stretches.mapM f <;> rfl

/-- Replace in a stretch that is not open. -/
def replaceIn (target replacement : Str) : Option Str → Option (Option Str)
  | some s => (replaceAll target replacement s).map some
  | none => some none

/-- What stands in the open stretches is left alone when the target does not occur in it. -/
theorem replaceAll_getD (hvalue : none ∈ stretches → ¬ target <:+: value) :
    ∀ stretch ∈ stretches, replaceAll target replacement (stretch.getD value) =
      (replaceIn target replacement stretch).map (·.getD value) := by
  intro stretch hstretch
  cases stretch with
  | none => exact replaceAll_of_not_occurs (hvalue hstretch)
  | some s =>
      rw [replaceIn, Option.map_map]
      exact Option.map_id_apply.symm

/-- The open stretches stay open. -/
theorem count_none_of_replaceIn {after : List (Option Str)}
    (h : stretches.mapM (replaceIn target replacement) = some after) :
    after.count none = stretches.count none := by
  induction stretches generalizing after with
  | nil =>
      obtain rfl := Option.some.inj h
      rfl
  | cons stretch stretches ih =>
      rw [List.mapM_cons] at h
      obtain ⟨first, hfirst, h⟩ := Option.bind_eq_some_iff.mp h
      obtain ⟨rest, hrest, h⟩ := Option.bind_eq_some_iff.mp h
      obtain rfl := Option.some.inj h
      cases stretch with
      | none =>
          obtain rfl := Option.some.inj hfirst
          rw [List.count_cons_self, List.count_cons_self, ih hrest]
      | some s =>
          obtain ⟨a, -, rfl⟩ := Option.map_eq_some_iff.mp hfirst
          rw [List.count_cons_of_ne (Option.some_ne_none a),
            List.count_cons_of_ne (Option.some_ne_none s), ih hrest]

theorem occurrences_slash (hslash : uriPathChar ∉ target) (hne : target ≠ []) (path : Str) :
    occurrences target (uriPathChar :: path) = occurrences target path := by
  rw [occurrences_cons, if_neg (not_prefix_cons hslash hne path), Nat.zero_add]

/-- Occurrences are counted stretch by stretch. -/
theorem occurrences_filled_cons (hslash : uriPathChar ∉ target) (hne : target ≠ [])
    (stretch : Option Str) : occurrences target (filled (stretch :: stretches) value) =
      occurrences target (stretch.getD value) + occurrences target (filled stretches value) := by
  rw [filled_cons, occurrences_slash hslash hne]
  cases stretches with
  | nil => simp [filled, occurrences]
  | cons next stretches =>
      rw [filled_cons, occurrences_append_cons hslash hne, occurrences_slash hslash hne]

/-- A text stands in its own open stretches at least. -/
theorem count_none_le_occurrences (hslash : uriPathChar ∉ target) (hne : target ≠ []) :
    stretches.count none ≤ occurrences target (filled stretches target) := by
  induction stretches with
  | nil => exact Nat.le_refl 0
  | cons stretch stretches ih =>
      rw [occurrences_filled_cons hslash hne]
      cases stretch with
      | none =>
          have hself : occurrences target target ≠ 0 := fun hzero =>
            (occurrences_eq_zero_iff hne).mp hzero (List.infix_refl target)
          rw [List.count_cons_self, Option.getD_none]
          omega
      | some s =>
          rw [List.count_cons_of_ne (Option.some_ne_none s)]
          exact Nat.le_add_left_of_le ih

/-- **A text that occurs no more often than there are open stretches** stands in these only. -/
theorem not_occurs_of_occurrences_le (hslash : uriPathChar ∉ target) (hne : target ≠ [])
    (h : occurrences target (filled stretches target) ≤ stretches.count none) :
    ∀ s, some s ∈ stretches → ¬ target <:+: s := by
  induction stretches with
  | nil => exact fun s hs => absurd hs List.not_mem_nil
  | cons stretch stretches ih =>
      have hrest : stretches.count none ≤ occurrences target (filled stretches target) :=
        count_none_le_occurrences hslash hne
      rw [occurrences_filled_cons hslash hne] at h
      intro s hs
      cases stretch with
      | none =>
          have hself : occurrences target target ≠ 0 := fun hzero =>
            (occurrences_eq_zero_iff hne).mp hzero (List.infix_refl target)
          rw [List.count_cons_self, Option.getD_none] at h
          exact ih (by omega) s ((List.mem_cons.mp hs).resolve_left (Option.some_ne_none s))
      | some t =>
          rw [List.count_cons_of_ne (Option.some_ne_none t), Option.getD_some] at h
          rcases List.mem_cons.mp hs with heq | hs
          · obtain rfl := Option.some.inj heq
            exact (occurrences_eq_zero_iff hne).mp (by omega)
          · exact ih (by omega) s hs

end Holes

/-! ## One round -/

section Round

variable {name value path : Str} {stretches : List (Option Str)}

theorem not_mem_braced (hname : uriPathChar ∉ name) : uriPathChar ∉ braced name := by
  have hopens : uriPathChar ≠ '\x7b' := by decide
  have hcloses : uriPathChar ≠ '\x7d' := by decide
  simp [braced, hname, hopens, hcloses]

theorem not_occurs_of_braceless {s : Str} (hs : Braceless s) : ¬ braced name <:+: s :=
  fun h => hs.1 (h.subset List.mem_cons_self)

/-- **A round for another parameter** does the same to the path as to its stretches, whatever stands
in the open ones. -/
theorem replaceAll_other (w : Str) (hname : uriPathChar ∉ name)
    (hvalue : none ∈ stretches → ¬ braced name <:+: value)
    (hpath : uriPathChar :: path = filled stretches value) :
    Option.Rel (fun after path' => uriPathChar :: path' = filled after value)
      (stretches.mapM (replaceIn (braced name) w)) (replaceAll (braced name) w path) := by
  have hslash := not_mem_braced hname
  have hne := braced_ne_nil name
  have hall : (replaceAll (braced name) w path).map (uriPathChar :: ·) =
      (stretches.mapM (replaceIn (braced name) w)).map (filled · value) := by
    rw [← replaceAll_slash hslash hne, hpath]
    exact replaceAll_filled hslash hne (replaceAll_getD hvalue)
  cases hafter : stretches.mapM (replaceIn (braced name) w) with
  | none =>
      rw [hafter, Option.map_none, Option.map_eq_none_iff] at hall
      rw [hall]
      exact .none
  | some after =>
      rw [hafter, Option.map_some, Option.map_eq_some_iff] at hall
      obtain ⟨path', hpath', hfilled⟩ := hall
      rw [hpath']
      exact .some hfilled

/-- **The round of the parameter itself** fills the open stretches, when its placeholder stands in
these only. -/
theorem replaceAll_own (hname : uriPathChar ∉ name) (hvalue : '\\' ∉ value ∧ '$' ∉ value)
    (hpath : uriPathChar :: path = filled stretches (braced name))
    (hcount : occurrences (braced name) path ≤ stretches.count none) :
    ∃ path', replaceAll (braced name) value path = some path' ∧
      uriPathChar :: path' = filled stretches value := by
  have hslash := not_mem_braced hname
  have hne := braced_ne_nil name
  have hothers : ∀ s, some s ∈ stretches → ¬ braced name <:+: s := by
    refine not_occurs_of_occurrences_le hslash hne ?_
    rwa [← hpath, occurrences_slash hslash hne]
  have hf : ∀ stretch ∈ stretches, replaceAll (braced name) value (stretch.getD (braced name)) =
      (some stretch).map (·.getD value) := by
    intro stretch hstretch
    cases stretch with
    | none =>
        have hself : replaceAll (braced name) value (braced name ++ []) =
            (expandReplacement (braced name) false value).bind fun r =>
              (replaceAll (braced name) value []).map (r ++ ·) := replaceAll_self_append []
        rw [List.append_nil, expandReplacement_eq_self _ _ hvalue.1 hvalue.2 rfl] at hself
        simp [hself]
    | some s => exact replaceAll_of_not_occurs (hothers s hstretch)
  have hsome : stretches.mapM some = some stretches :=
    List.mapM_pure.trans (congrArg some (List.map_id stretches))
  have hall := replaceAll_filled hslash hne hf
  rwa [hsome, ← hpath, replaceAll_slash hslash hne, Option.map_some, Option.map_eq_some_iff] at hall

end Round

/-! ## The template -/

/-- The only placeholders of the template are whole parts of it. -/
def WholePlaceholders (template : Str) : Prop :=
  ∀ part ∈ template.splitOn uriPathChar, Braceless part ∨ ∃ m, Braceless m ∧ part = braced m

instance (template : Str) : Decidable (WholePlaceholders template) := by
  refine decidable_of_iff (∀ part ∈ template.splitOn uriPathChar, Braceless part ∨
    Braceless part.tail.dropLast ∧ part = braced part.tail.dropLast) ?_
  refine forall₂_congr fun part _ => or_congr_right ⟨fun h => ⟨_, h⟩, ?_⟩
  rintro ⟨m, hm, rfl⟩
  have hname : (braced m).tail.dropLast = m := List.dropLast_concat
  rw [hname]
  exact ⟨hm, rfl⟩

section Template

variable {name template : Str}

/-- The placeholders of the template have names without braces. -/
theorem WholePlaceholders.braceless (h : WholePlaceholders template)
    (hpart : braced name ∈ template.splitOn uriPathChar) : Braceless name := by
  rcases h _ hpart with hbraceless | ⟨m, hm, heq⟩
  · exact absurd (List.infix_refl (braced name)) (not_occurs_of_braceless hbraceless)
  · have hname : name = m := eq_of_braced_occurs hm ⟨[], [], by simp [heq]⟩
    exact hname ▸ hm

/-- The parts of the template, open where the placeholder stands. -/
def stretchesOf (name template : Str) : List (Option Str) :=
  (template.splitOn uriPathChar).map fun part => if part = braced name then none else some part

theorem filled_stretchesOf (name template : Str) :
    filled (stretchesOf name template) (braced name) = uriPathChar :: template := by
  rw [filled, stretchesOf, List.map_map, ← rooted_splitOn template]
  refine congrArg (rooted uriPathChar) (Eq.trans ?_ (List.map_id _))
  refine List.map_congr_left fun part _ => ?_
  by_cases hpart : part = braced name <;> simp [hpart]

theorem count_none_stretchesOf (name template : Str) :
    (stretchesOf name template).count none =
      (template.splitOn uriPathChar).count (braced name) := by
  rw [stretchesOf, List.count_eq_countP, List.count_eq_countP, List.countP_map]
  refine List.countP_congr fun part _ => ?_
  by_cases hpart : part = braced name <;> simp [hpart]

/-- The placeholder occurs in the template where it is a part of it. -/
theorem occurrences_template_le (hname : uriPathChar ∉ name) (h : WholePlaceholders template) :
    occurrences (braced name) template ≤ (template.splitOn uriPathChar).count (braced name) := by
  have hslash := not_mem_braced hname
  have hne := braced_ne_nil name
  have hparts : ∀ parts : List Str, (∀ part ∈ parts, part ∈ template.splitOn uriPathChar) →
      occurrences (braced name) (filled (parts.map some) []) ≤ parts.count (braced name) := by
    intro parts hmem
    induction parts with
    | nil => exact Nat.le_refl 0
    | cons part parts ih =>
        have ih := ih fun part hpart => hmem part (List.mem_cons_of_mem _ hpart)
        have hpart := hmem part List.mem_cons_self
        rw [List.map_cons, occurrences_filled_cons hslash hne, Option.getD_some]
        by_cases heq : part = braced name
        · subst heq
          have hone := occurrences_append_braced (h.braceless hpart) [] []
          simp only [List.nil_append, List.append_nil, occurrences, Nat.zero_add,
            Nat.add_zero] at hone
          rw [hone, List.count_cons_self, Nat.add_comm]
          exact Nat.succ_le_succ ih
        · have hzero : ¬ braced name <:+: part := by
            rcases h part hpart with hbraceless | ⟨m, hm, rfl⟩
            · exact not_occurs_of_braceless hbraceless
            · exact fun hoccurs => heq (congrArg braced (eq_of_braced_occurs hm hoccurs)).symm
          rw [occurrences_of_not_occurs hzero, Nat.zero_add, List.count_cons_of_ne heq]
          exact ih
  have htext : filled ((template.splitOn uriPathChar).map some) [] = uriPathChar :: template := by
    rw [filled, List.map_map, ← rooted_splitOn template]
    exact congrArg (rooted uriPathChar) (List.map_id _)
  rw [← occurrences_slash hslash hne, ← htext]
  exact hparts _ fun _ hpart => hpart

end Template

/-! ## One argument left open -/

namespace ProxyHandler

/-- What a call collects for the URI while one of its arguments for the path is left open. -/
structure Opened where
  stretches : List (Option Str)
  queryUri : List Str

section Opened

variable (valueOf : O → Str) (args : List (Option O))

/-- **The loop with one argument left open**: its parameter has no round. -/
def collectOpen (p : ParamMetadata) (s : Opened) (q : ParamMetadata) : Option Opened :=
  if q = p then some s
  else match args[q.parameterIndex]? with
  | some (some arg) => match q.type with
    | .path => (s.stretches.mapM (replaceIn (braced (text q.name)) (valueOf arg))).map fun after =>
        { s with stretches := after }
    | .query => some { s with queryUri := s.queryUri ++ [text q.name, valueOf arg] }
    | _ => some s
  | some none => some s
  | none => none

/-- **Its turn**: the parameters that have an argument for the path have names without slashes, none
of the others has its name, and what has been put in before it has made no further placeholder of
it. -/
structure OnlyInTemplate (parameters : List ParamMetadata) (template : Str) (p : ParamMetadata) :
    Prop where
  no_slash : ∀ q ∈ parameters, ∀ v ∈ given .path valueOf args q, uriPathChar ∉ v.1
  other_names : ∀ q ∈ parameters, ∀ v ∈ given .path valueOf args q, v.1 = text p.name → q = p
  no_further : ∀ taken rest path, parameters = taken ++ p :: rest →
    putIn (taken.filterMap (given .path valueOf args)) template = some path →
      occurrences (braced (text p.name)) path ≤ occurrences (braced (text p.name)) template

end Opened

/-- A call has collected what is collected with the argument left open, and holds a value in its
place. -/
structure Holds (holes : Nat) (value : Str) (s : Opened) (c : Collected O) : Prop where
  count : s.stretches.count none = holes
  path : ∃ path, c.methodUri = some path ∧ uriPathChar :: path = filled s.stretches value
  query : c.queryUri = s.queryUri

section Calls

variable {valueOf : O → Str} {args args' : List (Option O)} {holes : Nat} {value : Str}
  {p q : ParamMetadata} {template : Str} {parameters : List ParamMetadata}

/-- A parameter with an argument for the path is given it. -/
theorem given_of_getElem? (htype : q.type = .path) {arg : O}
    (harg : args[q.parameterIndex]? = some (some arg)) :
    given .path valueOf args q = some (text q.name, valueOf arg) :=
  given_eq_some_iff.mpr ⟨htype, rfl, by rw [argumentText, harg]; rfl⟩

/-- **One round for another parameter**, with the argument open and with a value in its place. -/
theorem collect_holds {s : Opened} {c : Collected O} (h : Holds holes value s c) (hqp : q ≠ p)
    (hargs : args'[q.parameterIndex]? = args[q.parameterIndex]?)
    (hslash : ∀ v ∈ given .path valueOf args q, uriPathChar ∉ v.1)
    (hvalue : holes ≠ 0 → ∀ v ∈ given .path valueOf args q, ¬ braced v.1 <:+: value) :
    Option.Rel (Holds holes value) (collectOpen valueOf args p s q) (collect valueOf args' c q) := by
  obtain ⟨hcount, ⟨path, hpath, hfilled⟩, hquery⟩ := h
  rw [collectOpen, if_neg hqp, collect, hargs]
  cases harg : args[q.parameterIndex]? with
  | none => exact .none
  | some arg =>
      cases arg with
      | none => exact .some ⟨hcount, ⟨path, hpath, hfilled⟩, hquery⟩
      | some arg =>
          cases htype : q.type with
          | path =>
              have hgiven : given .path valueOf args q = some (text q.name, valueOf arg) :=
                given_of_getElem? htype harg
              have hopen : none ∈ s.stretches → ¬ braced (text q.name) <:+: value := fun hmem =>
                hvalue (hcount ▸ (List.count_pos_iff.mpr hmem).ne') _ hgiven
              have hround := replaceAll_other (valueOf arg) (hslash _ hgiven) hopen hfilled
              have hplaceholder : placeholder q.name = braced (text q.name) := rfl
              simp only [collectArgument, htype, hpath, hplaceholder, Option.bind_eq_bind,
                Option.bind_some]
              generalize hafter : s.stretches.mapM (replaceIn (braced (text q.name)) (valueOf arg)) =
                after, replaceAll (braced (text q.name)) (valueOf arg) path = path' at hround ⊢
              cases hround with
              | none => exact .none
              | some hfilled' =>
                  have hcount' := (count_none_of_replaceIn hafter).trans hcount
                  exact .some ⟨hcount', ⟨_, rfl, hfilled'⟩, hquery⟩
          | query =>
              simp only [collectArgument, htype]
              exact .some ⟨hcount, ⟨path, hpath, hfilled⟩, by rw [hquery]⟩
          | body | operation | header | cookie =>
              simp only [collectArgument, htype]
              exact .some ⟨hcount, ⟨path, hpath, hfilled⟩, hquery⟩

/-- A value that stays one segment of the path and does not take part in the other rounds: not
empty, without slashes, braces, escapes and references. -/
structure OneSegment (value : Str) : Prop where
  ne_nil : value ≠ []
  no_slash : uriPathChar ∉ value
  braceless : Braceless value
  plain : '\\' ∉ value ∧ '$' ∉ value

/-- What stands in the place of an argument: its text, or the placeholder when it is `null`. -/
inductive InPlace (valueOf : O → Str) (name : Str) : Option O → Str → Prop
  | leftOut : InPlace valueOf name none (braced name)
  | value {arg : O} (h : OneSegment (valueOf arg)) : InPlace valueOf name (some arg) (valueOf arg)

/-- No placeholder of another name stands in the place of the argument. -/
theorem InPlace.not_occurs {name m : Str} {arg : Option O} (h : InPlace valueOf name arg value)
    (hname : Braceless name) (hm : m ≠ name) : ¬ braced m <:+: value := by
  cases h with
  | leftOut => exact fun hoccurs => hm (eq_of_braced_occurs hname hoccurs)
  | value hone => exact not_occurs_of_braceless hone.braceless

/-- **The turn of the parameter**: its argument is put in the open stretches. -/
theorem collect_own {s : Opened} {c : Collected O} (h : Holds holes (braced (text p.name)) s c)
    (htype : p.type = .path) (hlt : p.parameterIndex < args.length)
    (hname : uriPathChar ∉ text p.name)
    (hcount : ∀ path, c.methodUri = some path → occurrences (braced (text p.name)) path ≤ holes)
    {arg : Option O} (hvalue : InPlace valueOf (text p.name) arg value) :
    ∃ c', collect valueOf (args.set p.parameterIndex arg) c p = some c' ∧
      Holds holes value s c' := by
  obtain ⟨hholes, ⟨path, hpath, hfilled⟩, hquery⟩ := h
  rw [collect, List.getElem?_set_self hlt]
  cases hvalue with
  | leftOut => exact ⟨c, rfl, hholes, ⟨path, hpath, hfilled⟩, hquery⟩
  | @value arg hone =>
      obtain ⟨path', hpath', hfilled'⟩ :=
        replaceAll_own hname hone.plain hfilled (hholes ▸ hcount path hpath)
      have hplaceholder : placeholder p.name = braced (text p.name) := rfl
      refine ⟨{ c with methodUri := some path' }, ?_, hholes, ⟨path', rfl, hfilled'⟩, hquery⟩
      simp only [collectArgument, htype, hpath, hplaceholder, Option.bind_eq_bind,
        Option.bind_some, hpath']

/-- The loop has had an argument, or `null`, for every parameter. -/
theorem lt_length_of_foldlM_collect {c c' : Collected O}
    (h : parameters.foldlM (collect valueOf args) c = some c') :
    ∀ q ∈ parameters, q.parameterIndex < args.length := by
  induction parameters generalizing c with
  | nil => exact fun q hq => absurd hq List.not_mem_nil
  | cons p parameters ih =>
      rw [List.foldlM_cons] at h
      obtain ⟨c₁, hround, hrest⟩ := Option.bind_eq_some_iff.mp h
      refine List.forall_mem_cons.mpr ⟨?_, ih hrest⟩
      by_contra hlength
      rw [collect, List.getElem?_eq_none (Nat.le_of_not_lt hlength)] at hround
      cases hround

/-- The loop looks at the arguments of its parameters only. -/
theorem foldlM_collect_congr
    (h : ∀ q ∈ parameters, args'[q.parameterIndex]? = args[q.parameterIndex]?) (c : Collected O) :
    parameters.foldlM (collect valueOf args') c = parameters.foldlM (collect valueOf args) c := by
  induction parameters generalizing c with
  | nil => rfl
  | cons p parameters ih =>
      rw [List.foldlM_cons, List.foldlM_cons, collect, collect, h p List.mem_cons_self]
      exact congrArg _ (funext (ih fun q hq => h q (List.mem_cons_of_mem _ hq)))

/-- When it is its turn, the placeholder stands in the open stretches only. -/
theorem occurrences_le_of_turn {before after : List ParamMetadata}
    (hwhole : WholePlaceholders template) (hname : uriPathChar ∉ text p.name)
    (hturn : OnlyInTemplate valueOf args (before ++ p :: after) template p) {c : Collected O}
    (hbefore : before.foldlM (collect valueOf args) ⟨some template, [], none, [], ∅⟩ = some c)
    (path : Str) (hpath : c.methodUri = some path) : occurrences (braced (text p.name)) path ≤
      (template.splitOn uriPathChar).count (braced (text p.name)) := by
  have hloop : (before.foldlM (collect valueOf args) ⟨some template, [], none, [], ∅⟩).map
      (·.methodUri) = (putIn (before.filterMap (given .path valueOf args)) template).map some :=
    foldlM_collect_methodUri (lt_length_of_foldlM_collect hbefore) rfl
  rw [hbefore, Option.map_some, hpath, eq_comm, Option.map_eq_some_iff] at hloop
  obtain ⟨path', hputIn, heq⟩ := hloop
  obtain rfl := Option.some.inj heq
  exact (hturn.no_further before after path' rfl hputIn).trans (occurrences_template_le hname hwhole)

/-- **The loop of a call** does what the loop with the argument left open does, and holds what is in
the place of the argument. -/
theorem foldlM_collect_holds (hindices : (parameters.map ParamMetadata.parameterIndex).Nodup)
    (hwhole : WholePlaceholders template) (hp : p ∈ parameters) (htype : p.type = .path)
    (hlt : p.parameterIndex < args.length) (hname : uriPathChar ∉ text p.name)
    (hturn : OnlyInTemplate valueOf args parameters template p) {arg : Option O}
    (hvalue : InPlace valueOf (text p.name) arg value)
    (hholes : (template.splitOn uriPathChar).count (braced (text p.name)) = holes) :
    Option.Rel (Holds holes value)
      (parameters.foldlM (collectOpen valueOf args p) ⟨stretchesOf (text p.name) template, []⟩)
      (parameters.foldlM (collect valueOf (args.set p.parameterIndex arg))
        ⟨some template, [], none, [], ∅⟩) := by
  obtain ⟨before, after, rfl⟩ := List.append_of_mem hp
  -- the other parameters have their arguments at other positions
  have hother : ∀ q ∈ before ++ after, p.parameterIndex ≠ q.parameterIndex := by
    intro q hq heq
    rw [List.map_append, List.map_cons, List.nodup_middle, ← List.map_append,
      List.nodup_cons] at hindices
    refine hindices.1 ?_
    rw [heq]
    exact List.mem_map_of_mem hq
  have hround : ∀ q ∈ before ++ after, ∀ (arg' : Option O) (x : Str),
      InPlace valueOf (text p.name) arg' x → ∀ (s : Opened) (c : Collected O), Holds holes x s c →
      Option.Rel (Holds holes x) (collectOpen valueOf args p s q)
        (collect valueOf (args.set p.parameterIndex arg) c q) := by
    intro q hq arg' x hx s c hholds
    have hmem : q ∈ before ++ p :: after :=
      (List.mem_append.mp hq).elim (List.mem_append_left _)
        fun h => List.mem_append_right _ (List.mem_cons_of_mem _ h)
    have hqp : q ≠ p := fun heq => hother q hq (heq ▸ rfl)
    refine collect_holds hholds hqp (List.getElem?_set_ne (hother q hq)) (hturn.no_slash q hmem)
      fun hopen v hv => ?_
    have hbraceless := hwhole.braceless
      (List.count_pos_iff.mp (Nat.pos_of_ne_zero (hholes ▸ hopen)))
    exact hx.not_occurs hbraceless fun heq => hqp (hturn.other_names q hmem v hv heq)
  have hstart : Holds holes (braced (text p.name)) ⟨stretchesOf (text p.name) template, []⟩
      (⟨some template, [], none, [], ∅⟩ : Collected O) :=
    ⟨(count_none_stretchesOf _ _).trans hholes, ⟨template, rfl, (filled_stretchesOf _ _).symm⟩, rfl⟩
  have hbefore := foldlM_rel (fun q hq => hround q (List.mem_append_left _ hq) none _ .leftOut) hstart
  rw [foldlM_collect_congr fun q hq =>
    List.getElem?_set_ne (hother q (List.mem_append_left _ hq))] at hbefore
  rw [List.foldlM_append, List.foldlM_append, foldlM_collect_congr fun q hq =>
    List.getElem?_set_ne (hother q (List.mem_append_left _ hq))]
  generalize before.foldlM (collectOpen valueOf args p) _ = s,
    hc : before.foldlM (collect valueOf args) _ = c at hbefore ⊢
  cases hbefore with
  | none => exact .none
  | @some s c hholds =>
      have hcount := fun path hpath =>
        (occurrences_le_of_turn hwhole hname hturn hc path hpath).trans (Nat.le_of_eq hholes)
      obtain ⟨c', hc', hholds'⟩ := collect_own hholds htype hlt hname hcount hvalue
      have hopen : collectOpen valueOf args p s p = some s := if_pos rfl
      rw [Option.bind_eq_bind, Option.bind_some, Option.bind_eq_bind, Option.bind_some,
        List.foldlM_cons, List.foldlM_cons, hopen, hc']
      exact foldlM_rel (fun q hq => hround q (List.mem_append_right _ hq) arg _ hvalue) hholds'

end Calls

/-! ## Two calls -/

/-- **Two operations agree outside the segments of a placeholder**: the server sees the two values in
the segments that hold the placeholder when the argument is left out, as many as there are in the
template, the same in all others, and the same parameters in the query. -/
structure AgreeOutside (u : UriUtils) (template name value value' : Str)
    (leftOut op op' : ClientOperation O) : Prop where
  segments : ∃ frame : List (Option Str),
    frame.count none = (template.splitOn uriPathChar).count (braced name) ∧
    split uriPathChar leftOut.uri.path = frame.map (·.getD (braced name)) ∧
    split uriPathChar op.uri.path = frame.map (·.getD value) ∧
    split uriPathChar op'.uri.path = frame.map (·.getD value')
  query : u.parseUriQueryParams op.uri = u.parseUriQueryParams op'.uri

/-- **An argument is isolated** from another one for its parameter: with either the call throws, or
the operations agree outside the segments of the parameter. -/
def Isolated (u : UriUtils) (valueOf : O → Str) (handler : ProxyHandler) (info : MethodInfo)
    (template : Str) (args : List (Option O)) (p : ParamMetadata) (arg arg' : O) : Prop :=
  (buildOperation u valueOf handler info (args.set p.parameterIndex (some arg)) = none ∧
    buildOperation u valueOf handler info (args.set p.parameterIndex (some arg')) = none) ∨
  ∃ leftOut op op',
    buildOperation u valueOf handler info (args.set p.parameterIndex none) = some leftOut ∧
    buildOperation u valueOf handler info (args.set p.parameterIndex (some arg)) = some op ∧
    buildOperation u valueOf handler info (args.set p.parameterIndex (some arg')) = some op' ∧
    AgreeOutside u template (text p.name) (valueOf arg) (valueOf arg') leftOut op op'

section Isolated

variable {u : UriUtils} {valueOf : O → Str} {handler : ProxyHandler} {info : MethodInfo}
  {template : Str} {args : List (Option O)} {p : ParamMetadata}

/-- **What the server sees of a call with an isolated argument**: as many segments as with the other
argument, the same ones except for the two values, and these no more often than the template has the
placeholder. -/
theorem Isolated.segments {arg arg' : O}
    (h : Isolated u valueOf handler info template args p arg arg') :
    let seen := fun arg =>
      (buildOperation u valueOf handler info (args.set p.parameterIndex (some arg))).map
        fun op => split uriPathChar op.uri.path
    ∀ segments ∈ seen arg, ∀ segments' ∈ seen arg', segments.length = segments'.length ∧
      (∀ s ∈ segments.zip segments', s.1 = s.2 ∨ s = (valueOf arg, valueOf arg')) ∧
      (segments.zip segments').countP (fun s => s.1 ≠ s.2) ≤
        (template.splitOn uriPathChar).count (braced (text p.name)) := by
  intro seen segments hseen segments' hseen'
  obtain ⟨op, hop, rfl⟩ := Option.map_eq_some_iff.mp hseen
  obtain ⟨op', hop', rfl⟩ := Option.map_eq_some_iff.mp hseen'
  rcases h with ⟨hnone, -⟩ | ⟨_, _, _, -, hsome, hsome', hagree⟩
  · exact nomatch hnone.symm.trans hop
  · obtain rfl := Option.some.inj (hsome.symm.trans hop)
    obtain rfl := Option.some.inj (hsome'.symm.trans hop')
    obtain ⟨frame, hcount, -, hleft, hright⟩ := hagree.segments
    rw [hleft, hright, ← hcount, List.length_map, List.length_map, List.zip_map']
    refine ⟨rfl, fun s hs => ?_, ?_⟩
    · obtain ⟨stretch, -, rfl⟩ := List.mem_map.mp hs
      cases stretch with
      | none => exact .inr rfl
      | some t => exact .inl rfl
    · rw [List.countP_map]
      refine List.countP_mono_left fun stretch _ hne => ?_
      cases stretch with
      | none => rfl
      | some t => simp at hne

/-- The URI of an operation, from what is collected with the argument left open. -/
structure BuiltFrom (u : UriUtils) (handler : ProxyHandler) (holes : Nat) (value : Str) (s : Opened)
    (op : ClientOperation O) : Prop where
  count : s.stretches.count none = holes
  uri : ∃ path, uriPathChar :: path = filled s.stretches value ∧
    op.uri = u.extendUriWithQuery (u.extendUri handler.baseUri (some path)) s.queryUri

/-- **The operation of a call**, from the loop with the argument left open. -/
theorem buildOperation_builtFrom (handler : ProxyHandler) {holes : Nat} {value : Str} {arg : Option O}
    {s : Option Opened} (hpath : info.uriPath = some template)
    (h : Option.Rel (Holds holes value) s
      (info.parameters.foldlM (collect valueOf (args.set p.parameterIndex arg))
        ⟨some template, [], none, [], ∅⟩)) :
    Option.Rel (BuiltFrom u handler holes value) s
      (buildOperation u valueOf handler info (args.set p.parameterIndex arg)) := by
  rw [buildOperation, hpath]
  generalize info.parameters.foldlM (collect valueOf (args.set p.parameterIndex arg)) _ = c at h ⊢
  cases h with
  | none => exact .none
  | some hholds =>
      obtain ⟨hcount, ⟨path, hmethodUri, hfilled⟩, hquery⟩ := hholds
      exact .some ⟨hcount, path, hfilled, by simp only [hmethodUri, hquery]⟩

/-- The segments the server sees of the operations are those of one frame. -/
theorem exists_frame_of_builtFrom (hu : u.AppendsPaths) {holes : Nat} {s : Opened}
    (hcount : s.stretches.count none = holes) (hne : s.stretches ≠ []) :
    ∃ frame : List (Option Str), frame.count none = holes ∧
      ∀ {value : Str} {op : ClientOperation O}, value ≠ [] → uriPathChar ∉ value →
        BuiltFrom u handler holes value s op →
          split uriPathChar op.uri.path = frame.map (·.getD value) := by
  obtain ⟨frame, hframe, hsplit⟩ := exists_frame handler.baseUri.path hne
  refine ⟨frame, hframe.trans hcount, fun {value op} hvalue hslash hbuilt => ?_⟩
  obtain ⟨-, path, hfilled, huri⟩ := hbuilt
  have htail : path = (filled s.stretches value).tail := congrArg List.tail hfilled
  rw [huri, hu.extendUriWithQuery_path, hu.extendUri_path, Option.map_some, Option.getD_some, htail]
  exact hsplit value hvalue hslash

/-- **Operations that come from one loop** with the argument left open agree outside its segments. -/
theorem agreeOutside_of_builtFrom (hu : u.AppendsPaths) {name value value' : Str} {s : Opened}
    {leftOut op op' : ClientOperation O} (hname : uriPathChar ∉ name) (hvalue : OneSegment value)
    (hvalue' : OneSegment value')
    (hleftOut : BuiltFrom u handler ((template.splitOn uriPathChar).count (braced name))
      (braced name) s leftOut)
    (hop : BuiltFrom u handler ((template.splitOn uriPathChar).count (braced name)) value s op)
    (hop' : BuiltFrom u handler ((template.splitOn uriPathChar).count (braced name)) value' s op') :
    AgreeOutside u template name value value' leftOut op op' := by
  have hne : s.stretches ≠ [] := by
    obtain ⟨-, path, hfilled, -⟩ := hop
    intro hnil
    rw [hnil] at hfilled
    exact nomatch hfilled
  obtain ⟨frame, hcount, hframe⟩ := exists_frame_of_builtFrom hu hop.count hne
  refine ⟨⟨frame, hcount, ?_, ?_, ?_⟩, ?_⟩
  · exact hframe (braced_ne_nil _) (not_mem_braced hname) hleftOut
  · exact hframe hvalue.ne_nil hvalue.no_slash hop
  · exact hframe hvalue'.ne_nil hvalue'.no_slash hop'
  · obtain ⟨-, path, -, huri⟩ := hop
    obtain ⟨-, path', -, huri'⟩ := hop'
    refine hu.parseUriQueryParams_congr _ _ ?_
    rw [huri, huri']
    exact hu.extendUriWithQuery_query _ _ _
      ((hu.extendUri_query _ _).trans (hu.extendUri_query _ _).symm)

/-- **A path argument that is one segment changes nothing else.** The template has only placeholders
that are whole segments, and when it is the turn of the argument, its placeholder stands where the
template has it only. -/
theorem buildOperation_isolated (hu : u.AppendsPaths) {method : Method}
    (hinfo : MethodInfoBuilder.methodInfo method = some info)
    (htemplate : method.path = some template) (hwhole : WholePlaceholders template)
    (hp : p ∈ info.parameters) (htype : p.type = .path) {arg arg' : O}
    (harg : args[p.parameterIndex]? = some (some arg))
    (hvalue : OneSegment (valueOf arg)) (hvalue' : OneSegment (valueOf arg'))
    (hturn : OnlyInTemplate valueOf args info.parameters template p) :
    Isolated u valueOf handler info template args p arg arg' := by
  obtain ⟨huriPath, -, hrange⟩ := MethodInfoBuilder.methodInfo_spec hinfo
  have hpath : info.uriPath = some template := huriPath.trans htemplate
  have hindices : (info.parameters.map ParamMetadata.parameterIndex).Nodup :=
    hrange ▸ List.nodup_range
  have hlt : p.parameterIndex < args.length := (List.getElem?_eq_some_iff.mp harg).1
  have hname : uriPathChar ∉ text p.name := hturn.no_slash p hp _ (given_of_getElem? htype harg)
  have hcall := fun (a : Option O) (x : Str) (hx : InPlace valueOf (text p.name) a x) =>
    buildOperation_builtFrom (u := u) handler hpath
      (foldlM_collect_holds hindices hwhole hp htype hlt hname hturn hx rfl)
  have hnone := hcall none _ .leftOut
  have hsome := hcall (some arg) _ (.value hvalue)
  have hsome' := hcall (some arg') _ (.value hvalue')
  rw [Isolated]
  generalize info.parameters.foldlM (collectOpen valueOf args p) _ = s,
    buildOperation u valueOf handler info (args.set p.parameterIndex none) = leftOut,
    buildOperation u valueOf handler info (args.set p.parameterIndex (some arg)) = op,
    buildOperation u valueOf handler info (args.set p.parameterIndex (some arg')) = op'
    at hnone hsome hsome' ⊢
  cases hnone with
  | none =>
      cases hsome with
      | none =>
          cases hsome' with
          | none => exact .inl ⟨rfl, rfl⟩
  | @some s _ hleftOut =>
      cases hsome with
      | some hop =>
          cases hsome' with
          | some hop' =>
              exact .inr ⟨_, _, _, rfl, rfl, rfl,
                agreeOutside_of_builtFrom hu hname hvalue hvalue' hleftOut hop hop'⟩

end Isolated

/-! ## Sample calls -/

/-- A method with parameters in the path only. -/
def pathMethod (template : String) (names : List String) : Method where
  name := "get".toList
  isPublic := true
  httpMethodNames := [some "GET".toList]
  path := some template.toList
  parameters := names.map pathParameter
  returnClass := .other

/-- What is read from the method. -/
def pathInfo (template : String) (names : List String) : MethodInfo where
  method := pathMethod template names
  parameters := names.zipIdx.map fun name => pathMetadata name.1 name.2
  uriPath := some template.toList
  action := .get
  pathParamsVsUriIndex := MethodInfoBuilder.parsePathParams (some template.toList)
  asyncApi := false

/-- The info is that of the method. -/
theorem methodInfo_pathMethod (template : String) (names : List String) :
    MethodInfoBuilder.methodInfo (pathMethod template names) = some (pathInfo template names) := by
  have hparameters : MethodInfoBuilder.extractParamMetadatas (pathMethod template names) =
      some (names.zipIdx.map fun name => pathMetadata name.1 name.2) := by
    rw [MethodInfoBuilder.extractParamMetadatas, pathMethod, List.zipIdx_map, List.mapM_map]
    exact List.mapM_pure
  have hselect : MethodInfoBuilder.selectMethod (pathMethod template names) =
      some (some (pathMethod template names, .get)) := rfl
  simp only [MethodInfoBuilder.methodInfo, MethodInfoBuilder.readMethod, hselect, Option.bind_some,
    MethodInfoBuilder.describeMethod_eq, hparameters, Option.map_some, Option.join_some]
  rfl

/-- A client. -/
def sampleClient : ProxyHandler := ⟨⟨[], "/api".toList, none⟩, []⟩

/-- One argument of a sample call is isolated from another one. -/
def SampleIsolated (template : String) (names args : List String) (p : ParamMetadata)
    (arg arg' : String) : Prop :=
  Isolated .documented id sampleClient (pathInfo template names) template.toList
    (args.map fun arg => some arg.toList) p arg.toList arg'.toList

/-- An argument next to one with a slash and a brace. -/
theorem buildOperation_isolated_beside :
    SampleIsolated "/{q}/{p}" ["q", "p"] ["x/\x7bp", "a"] (pathMetadata "p" 1) "a" "b" := by
  refine buildOperation_isolated UriUtils.documented_appendsPaths (methodInfo_pathMethod _ _) rfl
    (by decide) (by decide) rfl rfl ⟨by decide, by decide, by decide, by decide⟩
    ⟨by decide, by decide, by decide, by decide⟩ ⟨by decide, by decide, ?_⟩
  intro taken rest path hparameters hpath
  have hsplit : [pathMetadata "q" 0] ++ pathMetadata "p" 1 :: [] =
      taken ++ pathMetadata "p" 1 :: rest := hparameters
  obtain ⟨rfl, -, -⟩ := (List.append_cons_inj_of_notMem (by decide) (by decide)).mp hsplit
  have hfirst : path = "/x/\x7bp/{p}".toList := Option.some.inj (hpath.symm.trans (by decide))
  rw [hfirst]
  decide

/-- **Arguments that are not isolated.** A value with a slash is two segments; the argument of
another parameter may bring the placeholder along; so it may when two parameters have one name and
the first one is put in for it; and the name of a parameter with slashes may become a placeholder
only by the value. -/
theorem path_arguments_not_isolated :
    (WholePlaceholders "/items/{id}".toList ∧
      ¬ SampleIsolated "/items/{id}" ["id"] ["a"] (pathMetadata "id" 0) "a" "b/c") ∧
    (WholePlaceholders "/{q}/{p}".toList ∧
      ¬ SampleIsolated "/{q}/{p}" ["q", "p"] ["{p}", "a"] (pathMetadata "p" 1) "a" "b") ∧
    (WholePlaceholders "/{p}/{q}".toList ∧
      ¬ SampleIsolated "/{p}/{q}" ["q", "p", "p"] ["x\x7b{p}p\x7d", "", "a"] (pathMetadata "p" 2)
        "a" "b") ∧
    (WholePlaceholders "/{q}/{p}/{r}".toList ∧
      ¬ SampleIsolated "/{q}/{p}/{r}" ["q", "p", "r", "x/a/y"] ["\x7bx", "a", "y\x7d", "z"]
        (pathMetadata "p" 1) "a" "b") := by
  refine ⟨⟨by decide, fun h => ?_⟩, ⟨by decide, fun h => ?_⟩, ⟨by decide, fun h => ?_⟩,
    ⟨by decide, fun h => ?_⟩⟩
  · exact absurd h.segments (by decide +kernel)
  · exact absurd h.segments (by decide +kernel)
  · exact absurd h.segments (by decide +kernel)
  · exact absurd h.segments (by decide +kernel)

end ProxyHandler

end XenonExt
