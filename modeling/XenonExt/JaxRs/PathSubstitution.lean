import XenonExt.Java.Substitution
import XenonExt.JaxRs.ClientArguments
import Mathlib.Data.List.Permutation

/-! # Values in the template

The loop of `buildOperation` puts the arguments for the path into the template one after the other.
The placeholder is quoted, so that it is searched for as it stands; the value is not, so that `\`
and `$` have a meaning in it, and a later round searches the values of the rounds before.

* **`foldlM_collect_methodUri`**: what the loop does to the template.
* **`SubstitutesLiterally`**: every placeholder is replaced by its value and nothing else changes,
  in whatever order the parameters are listed.
* **`replaceAll_substitute_iff`**: when one round is right.
* **`substitutesLiterally_iff`**: when the loop is. -/

namespace XenonExt

variable {O : Type}

namespace ProxyHandler

/-- Put values into a path, one after the other; `none` when a replacement throws. -/
def putIn (values : List (Str × Str)) (path : Str) : Option Str :=
  values.foldlM (fun path v => replaceAll (braced v.1) v.2 path) path

theorem putIn_append (values values' : List (Str × Str)) (path : Str) :
    putIn (values ++ values') path = (putIn values path).bind (putIn values') :=
  List.foldlM_append

theorem putIn_singleton (v : Str × Str) (path : Str) :
    putIn [v] path = replaceAll (braced v.1) v.2 path := by
  simp [putIn]

section Loop

variable {valueOf : O → Str} {args : List (Option O)}

/-- One round of the loop replaces what its parameter is given for the path, if anything. -/
theorem collect_methodUri {p : ParamMetadata} (hindex : p.parameterIndex < args.length)
    {c : Collected O} {path : Str} (hpath : c.methodUri = some path) :
    (collect valueOf args c p).map (·.methodUri) =
      (putIn (given .path valueOf args p).toList path).map some := by
  obtain ⟨arg, harg⟩ : ∃ arg, args[p.parameterIndex]? = some arg :=
    ⟨_, List.getElem?_eq_getElem hindex⟩
  have htext : argumentText valueOf args p = arg.map valueOf := by
    rw [argumentText, harg, Option.join_some]
  cases arg with
  | none => simp [collect, harg, given, htext, putIn, hpath]
  | some arg =>
      rw [collect, harg, given, htext]
      cases htype : p.type with
      | path =>
          have hplaceholder : placeholder p.name = braced (text p.name) := rfl
          simp only [collectArgument, htype, hpath, hplaceholder, if_true, Option.map_some,
            Option.toList_some, putIn, List.foldlM_cons, List.foldlM_nil, Option.bind_eq_bind,
            Option.bind_some, Option.pure_def]
          cases replaceAll (braced (text p.name)) (valueOf arg) path <;> rfl
      | query | body | operation | header | cookie =>
          simp [collectArgument, htype, putIn, hpath]

/-- **What the loop does to the template**: it puts in what the parameters are given for the
path. -/
theorem foldlM_collect_methodUri {parameters : List ParamMetadata}
    (hindex : ∀ p ∈ parameters, p.parameterIndex < args.length) {c : Collected O} {path : Str}
    (hpath : c.methodUri = some path) :
    (parameters.foldlM (collect valueOf args) c).map (·.methodUri) =
      (putIn (parameters.filterMap (given .path valueOf args)) path).map some := by
  induction parameters generalizing c path with
  | nil => simp [putIn, hpath]
  | cons p parameters ih =>
      have hround : (collect valueOf args c p).map (·.methodUri) = _ :=
        collect_methodUri (hindex p List.mem_cons_self) hpath
      have ih := fun c path hpath =>
        @ih (fun q hq => hindex q (List.mem_cons_of_mem _ hq)) c path hpath
      have hsplit : (p :: parameters).filterMap (given .path valueOf args) =
          (given .path valueOf args p).toList ++ parameters.filterMap (given .path valueOf args) := by
        rw [List.filterMap_cons]
        cases given .path valueOf args p <;> rfl
      rw [List.foldlM_cons, hsplit, putIn_append]
      cases hc : collect valueOf args c p with
      | none =>
          rw [hc, Option.map_none, eq_comm, Option.map_eq_none_iff] at hround
          rw [hround]
          rfl
      | some c' =>
          rw [hc, Option.map_some, eq_comm, Option.map_eq_some_iff] at hround
          obtain ⟨path', hpath', hc'⟩ := hround
          rw [hpath', Option.bind_eq_bind, Option.bind_some, Option.bind_some]
          exact ih c' path' hc'.symm

end Loop

/-! ## Literal and simultaneous substitution -/

section Literal

variable (valueOf : O → Str) (args : List (Option O)) (parameters : List ParamMetadata)
  (template : Str)

/-- What the loop has made of a template when it has taken some parameters; `none` when it has
thrown. -/
def methodUriAfter (taken : List ParamMetadata) : Option JString :=
  (taken.foldlM (collect valueOf args) ⟨some template, [], none, [], ∅⟩).map (·.methodUri)

/-- The template with the values for some parameters in the place of their placeholders. -/
def substituted (taken : List ParamMetadata) : Str :=
  substitute (taken.filterMap (given .path valueOf args)) template

/-- **Path substitution is literal and simultaneous**: in whatever order the parameters are listed,
the loop does not throw, and leaves the template with every placeholder replaced by its value; and
after each of its rounds it has done so for the parameters it has taken. -/
structure SubstitutesLiterally : Prop where
  result : ∀ order : List ParamMetadata, order.Perm parameters →
    methodUriAfter valueOf args template order =
      some (some (substituted valueOf args template parameters))
  round : ∀ taken rest : List ParamMetadata, (taken ++ rest).Perm parameters →
    methodUriAfter valueOf args template taken =
      some (some (substituted valueOf args template taken))

/-- **Plain values**: a value that is put into the template has no escapes and no references; and
the values of other parameters, put into the template, make no new placeholder for a parameter,
unless its value stands for that placeholder. -/
structure PlainValues : Prop where
  no_escape : ∀ p ∈ parameters, ∀ v ∈ given .path valueOf args p, braced v.1 <:+: template →
    '\\' ∉ v.2 ∧ '$' ∉ v.2
  no_new : ∀ (taken : List ParamMetadata) (p : ParamMetadata) (rest : List ParamMetadata),
    (taken ++ p :: rest).Perm parameters → ∀ v ∈ given .path valueOf args p,
      occurrences (braced v.1) (substituted valueOf args template taken) =
          occurrences (braced v.1) template ∨
        expandReplacement (braced v.1) false v.2 = some (braced v.1)

end Literal

/-! ## One round -/

section Round

variable {values : List (Str × Str)} {name value template : Str}

/-- The first round is right only if the value has no escapes and no references. -/
theorem not_mem_of_first_round (hname : Braceless name) (hoccurs : braced name <:+: template)
    (hround : replaceAll (braced name) value template =
      some (substitute [(name, value)] template)) : '\\' ∉ value ∧ '$' ∉ value := by
  cases hexpand : expandReplacement (braced name) false value with
  | none =>
      rw [replaceAll_eq_none hexpand (braced_ne_nil name) hoccurs] at hround
      exact nomatch hround
  | some e =>
      rw [replaceAll_braced hexpand, Option.some.injEq] at hround
      -- what the value stands for is as long as the value, and stands in the same places
      have hpos : 0 < occurrences (braced name) template := Nat.pos_of_ne_zero fun hzero =>
        (occurrences_eq_zero_iff (braced_ne_nil name)).mp hzero hoccurs
      have hlength := length_substitute_singleton hname e template
      rw [hround, length_substitute_singleton hname value template,
        Nat.add_left_cancel_iff] at hlength
      obtain ⟨y, rest, rfl, hy⟩ := exists_first_occurrence (braced_ne_nil name) hoccurs
      rw [substitute_singleton_append hname, substitute_singleton_append hname,
        substitute_singleton_of_not_occurs e hy, substitute_singleton_of_not_occurs value hy,
        List.append_assoc, List.append_assoc, List.append_cancel_left_eq] at hround
      have heq : e = value :=
        (List.append_inj hround (Nat.eq_of_mul_eq_mul_left hpos hlength).symm).1
      rw [heq] at hexpand
      exact not_mem_of_expandReplacement_self (by decide) (by decide) rfl hexpand

/-- **One round is right** if and only if the rounds before have made no new placeholder for it, or
its value stands for the placeholder. -/
theorem replaceAll_substitute_iff (hvalues : OneEach values) (hname : Braceless name)
    (hnew : name ∉ values.map Prod.fst)
    (hplain : braced name <:+: template → '\\' ∉ value ∧ '$' ∉ value) :
    replaceAll (braced name) value (substitute values template) =
        some (substitute (values ++ [(name, value)]) template) ↔
      occurrences (braced name) (substitute values template) =
          occurrences (braced name) template ∨
        expandReplacement (braced name) false value = some (braced name) := by
  cases hexpand : expandReplacement (braced name) false value with
  | none =>
      -- the value is not put into the template, and must not be put in for a new placeholder
      have hoccurs : ¬ braced name <:+: template := by
        intro hoccurs
        obtain ⟨hescape, hreference⟩ := hplain hoccurs
        rw [expandReplacement_eq_self _ _ hescape hreference rfl] at hexpand
        exact nomatch hexpand
      rw [substitute_concat_of_not_occurs value hoccurs, occurrences_of_not_occurs hoccurs,
        or_iff_left (Option.some_ne_none _).symm, occurrences_eq_zero_iff (braced_ne_nil name)]
      constructor
      · intro hround hnewly
        rw [replaceAll_eq_none hexpand (braced_ne_nil name) hnewly] at hround
        exact nomatch hround
      · exact replaceAll_of_not_occurs
  | some e =>
      have hconcat : substitute (values ++ [(name, value)]) template =
          substitute (values ++ [(name, e)]) template := by
        by_cases hoccurs : braced name <:+: template
        · obtain ⟨hescape, hreference⟩ := hplain hoccurs
          rw [expandReplacement_eq_self _ _ hescape hreference rfl] at hexpand
          rw [Option.some.inj hexpand]
        · rw [substitute_concat_of_not_occurs value hoccurs,
            substitute_concat_of_not_occurs e hoccurs]
      rw [replaceAll_braced hexpand, hconcat, Option.some.injEq, Option.some.injEq]
      exact substitute_substitute_iff hvalues hname hnew e template

end Round

/-! ## The loop -/

section Rounds

variable {valueOf : O → Str} {args : List (Option O)} {parameters : List ParamMetadata}
  {template : Str}

/-- What the loop makes of the template. -/
theorem methodUriAfter_eq (hindex : ∀ p ∈ parameters, p.parameterIndex < args.length)
    {taken rest : List ParamMetadata} (hperm : (taken ++ rest).Perm parameters) :
    methodUriAfter valueOf args template taken =
      (putIn (taken.filterMap (given .path valueOf args)) template).map some :=
  foldlM_collect_methodUri
    (fun p hp => hindex p (hperm.mem_iff.mp (List.mem_append_left rest hp))) rfl

/-- The rounds of the loop before a parameter is taken put in values for other names. -/
theorem oneEach_before (hone : OneEach (parameters.filterMap (given .path valueOf args)))
    {taken rest : List ParamMetadata} {p : ParamMetadata}
    (hperm : (taken ++ p :: rest).Perm parameters) {v : Str × Str}
    (hv : given .path valueOf args p = some v) :
    OneEach (taken.filterMap (given .path valueOf args)) ∧ Braceless v.1 ∧
      v.1 ∉ (taken.filterMap (given .path valueOf args)).map Prod.fst := by
  have hvalues := hperm.filterMap (given .path valueOf args)
  rw [List.filterMap_append, List.filterMap_cons_some hv] at hvalues
  have hbraceless : ∀ w ∈ taken.filterMap (given .path valueOf args) ++
      v :: rest.filterMap (given .path valueOf args), Braceless w.1 :=
    fun w hw => hone.braceless w (hvalues.mem_iff.mp hw)
  have hnodup := (hvalues.map Prod.fst).nodup_iff.mpr hone.nodup
  rw [List.map_append, List.map_cons, List.nodup_append] at hnodup
  refine ⟨⟨hnodup.1, fun w hw => hbraceless w (List.mem_append_left _ hw)⟩,
    hbraceless v (List.mem_append_right _ List.mem_cons_self), fun hmem => ?_⟩
  exact hnodup.2.2 _ hmem _ List.mem_cons_self rfl

/-- A value that is put into the template has no escapes and no references, since its parameter may be
the first one that is taken. -/
theorem SubstitutesLiterally.not_mem
    (hliteral : SubstitutesLiterally valueOf args parameters template)
    (hindex : ∀ p ∈ parameters, p.parameterIndex < args.length)
    (hone : OneEach (parameters.filterMap (given .path valueOf args))) {p : ParamMetadata}
    (hp : p ∈ parameters) {v : Str × Str} (hv : v ∈ given .path valueOf args p)
    (hoccurs : braced v.1 <:+: template) : '\\' ∉ v.2 ∧ '$' ∉ v.2 := by
  obtain ⟨before, after, rfl⟩ := List.append_of_mem hp
  have hperm : ([p] ++ (before ++ after)).Perm (before ++ p :: after) := by
    rw [List.singleton_append]
    exact List.perm_middle.symm
  have hround := hliteral.round [p] (before ++ after) hperm
  rw [methodUriAfter_eq hindex hperm, substituted, List.filterMap_cons_some hv,
    List.filterMap_nil, putIn_singleton, Option.map_eq_some_iff] at hround
  obtain ⟨path, hpath, heq⟩ := hround
  rw [Option.some.inj heq] at hpath
  obtain ⟨-, hname, -⟩ := @oneEach_before _ _ _ _ hone [] _ _ hperm _ hv
  exact not_mem_of_first_round hname hoccurs hpath

/-- The values of a literal substitution are plain. -/
theorem SubstitutesLiterally.plainValues
    (hliteral : SubstitutesLiterally valueOf args parameters template)
    (hindex : ∀ p ∈ parameters, p.parameterIndex < args.length)
    (hone : OneEach (parameters.filterMap (given .path valueOf args))) :
    PlainValues valueOf args parameters template := by
  have hescape : ∀ p ∈ parameters, ∀ v ∈ given .path valueOf args p,
      braced v.1 <:+: template → '\\' ∉ v.2 ∧ '$' ∉ v.2 :=
    fun p hp v hv hoccurs => hliteral.not_mem hindex hone hp hv hoccurs
  refine ⟨hescape, fun taken p rest hperm v hv => ?_⟩
  obtain ⟨hvalues, hname, hnew⟩ := oneEach_before hone hperm hv
  have hp : p ∈ parameters := hperm.mem_iff.mp (List.mem_append_right _ List.mem_cons_self)
  have hperm' : (taken ++ [p] ++ rest).Perm parameters := by
    rwa [List.append_assoc, List.singleton_append]
  -- the round of the parameter is right, from what has been made before it and after it
  have hbefore := hliteral.round taken (p :: rest) hperm
  have hafter := hliteral.round (taken ++ [p]) rest hperm'
  rw [methodUriAfter_eq hindex hperm, Option.map_eq_some_iff] at hbefore
  rw [methodUriAfter_eq hindex hperm', substituted, List.filterMap_append,
    List.filterMap_cons_some hv, List.filterMap_nil, putIn_append,
    Option.map_eq_some_iff] at hafter
  obtain ⟨path, hpath, heq⟩ := hbefore
  obtain ⟨path', hpath', heq'⟩ := hafter
  rw [hpath, Option.bind_some, putIn_singleton, Option.some.inj heq, Option.some.inj heq',
    substituted] at hpath'
  exact (replaceAll_substitute_iff hvalues hname hnew (hescape p hp v hv)).mp hpath'

/-- **Plain values are put in literally**, round by round. -/
theorem PlainValues.round (hplain : PlainValues valueOf args parameters template)
    (hindex : ∀ p ∈ parameters, p.parameterIndex < args.length)
    (hone : OneEach (parameters.filterMap (given .path valueOf args)))
    (taken rest : List ParamMetadata) (hperm : (taken ++ rest).Perm parameters) :
    methodUriAfter valueOf args template taken =
      some (some (substituted valueOf args template taken)) := by
  induction taken using List.reverseRecOn generalizing rest with
  | nil =>
      rw [substituted, List.filterMap_nil, substitute_nil]
      rfl
  | append_singleton taken p ih =>
      have hperm' : (taken ++ p :: rest).Perm parameters := by
        rwa [List.append_assoc, List.singleton_append] at hperm
      have ih := ih (p :: rest) hperm'
      have hp : p ∈ parameters := hperm'.mem_iff.mp (List.mem_append_right _ List.mem_cons_self)
      rw [methodUriAfter_eq hindex hperm', Option.map_eq_some_iff] at ih
      obtain ⟨path, hpath, heq⟩ := ih
      rw [methodUriAfter_eq hindex hperm, List.filterMap_append, putIn_append, hpath,
        Option.bind_some, Option.some.inj heq, substituted, substituted, List.filterMap_append]
      cases hv : given .path valueOf args p with
      | none =>
          rw [List.filterMap_cons_none hv, List.filterMap_nil, List.append_nil]
          rfl
      | some v =>
          obtain ⟨hvalues, hname, hnew⟩ := oneEach_before hone hperm' hv
          rw [List.filterMap_cons_some hv, List.filterMap_nil, putIn_singleton,
            (replaceAll_substitute_iff hvalues hname hnew (hplain.no_escape p hp v hv)).mpr
              (hplain.no_new taken p rest hperm' v hv), Option.map_some]

/-- What is put in does not depend on the order of the parameters. -/
theorem substituted_perm (hone : OneEach (parameters.filterMap (given .path valueOf args)))
    {order : List ParamMetadata} (hperm : order.Perm parameters) :
    substituted valueOf args template order = substituted valueOf args template parameters := by
  have hvalues := hperm.filterMap (given .path valueOf args)
  refine substitute_perm ⟨(hvalues.map Prod.fst).nodup_iff.mpr hone.nodup, fun v hv => ?_⟩ hone
    hvalues _
  exact hone.braceless v (hvalues.mem_iff.mp hv)

/-- **When the loop substitutes literally and simultaneously**: exactly when the values are plain.
The parameters given a value for the path have names without braces, each its own. -/
theorem substitutesLiterally_iff (valueOf : O → Str) (args : List (Option O))
    (parameters : List ParamMetadata) (template : Str)
    (hindex : ∀ p ∈ parameters, p.parameterIndex < args.length)
    (hone : OneEach (parameters.filterMap (given .path valueOf args))) :
    SubstitutesLiterally valueOf args parameters template ↔
      PlainValues valueOf args parameters template := by
  constructor
  · exact fun hliteral => hliteral.plainValues hindex hone
  · intro hplain
    refine ⟨fun order hperm => ?_, hplain.round hindex hone⟩
    rw [hplain.round hindex hone order [] (by rwa [List.append_nil]), substituted_perm hone hperm]

end Rounds

/-! ## Values that are not plain -/

/-- A parameter in the path. -/
def pathMetadata (name : String) (parameterIndex : Nat) : ParamMetadata :=
  ⟨some name.toList, parameterIndex, .path, none⟩

/-- **Three calls that do not substitute literally.** A dollar sign throws, since there is no fifth
group; a backslash gets lost; and a value that looks like the placeholder of a later parameter is
replaced again. -/
theorem values_not_literal :
    ¬ SubstitutesLiterally id [some "$5".toList] [pathMetadata "id" 0] "/features/{id}".toList ∧
    ¬ SubstitutesLiterally id [some "a\\b".toList] [pathMetadata "id" 0] "/features/{id}".toList ∧
    ¬ SubstitutesLiterally id [some "{b}".toList, some "x".toList]
      [pathMetadata "a" 0, pathMetadata "b" 1] "/{a}/{b}".toList := by
  refine ⟨fun h => ?_, fun h => ?_, fun h => ?_⟩
  · exact absurd (h.result [pathMetadata "id" 0] (List.Perm.refl _)) (by decide +kernel)
  · exact absurd (h.result [pathMetadata "id" 0] (List.Perm.refl _)) (by decide +kernel)
  · exact absurd (h.result [pathMetadata "a" 0, pathMetadata "b" 1] (List.Perm.refl _))
      (by decide +kernel)

/-- Values with braces that make no placeholder are put in as they stand. -/
theorem substitutesLiterally_iff_braces :
    SubstitutesLiterally id [some "\x7bb".toList, some "x\x7d".toList]
      [pathMetadata "a" 0, pathMetadata "b" 1] "/{a}/{b}".toList := by
  refine (substitutesLiterally_iff id _ _ _ (by decide) ⟨by decide, by decide⟩).mpr
    ⟨by decide, fun taken p rest hperm v hv => ?_⟩
  -- the parameter comes first, or after the other one
  rcases List.perm_pair.mp hperm with horder | horder <;>
    rcases taken with _ | ⟨q, _ | ⟨q', taken⟩⟩ <;>
    simp only [List.nil_append, List.cons_append, List.cons.injEq, List.append_eq_nil_iff,
      reduceCtorEq, and_false] at horder
  · obtain ⟨rfl, rfl⟩ := horder
    obtain rfl := Option.some.inj hv
    exact .inl (by decide)
  · obtain ⟨rfl, rfl, rfl⟩ := horder
    obtain rfl := Option.some.inj hv
    exact .inl (by decide)
  · obtain ⟨rfl, rfl⟩ := horder
    obtain rfl := Option.some.inj hv
    exact .inl (by decide)
  · obtain ⟨rfl, rfl, rfl⟩ := horder
    obtain rfl := Option.some.inj hv
    exact .inl (by decide)

end ProxyHandler

end XenonExt
