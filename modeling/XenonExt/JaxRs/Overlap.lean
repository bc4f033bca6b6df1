import XenonExt.Dispatch.Patterns
import XenonExt.JaxRs.Dispatch
import XenonExt.JaxRs.RemoteCalls

/-! # Templates that overlap

Reflection lists the methods of a class in no particular order, and a request goes to the first route
that takes it. Whether that matters for any request can be read off the templates.

* **`pattern`**: a template, with a hole for every placeholder.
* **`accepts_iff`**: a route takes a request whose segments match its pattern; without placeholders,
  only with one slash at the end.
* **`takesAlone_of_apart`**: a method whose pattern meets no other one takes its requests alone.
* **`dispatch_settled_iff`**: no request depends on the order of methods exactly when, wherever two
  templates of a group overlap, an earlier group has a template for the overlap. -/

namespace XenonExt

/-! ## Patterns -/

/-- A segment of a template, as a position of a pattern. -/
def Segment.element : Segment → Option Str
  | literal s => some s
  | placeholder _ => none

namespace RequestRouterBuilder

/-- A token of the path of a method, as a position of a pattern. -/
def tokenElement (token : Str) : Option Str :=
  if MethodInfoBuilder.isPlaceholder token then none else some token

/-- **The pattern of a method**: the tokens of its path. -/
def pattern (method : Method) : Pattern Str :=
  (method.path.map fun path => (split uriPathChar (normalized path)).tail.map tokenElement).getD []

/-- The action of a method that gets a route. -/
def actionOf (method : Method) : Option Action :=
  (MethodInfoBuilder.methodInfo method).map MethodInfo.action

/-- A method whose path is a template of whole segments, or that has none. -/
def Templated (method : Method) : Prop :=
  ∃ template : Option Template, method.path = template.map Template.text ∧
    ∀ s ∈ Template.segmentsOf template, s.Whole

/-- The text of a template. -/
theorem text_eq_slashed (t : Template) :
    t.text = slashed t.leadingSlash t.trailingSlash (t.segments.map Segment.text) := by
  rw [Template.text, Template.textWith, Segment.map_fillAll_nil]

/-- A token of a whole segment. -/
theorem tokenElement_text {s : Segment} (hs : s.Whole) : tokenElement s.text = s.element := by
  rw [tokenElement]
  cases s with
  | placeholder name => exact if_pos ((MethodInfoBuilder.isPlaceholder_text_iff hs).mpr ⟨name, rfl⟩)
  | literal t =>
      refine if_neg fun h => ?_
      obtain ⟨name, hname⟩ := (MethodInfoBuilder.isPlaceholder_text_iff hs).mp h
      cases hname

section Template

variable {method : Method} {template : Option Template}
  (hpath : method.path = template.map Template.text)
  (hwhole : ∀ s ∈ Template.segmentsOf template, s.Whole)

include hpath hwhole

/-- **The pattern of a method** has the segments of its template. -/
theorem pattern_eq : pattern method = (Template.segmentsOf template).map Segment.element := by
  rw [pattern, hpath]
  cases template with
  | none => rfl
  | some t =>
      have hnil : t.segments.map Segment.text ≠ [] := by simpa using t.segments_ne_nil
      have hsep := forall_text_not_mem hwhole
      have hne := forall_text_ne_nil hwhole
      have htext : normalized t.text = rooted uriPathChar (t.segments.map Segment.text) := by
        rw [text_eq_slashed]
        exact normalized_slashed hsep hne hnil
      have hsplit : split uriPathChar (rooted uriPathChar (t.segments.map Segment.text)) =
          [] :: t.segments.map Segment.text := split_rooted hsep hne
      simp only [Option.map_some, Option.getD_some, htext, hsplit, List.tail_cons, List.map_map]
      exact List.map_congr_left fun s hs => tokenElement_text (hwhole s hs)

/-- A pattern has a hole for every placeholder. -/
theorem none_mem_pattern_iff :
    none ∈ pattern method ↔ ∃ name, Segment.placeholder name ∈ Template.segmentsOf template := by
  rw [pattern_eq hpath hwhole, List.mem_map]
  constructor
  · rintro ⟨s, hs, helement⟩
    cases s with
    | literal t => exact absurd helement (Option.some_ne_none t)
    | placeholder name => exact ⟨name, hs⟩
  · rintro ⟨name, hs⟩
    exact ⟨_, hs, rfl⟩

end Template

/-- The elements of a pattern are segments of paths. -/
theorem Templated.segment_of_mem_pattern {method : Method} (h : Templated method) {t : Str}
    (ht : some t ∈ pattern method) : uriPathChar ∉ t ∧ t ≠ [] := by
  obtain ⟨template, hpath, hwhole⟩ := h
  rw [pattern_eq hpath hwhole, List.mem_map] at ht
  obtain ⟨s, hs, helement⟩ := ht
  cases s with
  | literal t' =>
      obtain rfl := Option.some.inj helement
      exact ⟨(hwhole _ hs).not_mem_text, (hwhole _ hs).text_ne_nil⟩
  | placeholder name => exact absurd helement.symm (Option.some_ne_none t)

/-- Tokens that fit whole segments match their pattern. -/
theorem forall₂_fits_iff_matches {segments : List Segment} (hwhole : ∀ s ∈ segments, s.Whole)
    (tokens : List Str) :
    List.Forall₂ Fits (segments.map Segment.text) tokens ↔
      Pattern.Matches (segments.map Segment.element) tokens := by
  rw [List.forall₂_map_left_iff, Pattern.Matches, List.forall₂_map_left_iff]
  refine forall₂_congr_of_mem fun s hs token => ?_
  rw [fits_text_iff (hwhole s hs)]
  cases s with
  | literal t => simp [Segment.element, Pattern.Takes, eq_comm]
  | placeholder name => simp [Segment.element, Pattern.Takes]

/-! ## What a route takes -/

/-- A path with one slash at its end at most. -/
def Tidy (path : Str) : Prop := normalized path = rooted uriPathChar (requestSegments path)

/-- The path of a route has the segments of the self link and those of the template. -/
theorem buildUriPath_template {u : UriUtils} {resolved : Str → Prop} (hu : u.Lawful resolved)
    {self : List Str} (hself : ∀ s ∈ self, (Segment.literal s).Whole) {template : Option Template}
    (hwhole : ∀ s ∈ Template.segmentsOf template, s.Whole) :
    u.buildUriPath (rooted uriPathChar self) (template.map Template.text) =
      rooted uriPathChar
        ((self.map Segment.literal ++ Template.segmentsOf template).map Segment.text) := by
  have hlink : normalized (rooted uriPathChar self) = rooted uriPathChar self :=
    normalized_rooted (fun s hs => (hself s hs).not_mem_text) fun s hs => (hself s hs).text_ne_nil
  have htexts : (self.map Segment.literal).map Segment.text = self := by
    rw [List.map_map]
    exact List.map_id self
  rw [hu.buildUriPath_eq, hlink, List.map_append, rooted_append, htexts]
  refine congrArg (rooted uriPathChar self ++ ·) ?_
  cases template with
  | none => rfl
  | some t =>
      have hnil : t.segments.map Segment.text ≠ [] := by simpa using t.segments_ne_nil
      rw [Option.map_some, Option.map_some, Option.getD_some, text_eq_slashed]
      exact normalized_slashed (forall_text_not_mem hwhole) (forall_text_ne_nil hwhole) hnil

/-- The tokens of a path that starts with a slash and has more than slashes. -/
theorem split_normalized_eq {path : Str} (hpath : path.head? = some uriPathChar)
    (hne : requestSegments path ≠ []) :
    split uriPathChar (normalized path) = [] :: requestSegments path := by
  obtain ⟨rest, rfl⟩ := List.head?_eq_some_iff.mp hpath
  rw [requestSegments_cons] at hne ⊢
  rw [split_normalized, split_cons_self, if_neg hne]

/-- A path whose first token is empty starts with a slash. -/
theorem head?_of_split {s token : Str} {tokens : List Str}
    (h : split uriPathChar s = [] :: token :: tokens) : s.head? = some uriPathChar := by
  cases s with
  | nil => simp [split] at h
  | cons c s =>
      by_cases hc : c = uriPathChar
      · rw [hc, List.head?_cons]
      · -- the first token would have the first character
        exfalso
        rw [split] at h
        split at h
        · have hprefix := List.rdropWhile_prefix List.isEmpty ((c :: s).splitOn uriPathChar)
          obtain ⟨part, parts, hparts⟩ :=
            List.exists_cons_of_ne_nil (List.splitOn_ne_nil uriPathChar s)
          rw [h, List.splitOn_cons_eq_if_modifyHead, if_neg (by simpa using hc), hparts,
            List.modifyHead_cons, List.cons_prefix_cons] at hprefix
          exact List.cons_ne_nil _ _ hprefix.1.symm
        · simp at h

/-- A route with placeholders takes only paths that start with a slash. -/
theorem head?_of_newUriMatcher (u : UriUtils) {expected : List Segment}
    (hexpected : ∀ s ∈ expected, s.Whole) {name : Str} (hname : .placeholder name ∈ expected)
    {uri : Uri} (h : newUriMatcher u (rooted uriPathChar (expected.map Segment.text)) uri = true) :
    uri.path.head? = some uriPathChar := by
  have htext : (Segment.placeholder name).text ∈ expected.map Segment.text :=
    List.mem_map_of_mem hname
  have hbraces : '\x7b' ∈ rooted uriPathChar (expected.map Segment.text) ∧
      '\x7d' ∈ rooted uriPathChar (expected.map Segment.text) :=
    ⟨mem_rooted htext List.mem_cons_self, mem_rooted htext List.mem_concat_self⟩
  obtain ⟨first, rest, htexts⟩ := List.exists_cons_of_ne_nil (List.ne_nil_of_mem htext)
  rw [newUriMatcher, if_pos hbraces, split_rooted (forall_text_not_mem hexpected)
    (forall_text_ne_nil hexpected), tokensMatch_iff, htexts] at h
  -- the empty token before the first segment is no placeholder
  obtain ⟨token, tokens, hempty, hrest, hsplit⟩ := List.forall₂_cons_left_iff.mp h
  obtain ⟨second, others, -, -, rfl⟩ := List.forall₂_cons_left_iff.mp hrest
  obtain rfl : [] = token := hempty.resolve_right fun hplaceholder =>
    absurd hplaceholder.1 (Nat.lt_irrefl 0)
  exact head?_of_split hsplit

section Route

variable {u : UriUtils} {resolved : Str → Prop} (hu : u.Lawful resolved) {self : List Str}
  (hself : ∀ s ∈ self, (Segment.literal s).Whole) {method : Method} (htemplated : Templated method)
  {uri : Uri}

include hu hself htemplated

/-- **A route with placeholders** takes a path that starts with a slash and whose segments match. -/
theorem predicate_iff_of_hole (hhole : none ∈ pattern method) :
    newUriMatcher u (u.buildUriPath (rooted uriPathChar self) method.path) uri = true ↔
      uri.path.head? = some uriPathChar ∧
        Pattern.Matches (self.map some ++ pattern method) (requestSegments uri.path) := by
  obtain ⟨template, hpath, hwhole⟩ := htemplated
  obtain ⟨name, hname⟩ := (none_mem_pattern_iff hpath hwhole).mp hhole
  have hall := forall_whole_append hself hwhole
  have hmem : Segment.placeholder name ∈ self.map Segment.literal ++ Template.segmentsOf template :=
    List.mem_append_right _ hname
  have hpattern : self.map some ++ pattern method =
      (self.map Segment.literal ++ Template.segmentsOf template).map Segment.element := by
    rw [pattern_eq hpath hwhole, List.map_append, List.map_map]
    rfl
  rw [hpattern, ← forall₂_fits_iff_matches hall, hpath, buildUriPath_template hu hself hwhole]
  constructor
  · intro h
    have hhead := head?_of_newUriMatcher u hall hmem h
    exact ⟨hhead, (newUriMatcher_dynamic u hall hmem hhead).mp h⟩
  · rintro ⟨hhead, hfits⟩
    exact (newUriMatcher_dynamic u hall hmem hhead).mpr hfits

/-- **A route without placeholders** takes the path of its segments. -/
theorem predicate_iff_of_no_hole (hhole : none ∉ pattern method) (uri : Uri) :
    ∃ segments, self.map some ++ pattern method = segments.map some ∧
      (∀ s ∈ segments, uriPathChar ∉ s ∧ s ≠ []) ∧
      (newUriMatcher u (u.buildUriPath (rooted uriPathChar self) method.path) uri = true ↔
        normalized uri.path = rooted uriPathChar segments) := by
  obtain ⟨template, hpath, hwhole⟩ := htemplated
  have hall := forall_whole_append hself hwhole
  have hliteral : ∀ s ∈ self.map Segment.literal ++ Template.segmentsOf template,
      s.element = some s.text := by
    intro s hs
    cases s with
    | literal t => rfl
    | placeholder name =>
        refine absurd ((none_mem_pattern_iff hpath hwhole).mpr ⟨name, ?_⟩) hhole
        simpa using hs
  refine ⟨(self.map Segment.literal ++ Template.segmentsOf template).map Segment.text, ?_, ?_, ?_⟩
  · have hpattern : self.map some ++ pattern method =
        (self.map Segment.literal ++ Template.segmentsOf template).map Segment.element := by
      rw [pattern_eq hpath hwhole, List.map_append, List.map_map]
      rfl
    rw [hpattern, List.map_map]
    exact List.map_congr_left hliteral
  · exact fun s hs => ⟨forall_text_not_mem hall s hs, forall_text_ne_nil hall s hs⟩
  · -- no segment has a brace
    have hbraces : '\x7b' ∉ rooted uriPathChar
        ((self.map Segment.literal ++ Template.segmentsOf template).map Segment.text) := by
      intro h
      obtain ⟨text, htext, hbrace⟩ := List.mem_flatMap.mp h
      obtain ⟨s, hs, rfl⟩ := List.mem_map.mp htext
      have hbrace := List.mem_of_ne_of_mem (by decide) hbrace
      cases s with
      | literal t => exact ((hall _ hs).2 _ hbrace).2.1 rfl
      | placeholder name => exact absurd (hliteral _ hs).symm (Option.some_ne_none _)
    rw [hpath, buildUriPath_template hu hself hwhole, newUriMatcher,
      if_neg fun h => hbraces h.1, hu.normalizeUriPath_eq]
    exact decide_eq_true_iff

/-- **The segments that a route takes** match its pattern. -/
theorem matches_of_predicate
    (h : newUriMatcher u (u.buildUriPath (rooted uriPathChar self) method.path) uri = true) :
    ∃ segments, split uriPathChar (normalized uri.path) = [] :: segments ∧
      Pattern.Matches (self.map some ++ pattern method) segments := by
  by_cases hhole : none ∈ pattern method
  · obtain ⟨hhead, hmatches⟩ := (predicate_iff_of_hole hu hself htemplated hhole).mp h
    have hne : requestSegments uri.path ≠ [] := by
      intro hnil
      rw [hnil, Pattern.Matches, List.forall₂_nil_right_iff] at hmatches
      exact List.ne_nil_of_mem (List.mem_append_right _ hhole) hmatches
    exact ⟨_, split_normalized_eq hhead hne, hmatches⟩
  · obtain ⟨segments, hpattern, hsegments, hpredicate⟩ :=
      predicate_iff_of_no_hole hu hself htemplated hhole uri
    refine ⟨segments, ?_, ?_⟩
    · rw [hpredicate.mp h, split_rooted (fun s hs => (hsegments s hs).1) fun s hs => (hsegments s hs).2]
    · rw [hpattern, ← List.append_nil (segments.map some), Pattern.matches_append_iff]
      exact ⟨[], (List.append_nil segments).symm, .nil⟩

/-- **What a route takes** of the paths that start with a slash. -/
theorem predicate_iff (hlink : self ≠ []) (hhead : uri.path.head? = some uriPathChar) :
    newUriMatcher u (u.buildUriPath (rooted uriPathChar self) method.path) uri = true ↔
      Pattern.Matches (self.map some ++ pattern method) (requestSegments uri.path) ∧
        (none ∈ pattern method ∨ Tidy uri.path) := by
  by_cases hhole : none ∈ pattern method
  · rw [predicate_iff_of_hole hu hself htemplated hhole]
    simp only [hhead, hhole, true_and, true_or, and_true]
  · obtain ⟨segments, hpattern, hsegments, hpredicate⟩ :=
      predicate_iff_of_no_hole hu hself htemplated hhole uri
    have hsplit : split uriPathChar (rooted uriPathChar segments) = [] :: segments :=
      split_rooted (fun s hs => (hsegments s hs).1) fun s hs => (hsegments s hs).2
    have hmatches : Pattern.Matches (self.map some ++ pattern method) (requestSegments uri.path) ↔
        requestSegments uri.path = segments := by
      rw [hpattern, ← List.append_nil (segments.map some), Pattern.matches_append_iff]
      simp
    have hne : segments ≠ [] := by
      rintro rfl
      rw [List.map_nil, List.append_eq_nil_iff, List.map_eq_nil_iff] at hpattern
      exact hlink hpattern.1
    rw [hpredicate, hmatches, Tidy]
    constructor
    · intro hnormalized
      -- normalizing keeps the tokens
      have hsegments_eq : requestSegments uri.path = segments := by
        by_cases hnil : requestSegments uri.path = []
        · exfalso
          obtain ⟨rest, hrest⟩ := List.head?_eq_some_iff.mp hhead
          rw [hrest, requestSegments_cons] at hnil
          rw [hrest] at hnormalized
          have htokens := split_normalized rest
          rw [hnormalized, hsplit, split_cons_self, if_pos hnil] at htokens
          exact List.cons_ne_nil _ _ htokens
        · have htokens := split_normalized_eq hhead hnil
          rw [hnormalized, hsplit, List.cons.injEq] at htokens
          exact htokens.2.symm
      exact ⟨hsegments_eq, .inr (hsegments_eq ▸ hnormalized)⟩
    · rintro ⟨rfl, hhole' | htidy⟩
      · exact absurd hhole' hhole
      · exact htidy

end Route

/-- The route of a method takes a request of its action that its predicate takes. -/
theorem accepts_iff_predicate {u : UriUtils} {selfLink : Str} {request : Request}
    {method : Method} :
    accepts u selfLink request method ↔ actionOf method = some request.action ∧
      newUriMatcher u (u.buildUriPath selfLink method.path) request.uri = true := by
  rw [accepts, actionOf]
  cases hinfo : MethodInfoBuilder.methodInfo method with
  | none => simp
  | some info =>
      have hpath := (MethodInfoBuilder.methodInfo_spec hinfo).1
      simp [route, hpath]

/-! ## Paths for a pattern -/

section Path

variable {segments : List Str} (hsegments : ∀ s ∈ segments, uriPathChar ∉ s ∧ s ≠ [])

include hsegments

omit hsegments in
/-- A path of segments starts with a slash. -/
theorem head?_rooted_append (hnil : segments ≠ []) (rest : Str) :
    (rooted uriPathChar segments ++ rest).head? = some uriPathChar := by
  obtain ⟨s, segments, rfl⟩ := List.exists_cons_of_ne_nil hnil
  rfl

/-- Slashes at the end do not belong to the segments. -/
theorem requestSegments_rooted_append (n : Nat) :
    requestSegments (rooted uriPathChar segments ++ List.replicate n uriPathChar) = segments := by
  have hsep : ∀ s ∈ segments, uriPathChar ∉ s := fun s hs => (hsegments s hs).1
  have hdrop : (rooted uriPathChar segments ++ List.replicate n uriPathChar).rdropWhile
      (· = uriPathChar) = rooted uriPathChar segments := by
    induction n with
    | zero =>
        rw [List.replicate_zero, List.append_nil, rdropWhile_rooted hsep,
          rdropWhile_isEmpty_eq_self fun s hs => (hsegments s hs).2]
    | succ n ih =>
        rw [List.replicate_succ', ← List.append_assoc, List.rdropWhile_concat_pos _ _ _ (by simp), ih]
  rw [requestSegments, hdrop, splitOn_rooted hsep, List.tail_cons]

/-- A path of segments is tidy. -/
theorem tidy_rooted : Tidy (rooted uriPathChar segments) := by
  have hrequest := requestSegments_rooted_append hsegments 0
  rw [List.replicate_zero, List.append_nil] at hrequest
  rw [Tidy, hrequest]
  exact normalized_rooted (fun s hs => (hsegments s hs).1) fun s hs => (hsegments s hs).2

/-- With two slashes at its end it is not. -/
theorem not_tidy_rooted (hnil : segments ≠ []) :
    ¬ Tidy (rooted uriPathChar segments ++ List.replicate 2 uriPathChar) := by
  obtain ⟨s, rest, rfl⟩ := List.exists_cons_of_ne_nil hnil
  rw [Tidy, requestSegments_rooted_append hsegments, List.replicate_succ', ← List.append_assoc,
    normalized, if_neg (List.concat_ne_nil _ _), List.getLast?_concat]
  simp only [if_true, List.dropLast_concat]
  rw [rooted_cons, List.cons_append, List.cons_append, List.head?_cons, if_pos rfl]
  intro h
  have hlength := congrArg List.length h
  simp at hlength

end Path

/-- There is a segment other than those of a list. -/
theorem exists_fresh (l : List Str) : ∃ x : Str, (uriPathChar ∉ x ∧ x ≠ []) ∧ x ∉ l := by
  refine ⟨List.replicate (l.flatten.length + 1) 'x', ⟨fun h => ?_, by simp⟩, fun hmem => ?_⟩
  · exact absurd (List.eq_of_mem_replicate h) (by decide)
  have hle := (List.sublist_flatten_of_mem hmem).length_le
  rw [List.length_replicate] at hle
  omega

/-! ## Dispatch -/

/-- A request for a path, without anything else. -/
def requestAt (action : Action) (path : Str) : Request := ⟨action, ⟨[], path, none⟩, none, fun _ => none⟩

/-- **Two methods are left to earlier ones**: if they have one action and their templates overlap, an
earlier method of that action has a template for the overlap. Without placeholders that template does
for them only if one of theirs has none either: it does not take two slashes at the end. -/
def LeftToEarlier (before : List Method) (a b : Method) : Prop :=
  (actionOf a).isSome → actionOf a = actionOf b → ∀ r ∈ Pattern.meet (pattern a) (pattern b),
    ∃ c ∈ before, actionOf c = actionOf a ∧ Pattern.Subsumes (pattern c) r ∧
      (none ∈ pattern c ∨ none ∉ pattern a ∨ none ∉ pattern b)

instance (before : List Method) (a b : Method) : Decidable (LeftToEarlier before a b) := by
  unfold LeftToEarlier
  infer_instance

section Overlap

variable {u : UriUtils} {resolved : Str → Prop} (hu : u.Lawful resolved) {self : List Str}
  (hself : ∀ s ∈ self, (Segment.literal s).Whole)

include hu hself

/-- **A method whose pattern meets that of no other method of its action** takes its requests
alone. -/
theorem takesAlone_of_apart {groups : List (List Method)}
    (htemplated : ∀ m ∈ groups.flatten, Templated m) {method : Method}
    (hmem : method ∈ groups.flatten)
    (hapart : ∀ m ∈ groups.flatten, m ≠ method → actionOf m = actionOf method →
      Pattern.meet (pattern m) (pattern method) = none) :
    TakesAlone u (rooted uriPathChar self) groups method := by
  intro request haccepts m hm haccepts'
  obtain ⟨haction, hpredicate⟩ := accepts_iff_predicate.mp haccepts
  obtain ⟨haction', hpredicate'⟩ := accepts_iff_predicate.mp haccepts'
  by_contra hne
  -- the segments of the request would match the meet
  obtain ⟨segments, hsplit, hmatches⟩ :=
    matches_of_predicate hu hself (htemplated method hmem) hpredicate
  obtain ⟨segments', hsplit', hmatches'⟩ :=
    matches_of_predicate hu hself (htemplated m hm) hpredicate'
  rw [hsplit, List.cons.injEq] at hsplit'
  obtain ⟨-, rfl⟩ := hsplit'
  obtain ⟨rest, rfl, hrest⟩ := Pattern.matches_append_iff.mp hmatches
  obtain ⟨rest', hrest_eq, hrest'⟩ := Pattern.matches_append_iff.mp hmatches'
  obtain rfl := List.append_cancel_left hrest_eq
  obtain ⟨r, hmeet, -⟩ := Pattern.matches_meet_iff.mp ⟨hrest', hrest⟩
  rw [hapart m hm hne (haction'.trans haction.symm)] at hmeet
  exact Option.some_ne_none r hmeet.symm

/-- **A request for some segments after the self link**, with some slashes at its end. -/
theorem accepts_requestAt_iff (hlink : self ≠ []) {method : Method} (htemplated : Templated method)
    (action : Action) {segments : List Str}
    (hsegments : ∀ s ∈ self ++ segments, uriPathChar ∉ s ∧ s ≠ []) (slashes : Nat) :
    accepts u (rooted uriPathChar self)
        (requestAt action (rooted uriPathChar (self ++ segments) ++ List.replicate slashes uriPathChar))
        method ↔
      actionOf method = some action ∧ Pattern.Matches (pattern method) segments ∧
        (none ∈ pattern method ∨
          Tidy (rooted uriPathChar (self ++ segments) ++ List.replicate slashes uriPathChar)) := by
  rw [accepts_iff_predicate]
  refine and_congr_right fun _ =>
    (predicate_iff hu hself htemplated hlink (head?_rooted_append (by simp [hlink]) _)).trans ?_
  refine and_congr_left fun _ => ?_
  rw [requestAt, requestSegments_rooted_append hsegments, Pattern.matches_append_iff]
  constructor
  · rintro ⟨rest, hrest, hmatches⟩
    rwa [List.append_cancel_left hrest]
  · exact fun hmatches => ⟨segments, rfl, hmatches⟩

/-- **Two methods are left to earlier ones** exactly when every request that both take is taken by an
earlier one. -/
theorem leftToEarlier_iff (hlink : self ≠ []) {before : List Method}
    (hbefore : ∀ m ∈ before, Templated m) {a b : Method} (ha : Templated a) (hb : Templated b) :
    LeftToEarlier before a b ↔ ∀ request : Request, request.uri.path.head? = some uriPathChar →
      accepts u (rooted uriPathChar self) request a →
        accepts u (rooted uriPathChar self) request b →
          ∃ c ∈ before, accepts u (rooted uriPathChar self) request c := by
  constructor
  · intro hleft request hhead haccepts haccepts'
    obtain ⟨haction, hpredicate⟩ := accepts_iff_predicate.mp haccepts
    obtain ⟨haction', hpredicate'⟩ := accepts_iff_predicate.mp haccepts'
    obtain ⟨hmatches, htidy⟩ := (predicate_iff hu hself ha hlink hhead).mp hpredicate
    obtain ⟨hmatches', htidy'⟩ := (predicate_iff hu hself hb hlink hhead).mp hpredicate'
    obtain ⟨rest, hrest_eq, hrest⟩ := Pattern.matches_append_iff.mp hmatches
    obtain ⟨rest', hrest_eq', hrest'⟩ := Pattern.matches_append_iff.mp hmatches'
    obtain rfl := List.append_cancel_left (hrest_eq.symm.trans hrest_eq')
    obtain ⟨r, hmeet, hr⟩ := Pattern.matches_meet_iff.mp ⟨hrest, hrest'⟩
    obtain ⟨c, hc, hactionc, hsubsumes, hhole⟩ :=
      hleft (haction ▸ rfl) (haction.trans haction'.symm) r hmeet
    refine ⟨c, hc, accepts_iff_predicate.mpr ⟨hactionc.trans haction, ?_⟩⟩
    rw [predicate_iff hu hself (hbefore c hc) hlink hhead, hrest_eq, Pattern.matches_append_iff]
    refine ⟨⟨rest, rfl, hr.of_subsumes hsubsumes⟩, ?_⟩
    rcases hhole with hhole | hhole | hhole
    · exact .inl hhole
    · exact .inr (htidy.resolve_left hhole)
    · exact .inr (htidy'.resolve_left hhole)
  · intro hshared hsome hsame r hmeet
    obtain ⟨action, haction⟩ := Option.isSome_iff_exists.mp hsome
    -- a request for the overlap, with a new segment at each hole
    obtain ⟨x, hx, hfresh⟩ := exists_fresh (before.flatMap pattern).reduceOption
    have hnew : ∀ c ∈ before, some x ∉ pattern c := fun c hc hmem =>
      hfresh (List.reduceOption_mem_iff.mpr (List.mem_flatMap.mpr ⟨c, hc, hmem⟩))
    have hfill := Pattern.matches_meet_iff.mpr ⟨r, hmeet, Pattern.matches_fill x r⟩
    have hsegments : ∀ s ∈ self ++ Pattern.fill x r, uriPathChar ∉ s ∧ s ≠ [] := by
      intro s hs
      rcases List.mem_append.mp hs with hs | hs
      · exact ⟨(hself s hs).not_mem_text, (hself s hs).text_ne_nil⟩
      · rcases Pattern.mem_fill hs with rfl | hs
        · exact hx
        · rcases Pattern.mem_of_mem_meet hmeet hs with hs | hs
          · exact ha.segment_of_mem_pattern hs
          · exact hb.segment_of_mem_pattern hs
    have hnil : self ++ Pattern.fill x r ≠ [] := by simp [hlink]
    have hactionb : actionOf b = some action := hsame.symm.trans haction
    have haccepts := fun m (hm : Templated m) slashes =>
      accepts_requestAt_iff hu hself hlink hm action hsegments slashes
    by_cases hholes : none ∈ pattern a ∧ none ∈ pattern b
    · -- both take two slashes at the end
      obtain ⟨c, hc, hacceptsc⟩ := hshared (requestAt action _) (head?_rooted_append hnil _)
        ((haccepts a ha 2).mpr ⟨haction, hfill.1, .inl hholes.1⟩)
        ((haccepts b hb 2).mpr ⟨hactionb, hfill.2, .inl hholes.2⟩)
      obtain ⟨hactionc, hmatches, htidy⟩ := (haccepts c (hbefore c hc) 2).mp hacceptsc
      exact ⟨c, hc, hactionc.trans haction.symm, (Pattern.matches_fill_iff (hnew c hc)).mp hmatches,
        .inl (htidy.resolve_right (not_tidy_rooted hsegments hnil))⟩
    · have htidy : Tidy (rooted uriPathChar (self ++ Pattern.fill x r) ++
          List.replicate 0 uriPathChar) := by
        rw [List.replicate_zero, List.append_nil]
        exact tidy_rooted hsegments
      obtain ⟨c, hc, hacceptsc⟩ := hshared (requestAt action _) (head?_rooted_append hnil _)
        ((haccepts a ha 0).mpr ⟨haction, hfill.1, .inr htidy⟩)
        ((haccepts b hb 0).mpr ⟨hactionb, hfill.2, .inr htidy⟩)
      obtain ⟨hactionc, hmatches, -⟩ := (haccepts c (hbefore c hc) 0).mp hacceptsc
      exact ⟨c, hc, hactionc.trans haction.symm, (Pattern.matches_fill_iff (hnew c hc)).mp hmatches,
        .inr (not_and_or.mp hholes)⟩

omit hu hself in
/-- For a service with a router: the first method in any order is the first one as listed. -/
theorem orderIndependent_iff_stable {service : XenonService} {interfaces : List (Option Interface)}
    (howner : service.uriNamespaceOwner)
    (hreadable : Readable (methodGroups service interfaces)) (request : Request) :
    OrderIndependent u service interfaces request ↔
      ∀ groups', Reordered (methodGroups service interfaces) groups' →
        firstMatch (accepts u service.selfLink request) groups' =
          firstMatch (accepts u service.selfLink request) (methodGroups service interfaces) := by
  have hrouted : ∀ {service' interfaces'}, service.Relisted service' →
      InterfacesRelisted interfaces interfaces' →
        (routedMethod u service' interfaces' request = routedMethod u service interfaces request ↔
          firstMatch (accepts u service.selfLink request) (methodGroups service' interfaces') =
            firstMatch (accepts u service.selfLink request) (methodGroups service interfaces)) := by
    intro service' interfaces' hservice hinterfaces
    rw [routedMethod_relisted u request hservice hinterfaces, routedMethod_eq_firstMatch,
      if_pos ⟨howner, hreadable⟩, if_pos ⟨howner, hreadable⟩, Option.some.injEq]
  constructor
  · intro hindependent groups' hreordered
    obtain ⟨service', interfaces', hservice, hinterfaces, rfl⟩ := exists_relisted hreordered
    exact (hrouted hservice hinterfaces).mp (hindependent service' interfaces' hservice hinterfaces)
  · intro hstable service' interfaces' hservice hinterfaces
    exact (hrouted hservice hinterfaces).mpr
      (hstable _ (reordered_methodGroups hservice hinterfaces))

/-- **No request depends on the order of methods.** The methods of a service with a router may be
listed in any order without a difference to any request exactly when, wherever two templates of one
group and one action overlap, an earlier group has a template for the overlap. -/
theorem dispatch_settled_iff {service : XenonService} {interfaces : List (Option Interface)}
    (howner : service.uriNamespaceOwner)
    (hreadable : Readable (methodGroups service interfaces)) (hlink : self ≠ [])
    (hselfLink : service.selfLink = rooted uriPathChar self)
    (htemplated : ∀ m ∈ (methodGroups service interfaces).flatten, Templated m) :
    (∀ request : Request, request.uri.path.head? = some uriPathChar →
      OrderIndependent u service interfaces request) ↔
        Settled LeftToEarlier [] (methodGroups service interfaces) := by
  have hsettled : (∀ request : Request, request.uri.path.head? = some uriPathChar →
      (∀ c ∈ ([] : List Method), ¬ accepts u service.selfLink request c) →
        Unambiguous (accepts u service.selfLink request) (methodGroups service interfaces)) ↔
          Settled LeftToEarlier [] (methodGroups service interfaces) :=
    forall_unambiguous_iff (fun before hbefore a ha b hb => hselfLink ▸ leftToEarlier_iff hu hself
      hlink (fun m hm => htemplated m (hbefore hm)) (htemplated a ha) (htemplated b hb))
      (List.nil_subset _) (List.Subset.refl _)
  rw [← hsettled]
  refine forall_congr' fun request => forall_congr' fun _ => ?_
  rw [orderIndependent_iff_stable howner hreadable, firstMatch_stable_iff]
  exact ⟨fun h _ => h, fun h => h fun c hc => absurd hc List.not_mem_nil⟩

end Overlap

/-- An interface with the two methods whose templates overlap. -/
def overlappingInterface : Interface := ⟨"Overlapping".toList, none, [byFirst, bySecond]⟩

/-- A service that implements it, whose class declares a method of its own. -/
def coveringService (path : String) : XenonService where
  selfLink := "/svc".toList
  uriNamespaceOwner := true
  declaredMethods := [getMethod "declared".toList path.toList "x".toList]
  interfaceNames := ["Overlapping".toList]

/-- A method whose path is the text of a template. -/
theorem templated_of_text {method : Method} (t : Template) (hpath : method.path = some t.text)
    (hwhole : ∀ s ∈ t.segments, s.Plain) : Templated method :=
  ⟨some t, hpath, fun s hs => (hwhole s hs).whole⟩

/-- The overlap is left to the declared method if its template has placeholders; one for nothing but
the overlap does not take two slashes at the end. -/
theorem dispatch_settled_iff_covering :
    (∀ request : Request, request.uri.path.head? = some uriPathChar →
      OrderIndependent .documented (coveringService "/{x}/{y}") [some overlappingInterface] request) ∧
    ¬ ∀ request : Request, request.uri.path.head? = some uriPathChar →
      OrderIndependent .documented (coveringService "/a/b") [some overlappingInterface] request := by
  have hself : ∀ s ∈ ["svc".toList], (Segment.literal s).Whole := by
    have hplain : ∀ s ∈ ["svc".toList], (Segment.literal s).Plain := by decide
    exact fun s hs => (hplain s hs).whole
  have hiff : ∀ path : String, ∀ t : Template, path.toList = t.text → (∀ s ∈ t.segments, s.Plain) →
      Readable (methodGroups (coveringService path) [some overlappingInterface]) →
        ((∀ request : Request, request.uri.path.head? = some uriPathChar →
          OrderIndependent .documented (coveringService path) [some overlappingInterface] request) ↔
            Settled LeftToEarlier []
              (methodGroups (coveringService path) [some overlappingInterface])) := by
    intro path t hpath hplain hreadable
    refine dispatch_settled_iff UriUtils.documented_lawful hself rfl hreadable
      (List.cons_ne_nil _ _) rfl fun m hm => ?_
    change m ∈ [getMethod "declared".toList path.toList "x".toList, byFirst, bySecond] at hm
    simp only [List.mem_cons, List.not_mem_nil, or_false] at hm
    rcases hm with rfl | rfl | rfl
    · exact templated_of_text t (congrArg some hpath) hplain
    · exact templated_of_text ⟨true, false, [.placeholder "x".toList, .literal "b".toList],
        List.cons_ne_nil _ _⟩ (by decide) (by decide)
    · exact templated_of_text ⟨true, false, [.literal "a".toList, .placeholder "y".toList],
        List.cons_ne_nil _ _⟩ (by decide) (by decide)
  constructor
  · exact (hiff "/{x}/{y}" ⟨true, false, [.placeholder "x".toList, .placeholder "y".toList],
      List.cons_ne_nil _ _⟩ (by decide) (by decide) (by decide)).mpr (by decide)
  · exact mt (hiff "/a/b" ⟨true, false, [.literal "a".toList, .literal "b".toList],
      List.cons_ne_nil _ _⟩ (by decide) (by decide) (by decide)).mp (by decide)

end RequestRouterBuilder

end XenonExt
