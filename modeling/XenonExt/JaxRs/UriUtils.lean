import XenonExt.Java.Split

/-! # URIs

Xenon's `UriUtils` takes paths apart and puts them together. Its functions are parameters of the
model.

* **`UriUtils`**: the functions that the code calls.
* **`UriUtils.Lawful`**: what the code relies on.
* **`UriUtils.documented`**: functions that behave so, for paths and queries without escapes. -/

namespace XenonExt

/-- A URI: everything before the path, the path and the query. -/
structure Uri where
  authority : Str
  path : Str
  query : JString
  deriving DecidableEq

/-- `UriUtils.URI_PATH_CHAR`. -/
abbrev uriPathChar : Char := '/'

/-- The functions of `UriUtils`. `buildUriPath` is called with two segments; `parseUriQueryParams`
gives the values of a map, or `none` when it throws. -/
structure UriUtils where
  normalizeUriPath : Str → Str
  buildUriPath : Str → JString → Str
  extendUri : Uri → JString → Uri
  extendUriWithQuery : Uri → List Str → Uri
  parseUriQueryParams : Uri → Option (Str → JString)

/-- The unreserved characters of a URI. -/
def unreserved (c : Char) : Prop := c.isAlphanum ∨ c = '-' ∨ c = '.' ∨ c = '_' ∨ c = '~'

instance (c : Char) : Decidable (unreserved c) := by
  unfold unreserved
  infer_instance

/-- A non-empty string of unreserved characters. -/
def Unreserved (s : Str) : Prop := s ≠ [] ∧ ∀ c ∈ s, unreserved c

instance (s : Str) : Decidable (Unreserved s) :=
  @instDecidableAnd _ _ inferInstance (List.decidableBAll unreserved s)

/-- A character that is reserved does not occur in a string of unreserved characters. -/
theorem Unreserved.not_mem {s : Str} (h : Unreserved s) {c : Char} (hc : ¬ unreserved c) : c ∉ s :=
  fun hmem => hc (h.2 c hmem)

/-- A path with one slash at the end dropped and a missing slash in front added. -/
def normalized (path : Str) : Str :=
  if path = [] then []
  else
    let path := if path.getLast? = some uriPathChar then path.dropLast else path
    if path.head? = some uriPathChar then path else uriPathChar :: path

/-- The keys and values of a query, one after the other. -/
def keyValues (pairs : List (Str × Str)) : List Str := pairs.flatMap fun p => [p.1, p.2]

/-- What the code relies on: how paths are joined, and that the parameters written to a query are
read back. The segments for which `resolved` holds may be resolved when a URI is built, as `..` is by
`URI.normalize`. -/
structure UriUtils.Lawful (u : UriUtils) (resolved : Str → Prop) : Prop where
  not_resolved_nil : ¬ resolved []
  normalizeUriPath_eq : ∀ path, u.normalizeUriPath path = normalized path
  buildUriPath_eq : ∀ path segment,
    u.buildUriPath path segment = normalized path ++ (segment.map normalized).getD []
  extendUri_path : ∀ uri segment, (∀ s ∈ segment, ∀ c ∈ s, unreserved c ∨ c = uriPathChar) →
    (∀ s ∈ split uriPathChar (u.buildUriPath uri.path segment), ¬ resolved s) →
      (u.extendUri uri segment).path = u.buildUriPath uri.path segment
  extendUri_query : ∀ uri segment, (∀ s ∈ segment, ∀ c ∈ s, unreserved c ∨ c = uriPathChar) →
    uri.query = none → (u.extendUri uri segment).query = none
  extendUriWithQuery_path : ∀ uri keyValues, normalized uri.path = uri.path →
    (∀ s ∈ split uriPathChar uri.path, ¬ resolved s) →
      (u.extendUriWithQuery uri keyValues).path = uri.path
  parse_extendUriWithQuery : ∀ uri pairs, uri.query = none →
    (∀ p ∈ pairs, Unreserved p.1 ∧ Unreserved p.2) → (pairs.map Prod.fst).Nodup →
      ∃ params, u.parseUriQueryParams (u.extendUriWithQuery uri (keyValues pairs)) = some params ∧
        ∀ name, params name = pairs.lookup name

/-! ## Paths of segments -/

variable {segments : List Str}

/-- A text of segments does not end in a slash. -/
theorem getLast?_rooted_ne (hsep : ∀ s ∈ segments, uriPathChar ∉ s) (hne : ∀ s ∈ segments, s ≠ []) :
    (rooted uriPathChar segments).getLast? ≠ some uriPathChar := by
  rcases List.eq_nil_or_concat' segments with rfl | ⟨init, last, rfl⟩
  · exact (Option.some_ne_none _).symm
  · have hlast : last ∈ init ++ [last] := List.mem_concat_self
    obtain ⟨init', c, rfl⟩ := (List.eq_nil_or_concat' last).resolve_left (hne _ hlast)
    rw [rooted_append, rooted_cons, rooted_nil, List.append_nil, ← List.cons_append,
      ← List.append_assoc, List.getLast?_concat]
    intro h
    exact hsep _ hlast (Option.some.inj h ▸ List.mem_concat_self)

/-- A text without a slash at the end keeps its end. -/
theorem normalized_eq {path : Str} (hnil : path ≠ []) (hlast : path.getLast? ≠ some uriPathChar) :
    normalized path = if path.head? = some uriPathChar then path else uriPathChar :: path := by
  simp only [normalized, if_neg hnil, if_neg hlast]

/-- A slash at the end is dropped. -/
theorem normalized_concat {path : Str} (hnil : path ≠ [])
    (hlast : path.getLast? ≠ some uriPathChar) :
    normalized (path ++ [uriPathChar]) = normalized path := by
  rw [normalized_eq hnil hlast, normalized, if_neg (List.concat_ne_nil _ _), List.getLast?_concat]
  simp only [if_true, List.dropLast_concat]

/-- A text of segments is as Xenon normalizes it. -/
theorem normalized_rooted (hsep : ∀ s ∈ segments, uriPathChar ∉ s)
    (hne : ∀ s ∈ segments, s ≠ []) :
    normalized (rooted uriPathChar segments) = rooted uriPathChar segments := by
  cases segments with
  | nil => rfl
  | cons s segments =>
      have hnil : rooted uriPathChar (s :: segments) ≠ [] := List.cons_ne_nil _ _
      rw [normalized_eq hnil (getLast?_rooted_ne hsep hne)]
      rfl

/-- A missing slash in front is added. -/
theorem normalized_tail_rooted (hsep : ∀ s ∈ segments, uriPathChar ∉ s)
    (hne : ∀ s ∈ segments, s ≠ []) :
    normalized (rooted uriPathChar segments).tail = rooted uriPathChar segments := by
  cases segments with
  | nil => rfl
  | cons s segments =>
      obtain ⟨c, s, rfl⟩ := List.exists_cons_of_ne_nil (hne s List.mem_cons_self)
      have hc : c ≠ uriPathChar := fun h => hsep _ List.mem_cons_self (h ▸ List.mem_cons_self)
      have hlast := getLast?_rooted_ne hsep hne
      rw [rooted_cons, List.cons_append, List.cons_append, List.getLast?_cons_cons] at hlast
      rw [rooted_cons, List.cons_append, List.tail_cons, List.cons_append,
        normalized_eq (List.cons_ne_nil _ _) hlast, List.head?_cons,
        if_neg fun h => hc (Option.some.inj h)]

/-- Normalizing drops slashes only. -/
theorem mem_normalized {path : Str} {c : Char} (hc : c ∈ path) (hslash : c ≠ uriPathChar) :
    c ∈ normalized path := by
  have hdropped : c ∈ if path.getLast? = some uriPathChar then path.dropLast else path := by
    split
    · rename_i hlast
      rw [← List.dropLast_append_getLast? _ hlast] at hc
      exact (List.mem_append.mp hc).resolve_right fun h => hslash (List.mem_singleton.mp h)
    · exact hc
  have hled : ∀ path : Str, c ∈ path →
      c ∈ if path.head? = some uriPathChar then path else uriPathChar :: path := by
    intro path hc
    split
    · exact hc
    · exact List.mem_cons_of_mem _ hc
  rw [normalized, if_neg (List.ne_nil_of_mem hc)]
  exact hled _ hdropped

/-! ## Functions that behave as documented -/

/-- A parameter as it stands in a query. -/
def parameterText (p : Str × Str) : Str := p.1 ++ '=' :: p.2

/-- The text of a query: its parameters, separated by ampersands. -/
def queryText (pairs : List (Str × Str)) : Str := ['&'].intercalate (pairs.map parameterText)

/-- The keys and the values of an array that holds them one after the other. -/
def pairsOf : List Str → List (Str × Str)
  | key :: value :: rest => (key, value) :: pairsOf rest
  | _ => []

/-- The parameters in the text of a query. -/
def queryPairs (query : Str) : List (Str × Str) :=
  (query.splitOn '&').map fun field =>
    (field.takeWhile (· ≠ '='), (field.dropWhile (· ≠ '=')).tail)

namespace UriUtils

/-- `UriUtils` for paths and queries that need no escapes. -/
def documented : UriUtils where
  normalizeUriPath := normalized
  buildUriPath path segment := normalized path ++ (segment.map normalized).getD []
  extendUri uri segment :=
    { uri with path := normalized uri.path ++ (segment.map normalized).getD [] }
  extendUriWithQuery uri keyValues :=
    if keyValues = [] then uri
    else { uri with query := some ((uri.query.map (· ++ ['&'])).getD [] ++
      queryText (pairsOf keyValues)) }
  parseUriQueryParams uri :=
    some fun name => ((uri.query.map queryPairs).getD []).lookup name

end UriUtils

@[simp] theorem pairsOf_keyValues (pairs : List (Str × Str)) : pairsOf (keyValues pairs) = pairs := by
  induction pairs with
  | nil => rfl
  | cons p pairs ih => exact congrArg (p :: ·) ih

/-- The text of a query gives parameters back in which its separators do not occur. -/
theorem queryPairs_of_not_mem {pairs : List (Str × Str)} (hne : pairs ≠ [])
    (h : ∀ p ∈ pairs, '&' ∉ p.1 ∧ '=' ∉ p.1 ∧ '&' ∉ p.2) : queryPairs (queryText pairs) = pairs := by
  have hsep : ∀ field ∈ pairs.map parameterText, '&' ∉ field := by
    intro field hfield
    obtain ⟨p, hp, rfl⟩ := List.mem_map.mp hfield
    simp [parameterText, (h p hp).1, (h p hp).2.2]
  rw [queryPairs, queryText, List.splitOn_intercalate '&' hsep (by simpa using hne), List.map_map]
  refine (List.map_congr_left fun p hp => ?_).trans (List.map_id pairs)
  have hkey : ∀ c ∈ p.1, (c ≠ '=') := fun c hc he => (h p hp).2.1 (he ▸ hc)
  have htake : (parameterText p).takeWhile (· ≠ '=') = p.1 := by
    rw [parameterText, List.takeWhile_append_of_pos (by simpa using hkey)]
    simp
  have hdrop : (parameterText p).dropWhile (· ≠ '=') = '=' :: p.2 := by
    rw [parameterText, List.dropWhile_append_of_pos (by simpa using hkey)]
    simp
  simp only [Function.comp, htake, hdrop, List.tail_cons, id]

/-- The text of a query gives its parameters back. -/
theorem queryPairs_queryText {pairs : List (Str × Str)} (hne : pairs ≠ [])
    (h : ∀ p ∈ pairs, Unreserved p.1 ∧ Unreserved p.2) : queryPairs (queryText pairs) = pairs :=
  queryPairs_of_not_mem hne fun p hp => ⟨(h p hp).1.not_mem (by decide),
    (h p hp).1.not_mem (by decide), (h p hp).2.not_mem (by decide)⟩

/-- **The documented functions are what the code relies on**; they resolve no segments. -/
theorem UriUtils.documented_lawful : documented.Lawful fun _ => False where
  not_resolved_nil := not_false
  normalizeUriPath_eq _ := rfl
  buildUriPath_eq _ _ := rfl
  extendUri_path _ _ _ _ := rfl
  extendUri_query _ _ _ hquery := hquery
  extendUriWithQuery_path uri keyValues _ _ := by
    simp only [documented]
    split <;> rfl
  parse_extendUriWithQuery uri pairs hquery hpairs _ := by
    refine ⟨fun name => pairs.lookup name, ?_, fun _ => rfl⟩
    cases pairs with
    | nil => simp [documented, keyValues, hquery]
    | cons p pairs =>
        have hne : keyValues (p :: pairs) ≠ [] := List.cons_ne_nil _ _
        simp only [documented, if_neg hne, hquery, pairsOf_keyValues, Option.map_none,
          Option.getD_none, List.nil_append, Option.map_some, Option.getD_some,
          queryPairs_queryText (List.cons_ne_nil p pairs) hpairs]

/-! ## Paths with other characters -/

/-- **How Xenon extends a URI, whatever the characters**: the path is appended as it is, and the query
has nothing to do with the path. `Lawful` promises the path for segments that need no escapes and are
not resolved only, and says what is read of a query, not what it depends on; what is sent to another
host is read off `Lawful`, and what a path does to the rest of a request off these laws. -/
structure UriUtils.AppendsPaths (u : UriUtils) : Prop where
  extendUri_path : ∀ uri segment,
    (u.extendUri uri segment).path = normalized uri.path ++ (segment.map normalized).getD []
  extendUri_query : ∀ uri segment, (u.extendUri uri segment).query = uri.query
  extendUriWithQuery_path : ∀ uri keyValues, (u.extendUriWithQuery uri keyValues).path = uri.path
  extendUriWithQuery_query : ∀ uri uri' keyValues, uri.query = uri'.query →
    (u.extendUriWithQuery uri keyValues).query = (u.extendUriWithQuery uri' keyValues).query
  parseUriQueryParams_congr : ∀ uri uri', uri.query = uri'.query →
    u.parseUriQueryParams uri = u.parseUriQueryParams uri'

/-- The documented functions do so. -/
theorem UriUtils.documented_appendsPaths : documented.AppendsPaths where
  extendUri_path _ _ := rfl
  extendUri_query _ _ := rfl
  extendUriWithQuery_path uri keyValues := by
    simp only [documented]
    split <;> rfl
  extendUriWithQuery_query uri uri' keyValues hquery := by
    simp only [documented, hquery]
    split <;> simp [hquery]
  parseUriQueryParams_congr uri uri' hquery := by simp only [documented, hquery]

/-- **Colons in a path**: what the code relies on for segments with colons, which need no escapes and
are not resolved. -/
structure UriUtils.KeepsColons (u : UriUtils) (resolved : Str → Prop) : Prop where
  extendUri_path : ∀ uri segment, (∀ s ∈ segment, ∀ c ∈ s, unreserved c ∨ c = uriPathChar ∨ c = ':') →
    (∀ s ∈ split uriPathChar (u.buildUriPath uri.path segment), ¬ resolved s) →
      (u.extendUri uri segment).path = u.buildUriPath uri.path segment
  not_resolved : ∀ s, ':' ∈ s → ¬ resolved s

/-- Where all paths are appended as they are, colons are kept. -/
theorem UriUtils.AppendsPaths.keepsColons {u : UriUtils} {resolved : Str → Prop}
    (h : u.AppendsPaths) (hu : u.Lawful resolved) (hresolved : ∀ s, ':' ∈ s → ¬ resolved s) :
    u.KeepsColons resolved where
  extendUri_path uri segment _ _ := by rw [h.extendUri_path, hu.buildUriPath_eq]
  not_resolved := hresolved

/-- The documented functions keep colons. -/
theorem UriUtils.documented_keepsColons : documented.KeepsColons fun _ => False :=
  documented_appendsPaths.keepsColons documented_lawful fun _ _ => not_false

end XenonExt
