import XenonExt.Util.HttpError

/-! # Errors relayed through services

A service that decodes the error response of another one and fails with the decoded error answers
with a response of its own.

* **`relay`**: one such hop; **`relays`**: several.
* **`relay_spec`**: every level keeps its code, message and stack trace, and becomes an `HttpError`.
* **`relays_sameLevels_iff`**: the classes survive exactly when they all were `HttpError`. -/

namespace XenonExt

variable {O : Type}

namespace HttpError

/-- Errors are compared as objects; an error differs from every error below it. -/
instance decEq [DecidableEq O] : DecidableEq (HttpError O)
  | ⟨fields, message, none, stackTrace⟩, ⟨fields', message', none, stackTrace'⟩ =>
    decidable_of_iff (fields = fields' ∧ message = message' ∧ stackTrace = stackTrace') (by simp)
  | ⟨fields, message, some cause, stackTrace⟩, ⟨fields', message', some cause', stackTrace'⟩ =>
    have := decEq cause cause'
    decidable_of_iff
      (fields = fields' ∧ message = message' ∧ cause = cause' ∧ stackTrace = stackTrace') (by simp)
  | ⟨_, _, none, _⟩, ⟨_, _, some _, _⟩ => isFalse (by simp)
  | ⟨_, _, some _, _⟩, ⟨_, _, none, _⟩ => isFalse (by simp)

/-- An `HttpError` as a `Throwable`. -/
def toThrowable (error : HttpError O) : ThrowableObject (HttpError O) O where
  typeName := typeName
  throwableClass := .httpError error.fields
  message := error.message
  cause := error.cause
  stackTrace := error.stackTrace

end HttpError

namespace HttpErrorResponse

variable {E : Type} {rsp rsp' : HttpErrorResponse O}

/-- A response says the name of the class of its throwable. -/
theorem Describes.type {t : ThrowableObject E O} (h : Describes t rsp) :
    rsp.type = some t.typeName := by
  obtain ⟨cause, rfl⟩ := h
  rw [response]
  cases t.throwableClass <;> rfl

/-- A response has the stack trace of its throwable. -/
theorem Describes.stackTraceElements {t : ThrowableObject E O} (h : Describes t rsp) :
    rsp.stackTraceElements = some t.stackTrace := by
  obtain ⟨cause, rfl⟩ := h
  rw [response]
  cases t.throwableClass <;> rfl

/-! ## Hops -/

/-- The same error code, message, stack trace elements and type. -/
structure SameLevel (rsp rsp' : HttpErrorResponse O) : Prop where
  errorCode : rsp'.errorCode = rsp.errorCode
  message : rsp'.message = rsp.message
  stackTraceElements : rsp'.stackTraceElements = rsp.stackTraceElements
  type : rsp'.type = rsp.type

/-- The same at every level of the causes. -/
def SameLevels (rsp rsp' : HttpErrorResponse O) : Prop :=
  ∃ rsps rsps', ChainFrom HttpErrorResponse.cause rsp rsps ∧
    ChainFrom HttpErrorResponse.cause rsp' rsps' ∧ List.Forall₂ SameLevel rsps rsps'

/-- The responses themselves are the first level. -/
theorem SameLevels.type (h : SameLevels rsp rsp') : rsp'.type = rsp.type := by
  obtain ⟨rsps, rsps', hrsps, hrsps', hall⟩ := h
  cases hrsps <;> cases hrsps' <;> cases hall with
  | cons h _ => exact h.type

/-- The responses for the causes are the other levels. -/
theorem SameLevels.cause {c c' : HttpErrorResponse O} (h : SameLevels rsp rsp')
    (hc : rsp.cause = some c) (hc' : rsp'.cause = some c') : SameLevels c c' := by
  obtain ⟨rsps, rsps', hrsps, hrsps', hall⟩ := h
  cases hrsps with
  | last hlast => exact nomatch hlast.symm.trans hc
  | cons hnext hrest =>
      cases hrsps' with
      | last hlast => exact nomatch hlast.symm.trans hc'
      | cons hnext' hrest' =>
          obtain rfl := Option.some.inj (hnext.symm.trans hc)
          obtain rfl := Option.some.inj (hnext'.symm.trans hc')
          cases hall with
          | cons _ hall => exact ⟨_, _, hrest, hrest', hall⟩

/-- What a hop makes of a level. -/
structure Relayed (rsp rsp' : HttpErrorResponse O) : Prop where
  errorCode : rsp'.errorCode = rsp.errorCode
  message : rsp'.message = rsp.message
  stackTraceElements : rsp'.stackTraceElements = rsp.stackTraceElements
  type : rsp'.type = some HttpError.typeName

/-- One level of a hop: the decoder stores the type, and the encoder does not read it. -/
theorem relayed_of_describes (filled : Nat → List StackTraceElement) (depth : Nat)
    (htrace : rsp.stackTraceElements ≠ none)
    (h : Describes (rsp.toError filled depth).toThrowable rsp') : Relayed rsp rsp' := by
  obtain ⟨cause, rfl⟩ := h
  obtain ⟨stackTrace, hsome⟩ := Option.ne_none_iff_exists'.mp htrace
  constructor <;> simp [response, HttpError.toThrowable, hsome]

variable [DecidableEq O]

/-- `HttpErrorResponse.from(rsp.toError())`. -/
def relay (filled : Nat → List StackTraceElement) (stack : Nat) (rsp : HttpErrorResponse O) :
    Except FromFailure (HttpErrorResponse O) :=
  fromThrowable HttpError.toThrowable stack (some (rsp.toError filled 0))

/-- So many hops; the runtime fills in other stack traces at each of them. -/
def relays (filled : Nat → Nat → List StackTraceElement) (stack : Nat) :
    Nat → HttpErrorResponse O → Except FromFailure (HttpErrorResponse O)
  | 0, rsp => .ok rsp
  | hops + 1, rsp => (relays filled stack hops rsp).bind (relay (filled hops) stack)

variable {rsps : List (HttpErrorResponse O)} {stack : Nat}

/-- **One hop**, level by level. -/
theorem relay_spec (filled : Nat → List StackTraceElement)
    (hrsps : ChainFrom HttpErrorResponse.cause rsp rsps) (hstack : rsps.length ≤ stack + 1)
    (htraces : ∀ level ∈ rsps, level.stackTraceElements ≠ none) :
    ∃ rsp' rsps', relay filled stack rsp = .ok rsp' ∧
      ChainFrom HttpErrorResponse.cause rsp' rsps' ∧ List.Forall₂ Relayed rsps rsps' := by
  obtain ⟨errors, herrors, hdecodes⟩ := toError_chain filled 0 hrsps
  have hproper : ChainFrom (properCause HttpError.toThrowable) (rsp.toError filled 0) errors :=
    chainFrom_properCause herrors
  obtain ⟨rsp', hrsp'⟩ := exists_fromThrowable_eq_ok hproper (hdecodes.length_eq ▸ hstack)
  obtain ⟨rsps', hrsps', hdescribes⟩ := fromThrowable_chain hrsp' hproper
  refine ⟨rsp', rsps', hrsp', hrsps', ?_⟩
  refine forall₂_comp hdecodes hdescribes fun level hlevel error level' => ?_
  rintro ⟨depth, rfl⟩ hdescribes
  exact relayed_of_describes filled depth (htraces level hlevel) hdescribes

/-- **Any positive number of hops**, level by level. -/
theorem relays_spec (filled : Nat → Nat → List StackTraceElement)
    (hrsps : ChainFrom HttpErrorResponse.cause rsp rsps) (hstack : rsps.length ≤ stack + 1)
    (htraces : ∀ level ∈ rsps, level.stackTraceElements ≠ none) (hops : Nat) :
    ∃ rsp' rsps', relays filled stack (hops + 1) rsp = .ok rsp' ∧
      ChainFrom HttpErrorResponse.cause rsp' rsps' ∧ List.Forall₂ Relayed rsps rsps' := by
  induction hops with
  | zero => exact relay_spec (filled 0) hrsps hstack htraces
  | succ hops ih =>
      obtain ⟨rsp', rsps', hrsp', hrsps', hrelayed⟩ := ih
      -- what came out of the hops so far is as fit for a hop as the first response
      have htraces' : ∀ level ∈ rsps', level.stackTraceElements ≠ none := by
        intro level' hlevel'
        obtain ⟨level, hlevel, h⟩ := forall₂_exists_right hrelayed.flip hlevel'
        rw [h.stackTraceElements]
        exact htraces level hlevel
      obtain ⟨rsp'', rsps'', hrsp'', hrsps'', hrelayed'⟩ :=
        relay_spec (filled (hops + 1)) hrsps' (hrelayed.length_eq ▸ hstack) htraces'
      refine ⟨rsp'', rsps'', ?_, hrsps'', ?_⟩
      · rw [relays, hrsp']
        exact hrsp''
      · refine forall₂_comp hrelayed hrelayed' fun _ _ _ _ h h' => ?_
        exact ⟨h'.errorCode.trans h.errorCode, h'.message.trans h.message,
          h'.stackTraceElements.trans h.stackTraceElements, h'.type⟩

/-- **Relaying keeps the origin of exactly the errors that are plain `HttpError`s** all the way down:
every hop gives every level the class name of what it decoded. -/
theorem relays_sameLevels_iff [DecidableEq E] (throwables : E → ThrowableObject E O)
    (filled : Nat → Nat → List StackTraceElement) {e : E} {es : List E}
    (hchain : ChainFrom (fun c => (throwables c).cause) e es)
    (h : fromThrowable throwables stack (some e) = .ok rsp) :
    (∀ hops, ∃ rsp', relays filled stack hops rsp = .ok rsp' ∧ SameLevels rsp rsp') ↔
      ∀ c ∈ es, (throwables c).typeName = HttpError.typeName := by
  have hes := chainFrom_properCause hchain
  obtain ⟨rsps, hrsps, hdescribes⟩ := fromThrowable_chain h hes
  have hstack : rsps.length ≤ stack + 1 := by
    have hend := (fromThrowable_isOk_iff stack e).mp ⟨rsp, h⟩
    rw [← hdescribes.length_eq, ← List.getElem?_eq_none_iff]
    exact (hes.follow_eq (stack + 1)).symm.trans hend
  have htraces : ∀ level ∈ rsps, level.stackTraceElements ≠ none := by
    intro level hlevel
    obtain ⟨c, -, hc⟩ := forall₂_exists_right hdescribes.flip hlevel
    rw [Describes.stackTraceElements hc]
    exact Option.some_ne_none _
  constructor
  · intro hsame c hc
    -- one hop already overwrites the types
    obtain ⟨rsp', hrsp', rsps₀, rsps', hrsps₀, hrsps', hall⟩ := hsame 1
    obtain ⟨rsp'', rsps'', hrsp'', hrsps'', hrelayed⟩ := relays_spec filled hrsps hstack htraces 0
    obtain rfl : rsp' = rsp'' := Except.ok.inj (hrsp'.symm.trans hrsp'')
    obtain rfl := hrsps'.unique hrsps''
    obtain rfl := hrsps.unique hrsps₀
    obtain ⟨level, hlevel, hc⟩ := forall₂_exists_right hdescribes hc
    obtain ⟨level', -, hkept, hrelayed⟩ := forall₂_exists_right
      (List.Forall₂.mp (fun _ _ => And.intro) hall hrelayed) hlevel
    have htypes := hkept.type.symm.trans hrelayed.type
    rw [Describes.type hc] at htypes
    exact Option.some.inj htypes
  · intro hnames hops
    cases hops with
    | zero =>
        refine ⟨rsp, rfl, rsps, rsps, hrsps, hrsps, List.forall₂_same.mpr fun level _ => ?_⟩
        exact ⟨rfl, rfl, rfl, rfl⟩
    | succ hops =>
        obtain ⟨rsp', rsps', hrsp', hrsps', hrelayed⟩ := relays_spec filled hrsps hstack htraces hops
        refine ⟨rsp', hrsp', rsps, rsps', hrsps, hrsps', ?_⟩
        have htypes : ∀ level ∈ rsps, level.type = some HttpError.typeName := by
          intro level hlevel
          obtain ⟨c, hc, hdescribed⟩ := forall₂_exists_right hdescribes.flip hlevel
          rw [Describes.type hdescribed, hnames c hc]
        refine ((List.forall₂_and_left rsps rsps').mpr ⟨htypes, hrelayed⟩).imp ?_
        intro level level' ⟨htype, h⟩
        exact ⟨h.errorCode, h.message, h.stackTraceElements, h.type.trans htype.symm⟩

/-- An `HttpError` caused by another one. -/
def missingMember : Bool → ThrowableObject Bool Str
  | caused =>
    { typeName := HttpError.typeName
      throwableClass := .httpError
        { errorCode := if caused then 20410 else 20411
          developerMessage := some "No such member".toList
          context := some []
          originalType := none }
      message := some "No such member".toList
      cause := if caused then some false else none
      stackTrace := [⟨"Members".toList, "find".toList, none, if caused then 12 else 30⟩] }

/-- Errors of the one class keep all they say over any number of hops. -/
theorem relays_sameLevels_missingMember :
    let rsp := response (missingMember true) (some (response (missingMember false) none))
    fromThrowable missingMember 1 (some true) = .ok rsp ∧
      ∀ hops, ∃ rsp', relays (fun _ _ => []) 1 hops rsp = .ok rsp' ∧ SameLevels rsp rsp' := by
  intro rsp
  have hchain : ChainFrom (fun c => (missingMember c).cause) true [true, false] :=
    .cons rfl (.last rfl)
  have hrsp : fromThrowable missingMember 1 (some true) = .ok rsp := rfl
  have hnames : ∀ c ∈ [true, false], (missingMember c).typeName = HttpError.typeName := by decide
  exact ⟨hrsp, (relays_sameLevels_iff missingMember (fun _ _ => []) hchain hrsp).mpr hnames⟩

/-- One hop makes the cause of the wrapped exception an `HttpError`. -/
theorem not_relays_sameLevels_npe :
    ∃ rsp : HttpErrorResponse Str, fromThrowable simulatedNpe 1 (some true) = .ok rsp ∧
      ¬ ∃ rsp', relays (fun _ _ => []) 1 1 rsp = .ok rsp' ∧ SameLevels rsp rsp' := by
  refine ⟨_, rfl, ?_⟩
  rintro ⟨rsp', hrsp', hsame⟩
  obtain rfl := Except.ok.inj hrsp'
  have htype := (hsame.cause rfl rfl).type
  exact absurd (Option.some.inj htype) (by decide)

end HttpErrorResponse

end XenonExt
