import HivenetRouter.Framework.Go

/-!
# Aliases and profiles

The `alias` and `profile` blocks of a policy document, and `validateAlias`, which the loader
runs on an alias: it fills in the defaults, parses the durations, and rejects what it cannot
use. A `LoadedAlias` is a specification that it has accepted; `LoadedAlias.routes_ne_nil` and
`LoadedAlias.model_ne_empty` are what the resolver relies on.

Floating-point numbers are those of a `GoFloat`, and the functions of `time`, `strings` and
`fmt` that the loader calls are those of a `Std`.
-/

namespace HivenetRouter.Policy

open List

variable {F : Type}

/-- `ModelCapabilities`: `none` is unknown. -/
structure ModelCapabilities where
  toolCalling : Option Bool := none
  structuredOutput : Option Bool := none
  vision : Option Bool := none
  reasoning : Option Bool := none

structure ModelProfile (F : Type) where
  contextWindow : ℤ
  paramsB : F
  activeParamsB : F
  capabilities : ModelCapabilities

/-- `SizeB`; a model without a profile has size 0. -/
def ModelProfile.sizeB (fl : GoFloat F) : Option (ModelProfile F) → F
  | none => fl.lit 0
  | some p => if fl.lt (fl.lit 0) p.activeParamsB then p.activeParamsB else p.paramsB

structure SignalRule (F : Type) where
  feature : String := ""
  keywords : List String := []
  gte : Option F := none
  lte : Option F := none
  weight : F

structure Candidate where
  model : String

/-- `Route`; `pinDuration` is the parsed `pinTTL`, in nanoseconds. -/
structure Route (F : Type) where
  name : String
  pinTask : Bool := false
  pinTTL : String := ""
  prefer : String := ""
  signals : List (SignalRule F) := []
  minScore : F
  candidates : List Candidate
  pinDuration : ℤ := 0

/-- The names of the models that the route may resolve to. -/
def Route.models (r : Route F) : List String := r.candidates.map Candidate.model

/-- `AliasSpec`; `pinMaxAgeDuration` and `affinityDuration` are the parsed `pinMaxAge` and
`affinityTTL`. -/
structure AliasSpec (F : Type) where
  defaultRoute : String
  abstainBelow : F
  contextBuffer : F
  recentTurns : ℤ
  stripMarkers : Option (List String)
  pinMaxAge : String := ""
  affinityTTL : String := ""
  affinityMargin : F
  routes : List (Route F)
  pinMaxAgeDuration : ℤ := 0
  affinityDuration : ℤ := 0

/-- The models that some route of the alias may resolve to. -/
def AliasSpec.models (a : AliasSpec F) : List String := a.routes.flatMap Route.models

/-- What the loader uses of the standard library. -/
structure Std (F : Type) where
  float : GoFloat F
  /-- `time.ParseDuration`, in nanoseconds; `none` is an error. -/
  parseDuration : String → Option ℤ
  trimSpace : String → String
  toLower : String → String
  /-- The verbs `%q` and `%g`. -/
  quote : String → String
  formatG : F → String

/-- `knownSignalFeatures`, sorted. -/
def knownSignalFeatures : List String :=
  ["assistant_tool_call_turns", "code_presence", "estimated_input_tokens", "has_tools",
    "image_count", "math_presence", "message_count", "needs_reasoning",
    "needs_structured_output", "request_bytes", "stack_trace", "system_prompt_bytes",
    "tool_count", "tool_error_count", "tool_result_turns", "turn_count"]

/-- `defaultPinTTL`, 30 minutes. -/
def defaultPinTTL : ℤ := 30 * 60 * 1000000000

/-- `defaultPinMaxAge`, 4 hours. -/
def defaultPinMaxAge : ℤ := 4 * 3600 * 1000000000

def defaultAffinityMargin : ℚ := 2 / 10

def weightSumTolerance : ℚ := 1 / 1000000

section Validate

variable (std : Std F)

/-- The statement `if bad { return fmt.Errorf(...) }`. -/
def reject (bad : Bool) (msg : String) : Except String Unit := if bad then .error msg else .ok ()

/-- A duration that is positive when it is given. -/
def duration (given : Bool) (s : String) (default : ℤ) (msg : String) : Except String ℤ :=
  if given then
    match std.parseDuration s with
    | some d => if d ≤ 0 then .error msg else .ok d
    | none => .error msg
  else .ok default

def validateSignal (route : String) (i : ℕ) (s : SignalRule F) : Except String Unit := do
  let at_ := "policy: route " ++ std.quote route ++ ": signals[" ++ toString i ++ "]: "
  let hasFeature := s.feature ≠ ""
  let hasKeywords := s.keywords ≠ []
  reject (hasFeature ↔ hasKeywords) (at_ ++ "set exactly one of feature or keywords")
  reject (std.float.lt s.weight (std.float.lit 0)) (at_ ++ "weight must be >= 0")
  if hasKeywords then
    reject (s.gte.isSome || s.lte.isSome) (at_ ++ "gte/lte apply to features, not keywords")
    reject (s.keywords.any fun k => std.trimSpace k = "") (at_ ++ "empty keyword")
  else
    reject (s.feature ∉ knownSignalFeatures) (at_ ++ "unknown feature " ++ std.quote s.feature ++
      " — supported: " ++ ", ".intercalate knownSignalFeatures)
    match s.gte, s.lte with
    | some gte, some lte =>
      reject (std.float.lt lte gte)
        (at_ ++ "gte (" ++ std.formatG gte ++ ") > lte (" ++ std.formatG lte ++ ")")
    | _, _ => pure ()

/-- The signals of a route, from the `k`-th: their keywords are normalised. -/
def validateSignals (route : String) : ℕ → List (SignalRule F) → Except String (List (SignalRule F))
  | _, [] => .ok []
  | k, s :: signals => do
    validateSignal std route k s
    let signals ← validateSignals route (k + 1) signals
    pure ({ s with keywords := s.keywords.map fun w => std.toLower (std.trimSpace w) } :: signals)

/-- The candidates of a route, from the `j`-th. -/
def validateCandidates (route : String) (aliasNames : List String) :
    ℕ → List Candidate → Except String Unit
  | _, [] => .ok ()
  | j, c :: candidates => do
    reject (c.model = "") ("policy: route " ++ std.quote route ++ ": candidates[" ++ toString j ++
      "].model is required")
    reject (c.model ∈ aliasNames) ("policy: route " ++ std.quote route ++ ": candidate " ++
      std.quote c.model ++ " is an alias; candidates must be concrete models")
    validateCandidates route aliasNames (j + 1) candidates

/-- The body of the loop over the routes, for the `i`-th; `seen` are the names of the routes
before it. -/
def validateRoute (aliasNames seen : List String) (i : ℕ) (r : Route F) :
    Except String (Route F) := do
  let fl := std.float
  reject (r.name = "") ("policy: alias.routes[" ++ toString i ++ "]: name is required")
  reject (r.name ∈ seen) ("policy: alias.routes: duplicate route name " ++ std.quote r.name)
  let at_ := "policy: route " ++ std.quote r.name ++ ": "
  reject r.candidates.isEmpty (at_ ++ "candidates must list at least one model")
  validateCandidates std r.name aliasNames 0 r.candidates
  reject (r.prefer ∉ ["", "order", "smallest", "largest"]) (at_ ++ "unknown prefer " ++
    std.quote r.prefer ++ " — supported: order, smallest, largest")
  let pinDuration ← duration std (r.pinTTL ≠ "") r.pinTTL (if r.pinTask then defaultPinTTL else 0)
    (at_ ++ "invalid pin_ttl " ++ std.quote r.pinTTL)
  reject (fl.lt r.minScore (fl.lit 0) || fl.lt (fl.lit 1) r.minScore)
    (at_ ++ "min_score must be in [0,1], got " ++ std.formatG r.minScore)
  let weights := r.signals.foldl (fun total sig => fl.add total sig.weight) (fl.lit 0)
  reject (!r.signals.isEmpty &&
      fl.lt (fl.lit weightSumTolerance) (fl.abs (fl.sub weights (fl.lit 1))))
    (at_ ++ "signal weights must sum to 1, got " ++ std.formatG weights)
  let signals ← validateSignals std r.name 0 r.signals
  pure { r with pinDuration, signals }

/-- The loop over the routes, from the `i`-th. -/
def validateRoutes (aliasNames : List String) : List String → ℕ → List (Route F) →
    Except String (List (Route F))
  | _, _, [] => .ok []
  | seen, i, r :: routes => do
    let r ← validateRoute std aliasNames seen i r
    let routes ← validateRoutes aliasNames (r.name :: seen) (i + 1) routes
    pure (r :: routes)

/-- What `validateAlias` does before it comes to the routes. -/
def validateSettings (a : AliasSpec F) : Except String (AliasSpec F) := do
  let fl := std.float
  reject a.routes.isEmpty "policy: alias.routes must declare at least one route"
  reject (fl.lt a.abstainBelow (fl.lit 0) || fl.lt (fl.lit 1) a.abstainBelow)
    ("policy: alias.abstain_below must be in [0,1], got " ++ std.formatG a.abstainBelow)
  let contextBuffer := if fl.eq a.contextBuffer (fl.lit 0) then fl.lit (95 / 100)
    else a.contextBuffer
  reject (fl.lt contextBuffer (fl.lit 0) || fl.lt (fl.lit 1) contextBuffer)
    ("policy: alias.context_buffer must be in (0,1], got " ++ std.formatG contextBuffer)
  let recentTurns := if a.recentTurns = 0 then 3 else a.recentTurns
  reject (recentTurns < 0) ("policy: alias.recent_turns must be >= 0, got " ++ toString recentTurns)
  let stripMarkers := a.stripMarkers.getD ["<system-reminder>", "</system-reminder>"]
  reject (stripMarkers.length % 2 ≠ 0)
    ("policy: alias.strip_markers must list open/close pairs (even count), got " ++
      toString stripMarkers.length)
  reject ("" ∈ stripMarkers)
    ("policy: alias.strip_markers[" ++ toString (stripMarkers.idxOf "") ++ "] is empty")
  let affinityDuration ← duration std (a.affinityTTL ≠ "" ∧ a.affinityTTL ≠ "0") a.affinityTTL 0
    ("policy: alias.affinity_ttl: invalid duration " ++ std.quote a.affinityTTL)
  let affinityMargin := if fl.eq a.affinityMargin (fl.lit 0) then fl.lit defaultAffinityMargin
    else a.affinityMargin
  reject (fl.lt affinityMargin (fl.lit 0) || fl.lt (fl.lit 1) affinityMargin)
    ("policy: alias.affinity_margin must be in (0,1], got " ++ std.formatG affinityMargin)
  let pinMaxAgeDuration ← duration std (a.pinMaxAge ≠ "") a.pinMaxAge defaultPinMaxAge
    ("policy: alias.pin_max_age: invalid duration " ++ std.quote a.pinMaxAge)
  pure { a with
    contextBuffer, recentTurns, affinityDuration, affinityMargin, pinMaxAgeDuration,
    stripMarkers := some stripMarkers }

def validateAlias (a : AliasSpec F) (aliasNames : List String) : Except String (AliasSpec F) := do
  let a ← validateSettings std a
  let routes ← validateRoutes std aliasNames [] 0 a.routes
  reject (a.defaultRoute = "") "policy: alias.default_route is required"
  reject (a.defaultRoute ∉ routes.map Route.name) ("policy: alias.default_route " ++
    std.quote a.defaultRoute ++ " is not one of the declared routes")
  pure { a with routes }

/-! ### What the loader accepts -/

variable {std : Std F} {aliasNames : List String}

theorem reject_eq_ok {bad : Bool} {msg : String} {u : Unit} :
    reject bad msg = .ok u ↔ bad = false := by
  unfold reject
  split_ifs with h
  · exact iff_of_false nofun (by rw [h]; exact nofun)
  · exact iff_of_true rfl (Bool.eq_false_iff.mpr h)

theorem validateCandidates_eq_ok {route : String} {j : ℕ} {candidates : List Candidate} {u : Unit}
    (h : validateCandidates std route aliasNames j candidates = .ok u) :
    ∀ c ∈ candidates, c.model ≠ "" := by
  induction candidates generalizing j with
  | nil => exact fun c hc => absurd hc not_mem_nil
  | cons c candidates ih =>
    obtain ⟨_, hmodel, h⟩ := bind_eq_ok.mp h
    obtain ⟨_, -, h⟩ := bind_eq_ok.mp h
    exact forall_mem_cons.mpr ⟨of_decide_eq_false (reject_eq_ok.mp hmodel), ih h⟩

/-- A route that is accepted keeps its name and its candidates. -/
structure Route.Accepted (seen : List String) (r r' : Route F) : Prop where
  name : r'.name = r.name
  fresh : r'.name ∉ seen
  models_ne_nil : r'.models ≠ []
  model_ne_empty : ∀ m ∈ r'.models, m ≠ ""

theorem validateRoute_eq_ok {seen : List String} {i : ℕ} {r r' : Route F}
    (h : validateRoute std aliasNames seen i r = .ok r') : r.Accepted seen r' := by
  obtain ⟨_, -, h⟩ := bind_eq_ok.mp h
  obtain ⟨_, hseen, h⟩ := bind_eq_ok.mp h
  obtain ⟨_, hnil, h⟩ := bind_eq_ok.mp h
  obtain ⟨_, hcandidates, h⟩ := bind_eq_ok.mp h
  iterate 5 obtain ⟨_, -, h⟩ := bind_eq_ok.mp h
  cases h
  refine ⟨rfl, of_decide_eq_false (reject_eq_ok.mp hseen), ?_, ?_⟩
  · intro hmodels
    have hempty := reject_eq_ok.mp hnil
    rw [map_eq_nil_iff.mp hmodels] at hempty
    cases hempty
  · intro m hm
    obtain ⟨c, hc, rfl⟩ := mem_map.mp hm
    exact validateCandidates_eq_ok hcandidates c hc

/-- The routes that are accepted have names that are all different, and candidates. -/
structure RoutesAccepted (seen : List String) (routes : List (Route F)) : Prop where
  nodup : (routes.map Route.name).Nodup
  fresh : ∀ r ∈ routes, r.name ∉ seen
  models_ne_nil : ∀ r ∈ routes, r.models ≠ []
  model_ne_empty : ∀ r ∈ routes, ∀ m ∈ r.models, m ≠ ""

theorem validateRoutes_eq_ok : ∀ {routes routes' : List (Route F)} {seen : List String} {i : ℕ},
      validateRoutes std aliasNames seen i routes = .ok routes' →
        RoutesAccepted seen routes' ∧ routes'.length = routes.length := by
  intro routes
  induction routes with
  | nil =>
    intro routes' seen i h
    cases h
    exact ⟨⟨nodup_nil, nofun, nofun, nofun⟩, rfl⟩
  | cons r routes ih =>
    intro routes' seen i h
    obtain ⟨r', hr, h⟩ := bind_eq_ok.mp h
    obtain ⟨rest, hrest, h⟩ := bind_eq_ok.mp h
    cases h
    have haccepted := validateRoute_eq_ok hr
    obtain ⟨hrest, hlength⟩ := ih hrest
    refine ⟨⟨?_, ?_, ?_, ?_⟩, congrArg Nat.succ hlength⟩
    · -- the later routes were checked against the names before them
      refine nodup_cons.mpr ⟨fun hmem => ?_, hrest.nodup⟩
      obtain ⟨s, hs, hname⟩ := mem_map.mp hmem
      exact hrest.fresh s hs (hname ▸ mem_cons_self)
    · exact forall_mem_cons.mpr ⟨haccepted.fresh, fun s hs hmem =>
        hrest.fresh s hs (mem_cons_of_mem _ hmem)⟩
    · exact forall_mem_cons.mpr ⟨haccepted.models_ne_nil, hrest.models_ne_nil⟩
    · exact forall_mem_cons.mpr ⟨haccepted.model_ne_empty, hrest.model_ne_empty⟩

theorem validateSettings_eq_ok {a a' : AliasSpec F} (h : validateSettings std a = .ok a') :
    a'.routes ≠ [] := by
  obtain ⟨_, hroutes, h⟩ := bind_eq_ok.mp h
  iterate 8 obtain ⟨_, -, h⟩ := bind_eq_ok.mp h
  cases h
  exact isEmpty_eq_false_iff.mp (reject_eq_ok.mp hroutes)

end Validate

/-- An alias that the loader has accepted, with the names of its document. -/
structure LoadedAlias (std : Std F) where
  names : List String
  source : AliasSpec F
  spec : AliasSpec F
  accepted : validateAlias std source names = .ok spec

namespace LoadedAlias

variable {std : Std F} (a : LoadedAlias std)

theorem routesAccepted : RoutesAccepted [] a.spec.routes ∧ a.spec.routes ≠ [] := by
  obtain ⟨settings, hsettings, h⟩ := bind_eq_ok.mp a.accepted
  obtain ⟨routes, hroutes, h⟩ := bind_eq_ok.mp h
  obtain ⟨_, -, h⟩ := bind_eq_ok.mp h
  obtain ⟨_, -, h⟩ := bind_eq_ok.mp h
  obtain ⟨haccepted, hlength⟩ := validateRoutes_eq_ok hroutes
  rw [← Except.ok.inj h]
  refine ⟨haccepted, fun hnil => validateSettings_eq_ok hsettings ?_⟩
  replace hnil : routes = [] := hnil
  rw [hnil] at hlength
  exact eq_nil_of_length_eq_zero hlength.symm

theorem routes_ne_nil : a.spec.routes ≠ [] := a.routesAccepted.2

theorem model_ne_empty {m : String} (hm : m ∈ a.spec.models) : m ≠ "" := by
  obtain ⟨r, hr, hm⟩ := mem_flatMap.mp hm
  exact a.routesAccepted.1.model_ne_empty r hr m hm

theorem models_ne_nil : a.spec.models ≠ [] := by
  obtain ⟨r, hr⟩ := exists_mem_of_ne_nil _ a.routes_ne_nil
  obtain ⟨m, hm⟩ := exists_mem_of_ne_nil _ (a.routesAccepted.1.models_ne_nil r hr)
  exact ne_nil_of_mem (mem_flatMap.mpr ⟨r, hr, hm⟩)

end LoadedAlias

end HivenetRouter.Policy
