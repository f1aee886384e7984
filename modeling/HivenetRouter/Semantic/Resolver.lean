import Mathlib.Order.Lattice.Nat
import HivenetRouter.Policy.AliasSpec
import HivenetRouter.Semantic.PinStore

/-!
# The resolver of semantic aliases

`Resolve` picks a model for a request that names an alias. A live pin of the task comes first,
then the route with the best score or the default route; a conversation may stay with the model
it used last; otherwise the routes are tried one after the other, and in each the candidates in
the order that the route prefers. Whether a model is eligible for the request is checked once
for each model (`eligible` and its memo), and why a candidate is not is recorded in
`filteredOut`.

The signals, the hashes, the keyword search and the functions of the caller are parameters. The
pin store is shared with other requests: `Interference` says what they do to it before each
call that `Resolve` makes, and what the clock reads there.
-/

namespace HivenetRouter.Semantic

open Policy

variable {F : Type}

/-! ### The request -/

structure Message where
  role : String
  text : String
  images : ℤ
  toolCalls : ℤ
  toolResults : ℤ
  toolErrors : ℤ

/-- `RequestView`, as far as the signals and the resolver read it. -/
structure RequestView where
  messages : List Message
  system : String
  firstUserText : String
  endUser : String
  toolCount : ℤ
  structuredOut : Bool
  reasoningAsked : Bool
  requestBytes : ℤ
  maxOutputTokens : ℤ
  /-- An `int`. -/
  maxOutputTokens_fits : Fits64 maxOutputTokens

structure Features (F : Type) where
  values : GoMap String F := ∅
  window : String := ""

namespace Features

/-- The first result of `Value`. -/
def value (fl : GoFloat F) (f : Features F) (name : String) : F :=
  (f.values.lookup name).getD (fl.lit 0)

def set (f : Features F) (name : String) (v : F) : Features F :=
  { f with values := f.values.insert name v }

end Features

/-- `Signal.Extract`, with the recent turns of the options. -/
abbrev Signal (F : Type) := RequestView → ℤ → Features F → Features F

/-- `Env`: a function that is `nil` is `none`. -/
structure Env where
  allowed : Option (String → Bool)
  healthy : Option (String → Bool)
  estimateTokens : Option (String → ℕ)
  keyID : String
  taskHeader : String
  isAlias : Option (String → Bool)
  countOnly : Bool

namespace Env

/-- The caller's key may use the model. -/
def Allows (env : Env) (model : String) : Prop := ∀ allowed ∈ env.allowed, allowed model = true

def Aliases (env : Env) (name : String) : Prop := ∃ isAlias ∈ env.isAlias, isAlias name = true

/-- The model has a healthy agent, as far as the router can tell. -/
def Serves (env : Env) (model : String) : Prop := ∀ healthy ∈ env.healthy, healthy model = true

instance (env : Env) (model : String) : Decidable (env.Allows model) :=
  inferInstanceAs (Decidable (∀ allowed ∈ env.allowed, _))

instance (env : Env) (name : String) : Decidable (env.Aliases name) :=
  inferInstanceAs (Decidable (∃ isAlias ∈ env.isAlias, _))

instance (env : Env) (model : String) : Decidable (env.Serves model) :=
  inferInstanceAs (Decidable (∀ healthy ∈ env.healthy, _))

end Env

/-! ### Eligibility -/

structure Requirements where
  tools : Bool
  vision : Bool
  structured : Bool
  reasoning : Bool
  outputTokens : ℤ

/-- `requirementsOf`, with the reserved output. -/
def requirementsOf (fl : GoFloat F) (f : Features F) (outputTokens : ℤ) : Requirements :=
  let has := fun name => fl.lt (fl.lit 0) (f.value fl name)
  { tools := has "has_tools" || has "tool_result_turns" || has "assistant_tool_call_turns"
    vision := has "image_count"
    structured := has "needs_structured_output"
    reasoning := has "needs_reasoning"
    outputTokens }

abbrev Estimates := GoMap String ℕ

def Estimates.max (e : Estimates) : ℕ := e.keys.sup fun model => (e.lookup model).getD 0

/-- `estimateFor`: each candidate is estimated once. -/
def estimateFor (env : Env) (spec : AliasSpec F) : Estimates :=
  match env.estimateTokens with
  | none => ∅
  | some estimate =>
    spec.models.foldl (fun e model =>
      if (e.lookup model).isSome then e else e.insert model (estimate model)) ∅

def reasonIsAlias : String := "is_alias"
def reasonNotAllowed : String := "not_allowed"
def reasonNoHealthyAgent : String := "no_healthy_agent"
def reasonContextWindow : String := "context_window"
def reasonPinnedPrefix : String := "pinned_but_"

def capabilityReasons : List String :=
  ["no_tool_calling", "no_vision", "no_structured_output", "no_reasoning"]

/-- The reason that the request needs a capability that the model is known to lack. -/
def missingCapability (c : ModelCapabilities) (req : Requirements) : Option String :=
  if req.tools && c.toolCalling == some false then some "no_tool_calling"
  else if req.vision && c.vision == some false then some "no_vision"
  else if req.structured && c.structuredOutput == some false then some "no_structured_output"
  else if req.reasoning && c.reasoning == some false then some "no_reasoning"
  else none

/-- The part of the window that a request may fill. -/
def windowLimit (fl : GoFloat F) (spec : AliasSpec F) (p : ModelProfile F) : ℤ :=
  fl.toInt (fl.mul (fl.ofInt p.contextWindow) spec.contextBuffer)

/-- The reason that the prompt and the reserved output exceed the window. -/
def exceedsWindow (fl : GoFloat F) (spec : AliasSpec F) (p : ModelProfile F) (req : Requirements)
    (est : Option ℕ) : Option String :=
  match est with
  | none => none
  | some n =>
    let limit := windowLimit fl spec p
    if 0 < p.contextWindow ∧ limit < wrap64 (n + req.outputTokens) then
      some (reasonContextWindow ++ "(est=" ++ toString n ++ ",out=" ++ toString req.outputTokens ++
        ">limit=" ++ toString limit ++ ")")
    else none

def profileReason (fl : GoFloat F) (profiles : GoMap String (ModelProfile F)) (spec : AliasSpec F)
    (req : Requirements) (est : Estimates) (model : String) : Option String :=
  match profiles.lookup model with
  | none => none
  | some p => (missingCapability p.capabilities req).or
      (exceedsWindow fl spec p req (est.lookup model))

def checkEligible (fl : GoFloat F) (profiles : GoMap String (ModelProfile F)) (spec : AliasSpec F)
    (req : Requirements) (est : Estimates) (env : Env) (model : String) : Bool × String :=
  if env.Aliases model then (false, reasonIsAlias)
  else if ¬env.Allows model then (false, reasonNotAllowed)
  else match profileReason fl profiles spec req est model with
    | some reason => (false, reason)
    | none => if ¬env.Serves model then (false, reasonNoHealthyAgent) else (true, "")

/-- The reasons found so far by model; the empty one is that of an eligible model. -/
abbrev Memo := GoMap String String

/-- The closure `eligible` of `Resolve`. -/
def eligible (check : String → Bool × String) (memo : Memo) (model : String) :
    (Bool × String) × Memo :=
  match memo.lookup model with
  | some reason => ((reason = "", reason), memo)
  | none =>
    let reason := (check model).2
    ((reason = "", reason), memo.insert model reason)

/-! ### Candidates -/

abbrev Filtered := GoMap String String

/-- The loop of `pickCandidate`. -/
def firstEligible (check : String → Bool × String) :
    List String → Memo → Filtered → String × Memo × Filtered
  | [], memo, filtered => ("", memo, filtered)
  | m :: order, memo, filtered =>
    let result := eligible check memo m
    if result.1.1 then (m, result.2, filtered)
    else firstEligible check order result.2 (filtered.insert m result.1.2)

/-- The comparison by size; unknown sizes go last. -/
def sizeLess (fl : GoFloat F) (profiles : GoMap String (ModelProfile F)) (smallest : Bool)
    (m m' : String) : Bool :=
  let si := ModelProfile.sizeB fl (profiles.lookup m)
  let sj := ModelProfile.sizeB fl (profiles.lookup m')
  if fl.eq si (fl.lit 0) || fl.eq sj (fl.lit 0) then
    !fl.eq si (fl.lit 0) && fl.eq sj (fl.lit 0)
  else if smallest then fl.lt si sj else fl.lt sj si

/-- The order in which `pickCandidate` tries the candidates. -/
def candidateOrder (fl : GoFloat F) (sort : StableSort) (profiles : GoMap String (ModelProfile F))
    (route : Route F) : List String :=
  if route.prefer = "smallest" then sort.sort (sizeLess fl profiles true) route.models
  else if route.prefer = "largest" then sort.sort (sizeLess fl profiles false) route.models
  else route.models

def pickCandidate (fl : GoFloat F) (sort : StableSort) (profiles : GoMap String (ModelProfile F))
    (check : String → Bool × String) (route : Route F) (memo : Memo) (filtered : Filtered) :
    String × Memo × Filtered :=
  firstEligible check (candidateOrder fl sort profiles route) memo filtered

/-! ### Routes -/

/-- `routeIndex`; `none` is -1. -/
def routeIndex (spec : AliasSpec F) (name : String) : Option ℕ :=
  spec.routes.findIdx? fun r => r.name = name

def indexOf (spec : AliasSpec F) (name : String) : ℕ := (routeIndex spec name).getD 0

def anyPinned (spec : AliasSpec F) : Bool := spec.routes.any Route.pinTask

/-- `routeHasCandidate`: the empty reason when it has. -/
def routeHasCandidate (spec : AliasSpec F) (routeName model : String) : String :=
  match (routeIndex spec routeName).bind (spec.routes[·]?) with
  | none => "route_removed"
  | some route => if model ∈ route.models then "" else "not_a_candidate"

def pinStale (spec : AliasSpec F) (routeName model : String) : String :=
  let reason := routeHasCandidate spec routeName model
  if reason ≠ "" then reason
  else if ((routeIndex spec routeName).bind (spec.routes[·]?)).any fun r => !r.pinTask then
    "route_not_pinned"
  else ""

def keepsEntry (reason : String) : Bool :=
  reason = reasonNoHealthyAgent || reason ∈ capabilityReasons

/-- `matchSignal`, with the label of a match. -/
def matchSignal (fl : GoFloat F) (containsKeyword : String → String → Bool) (s : SignalRule F)
    (f : Features F) (window : String) : Option String :=
  if s.keywords ≠ [] then
    (s.keywords.find? (containsKeyword window)).map ("kw:" ++ ·)
  else
    let v := f.value fl s.feature
    let hit := if s.gte.isNone && s.lte.isNone then fl.lt (fl.lit 0) v
      else !(s.gte.any fun gte => fl.lt v gte) && !(s.lte.any fun lte => fl.lt lte v)
    if hit then some s.feature else none

/-- The score of a route, and the labels of the signals that matched. -/
def scoreRoute (fl : GoFloat F) (containsKeyword : String → String → Bool) (f : Features F)
    (rt : Route F) : F × List String :=
  let labels := rt.signals.filterMap fun s => matchSignal fl containsKeyword s f f.window
  let total := rt.signals.foldl (fun total s => fl.add total s.weight) (fl.lit 0)
  let got := rt.signals.foldl (fun got s =>
    if (matchSignal fl containsKeyword s f f.window).isSome then fl.add got s.weight else got)
    (fl.lit 0)
  (if fl.lt (fl.lit 0) total then fl.div got total else fl.lit 0, labels)

/-- `scoreRoutes`: of two routes with one name, the later one's score and both's labels. -/
def scoreRoutes (fl : GoFloat F) (containsKeyword : String → String → Bool) (spec : AliasSpec F)
    (f : Features F) : GoMap String F × GoMap String (List String) :=
  spec.routes.foldl (fun (scores, labels) rt =>
    let (score, matched) := scoreRoute fl containsKeyword f rt
    (scores.insert rt.name score,
      if matched = [] then labels
      else labels.insert rt.name ((labels.lookup rt.name).getD [] ++ matched)))
    (∅, ∅)

/-- `scores[name]`. -/
def scoreOf (fl : GoFloat F) (scores : GoMap String F) (name : String) : F :=
  (scores.lookup name).getD (fl.lit 0)

/-- `argmax`: the index, if any, and the score of the best route. -/
def argmax (fl : GoFloat F) (spec : AliasSpec F) (scores : GoMap String F) : Option ℕ × F :=
  spec.routes.zipIdx.foldl (fun (best, bestScore) (rt, i) =>
    let s := scoreOf fl scores rt.name
    if fl.le rt.minScore s && fl.lt bestScore s then (some i, s) else (best, bestScore))
    (none, fl.lit (-1))

def routeOrder (fl : GoFloat F) (sort : StableSort) (spec : AliasSpec F) (first : ℕ)
    (scores : GoMap String F) : List ℕ :=
  let default := indexOf spec spec.defaultRoute
  let order := if default ≠ first then [first, default] else [first]
  let rest := (List.range spec.routes.length).filter (· ∉ order)
  let score := fun i => scoreOf fl scores ((spec.routes[i]?.map Route.name).getD "")
  order ++ sort.sort (fun i j => fl.lt (score j) (score i)) rest

/-! ### Resolving -/

inductive Source where
  | pinned
  | scored
  | default
  | fallback
  | count
  | affinity

/-- `Decision`, without its latency. -/
structure Decision (F : Type) where
  aliasName : String
  model : String
  route : String
  source : Source
  routeScores : GoMap String F
  routeMatches : GoMap String (List String)
  features : Features F
  filteredOut : Filtered
  taskKey : String

/-- `ErrNoEligibleModel`. -/
inductive ResolveError where
  | noEligibleModel
  deriving DecidableEq

/-- `Resolver`, and what it uses. -/
structure Resolver (F : Type) where
  float : GoFloat F
  sort : StableSort
  signals : List (Signal F)
  /-- Sixteen bytes of the SHA-256 sum in hexadecimal. -/
  digest : String → String
  containsKeyword : String → String → Bool
  /-- The hash of the pin store. -/
  hash : String → ℕ

/-- What happens before the calls to the pin store: the `i`-th call finds what `others i` has
made of the store, and reads the clock at `clock i`. -/
structure Interference where
  clock : ℕ → ℤ
  others : ℕ → PinStore → PinStore

def affinityKey (taskKey : String) : String := "a" ++ taskKey

namespace Resolver

variable (R : Resolver F)

def taskKey (aliasName headerValue keyID : String) (v : RequestView) : String :=
  let field := fun s => s ++ "\x00"
  let head := field aliasName ++ field keyID
  if headerValue ≠ "" then "h:" ++ R.digest (head ++ field headerValue)
  else "f:" ++ R.digest (head ++ field v.endUser ++ field v.system ++ field v.firstUserText)

def features (spec : AliasSpec F) (v : RequestView) (env : Env) : Features F :=
  let f := R.signals.foldl (fun f extract => extract v spec.recentTurns f) {}
  f.set "estimated_input_tokens" (R.float.ofInt (estimateFor env spec).max)

/-- `checkEligible` for this request. -/
def check (spec : AliasSpec F) (profiles : GoMap String (ModelProfile F)) (v : RequestView)
    (env : Env) : String → Bool × String :=
  let req := requirementsOf R.float (R.features spec v env) v.maxOutputTokens
  checkEligible R.float profiles spec req (estimateFor env spec) env

/-- What became of a pin or of an affinity entry. -/
structure Lookup where
  store : PinStore
  memo : Memo
  /-- The model and the route, if the entry decides. -/
  hit : Option (String × String)
  filtered : Filtered
  keep : Bool

def pinChoice (spec : AliasSpec F) (check : String → Bool × String) (taskKey : String)
    (io : Interference) (store : PinStore) : Lookup :=
  let (store, got) := (io.others 0 store).get R.hash taskKey (io.clock 0)
  let delete := fun store => (io.others 1 store).delete R.hash taskKey
  match got with
  | none => ⟨store, ∅, none, ∅, false⟩
  | some (model, route) =>
    let stale := pinStale spec route model
    if stale ≠ "" then
      ⟨delete store, ∅, none, (∅ : Filtered).insert model (reasonPinnedPrefix ++ stale), false⟩
    else
      let ((ok, reason), memo) := eligible check ∅ model
      if ok then ⟨store, memo, some (model, route), ∅, false⟩
      else
        let keep := keepsEntry reason
        ⟨if keep then store else delete store, memo, none,
          (∅ : Filtered).insert model (reasonPinnedPrefix ++ reason), keep⟩

/-- `stickyChoice`, on what the pin has left. -/
def stickyChoice (spec : AliasSpec F) (check : String → Bool × String) (taskKey : String)
    (first : ℕ) (scores : GoMap String F) (io : Interference) (before : Lookup) : Lookup :=
  let key := affinityKey taskKey
  let (store, got) := (io.others 2 before.store).get R.hash key (io.clock 2)
  let delete := fun store => (io.others 3 store).delete R.hash key
  let miss : Lookup := { before with store, hit := none, keep := false }
  match got with
  | none => miss
  | some (model, route) =>
    if routeHasCandidate spec route model ≠ "" then { miss with store := delete store } else
    let chosen := (spec.routes[first]?.map Route.name).getD ""
    if chosen ≠ route ∧ R.float.le
        (R.float.add (scoreOf R.float scores route) spec.affinityMargin)
        (scoreOf R.float scores chosen) then miss else
    let ((ok, reason), memo) := eligible check before.memo model
    if ok then { miss with memo, hit := some (model, route) }
    else if keepsEntry reason then { miss with memo, keep := true }
    else { miss with memo, store := delete store }

/-- The loop over the routes, from the `i`-th of the order: the position, the route and the
model. An index that is out of range does not occur. -/
def tryRoutes (spec : AliasSpec F) (profiles : GoMap String (ModelProfile F))
    (check : String → Bool × String) :
    ℕ → List ℕ → Memo → Filtered → Option (ℕ × Route F × String) × Filtered
  | _, [], _, filtered => (none, filtered)
  | i, idx :: order, memo, filtered =>
    match spec.routes[idx]? with
    | none => tryRoutes spec profiles check (i + 1) order memo filtered
    | some route =>
      let (model, memo, filtered) := pickCandidate R.float R.sort profiles check route memo filtered
      if model = "" then tryRoutes spec profiles check (i + 1) order memo filtered
      else (some (i, route, model), filtered)

/-- The route that is tried first, with its source and the scores. -/
def firstRoute (spec : AliasSpec F) (f : Features F) (countOnly : Bool) :
    ℕ × Source × GoMap String F × GoMap String (List String) :=
  let default := indexOf spec spec.defaultRoute
  if countOnly then (default, .count, ∅, ∅)
  else
    let (scores, labels) := scoreRoutes R.float R.containsKeyword spec f
    match argmax R.float spec scores with
    | (some best, bestScore) =>
      if R.float.lt (R.float.lit 0) bestScore && R.float.le spec.abstainBelow bestScore then
        (best, .scored, scores, labels)
      else (default, .default, scores, labels)
    | (none, _) => (default, .default, scores, labels)

/-- `Resolve`: the store, the decision and the error. -/
def resolve (aliasName : String) (spec : AliasSpec F) (profiles : GoMap String (ModelProfile F))
    (v : RequestView) (env : Env) (io : Interference) (store : PinStore) :
    PinStore × Decision F × Option ResolveError :=
  let f := R.features spec v env
  let check := R.check spec profiles v env
  let pinnable := !env.countOnly && anyPinned spec
  let affinity := !env.countOnly && decide (0 < spec.affinityDuration)
  let taskKey := if pinnable || affinity then R.taskKey aliasName env.taskHeader env.keyID v else ""
  let pin : Lookup := if pinnable then R.pinChoice spec check taskKey io store
    else ⟨store, ∅, none, ∅, false⟩
  let decision : Decision F := ⟨aliasName, "", "", .pinned, ∅, ∅, f, pin.filtered, taskKey⟩
  match pin.hit with
  | some (model, route) => (pin.store, { decision with model, route }, none)
  | none =>
    let (first, source, routeScores, routeMatches) := R.firstRoute spec f env.countOnly
    let decision := { decision with source, routeScores, routeMatches }
    let sticky := if affinity then
        R.stickyChoice spec check taskKey first routeScores io pin
      else { pin with keep := false }
    match sticky.hit with
    | some (model, route) =>
      (sticky.store, { decision with model, route, source := .affinity }, none)
    | none =>
      let order := routeOrder R.float R.sort spec first routeScores
      match R.tryRoutes spec profiles check 0 order sticky.memo pin.filtered with
      | (some (i, route, model), filteredOut) =>
        let put := fun key ttl => (io.others 4 sticky.store).put R.hash key env.keyID model
          route.name ttl spec.pinMaxAgeDuration (io.clock 4)
        let store :=
          if pin.keep then sticky.store
          else if pinnable && route.pinTask then put taskKey route.pinDuration
          else if affinity && !sticky.keep then put (affinityKey taskKey) spec.affinityDuration
          else sticky.store
        (store, { decision with
          model, filteredOut
          route := route.name
          source := if 0 < i then .fallback else source }, none)
      | (none, filteredOut) =>
        (sticky.store, { decision with
          filteredOut
          route := (spec.routes[first]?.map Route.name).getD "" }, some .noEligibleModel)

end Resolver

/-!
## Soundness and completeness of the resolver

Every way in which `Resolve` decides ends in a check of eligibility of a candidate of a route:
a pin or an affinity entry is compared with the current routes first, and the loop over the
routes takes a candidate. And when it gives up it has tried all of them, since `routeOrder`
visits every route (`mem_routeOrder`) and `pickCandidate` every candidate
(`firstEligible_spec`). So the answer is right whatever the pin store holds, and an error comes
exactly when no candidate is eligible (`resolve_sound_complete`).

The eligibility of a model is memoised by its reason; `Memo.Of` says that the memo tells what
`checkEligible` does.
-/

open List Option

/-! ### Eligibility -/

section CheckEligible

variable {fl : GoFloat F} {profiles : GoMap String (ModelProfile F)} {spec : AliasSpec F}
  {req : Requirements} {est : Estimates} {env : Env} {model : String}

variable {reason : String}

theorem missingCapability_mem {c : ModelCapabilities} (h : missingCapability c req = some reason) :
    reason ∈ capabilityReasons := by
  unfold missingCapability at h
  split_ifs at h <;> cases h <;> decide

theorem exceedsWindow_eq_some {p : ModelProfile F} {n : Option ℕ}
    (h : exceedsWindow fl spec p req n = some reason) :
    ∃ k, n = some k ∧ windowLimit fl spec p < wrap64 (k + req.outputTokens) ∧
      ∃ text, reason = reasonContextWindow ++ text := by
  unfold exceedsWindow at h
  split at h
  · cases h
  · next k =>
    obtain ⟨⟨-, hlt⟩, h⟩ := ite_none_right_eq_some.mp h
    refine ⟨k, rfl, hlt, "(est=" ++ toString k ++ ",out=" ++ toString req.outputTokens ++
      ">limit=" ++ toString (windowLimit fl spec p) ++ ")", ?_⟩
    rw [← some.inj h]
    simp only [String.append_assoc]

/-- The ways in which the check of a model ends. -/
inductive Checked (fl : GoFloat F) (profiles : GoMap String (ModelProfile F))
    (spec : AliasSpec F) (req : Requirements) (est : Estimates) (env : Env) (model : String) :
    Bool × String → Prop
  | isAlias (halias : env.Aliases model) : Checked fl profiles spec req est env model
      (false, reasonIsAlias)
  | notAllowed (hallows : ¬env.Allows model) : Checked fl profiles spec req est env model
      (false, reasonNotAllowed)
  /-- The model lacks a capability that the request needs. -/
  | capability (hallows : env.Allows model) {p : ModelProfile F} {reason : String}
      (hp : profiles.lookup model = some p)
      (hreason : missingCapability p.capabilities req = some reason) :
      Checked fl profiles spec req est env model (false, reason)
  /-- The model's window is too small. -/
  | window (hallows : env.Allows model) {p : ModelProfile F} {n : ℕ} {text : String}
      (hp : profiles.lookup model = some p) (hn : est.lookup model = some n)
      (hlt : windowLimit fl spec p < wrap64 (n + req.outputTokens)) :
      Checked fl profiles spec req est env model (false, reasonContextWindow ++ text)
  | unhealthy (hallows : env.Allows model) (hserves : ¬env.Serves model) :
      Checked fl profiles spec req est env model (false, reasonNoHealthyAgent)
  | eligible (halias : ¬env.Aliases model) (hallows : env.Allows model)
      (hprofile : profileReason fl profiles spec req est model = none)
      (hserves : env.Serves model) : Checked fl profiles spec req est env model (true, "")

theorem checkEligible_checked : Checked fl profiles spec req est env model
    (checkEligible fl profiles spec req est env model) := by
  unfold checkEligible
  by_cases halias : env.Aliases model
  · rw [if_pos halias]
    exact .isAlias halias
  · by_cases hallows : env.Allows model
    · rw [if_neg halias, if_neg (not_not_intro hallows)]
      -- the profile is looked at only for a model that the key may use
      cases hprofile : profileReason fl profiles spec req est model with
      | none =>
        dsimp only
        split_ifs with hserves
        · exact .eligible halias hallows hprofile hserves
        · exact .unhealthy hallows hserves
      | some =>
        dsimp only
        unfold profileReason at hprofile
        split at hprofile
        · cases hprofile
        · next p hp =>
          rcases or_eq_some_iff.mp hprofile with hreason | ⟨-, hreason⟩
          · exact .capability hallows hp hreason
          · obtain ⟨n, hn, hlt, text, rfl⟩ := exceedsWindow_eq_some hreason
            exact .window hallows hp hn hlt
    · rw [if_neg halias, if_pos hallows]
      exact .notAllowed hallows

theorem checkEligible_fst : (checkEligible fl profiles spec req est env model).1 = true ↔
      (checkEligible fl profiles spec req est env model).2 = "" := by
  generalize hresult : checkEligible fl profiles spec req est env model = result
  have hchecked : Checked fl profiles spec req est env model result :=
    hresult ▸ checkEligible_checked
  cases hchecked with
  | isAlias | notAllowed | unhealthy => exact iff_of_false nofun (by decide)
  | capability _ _ hreason =>
    refine iff_of_false nofun ?_
    rintro rfl
    exact absurd (missingCapability_mem hreason) (by decide)
  | window _ _ _ _ =>
    refine iff_of_false nofun fun hempty => ?_
    exact absurd (String.append_eq_empty_iff.mp hempty).1 (by decide)
  | eligible => exact iff_of_true rfl rfl

end CheckEligible

/-! ### The memo and the candidates -/

section Candidates

variable {check : String → Bool × String} {memo : Memo}

/-- The memo tells what the check does. -/
def Memo.Of (check : String → Bool × String) (memo : Memo) : Prop :=
  ∀ model reason, memo.lookup model = some reason → reason = (check model).2

theorem Memo.Of.empty (check : String → Bool × String) : Memo.Of check ∅ := fun _ _ h => nomatch h

theorem Memo.Of.eligible (h : memo.Of check) (model : String) : ∃ memo', eligible check memo model =
        ((decide ((check model).2 = ""), (check model).2), memo') ∧ Memo.Of check memo' := by
  unfold Semantic.eligible
  split
  · next reason hreason =>
    rw [h model reason hreason]
    exact ⟨memo, rfl, h⟩
  · refine ⟨_, rfl, fun model' reason hreason => ?_⟩
    obtain ⟨rfl, rfl⟩ | ⟨-, hreason⟩ := GoMap.lookup_insert_eq_some.mp hreason
    · rfl
    · exact h model' reason hreason

/-- The loop over the candidates finds one without a reason against it, or records the reasons
of all. -/
theorem firstEligible_spec (h : memo.Of check) (order : List String) (filtered : Filtered) :
    let result := firstEligible check order memo filtered
    result.2.1.Of check ∧
      ((result.1 ∈ order ∧ (check result.1).2 = "") ∨
        (result.1 = "" ∧ (∀ m ∈ order, (check m).2 ≠ "") ∧
          result.2.2 = filtered.extend order fun m => some (check m).2)) := by
  induction order generalizing memo filtered with
  | nil => exact ⟨h, .inr ⟨rfl, nofun, rfl⟩⟩
  | cons m order ih =>
    obtain ⟨memo', hresult, hmemo⟩ := h.eligible m
    rw [firstEligible, hresult]
    dsimp only
    by_cases hm : (check m).2 = ""
    · rw [if_pos (decide_eq_true hm)]
      exact ⟨hmemo, .inl ⟨mem_cons_self, hm⟩⟩
    · rw [if_neg (by simpa using hm)]
      obtain ⟨hof, hfound | ⟨hempty, hall, hfiltered⟩⟩ := ih hmemo _
      · exact ⟨hof, .inl ⟨mem_cons_of_mem _ hfound.1, hfound.2⟩⟩
      · exact ⟨hof, .inr ⟨hempty, forall_mem_cons.mpr ⟨hm, hall⟩, hfiltered⟩⟩

theorem mem_candidateOrder {fl : GoFloat F} {sort : StableSort}
    {profiles : GoMap String (ModelProfile F)} {route : Route F} {m : String} :
    m ∈ candidateOrder fl sort profiles route ↔ m ∈ route.models := by
  unfold candidateOrder
  split_ifs
  · exact sort.mem_sort
  · exact sort.mem_sort
  · rfl

end Candidates

/-! ### The routes -/

section Routes

variable {spec : AliasSpec F} {name : String} {i : ℕ} {model : String} {fl : GoFloat F}

theorem routeIndex_eq_some (h : routeIndex spec name = some i) :
    ∃ route, spec.routes[i]? = some route ∧ route.name = name := by
  obtain ⟨hlt, hname, -⟩ := findIdx?_eq_some_iff_getElem.mp h
  exact ⟨_, getElem?_eq_getElem hlt, of_decide_eq_true hname⟩

theorem indexOf_lt (h : spec.routes ≠ []) (name : String) :
    indexOf spec name < spec.routes.length := by
  unfold indexOf
  cases hindex : routeIndex spec name with
  | none => exact length_pos_iff.mpr h
  | some =>
    obtain ⟨route, hroute, -⟩ := routeIndex_eq_some hindex
    exact (List.getElem?_eq_some_iff.mp hroute).1

theorem routeHasCandidate_eq_empty (h : routeHasCandidate spec name model = "") :
    ∃ route ∈ spec.routes, route.name = name ∧ model ∈ route.models := by
  unfold routeHasCandidate at h
  split at h
  · exact absurd h (by decide)
  · next route hroute =>
    obtain ⟨i, hi, hget⟩ := bind_eq_some_iff.mp hroute
    obtain ⟨route', hroute', hname⟩ := routeIndex_eq_some hi
    obtain rfl := mem_unique hget hroute'
    split_ifs at h with hmem
    · exact ⟨route, mem_of_getElem? hget, hname, hmem⟩
    · exact absurd h (by decide)

theorem pinStale_eq_empty (h : pinStale spec name model = "") :
    routeHasCandidate spec name model = "" := by
  unfold pinStale at h
  by_contra hne
  rw [if_pos hne] at h
  exact hne h

variable {scores : GoMap String F}

theorem mem_routeOrder {sort : StableSort} {first : ℕ} (hfirst : first < spec.routes.length) :
    i ∈ routeOrder fl sort spec first scores ↔ i < spec.routes.length := by
  have hdefault : indexOf spec spec.defaultRoute < spec.routes.length :=
    indexOf_lt (ne_nil_of_length_pos (by omega)) _
  unfold routeOrder
  rw [mem_append, sort.mem_sort, mem_filter, mem_range, decide_eq_true_iff]
  constructor
  · rintro (hmem | ⟨hlt, -⟩)
    · split_ifs at hmem
      · rcases mem_pair.mp hmem with rfl | rfl
        · exact hfirst
        · exact hdefault
      · rw [mem_singleton.mp hmem]
        exact hfirst
    · exact hlt
  · intro hlt
    exact (em _).imp_right fun hmem => ⟨hlt, hmem⟩

theorem argmax_lt (h : (argmax fl spec scores).1 = some i) : i < spec.routes.length := by
  have hinv : ∀ (l : List (Route F × ℕ)) (acc : Option ℕ × F),
      (∀ x ∈ l, x.2 < spec.routes.length) → (∀ i, acc.1 = some i → i < spec.routes.length) →
      ∀ i, (l.foldl (fun (acc : Option ℕ × F) (x : Route F × ℕ) =>
        if fl.le x.1.minScore (scoreOf fl scores x.1.name) &&
            fl.lt acc.2 (scoreOf fl scores x.1.name) then (some x.2, scoreOf fl scores x.1.name)
        else acc) acc).1 = some i → i < spec.routes.length := by
    intro l
    induction l with
    | nil => exact fun acc _ hacc => hacc
    | cons x l ih =>
      intro acc hl hacc
      obtain ⟨hx, hl⟩ := forall_mem_cons.mp hl
      refine ih _ hl fun i hi => ?_
      dsimp only at hi
      split_ifs at hi
      · exact some.inj hi ▸ hx
      · exact hacc i hi
  refine hinv spec.routes.zipIdx (none, fl.lit (-1)) (fun x hx => ?_) nofun i h
  have := snd_lt_of_mem_zipIdx hx
  omega

end Routes

namespace Resolver

variable {R : Resolver F} {spec : AliasSpec F} {check : String → Bool × String}

theorem firstRoute_lt (h : spec.routes ≠ []) (f : Features F) (countOnly : Bool) :
    (R.firstRoute spec f countOnly).1 < spec.routes.length := by
  unfold firstRoute
  dsimp only
  split_ifs
  · exact indexOf_lt h _
  · split
    · next best bestScore hargmax =>
      split_ifs
      · exact argmax_lt (by rw [hargmax])
      · exact indexOf_lt h _
    · exact indexOf_lt h _

/-- The model is a candidate of a route with this name, and there is no reason against it. -/
def Chosen (spec : AliasSpec F) (check : String → Bool × String) (route model : String) : Prop :=
  ∃ r ∈ spec.routes, r.name = route ∧ model ∈ r.models ∧ (check model).2 = ""

/-- The reasons recorded for an entry are marked as such. -/
def OfPins (filtered : Filtered) : Prop :=
  ∀ model reason, filtered.lookup model = some reason → ∃ text, reason = reasonPinnedPrefix ++ text

theorem OfPins.empty : OfPins ∅ := fun _ _ h => nomatch h

theorem OfPins.single (model text : String) :
    OfPins ((∅ : Filtered).insert model (reasonPinnedPrefix ++ text)) := by
  intro model' reason h
  obtain ⟨-, rfl⟩ | ⟨-, h⟩ := GoMap.lookup_insert_eq_some.mp h
  · exact ⟨text, rfl⟩
  · cases h

/-- What a look at a pin or an affinity entry establishes. -/
structure Lookup.Sound (spec : AliasSpec F) (check : String → Bool × String) (l : Lookup) :
    Prop where
  memo : l.memo.Of check
  hit : ∀ model route, l.hit = some (model, route) → Chosen spec check route model
  filtered : OfPins l.filtered

theorem Lookup.Sound.none (spec : AliasSpec F) (check : String → Bool × String)
    (store : PinStore) : Lookup.Sound spec check ⟨store, ∅, none, ∅, false⟩ :=
  ⟨.empty check, nofun, .empty⟩

theorem pinChoice_sound (taskKey : String) (io : Interference) (store : PinStore) :
    (R.pinChoice spec check taskKey io store).Sound spec check := by
  unfold pinChoice
  dsimp only
  split
  · exact .none spec check _
  · next model route _ =>
    by_cases hstale : pinStale spec route model = ""
    · rw [if_neg (not_not_intro hstale)]
      obtain ⟨memo, hresult, hmemo⟩ := (Memo.Of.empty check).eligible model
      rw [hresult]
      by_cases hok : decide ((check model).2 = "") = true
      · rw [if_pos hok]
        refine ⟨hmemo, fun model' route' hhit => ?_, .empty⟩
        cases hhit
        obtain ⟨r, hr, hname, hmem⟩ := routeHasCandidate_eq_empty (pinStale_eq_empty hstale)
        exact ⟨r, hr, hname, hmem, of_decide_eq_true hok⟩
      · rw [if_neg hok]
        exact ⟨hmemo, nofun, .single _ _⟩
    · rw [if_pos hstale]
      exact ⟨.empty check, nofun, .single _ _⟩

theorem stickyChoice_sound {before : Lookup} (h : before.Sound spec check) (taskKey : String)
    (first : ℕ) (scores : GoMap String F) (io : Interference) :
    (R.stickyChoice spec check taskKey first scores io before).Sound spec check ∧
      (R.stickyChoice spec check taskKey first scores io before).filtered = before.filtered := by
  unfold stickyChoice
  dsimp only
  split
  · -- there is no pin, and the memo stays
    exact ⟨⟨h.memo, nofun, h.filtered⟩, rfl⟩
  · next model route _ =>
    by_cases hcandidate : routeHasCandidate spec route model = ""
    · rw [if_neg (not_not_intro hcandidate)]
      obtain ⟨memo, hresult, hmemo⟩ := h.memo.eligible model
      rw [hresult]
      split_ifs with _ hok
      · exact ⟨⟨h.memo, nofun, h.filtered⟩, rfl⟩
      · -- the pin names a candidate of its route that has just been checked
        refine ⟨⟨hmemo, fun model' route' hhit => ?_, h.filtered⟩, rfl⟩
        cases hhit
        obtain ⟨r, hr, hname, hmem⟩ := routeHasCandidate_eq_empty hcandidate
        exact ⟨r, hr, hname, hmem, of_decide_eq_true hok⟩
      all_goals exact ⟨⟨hmemo, nofun, h.filtered⟩, rfl⟩
    · rw [if_pos hcandidate]
      exact ⟨⟨h.memo, nofun, h.filtered⟩, rfl⟩

/-- The loop over the routes takes an eligible candidate of one of them, or has recorded the
reasons of all their candidates. -/
theorem tryRoutes_spec (profiles : GoMap String (ModelProfile F))
    (hnames : ∀ m ∈ spec.models, m ≠ "") {order : List ℕ}
    (horder : ∀ i ∈ order, i < spec.routes.length) (i : ℕ) {memo : Memo} (hmemo : memo.Of check)
    (filtered : Filtered) :
    (∃ j r m rest, R.tryRoutes spec profiles check i order memo filtered = (some (j, r, m), rest) ∧
        Chosen spec check r.name m) ∨
      ∃ models, R.tryRoutes spec profiles check i order memo filtered =
          (none, filtered.extend models fun m => some (check m).2) ∧
        (∀ m ∈ models, m ∈ spec.models ∧ (check m).2 ≠ "") ∧
        ∀ i ∈ order, ∀ r, spec.routes[i]? = some r → ∀ m ∈ r.models, m ∈ models := by
  induction order generalizing i memo filtered with
  | nil => exact .inr ⟨[], rfl, nofun, nofun⟩
  | cons idx order ih =>
    obtain ⟨hidx, horder⟩ := forall_mem_cons.mp horder
    obtain ⟨r, hr⟩ : ∃ r, spec.routes[idx]? = some r := ⟨_, getElem?_eq_getElem hidx⟩
    have hmem := mem_of_getElem? hr
    have hmodels : ∀ m ∈ r.models, m ∈ spec.models := fun m hm => mem_flatMap.mpr ⟨r, hmem, hm⟩
    obtain ⟨hof, hpicked⟩ :=
      firstEligible_spec hmemo (candidateOrder R.float R.sort profiles r) filtered
    rw [tryRoutes, hr]
    dsimp only
    unfold pickCandidate
    rcases hpicked with ⟨hfound, hreason⟩ | ⟨hempty, hall, hfiltered⟩
    · -- no candidate has the empty name, which stands for none
      left
      rw [mem_candidateOrder] at hfound
      rw [if_neg (hnames _ (hmodels _ hfound))]
      exact ⟨i, r, _, _, rfl, r, hmem, rfl, hfound, hreason⟩
    · rw [if_pos hempty, hfiltered]
      rcases ih horder (i + 1) hof _ with hsome | ⟨models, hnone, hreasons, hcovers⟩
      · exact .inl hsome
      · -- the reasons of this route come before those of the others
        refine .inr ⟨candidateOrder R.float R.sort profiles r ++ models, ?_, ?_, ?_⟩
        · rw [hnone]
          unfold GoMap.extend
          rw [foldl_append]
        · intro m hm
          rcases mem_append.mp hm with hm | hm
          · exact ⟨hmodels m (mem_candidateOrder.mp hm), hall m hm⟩
          · exact hreasons m hm
        · refine forall_mem_cons.mpr ⟨fun r' hr' m hm => ?_, fun j hj r' hr' m hm => ?_⟩
          · obtain rfl := mem_unique hr hr'
            exact mem_append_left _ (mem_candidateOrder.mpr hm)
          · exact mem_append_right _ (hcovers j hj r' hr' m hm)

/-- The two ways in which `Resolve` ends: with a candidate that was chosen, or with the reasons
of all candidates beside those of the pins. -/
theorem resolve_cases (hroutes : spec.routes ≠ []) (hnames : ∀ m ∈ spec.models, m ≠ "")
    (aliasName : String) (profiles : GoMap String (ModelProfile F)) (v : RequestView) (env : Env)
    (io : Interference) (store : PinStore) :
    let result := (R.resolve aliasName spec profiles v env io store).2
    let check := R.check spec profiles v env
    (result.2 = none ∧ Chosen spec check result.1.route result.1.model) ∨
      (result.2 = some .noEligibleModel ∧ ∃ pins models, OfPins pins ∧
        result.1.filteredOut = pins.extend models (fun m => some (check m).2) ∧
        (∀ m, m ∈ models ↔ m ∈ spec.models) ∧ ∀ m ∈ spec.models, (check m).2 ≠ "") := by
  rw [resolve]
  dsimp only
  set check := R.check spec profiles v env
  set affinity := !env.countOnly && decide (0 < spec.affinityDuration)
  set taskKey := if (!env.countOnly && anyPinned spec || affinity) = true then
    R.taskKey aliasName env.taskHeader env.keyID v else ""
  -- the pin
  have hpin : Lookup.Sound spec check (if (!env.countOnly && anyPinned spec) = true then
      R.pinChoice spec check taskKey io store else ⟨store, ∅, none, ∅, false⟩) := by
    split_ifs
    · exact pinChoice_sound taskKey io store
    · exact .none spec check store
  generalize (if (!env.countOnly && anyPinned spec) = true then
    R.pinChoice spec check taskKey io store else ⟨store, ∅, none, ∅, false⟩) = pin at hpin ⊢
  split
  · next model route hhit => exact .inl ⟨rfl, hpin.hit model route hhit⟩
  -- the affinity entry
  · have hfirst := firstRoute_lt (R := R) hroutes (R.features spec v env) env.countOnly
    generalize R.firstRoute spec (R.features spec v env) env.countOnly = chosen at hfirst ⊢
    have hsticky : Lookup.Sound spec check (if affinity = true then
        R.stickyChoice spec check taskKey chosen.1 chosen.2.2.1 io pin
        else { pin with keep := false }) := by
      split_ifs
      · exact (stickyChoice_sound hpin taskKey chosen.1 chosen.2.2.1 io).1
      · exact ⟨hpin.memo, hpin.hit, hpin.filtered⟩
    generalize (if affinity = true then
      R.stickyChoice spec check taskKey chosen.1 chosen.2.2.1 io pin
      else { pin with keep := false }) = sticky at hsticky ⊢
    split
    · next model route hhit => exact .inl ⟨rfl, hsticky.hit model route hhit⟩
    -- the routes
    · have horder : ∀ i ∈ routeOrder R.float R.sort spec chosen.1 chosen.2.2.1,
          i < spec.routes.length := fun i hi => (mem_routeOrder hfirst).mp hi
      rcases tryRoutes_spec (R := R) profiles hnames horder 0 hsticky.memo pin.filtered with
        ⟨j, r, m, rest, htry, hchosen⟩ | ⟨models, htry, hreasons, hcovers⟩
      · rw [htry]
        exact .inl ⟨rfl, hchosen⟩
      · rw [htry]
        refine .inr ⟨rfl, pin.filtered, models, hpin.filtered, rfl, ?_⟩
        have hmem : ∀ m ∈ spec.models, m ∈ models := by
          intro m hm
          obtain ⟨r, hr, hm⟩ := mem_flatMap.mp hm
          obtain ⟨i, hi⟩ := mem_iff_getElem?.mp hr
          have hlt := (List.getElem?_eq_some_iff.mp hi).1
          exact hcovers i ((mem_routeOrder hfirst).mpr hlt) r hi m hm
        exact ⟨fun m => ⟨fun hm => (hreasons m hm).1, hmem m⟩,
          fun m hm => (hreasons m (hmem m hm)).2⟩

end Resolver

/-- **Resolution is sound and complete.** For an alias that the loader has accepted: a model
that `Resolve` returns is a candidate of the route that it returns, and passes `checkEligible`;
and it fails exactly when no candidate of the alias passes. -/
theorem resolve_sound_complete (R : Resolver F) {std : Std F} (a : LoadedAlias std)
    (aliasName : String) (profiles : GoMap String (ModelProfile F)) (v : RequestView) (env : Env)
    (io : Interference) (store : PinStore) :
    let result := (R.resolve aliasName a.spec profiles v env io store).2
    let passes := fun model => (R.check a.spec profiles v env model).1 = true
    (result.2 = none → ∃ r ∈ a.spec.routes, r.name = result.1.route ∧
      result.1.model ∈ r.models ∧ passes result.1.model) ∧
    (result.2 = some .noEligibleModel ↔ ∀ r ∈ a.spec.routes, ∀ m ∈ r.models, ¬passes m) := by
  have hpasses : ∀ m, (R.check a.spec profiles v env m).1 = true ↔
      (R.check a.spec profiles v env m).2 = "" := fun m => checkEligible_fst
  intro result passes
  rcases Resolver.resolve_cases (R := R) a.routes_ne_nil (fun m hm => a.model_ne_empty hm)
    aliasName profiles v env io store with
    ⟨hnone, r, hr, hname, hmem, hreason⟩ | ⟨herror, pins, models, -, -, -, hreasons⟩
  · -- a candidate that is returned has passed the check
    refine ⟨fun _ => ⟨r, hr, hname, hmem, (hpasses _).mpr hreason⟩, ?_⟩
    refine iff_of_false ?_ fun hall => hall r hr _ hmem ((hpasses _).mpr hreason)
    rw [show result.2 = none from hnone]
    exact nofun
  · -- every candidate has a reason against it
    refine ⟨?_, iff_of_true herror fun r hr m hm hm' => ?_⟩
    · rw [show result.2 = some ResolveError.noEligibleModel from herror]
      exact nofun
    · exact hreasons m (mem_flatMap.mpr ⟨r, hr, hm⟩) ((hpasses m).mp hm')

end HivenetRouter.Semantic
