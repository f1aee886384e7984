import HivenetRouter.Api.LooseScan
import HivenetRouter.Auth.Registry
import HivenetRouter.Redirect.Location
import HivenetRouter.Semantic.Classify

/-!
# A request at a router that may redirect it

The middlewares that a request passes, in their order: the token is checked and its key resolved
(`authenticate`), the body is checked and the token used up (`redirectTarget`), an alias is resolved
(`aliasMiddleware`), and the request is answered with a redirect if no agent here serves the model
(`redirectDecision`). They work on a `Context`, the keys that they set in the context of the
request.

A `Visit` is one request at one router, with all that the code finds there: the state of the router,
what the request carries, and the answers of the rest of the system. The health of the agents is
read twice, when the alias is resolved and when the redirect is decided; between the two an agent
may come or go.
-/

namespace HivenetRouter.Api

open Redirect Semantic Policy

section

variable {F : Type}

/-- `Claims`, with the fields that the routing reads; `origin` is its `From`. -/
structure RedirectClaims extends Claims where
  model : String
  origin : String
  hop : ℤ

/-- What `AuthMiddleware` passes on of an `AuthResult`; `allowed` are the `effectiveAllowedModels`,
or `none` for a key without restriction. -/
structure Caller where
  tenantID : String
  keyID : String
  keyPreview : String
  allowed : Option (List String)

inductive AuthError where
  /-- `ErrMissingCredentials`. -/
  | missing
  /-- `ErrInvalidCredentials`. -/
  | invalid
  | other

/-- `AuthenticateKeyID`, of a registry whose entries are indexed by their ids. -/
structure KeyRegistry where
  authenticateKeyID : String → Option Caller
  keyID_eq : ∀ id res, authenticateKeyID id = some res → res.keyID = id

/-- The registry of a process at the time `now`. An entry is found under its own id, since the
indexes are inverse to each other. -/
def KeyRegistry.ofRegistry (r : Auth.Registry) (h : r.Inverse) (now : Auth.Time) : KeyRegistry where
  authenticateKeyID id := (r.authenticateKeyID now (Utf8.ofText id)).map fun e =>
    ⟨e.owner, Utf8.toText e.id, e.keyPreview,
      (e.quota.perModel.map GoMap.sortedKeys).or (e.allowedModels.filter (· ≠ []))⟩
  keyID_eq id res hres := by
    obtain ⟨e, he, rfl⟩ := Option.map_eq_some_iff.mp hres
    have hid : e.id = Utf8.ofText id := (h.ofID _ e (Option.filter_eq_some_iff.mp he).1).1
    show Utf8.toText e.id = id
    rw [hid, Utf8.toText, Utf8.ofText, Utf8.decode_encode, String.ofList_toList]

structure Lib where
  bodySHA : List UInt8 → String
  /-- `ParseView`, of a body, the path of the request, and the markers. -/
  parseView : List UInt8 → String → List String → Option RequestView
  trimSpace : String → String
  sort : SliceSort
  score : Score

/-- A router: `Redirector`, the keys, and the aliases of its policies. -/
structure Site (std : Std F) (formats : Formats) extends Redirect.Target where
  domains : List GoString
  map : SiblingMap
  map_reachable : (siblingMap formats domains).Reachable map
  /-- `none` in the auth mode `none`. -/
  keys : Option KeyRegistry
  ttl : ℤ
  resolver : Resolver F
  aliases : GoMap String (LoadedAlias std)
  profiles : GoMap String (ModelProfile F)

/-- A request at a router. A body that cannot be read ends the request, and is left out. -/
structure Visit (std : Std F) (formats : Formats) where
  site : Site std formats
  path : String
  body : List UInt8
  /-- The request has an `Authorization` header. -/
  authorization : Bool
  sessionHeader : String
  scopeHeader : String
  taskHeader : String
  requestID : String
  clientRequestID : String
  /-- What the wrapped provider answers to the request. -/
  authenticated : Except AuthError Caller
  guard : ReplayGuard
  pins : PinStore
  io : Interference
  estimate : Option (RequestView → String → ℕ)
  /-- `healthyAgentCount` is positive, when the alias is resolved and when the redirect is
  decided. -/
  healthyForAlias : String → Bool
  healthy : String → Bool
  /-- The readings of the clock. -/
  checkedAt : ℤ
  usedAt : ℤ
  decidedAt : ℤ
  /-- The random id of a token that is signed here. -/
  jti : String

/-- The keys of the request's context. -/
structure Context where
  auth : Caller
  /-- `ctxKeyRedirect`. -/
  redirect : Option RedirectClaims
  /-- The body that a handler reads. -/
  body : List UInt8
  clientBody : Option (List UInt8)
  peekedModel : Option String
  requestID : String
  clientRequestID : String

/-- Why a request is answered with an error before the handler. -/
inductive Refusal where
  | credentials (err : AuthError)
  | bodyMismatch
  | replayed
  | replace (err : ReplaceError)
  | taskHeader
  | invalidView
  | noModelAvailable
  | scopeHeader (value : String)

def maxHops : ℤ := 2

def maxTaskIDLen : ℕ := 128

def semanticPaths : List String :=
  ["/v1/chat/completions", "/v1/messages", "/v1/messages/count_tokens"]

def parseScope (s : String) : Option String :=
  if s = "all" ∨ s = "EU" then some s
  else if "country:".toList <+: s.toList ∧
      isCountryCode (String.ofList (s.toList.drop "country:".length)) then some s
  else none

/-- `normalizeIDs`, where the ids are valid. -/
def normalizeIDs (T : Redirect.Target) (c : RedirectClaims) : RedirectClaims :=
  { c with
    requestID := (T.canonicalRequestID c.requestID).getD c.requestID
    clientRequestID :=
      if c.clientRequestID = "" then "" else
        (T.canonicalRequestID c.clientRequestID).getD c.clientRequestID }

/-- `peekModel`, which keeps what it has decoded. -/
def peekModel (c : Context) : String × Context :=
  match c.peekedModel with
  | some model => (model, c)
  | none =>
    match decodedModel c.body with
    | some model => (model, { c with peekedModel := some model })
    | none => ("", c)

def clientBody (c : Context) : List UInt8 := c.clientBody.getD c.body

def modelAllowed (res : Caller) (model : String) : Bool := res.allowed.all (model ∈ ·)

def callerIdentity (res : Caller) : String :=
  if res.keyID ≠ "" then res.keyID else res.tenantID ++ "/" ++ res.keyPreview

def Context.hop (c : Context) : ℤ := c.redirect.elim 0 RedirectClaims.hop

namespace Visit

variable {std : Std F} {formats : Formats} (lib : Lib) (v : Visit std formats)

def self : String := v.site.self

def context (res : Caller) (info : Option RedirectClaims) : Context :=
  ⟨res, info, v.body, none, none, v.requestID, v.clientRequestID⟩

/-! ### The token -/

def inScope (scope : String) : Bool :=
  if scope = "all" then true
  else if parseScope scope = none then false
  else (v.site.map.policlouds.lookup v.self).any (scopeContains scope ·)

/-- The wrapped provider's answer. -/
def next : Except Refusal Caller := v.authenticated.mapError .credentials

/-- `resolveKey`: `none` is the reason `key`. -/
def resolveKey (keyID : String) : Except Refusal (Option Caller) :=
  match v.authorization, v.site.keys with
  | false, some keys => .ok (keys.authenticateKeyID keyID)
  | _, _ => v.next.map fun res => if res.keyID ≠ keyID then none else some res

/-- `tokenAuth.Authenticate` for a token that was refused. -/
def refuseToken : Except Refusal Context :=
  if v.authorization then v.next.map (v.context · none) else .error (.credentials .invalid)

/-- `tokenAuth.Authenticate` and `AuthMiddleware`. -/
def authenticate (token : Option RedirectClaims) : Except Refusal Context :=
  match token with
  | none => v.next.map (v.context · none)
  | some c =>
    match v.site.check c.toClaims v.path (v.inScope c.scope) v.checkedAt with
    | some _ => v.refuseToken
    | none => do
      match ← v.resolveKey c.keyID with
      | none => v.refuseToken
      | some res => return v.context res (some (normalizeIDs v.site.toTarget c))

def routedBody (model : String) : Except Refusal (List UInt8) :=
  match unmarshalledModel v.body with
  | some m =>
    if m ≠ model then (replaceTopLevelModel v.body model).mapError .replace else .ok v.body
  | none => .ok v.body

/-- `RedirectTarget` where the token is refused. -/
def refuseRedirect (c : Context) (err : Refusal) : Except Refusal Context :=
  if v.authorization then .ok { c with redirect := none } else .error err

def redirectTarget (c : Context) : Except Refusal Context :=
  match c.redirect with
  | none => .ok c
  | some info =>
    if info.bodySHA ≠ lib.bodySHA v.body then v.refuseRedirect c .bodyMismatch
    else if !(v.guard.first info.jti info.validUntil v.usedAt).2 then v.refuseRedirect c .replayed
    else
      (v.routedBody info.model).map fun routed =>
        { c with
          requestID := info.requestID
          clientRequestID :=
            if info.clientRequestID ≠ "" then info.clientRequestID else c.clientRequestID
          clientBody := some v.body
          body := routed
          peekedModel := some info.model }

/-! ### Aliases -/

/-- The environment of the resolution. -/
def env (res : Caller) (view : RequestView) : Env where
  allowed := some (modelAllowed res)
  healthy := some v.healthyForAlias
  estimateTokens := v.estimate.map (· view)
  keyID := callerIdentity res
  taskHeader := v.taskHeader
  isAlias := some fun name => (v.site.aliases.lookup name).isSome
  countOnly := v.path = "/v1/messages/count_tokens"

/-- `Resolve`, for a view of the request. -/
def resolve (res : Caller) (aliasName : String) (spec : AliasSpec F) (view : RequestView) :
    Decision F × Option ResolveError :=
  (v.site.resolver.resolve aliasName spec v.site.profiles view (v.env res view) v.io v.pins).2

def resolveAlias (c : Context) (aliasName : String) (spec : AliasSpec F) : Except Refusal Context :=
  if maxTaskIDLen < v.taskHeader.utf8ByteSize then .error .taskHeader
  else
    match lib.parseView c.body v.path (spec.stripMarkers.getD []) with
    | none => .error .invalidView
    | some view =>
      match v.resolve c.auth aliasName spec view with
      | (_, some .noEligibleModel) => .error .noModelAvailable
      | (d, none) =>
        ((replaceTopLevelModel c.body d.model).mapError .replace).map fun patched =>
          { c with clientBody := some c.body, body := patched, peekedModel := some d.model }

def aliasMiddleware (c : Context) : Except Refusal Context :=
  let (model, c) := peekModel c
  if model = "" ∨ v.path ∉ semanticPaths then .ok c
  else
    match v.site.aliases.lookup model with
    | none => .ok c
    | some a => v.resolveAlias lib c model a.spec

/-! ### The redirect -/

def requestedScope : Except Refusal String :=
  let s := lib.trimSpace v.scopeHeader
  if s = "" then
    .ok ((v.site.map.policlouds.lookup v.self).elim "" fun p => "country:" ++ p.country)
  else
    match parseScope s with
    | some scope => .ok scope
    | none => .error (.scopeHeader s)

def scope (c : Context) : Except Refusal String :=
  match c.redirect with
  | some info => .ok info.scope
  | none => v.requestedScope lib

def origin (c : Context) : String := c.redirect.elim v.self RedirectClaims.origin

/-- What `RedirectDecision` asks the map. -/
def targetRequest (c : Context) (model kind scope : String) : TargetRequest :=
  ⟨model, kind, v.self, v.origin c, c.auth.keyID, v.sessionHeader, scope, v.decidedAt⟩

/-- The claims that are signed: `Sign` sets the times and the id. -/
def claims (c : Context) (model scope site : String) : RedirectClaims where
  keyID := c.auth.keyID
  requestID := c.requestID
  clientRequestID := c.clientRequestID
  model := model
  scope := scope
  origin := v.origin c
  site := site
  path := v.path
  hop := c.hop + 1
  bodySHA := lib.bodySHA (clientBody c)
  issuedAt := v.decidedAt / second
  exp := (v.decidedAt + v.site.ttl) / second
  jti := v.jti

/-- `RedirectDecision`: the claims of the token of a redirect, or `none` for a request that goes on
to the handler. -/
def redirectDecision (c : Context) : Except Refusal (Option RedirectClaims) :=
  match endpointKinds.lookup v.path with
  | none => .ok none
  | some kind =>
    let (model, c) := peekModel c
    if model = "" ∨ modelAllowed c.auth model = false then .ok none
    else if maxHops ≤ c.hop ∨ v.healthy model then .ok none
    else
      (v.scope lib c).map fun scope =>
        (v.site.map.target lib.sort lib.score (v.targetRequest c model kind scope)).map
          fun target =>
          v.claims lib c model scope target.id

/-- The answer to the request: the token that it carried, if it was accepted, and that of the
redirect. -/
def respond (token : Option RedirectClaims) :
    Except Refusal (Option RedirectClaims × Option RedirectClaims) := do
  let c ← v.authenticate token
  let c ← v.redirectTarget lib c
  let c ← v.aliasMiddleware lib c
  let next ← v.redirectDecision lib c
  return (c.redirect, next)

end Visit

end

/-!
## Chains of redirects

A client follows redirects from router to router. The machine `redirectChain` takes one step for
each redirect: the request carries the last token, the router accepts it and answers with another
one. The routers, their sibling maps and their aliases are arbitrary at every step, and so is
everything that the client may change in the request.

That a chain is short and does not come back holds in every run: the token counts the redirects,
`Target` excludes the policlouds of the router and of the origin, and with two redirects these are
all that were visited (`Bounded`). That all tokens are alike (`Sound`) needs more. A router routes a
redirected request by the model of its token, which is the name of a model at the first router; but
`AliasMiddleware` does not ask whether the model came from a token, and resolves it again where it
is the name of an alias. The next token then has the model that the alias was resolved to, and the
hash of the body with the first model in it. `chain_sound_iff` has the exact condition, for each
router that redirects further: the model of the token is not an alias there.
-/

open List

variable {F : Type} {std : Std F} {formats : Formats} {v : Visit std formats}

/-- The policlouds that answered with a redirect, and the tokens of their redirects. -/
structure Chain where
  visited : List String
  tokens : List RedirectClaims

namespace Chain

def start : Chain := ⟨[], []⟩

def last (s : Chain) : Option RedirectClaims := s.tokens.getLast?

def policlouds (s : Chain) : List String := s.visited ++ (s.last.map (·.site)).toList

/-- The request with the last token is accepted, and redirected. A request whose token is refused
may be served as a fresh one, but is no part of the chain. -/
def step (lib : Lib) (s : Chain) (v : Visit std formats) : Option Chain :=
  match v.respond lib s.last with
  | .ok (accepted, some token) =>
    if accepted.isSome = s.last.isSome then some ⟨s.visited ++ [v.self], s.tokens ++ [token]⟩
    else none
  | _ => none

end Chain

def redirectChain (std : Std F) (formats : Formats) (lib : Lib) :
    Machine Chain (Visit std formats) where
  Init s := s = .start
  step := Chain.step lib

/-- The tokens belong to one request: they have the same path, origin, key id and scope. -/
structure SameRequest (t u : RedirectClaims) : Prop where
  path : u.path = t.path
  origin : u.origin = t.origin
  keyID : u.keyID = t.keyID
  scope : u.scope = t.scope

structure Agrees (t u : RedirectClaims) : Prop extends SameRequest t u where
  model : u.model = t.model
  bodySHA : u.bodySHA = t.bodySHA

structure Bounded (s : Chain) : Prop where
  hops : s.tokens.length ≤ maxHops
  distinct : s.policlouds.Nodup
  same : ∀ first ∈ s.tokens.head?, ∀ t ∈ s.tokens, SameRequest first t

/-- The chain is short, does not come back, and every token agrees with the first one. -/
structure Sound (s : Chain) : Prop extends Bounded s where
  agrees : ∀ first ∈ s.tokens.head?, ∀ t ∈ s.tokens, Agrees first t

/-- The model of the last token is not one that the router resolves again. -/
def Concrete (s : Chain) (v : Visit std formats) : Prop :=
  ∀ t ∈ s.last, v.path ∈ semanticPaths → t.model ∉ v.site.aliases

/-! ### The target -/

/-- The target of a request is another policloud, and not the origin. -/
theorem target_ne {domains : List GoString} {m : SiblingMap}
    (hm : (siblingMap formats domains).Reachable m) {S : SliceSort} {H : Score}
    {req : TargetRequest} {p : Policloud} (h : m.target S H req = some p) :
    p.id ≠ req.self ∧ p.id ≠ req.origin := by
  have hsafe := (mapInv_of_reachable hm).safe
  obtain ⟨c, hc, rfl⟩ := exists_of_target h
  have hmem : c ∈ m.cands H req := (S.perm homeLess _).mem_iff.mp (mem_of_mem_take hc)
  obtain ⟨pl, hpl, hcand⟩ := mem_filterMap.mp hmem
  obtain ⟨-, -, -, -, -, hself, horigin, -⟩ :=
    cand_eq_some hsafe.id_eq (hsafe.placedByModel req.model pl hpl) hcand
  exact ⟨hself, horigin⟩

namespace Visit

variable {lib : Lib} {t : RedirectClaims} {c c' : Context}

/-! ### The token -/

theorem check_eq_none {T : Redirect.Target} {claims : Claims} {path : String} {inScope : Bool}
    {now : ℤ} (h : T.check claims path inScope now = none) :
    claims.site = T.self ∧ claims.path = path := by
  unfold Redirect.Target.check at h
  split at h
  · cases h
  · split_ifs at h with _ hsite hpath
    exact ⟨not_not.mp hsite, not_not.mp hpath⟩

theorem resolveKey_eq_some {keyID : String} {res : Caller}
    (h : v.resolveKey keyID = .ok (some res)) : res.keyID = keyID := by
  unfold resolveKey at h
  split at h
  · rename_i keys _ _
    exact keys.keyID_eq keyID res (Except.ok.inj h)
  · obtain ⟨res', -, h⟩ := map_eq_ok.mp h
    obtain ⟨hid, hres⟩ := Option.ite_none_left_eq_some.mp h
    rw [← Option.some.inj hres]
    exact not_not.mp hid

theorem refuseToken_eq_ok (h : v.refuseToken = .ok c) : c.redirect = none := by
  unfold refuseToken at h
  split_ifs at h
  obtain ⟨res, -, rfl⟩ := map_eq_ok.mp h
  rfl

theorem authenticate_none (h : v.authenticate none = .ok c) : c.redirect = none := by
  obtain ⟨res, -, rfl⟩ := map_eq_ok.mp h
  rfl

theorem authenticate_some (h : v.authenticate (some t) = .ok c) (hc : c.redirect ≠ none) :
    t.site = v.self ∧ t.path = v.path ∧
      ∃ res, res.keyID = t.keyID ∧ c = v.context res (some (normalizeIDs v.site.toTarget t)) := by
  unfold authenticate at h
  dsimp only at h
  split at h
  · exact absurd (refuseToken_eq_ok h) hc
  · rename_i hcheck
    obtain ⟨hsite, hpath⟩ := check_eq_none hcheck
    obtain ⟨found, hfound, h⟩ := bind_eq_ok.mp h
    cases found with
    | none => exact absurd (refuseToken_eq_ok h) hc
    | some res => exact ⟨hsite, hpath, res, resolveKey_eq_some hfound, (Except.ok.inj h).symm⟩

theorem refuseRedirect_eq_ok {err : Refusal} (h : v.refuseRedirect c err = .ok c') :
    c'.redirect = none := by
  unfold refuseRedirect at h
  split_ifs at h
  rw [← Except.ok.inj h]

/-- The context of a request whose token `t` was accepted. -/
structure Received (lib : Lib) (v : Visit std formats) (t : RedirectClaims) (c : Context) :
    Prop where
  site : t.site = v.self
  path : t.path = v.path
  redirect : c.redirect = some (normalizeIDs v.site.toTarget t)
  keyID : c.auth.keyID = t.keyID
  bodySHA : lib.bodySHA (clientBody c) = t.bodySHA
  model : c.peekedModel = some t.model

theorem redirectTarget_of_none (h : v.redirectTarget lib c = .ok c') (hc : c.redirect = none) :
    c'.redirect = none := by
  unfold redirectTarget at h
  rw [hc] at h
  cases h
  exact hc

theorem received (h : v.authenticate (some t) = .ok c) (h' : v.redirectTarget lib c = .ok c')
    (hc : c'.redirect ≠ none) : v.Received lib t c' := by
  have hne : c.redirect ≠ none := fun hnone => hc (redirectTarget_of_none h' hnone)
  obtain ⟨hsite, hpath, res, hkey, rfl⟩ := authenticate_some h hne
  unfold redirectTarget context at h'
  dsimp only at h'
  split at h'
  · exact absurd (refuseRedirect_eq_ok h') hc
  rename_i hsha
  split at h'
  · exact absurd (refuseRedirect_eq_ok h') hc
  · obtain ⟨routed, -, rfl⟩ := map_eq_ok.mp h'
    exact ⟨hsite, hpath, rfl, hkey, (not_not.mp hsha).symm, rfl⟩

/-! ### Aliases -/

theorem peekModel_eq (c : Context) :
    (peekModel c).2 = { c with peekedModel := (peekModel c).2.peekedModel } := by
  unfold peekModel
  split
  · rfl
  · split <;> rfl

theorem peekModel_of_some {model : String} (h : c.peekedModel = some model) :
    peekModel c = (model, c) := by
  unfold peekModel
  rw [h]

theorem resolveAlias_eq_ok {aliasName : String} (a : LoadedAlias std)
    (h : v.resolveAlias lib c aliasName a.spec = .ok c') :
    ∃ model, model ∉ v.site.aliases ∧ c'.peekedModel = some model ∧ c'.redirect = c.redirect ∧
      c'.auth = c.auth := by
  unfold resolveAlias at h
  split_ifs at h
  split at h
  · cases h
  · rename_i view _
    have hcases := Resolver.resolve_cases (R := v.site.resolver) a.routes_ne_nil
      (fun m hm => a.model_ne_empty hm) aliasName v.site.profiles view (v.env c.auth view) v.io
      v.pins
    split at h
    · cases h
    · rename_i d hresolve
      -- the resolved model replaces the alias in the body
      obtain ⟨patched, -, rfl⟩ := map_eq_ok.mp h
      refine ⟨d.model, fun hmem => ?_, rfl, rfl, rfl⟩
      have hresult : (v.site.resolver.resolve aliasName a.spec v.site.profiles view
          (v.env c.auth view) v.io v.pins).2 = (d, none) := hresolve
      rw [hresult] at hcases
      rcases hcases with ⟨-, r, -, -, -, hreason⟩ | ⟨herror, -⟩
      · -- a candidate that is an alias is refused for that reason
        have halias : (v.env c.auth view).Aliases d.model :=
          ⟨_, rfl, by rw [Finmap.mem_iff] at hmem; exact Option.isSome_iff_exists.mpr hmem⟩
        rw [check_of_aliases halias] at hreason
        exact absurd hreason (by decide)
      · cases herror

theorem aliasMiddleware_cases (h : v.aliasMiddleware lib c = .ok c') : c' = (peekModel c).2 ∧
        ((peekModel c).1 ≠ "" → v.path ∈ semanticPaths → (peekModel c).1 ∉ v.site.aliases) ∨
      v.path ∈ semanticPaths ∧ (peekModel c).1 ∈ v.site.aliases ∧
        ∃ model, model ∉ v.site.aliases ∧ c'.peekedModel = some model ∧
          c'.redirect = c.redirect ∧ c'.auth = c.auth := by
  unfold aliasMiddleware at h
  dsimp only at h
  split_ifs at h with hskip
  · -- the path is not one of the semantic ones, or the body has no model
    refine .inl ⟨(Except.ok.inj h).symm, fun hne hpath => ?_⟩
    exact absurd hskip (not_or.mpr ⟨hne, not_not.mpr hpath⟩)
  · obtain ⟨-, hpath⟩ := not_or.mp hskip
    split at h
    · rename_i hlookup
      -- the model is no alias
      refine .inl ⟨(Except.ok.inj h).symm, fun _ _ => ?_⟩
      exact Finmap.lookup_eq_none.mp hlookup
    · rename_i a hlookup
      obtain ⟨model, hmodel, hpeeked, hredirect, hauth⟩ := resolveAlias_eq_ok a h
      have heq := peekModel_eq c
      refine .inr ⟨not_not.mp hpath, Finmap.mem_of_lookup_eq_some hlookup, model, hmodel, hpeeked,
        ?_, ?_⟩
      · rw [hredirect, heq]
      · rw [hauth, heq]

/-! ### The redirect -/

variable {next : RedirectClaims}

theorem redirectDecision_eq_some (h : v.redirectDecision lib c = .ok (some next)) :
    (peekModel c).1 ≠ "" ∧ c.hop < maxHops ∧ ∃ scope site, v.scope lib c = .ok scope ∧
      next = v.claims lib c (peekModel c).1 scope site ∧ site ≠ v.self ∧ site ≠ v.origin c := by
  unfold redirectDecision at h
  split at h
  · cases h
  · rename_i kind _
    dsimp only at h
    split at h
    · cases h
    rename_i hmodel
    split at h
    · cases h
    rename_i hhop
    obtain ⟨hne, -⟩ := not_or.mp hmodel
    obtain ⟨hlt, -⟩ := not_or.mp hhop
    obtain ⟨scope, hscope, h⟩ := map_eq_ok.mp h
    obtain ⟨p, hp, rfl⟩ := Option.map_eq_some_iff.mp h
    obtain ⟨hself, horigin⟩ := target_ne v.site.map_reachable hp
    rw [peekModel_eq c] at hlt hscope horigin ⊢
    exact ⟨hne, not_le.mp hlt, scope, p.id, hscope, rfl, hself, horigin⟩

theorem aliasMiddleware_redirect (h : v.aliasMiddleware lib c = .ok c') :
    c'.redirect = c.redirect ∧ c'.auth = c.auth := by
  rcases aliasMiddleware_cases h with ⟨rfl, -⟩ | ⟨-, -, -, -, -, hredirect, hauth⟩
  · rw [peekModel_eq c]
    exact ⟨rfl, rfl⟩
  · exact ⟨hredirect, hauth⟩

/-- The first redirect of a request. -/
theorem respond_fresh {accepted : Option RedirectClaims}
    (h : v.respond lib none = .ok (accepted, some next)) :
    next.hop = 1 ∧ next.origin = v.self ∧ next.site ≠ v.self := by
  obtain ⟨c₁, h₁, h⟩ := bind_eq_ok.mp h
  obtain ⟨c₂, h₂, h⟩ := bind_eq_ok.mp h
  obtain ⟨c₃, h₃, h⟩ := bind_eq_ok.mp h
  obtain ⟨answer, h₄, h⟩ := bind_eq_ok.mp h
  cases h
  have hfresh : c₃.redirect = none := by
    rw [(aliasMiddleware_redirect h₃).1]
    exact redirectTarget_of_none h₂ (authenticate_none h₁)
  obtain ⟨-, -, scope, site, -, rfl, hself, -⟩ := redirectDecision_eq_some h₄
  refine ⟨?_, ?_, hself⟩
  · show c₃.hop + 1 = 1
    rw [Context.hop, hfresh]
    rfl
  · show v.origin c₃ = v.self
    rw [origin, hfresh]
    rfl

/-- The redirect of a request whose token was accepted. Whether the next token has the same model
and the hash of the same body depends on the model being an alias here. -/
theorem respond_redirected {info : RedirectClaims}
    (h : v.respond lib (some t) = .ok (some info, some next)) :
    t.site = v.self ∧ t.hop < maxHops ∧ next.hop = t.hop + 1 ∧ next.site ≠ v.self ∧
      next.site ≠ t.origin ∧ SameRequest t next ∧
      (Agrees t next ↔ (v.path ∈ semanticPaths → t.model ∉ v.site.aliases)) := by
  obtain ⟨c₁, h₁, h⟩ := bind_eq_ok.mp h
  obtain ⟨c₂, h₂, h⟩ := bind_eq_ok.mp h
  obtain ⟨c₃, h₃, h⟩ := bind_eq_ok.mp h
  obtain ⟨answer, h₄, h⟩ := bind_eq_ok.mp h
  obtain ⟨hinfo, rfl⟩ := Prod.mk.inj (Except.ok.inj h)
  obtain ⟨hredirect, hauth⟩ := aliasMiddleware_redirect h₃
  have hreceived : v.Received lib t c₂ := by
    refine received h₁ h₂ fun hnone => ?_
    rw [hredirect, hnone] at hinfo
    cases hinfo
  rw [hreceived.redirect] at hredirect
  obtain ⟨hmodel, hlt, scope, site, hscope, rfl, hself, horigin⟩ := redirectDecision_eq_some h₄
  have hhop : c₃.hop = t.hop := by
    rw [Context.hop, hredirect]
    rfl
  have hfrom : v.origin c₃ = t.origin := by
    rw [origin, hredirect]
    rfl
  have hsame : SameRequest t (v.claims lib c₃ (peekModel c₃).1 scope site) := by
    refine ⟨hreceived.path.symm, hfrom, ?_, ?_⟩
    · show c₃.auth.keyID = t.keyID
      rw [hauth]
      exact hreceived.keyID
    · rw [Visit.scope, hredirect] at hscope
      exact (Except.ok.inj hscope).symm
  refine ⟨hreceived.site, ?_, ?_, hself, ?_, hsame, ?_⟩
  · rw [← hhop]
    exact hlt
  · show c₃.hop + 1 = t.hop + 1
    rw [hhop]
  · rw [← hfrom]
    exact horigin
  -- the model and the body
  have hpeek := peekModel_of_some hreceived.model
  rcases aliasMiddleware_cases h₃ with ⟨rfl, hkept⟩ | ⟨hpath, halias, model, hne, hpeeked, -⟩
  · rw [hpeek] at hkept hmodel hsame ⊢
    dsimp only at hkept hmodel hsame ⊢
    rw [hpeek] at hmodel hsame ⊢
    exact iff_of_true ⟨hsame, rfl, hreceived.bodySHA⟩ (hkept hmodel)
  · rw [hpeek] at halias
    refine iff_of_false (fun hagrees => ?_) fun hnot => hnot hpath halias
    have heq : (peekModel c₃).1 = t.model := hagrees.model
    rw [peekModel_of_some hpeeked] at heq
    rw [← show model = t.model from heq] at halias
    exact hne halias

end Visit

/-! ### Runs -/

/-- A chain as far as it can come: `agree` says whether its two tokens do. -/
inductive Shape (agree : RedirectClaims → RedirectClaims → Prop) : Chain → Prop
  | start : Shape agree .start
  | once (a : String) (t : RedirectClaims) (hhop : t.hop = 1) (horigin : t.origin = a)
      (hsite : t.site ≠ a) : Shape agree ⟨[a], [t]⟩
  | twice (a b : String) (t u : RedirectClaims) (hhop : u.hop = 2) (hab : b ≠ a)
      (hself : u.site ≠ b) (horigin : u.site ≠ a) (hagree : agree t u) :
      Shape agree ⟨[a, b], [t, u]⟩

variable {agree : RedirectClaims → RedirectClaims → Prop} {s : Chain}

theorem Shape.bounded (h : Shape agree s) (hsame : ∀ t u, agree t u → SameRequest t u) :
    Bounded s := by
  cases h with
  | start => exact ⟨by decide, nodup_nil, nofun⟩
  | once a t hhop horigin hsite =>
    refine ⟨show (1 : ℤ) ≤ 2 by decide, ?_, ?_⟩
    · simpa [Chain.policlouds, Chain.last] using hsite.symm
    · rintro _ ⟨⟩ u hu
      rw [mem_singleton.mp hu]
      exact ⟨rfl, rfl, rfl, rfl⟩
  | twice a b t u hhop hab hself horigin hagree =>
    refine ⟨show (2 : ℤ) ≤ 2 by decide, ?_, ?_⟩
    · simpa [Chain.policlouds, Chain.last] using ⟨⟨hab.symm, horigin.symm⟩, hself.symm⟩
    · rintro _ ⟨⟩ x hx
      rcases mem_pair.mp hx with rfl | rfl
      · exact ⟨rfl, rfl, rfl, rfl⟩
      · exact hsame _ _ hagree

theorem Shape.sound (h : Shape Agrees s) : Sound s := by
  refine ⟨h.bounded fun _ _ hagrees => hagrees.toSameRequest, ?_⟩
  cases h with
  | start => exact nofun
  | once =>
    rintro _ ⟨⟩ u hu
    rw [mem_singleton.mp hu]
    exact ⟨⟨rfl, rfl, rfl, rfl⟩, rfl, rfl⟩
  | twice a b t u hhop hab hself horigin hagree =>
    rintro _ ⟨⟩ x hx
    rcases mem_pair.mp hx with rfl | rfl
    · exact ⟨⟨rfl, rfl, rfl, rfl⟩, rfl, rfl⟩
    · exact hagree

theorem Chain.step_eq_some {lib : Lib} {s' : Chain} (h : s.step lib v = some s') :
    ∃ accepted token, v.respond lib s.last = .ok (accepted, some token) ∧
      accepted.isSome = s.last.isSome ∧ s' = ⟨s.visited ++ [v.self], s.tokens ++ [token]⟩ := by
  unfold Chain.step at h
  split at h
  · rename_i accepted token hrespond
    obtain ⟨haccepted, h⟩ := Option.ite_none_right_eq_some.mp h
    exact ⟨accepted, token, hrespond, haccepted, (Option.some.inj h).symm⟩
  · cases h

/-- One redirect: it leads to a chain of the next shape, whose tokens agree exactly if the model of
the last token is no alias here. -/
theorem Shape.step {lib : Lib} {s' : Chain} (h : Shape agree s) (hstep : s.step lib v = some s') :
    Shape SameRequest s' ∧ (Sound s' ↔ Concrete s v) ∧ (Concrete s v → Shape Agrees s') := by
  obtain ⟨accepted, next, hrespond, haccepted, rfl⟩ := Chain.step_eq_some hstep
  cases h with
  | start =>
    -- the first router makes the first token
    obtain ⟨hhop, horigin, hsite⟩ := Visit.respond_fresh hrespond
    have hconcrete : Concrete .start v := nofun
    have hshape : ∀ agree, Shape agree ⟨[v.self], [next]⟩ := fun _ =>
      .once v.self next hhop horigin hsite
    exact ⟨hshape _, iff_of_true (hshape _).sound hconcrete, fun _ => hshape _⟩
  | once a t hhop horigin hsite =>
    -- the second redirect: the tokens agree exactly if this router resolves nothing
    obtain ⟨info, rfl⟩ := Option.isSome_iff_exists.mp haccepted
    obtain ⟨hself, -, hhop', hne, hne', hsame, hagrees⟩ :=
      Visit.respond_redirected (t := t) hrespond
    have hshape : ∀ agree : RedirectClaims → RedirectClaims → Prop, agree t next →
        Shape agree ⟨[a, v.self], [t, next]⟩ := fun _ =>
      .twice a v.self t next (by omega) (hself ▸ hsite) hne (horigin ▸ hne')
    have hconcrete : Concrete ⟨[a], [t]⟩ v ↔ Agrees t next := by
      rw [hagrees]
      exact ⟨fun h => h t rfl, fun h => by rintro _ ⟨⟩; exact h⟩
    refine ⟨hshape _ hsame, ?_, fun h => hshape _ (hconcrete.mp h)⟩
    rw [hconcrete]
    exact ⟨fun h => h.agrees t rfl next (by simp), fun h => (hshape _ h).sound⟩
  | twice a b t u hhop =>
    obtain ⟨info, rfl⟩ := Option.isSome_iff_exists.mp haccepted
    -- a third redirect is over the limit of hops
    obtain ⟨-, hlt, -⟩ := Visit.respond_redirected (t := u) hrespond
    rw [hhop] at hlt
    exact absurd hlt (by decide)

/-- **Chains of redirects.** Every chain has at most `MaxHops` redirects, visits different
policlouds, and keeps the path, the origin, the key and the scope. Its tokens agree all along
exactly if no router that redirects further has the model of the token as an alias. -/
theorem chain_sound_iff (std : Std F) (formats : Formats) (lib : Lib) :
    (∀ s, (redirectChain std formats lib).Reachable s → Bounded s) ∧
      ∀ (visits : List (Visit std formats)) (s : Chain),
        (redirectChain std formats lib).run .start visits = some s →
          ((redirectChain std formats lib).Throughout Sound .start visits ↔
            (redirectChain std formats lib).Along Concrete .start visits) := by
  constructor
  · intro s hs
    have hshape : Shape SameRequest s := by
      refine hs.induction (fun s hinit => ?_) fun s v s' h hstep => (h.step hstep).1
      rw [show s = _ from hinit]
      exact .start
    exact hshape.bounded fun _ _ h => h
  · intro visits s hrun
    refine Machine.throughout_iff_along_of (I := Shape Agrees) (fun _ h => h.sound) ?_ visits .start
      s .start hrun
    intro s v s' h hstep
    obtain ⟨-, hsound, hkeeps⟩ := h.step hstep
    exact ⟨hsound.mp, hkeeps⟩

/-! ### Three routers -/

namespace ThreeRouters

def lib : Lib where
  bodySHA := Utf8.toText
  parseView body _ _ := some { demoView with requestBytes := body.length }
  trimSpace := id
  sort := .insertion
  score _ _ _ := 0

/-- A map of three policlouds, with these placements of models. -/
def doc (placements : List (String × String)) : MapDoc where
  schema := 2
  version := some 1
  region := "r"
  policlouds := ["a", "b", "c"].map fun id =>
    ⟨id, Utf8.ofText ("https://" ++ id ++ ".x.ai"), "FR", some true⟩
  placements := placements.map fun (model, policloud) =>
    ⟨model, "chat", policloud, some true, "", none, 0⟩
  hintsExpireAt := ""

def map (placements : List (String × String)) : SiblingMap :=
  ((SiblingMap.new One.domains).replace One.formats (doc placements)).toOption.getD
    (.new One.domains)

def site (self : String) (placements : List (String × String))
    (aliases : GoMap String (LoadedAlias demoStd)) : Site demoStd One.formats where
  self := self
  canonicalRequestID := some
  validJTI _ := true
  domains := One.domains
  map := map placements
  map_reachable := ⟨.new One.domains, [doc placements], rfl, rfl⟩
  keys := none
  ttl := 60 * second
  resolver := demoResolver
  aliases := aliases
  profiles := ∅

/-- A request for the model `auto`, with the scope `all`. The model `other` has an agent when the
alias is resolved, and none when the redirect is decided. -/
def visit (site : Site demoStd One.formats) : Visit demoStd One.formats where
  site := site
  path := "/v1/chat/completions"
  body := Utf8.ofText "\x7b\"model\":\"auto\",\"messages\":[]\x7d"
  authorization := true
  sessionHeader := ""
  scopeHeader := "all"
  taskHeader := ""
  requestID := "r"
  clientRequestID := ""
  authenticated := .ok ⟨"t", "k", "p", none⟩
  guard := .new
  pins := newPinStore 10 10
  io := demoIO
  estimate := none
  healthyForAlias := (· = "other")
  healthy _ := false
  checkedAt := 0
  usedAt := 0
  decidedAt := 0
  jti := "j"

/-- The router `a`, for which `auto` is a model at `b`. -/
def atA : Visit demoStd One.formats := visit (site "a" [("auto", "b")] ∅)

def atB (aliases : GoMap String (LoadedAlias demoStd)) : Visit demoStd One.formats :=
  visit (site "b" [("auto", "c"), ("other", "c")] aliases)

def chain (aliases : GoMap String (LoadedAlias demoStd)) : Chain :=
  ((redirectChain demoStd One.formats lib).run .start [atA, atB aliases]).getD .start

theorem run_eq_chain {aliases : GoMap String (LoadedAlias demoStd)}
    (h : ((redirectChain demoStd One.formats lib).run .start [atA, atB aliases]).isSome = true) :
    (redirectChain demoStd One.formats lib).run .start [atA, atB aliases] =
      some (chain aliases) := by
  obtain ⟨s, hs⟩ := Option.isSome_iff_exists.mp h
  rw [chain, hs]
  rfl

end ThreeRouters

open ThreeRouters

/-- Without aliases, the two tokens agree. -/
theorem chain_sound_three :
    (redirectChain demoStd One.formats lib).run .start [atA, atB ∅] = some (chain ∅) ∧
      (chain ∅).policlouds = ["a", "b", "c"] ∧ Bounded (chain ∅) ∧
      (redirectChain demoStd One.formats lib).Throughout Sound .start [atA, atB ∅] := by
  have hrun : (redirectChain demoStd One.formats lib).run .start [atA, atB ∅] =
      some (chain ∅) := run_eq_chain (by decide +kernel)
  obtain ⟨hbounded, hsound⟩ := chain_sound_iff demoStd One.formats lib
  refine ⟨hrun, by decide +kernel, hbounded _ ⟨.start, _, rfl, hrun⟩, ?_⟩
  rw [hsound _ _ hrun]
  exact Machine.along_of_forall_mem (fun s v hv t _ _ => by
    rcases mem_pair.mp hv with rfl | rfl
    · exact Finmap.notMem_empty
    · exact Finmap.notMem_empty) _

/-- The router `b` has `auto` as an alias: it resolves the model of the token again, and the tokens
do not agree. -/
theorem not_sound_alias : ¬∀ (F : Type) (std : Std F) (formats : Formats) (lib : Lib) (s : Chain),
      (redirectChain std formats lib).Reachable s → Sound s := by
  intro h
  let aliases : GoMap String (LoadedAlias demoStd) :=
    (∅ : GoMap String (LoadedAlias demoStd)).insert "auto" demoAlias
  have hrun : (redirectChain demoStd One.formats lib).run .start [atA, atB aliases] =
      some (chain aliases) := run_eq_chain (by decide +kernel)
  have hmodels : (chain aliases).tokens.head?.map (·.model) = some "auto" ∧
      "other" ∈ (chain aliases).tokens.map (·.model) := by decide +kernel
  obtain ⟨hfirst, hlast⟩ := hmodels
  obtain ⟨t, ht, htmodel⟩ := Option.map_eq_some_iff.mp hfirst
  obtain ⟨u, hu, humodel⟩ := mem_map.mp hlast
  have hsound := h ℚ demoStd One.formats lib _ ⟨.start, _, rfl, hrun⟩
  have hmodel := (hsound.agrees t ht u hu).model
  rw [htmodel, humodel] at hmodel
  exact absurd hmodel (by decide)

end HivenetRouter.Api
