import HivenetRouter.Auth.KeyEntry

/-!
# The auth configuration

`auth.yaml` as `LoadAuthConfig` reads it, the quota blocks of its keys
(`QuotaConfig.validate`, which the admin API uses too), and the providers that
`ProvidersFromConfig` builds from it. Reading YAML is outside the model, and so are the admin
keys, which come from the environment.

A quota block has one of two shapes, and what `validate` returns keeps them apart: limits with
a `perModel` map have no token rates (`QuotaConfig.flat_of_validate`). A key of a provider
comes from an entry of the file, with its models and limits
(`exists_of_newStaticKeyProvider`).
-/

namespace HivenetRouter.Auth

open List Option

/-! ### Quota blocks -/

/-- `PerModelQuotaConfig`; a field that is absent is `none`. -/
structure PerModelQuotaConfig where
  requestsPerMinutePerReplica : Option ℤ
  tokensPerDay : Option ℤ
  deriving DecidableEq

structure QuotaConfig where
  requestsPerMinute : ℤ
  tokensPerDay : ℤ
  inputTokensPerMinute : ℤ
  outputTokensPerMinute : ℤ
  /-- `none` is the `nil` map, and an entry `none` the `nil` pointer. -/
  perModel : Option (GoMap String (Option PerModelQuotaConfig))

inductive QuotaError where
  /-- "input_tokens_per_minute and output_tokens_per_minute must be >= 0". -/
  | negativeRate
  /-- "quota.per_model is set together with the flat fields". -/
  | mixedShapes
  /-- "quota.per_model is present but empty". -/
  | emptyPerModel
  /-- "quota.per_model contains an empty model name". -/
  | emptyModelName
  /-- "quota.per_model[%q] is empty". -/
  | emptyEntry (model : String)
  /-- "quota.per_model[%q] is missing requests_per_minute_per_replica (use 0 for unlimited)". -/
  | missingRequests (model : String)
  /-- "quota.per_model[%q] is missing tokens_per_day (use 0 for unlimited)". -/
  | missingTokens (model : String)
  /-- "quota.per_model[%q].requests_per_minute_per_replica must be >= 0". -/
  | negativeRequests (model : String)
  /-- "quota.per_model[%q].tokens_per_day must be >= 0". -/
  | negativeTokens (model : String)

def validatePerModelEntry (model : String) (entry : Option PerModelQuotaConfig) :
    Except QuotaError PerModelQuotaLimits :=
  if model = "" then .error .emptyModelName
  else
    match entry with
    | none => .error (.emptyEntry model)
    | some entry =>
      match entry.requestsPerMinutePerReplica, entry.tokensPerDay with
      | none, _ => .error (.missingRequests model)
      | some _, none => .error (.missingTokens model)
      | some requests, some tokens =>
        if requests < 0 then .error (.negativeRequests model)
        else if tokens < 0 then .error (.negativeTokens model)
        else .ok ⟨requests, tokens⟩

/-- The loop of `Validate` over `per_model`. Of several entries with errors, the source reports the
one that `range` visits first. -/
def validatePerModel (perModel : GoMap String (Option PerModelQuotaConfig)) :
    List String → Except QuotaError (GoMap String PerModelQuotaLimits)
  | [] => .ok ∅
  | model :: models => do
    let entry ← validatePerModelEntry model (perModel.lookup model).join
    let resolved ← validatePerModel perModel models
    return resolved.insert model entry

def QuotaConfig.validate (q : QuotaConfig) : Except QuotaError QuotaLimits :=
  if q.inputTokensPerMinute < 0 || q.outputTokensPerMinute < 0 then .error .negativeRate
  else
    match q.perModel with
    | none =>
      .ok ⟨q.requestsPerMinute, q.tokensPerDay, q.inputTokensPerMinute, q.outputTokensPerMinute, 0,
        none⟩
    | some perModel =>
      if q.requestsPerMinute ≠ 0 || q.tokensPerDay ≠ 0 || q.inputTokensPerMinute ≠ 0 ||
          q.outputTokensPerMinute ≠ 0 then .error .mixedShapes
      else if perModel = ∅ then .error .emptyPerModel
      else (validatePerModel perModel perModel.sortedKeys).map fun resolved =>
        ⟨0, 0, 0, 0, 0, some resolved⟩

/-- The limits have one shape: with a map for each model there is no input rate. -/
def QuotaLimits.Flat (limits : QuotaLimits) : Prop :=
  limits.perModel = none ∨ limits.inputTokensPerMinute = 0

/-- What `Validate` returns has one shape, and the input rate of the block. -/
theorem QuotaConfig.flat_of_validate {q : QuotaConfig} {limits : QuotaLimits}
    (h : q.validate = .ok limits) :
    limits.Flat ∧ limits.inputTokensPerMinute = q.inputTokensPerMinute := by
  unfold QuotaConfig.validate at h
  split at h
  · cases h
  split at h
  · cases h
    exact ⟨.inl rfl, rfl⟩
  next perModel hperModel =>
  split at h
  · cases h
  next hmixed =>
  split at h
  · cases h
  obtain ⟨resolved, -, rfl⟩ := map_eq_ok.mp h
  simp only [ne_eq, decide_not, Bool.or_eq_true, Bool.not_eq_eq_eq_not, Bool.not_true,
    decide_eq_false_iff_not, not_or, not_not] at hmixed
  exact ⟨.inr rfl, hmixed.1.2.symm⟩

/-- `ValidateITPMCoversMaxInput`: a rate or a cap that is not set is not checked. -/
def validateITPMCoversMaxInput (inputTokensPerMinute maxInputTokens : ℤ) : Bool :=
  !(inputTokensPerMinute > 0 && maxInputTokens > 0 && inputTokensPerMinute < maxInputTokens)

/-! ### Static keys -/

structure APIKeyEntry where
  keyHash : String
  keyPreview : GoString
  owner : String
  name : String
  /-- What `ParseExpiresAt` makes of the date. -/
  expiresAt : Except Unit (Option Time)
  models : List String
  quota : QuotaConfig
  maxOccupancyShare : ℚ

/-- `AuthResult`: what is known of the caller. -/
structure AuthResult where
  tenantID : String
  allowedModels : List String
  quotaLimits : QuotaLimits

/-- `effectiveAllowedModels` has the model, or is unrestricted. -/
def AuthResult.mayCall (k : AuthResult) (model : String) : Bool :=
  match k.quotaLimits.perModel with
  | some perModel => (perModel.lookup model).isSome
  | none => k.allowedModels.isEmpty || model ∈ k.allowedModels

/-- The errors of `NewStaticKeyProvider`, with the index of the entry. -/
inductive StaticKeyError where
  /-- "api-key mode requires at least one key entry". -/
  | noKeys
  /-- "key_hash must not be empty". -/
  | emptyHash (i : ℕ)
  /-- "metadata.owner must not be empty". -/
  | emptyOwner (i : ℕ)
  /-- "metadata.name must not be empty". -/
  | emptyName (i : ℕ)
  /-- "duplicate key_hash in entry %d". -/
  | duplicateHash (i : ℕ)
  | expiresAt (i : ℕ)
  | quota (i : ℕ) (err : QuotaError)
  /-- "max_occupancy_share must be in (0, 1] (0 means unset), got %v". -/
  | occupancyShare (i : ℕ) (got : ℚ)

/-- The result and the expiry of a static key. -/
structure StaticKey where
  result : AuthResult
  expiresAt : Option Time

/-- The checks of one entry, for the keys that come before it. -/
def staticKey (i : ℕ) (keys : GoMap String StaticKey) (e : APIKeyEntry) :
    Except StaticKeyError StaticKey :=
  if e.keyHash = "" then .error (.emptyHash i)
  else if e.owner = "" then .error (.emptyOwner i)
  else if e.name = "" then .error (.emptyName i)
  else if (keys.lookup e.keyHash).isSome then .error (.duplicateHash i)
  else
    match e.expiresAt with
    | .error _ => .error (.expiresAt i)
    | .ok expiresAt =>
      match e.quota.validate with
      | .error err => .error (.quota i err)
      | .ok limits =>
        if e.maxOccupancyShare < 0 || e.maxOccupancyShare > 1 then
          .error (.occupancyShare i e.maxOccupancyShare)
        else .ok ⟨⟨e.owner, e.models, { limits with maxOccupancyShare := e.maxOccupancyShare }⟩,
          expiresAt⟩

/-- The loop of `NewStaticKeyProvider`, from the index `i`. -/
def addStaticKeys (i : ℕ) (keys : GoMap String StaticKey) :
    List APIKeyEntry → Except StaticKeyError (GoMap String StaticKey)
  | [] => .ok keys
  | e :: entries =>
    match staticKey i keys e with
    | .error err => .error err
    | .ok k => addStaticKeys (i + 1) (keys.insert e.keyHash k) entries

def newStaticKeyProvider (entries : List APIKeyEntry) :
    Except StaticKeyError (GoMap String StaticKey) :=
  if entries = [] then .error .noKeys else addStaticKeys 0 ∅ entries

/-- The key has the models and the input rate of the entry. -/
structure APIKeyEntry.Gives (e : APIKeyEntry) (k : AuthResult) : Prop where
  models : e.models = k.allowedModels
  rate : e.quota.inputTokensPerMinute = k.quotaLimits.inputTokensPerMinute

variable {keys : GoMap String StaticKey} {k : StaticKey} {entries : List APIKeyEntry}
  {hash : String}

theorem staticKey_eq_ok {i : ℕ} {e : APIKeyEntry} (h : staticKey i keys e = .ok k) :
    e.Gives k.result ∧ k.result.quotaLimits.Flat := by
  unfold staticKey at h
  -- the five checks before the quota: hash, owner and name, a hash met before, and the date
  iterate 5 (split at h; · cases h)
  split at h
  · cases h
  next limits hlimits =>
  split at h
  · cases h
  cases h
  obtain ⟨hflat, hrate⟩ := QuotaConfig.flat_of_validate hlimits
  exact ⟨⟨rfl, hrate.symm⟩, hflat⟩

theorem exists_of_addStaticKeys {i : ℕ} {keys' : GoMap String StaticKey}
    (h : addStaticKeys i keys entries = .ok keys') (hk : keys'.lookup hash = some k) :
    keys.lookup hash = some k ∨ ∃ e ∈ entries, e.Gives k.result ∧ k.result.quotaLimits.Flat := by
  -- by induction on the entries that are left, with the keys so far
  induction entries generalizing i keys with
  | nil =>
    cases h
    exact .inl hk
  | cons e entries ih =>
    unfold addStaticKeys at h
    split at h
    · cases h
    next k₁ hk₁ =>
    rcases ih h with hbefore | ⟨e', he', hgives⟩
    · obtain ⟨rfl, rfl⟩ | ⟨-, hbefore⟩ := GoMap.lookup_insert_eq_some.mp hbefore
      · exact .inr ⟨e, mem_cons_self, staticKey_eq_ok hk₁⟩
      · exact .inl hbefore
    · exact .inr ⟨e', mem_cons_of_mem _ he', hgives⟩

/-- **A static key comes from an entry of the file.** -/
theorem exists_of_newStaticKeyProvider (h : newStaticKeyProvider entries = .ok keys)
    (hk : keys.lookup hash = some k) :
    ∃ e ∈ entries, e.Gives k.result ∧ k.result.quotaLimits.Flat := by
  unfold newStaticKeyProvider at h
  split_ifs at h
  rcases exists_of_addStaticKeys h hk with hempty | hentry
  · cases hempty
  · exact hentry

/-! ### Providers -/

/-- `AuthMode`, of the API section. -/
inductive AuthMode where
  | none
  | apiKey
  | dynamic
  | unknown (mode : String)
  deriving DecidableEq

/-- `AuthConfig`. Whether `buildAdminProvider` accepts the admin section depends on the environment
too. -/
structure AuthConfig where
  mode : AuthMode
  keys : List APIKeyEntry
  adminAccepted : Bool

/-- The flags of `Config` about keys: whether there is an `auth.yaml`, and the mode, the verdict on
the admin section and the site without it. -/
structure AuthFlags where
  authConfigFile : Bool
  authMode : AuthMode
  adminAccepted : Bool
  siteID : String

/-- The API provider that `ProvidersFromConfig` builds. -/
inductive APIProvider where
  | static (keys : GoMap String StaticKey)
  | noAuth
  | dynamic

/-- `ProvidersFromConfig`, for what it reads from the file; without a value it has failed. -/
def providersFromConfig (flags : AuthFlags) (file : Option AuthConfig) : Option APIProvider :=
  let authCfg := if flags.authConfigFile then file
    else some ⟨flags.authMode, [], flags.adminAccepted⟩
  authCfg.bind fun authCfg =>
    if !authCfg.adminAccepted then none
    else
      match authCfg.mode with
      | .none => some .noAuth
      | .apiKey => (newStaticKeyProvider authCfg.keys).toOption.map .static
      | .dynamic => some .dynamic
      | .unknown _ => none

/-- `redirect.CheckAuthMode` accepts the provider. -/
def checkAuthMode (flags : AuthFlags) : APIProvider → Bool
  | .static _ => flags.siteID = ""
  | _ => true

/-- `admissionKeysFromConfig`, for what it reads from the file. -/
def admissionKeysFromConfig (flags : AuthFlags) (file : Option AuthConfig) :
    Option (List APIKeyEntry) :=
  if !flags.authConfigFile then some []
  else file.map fun authCfg => if authCfg.mode = .apiKey then authCfg.keys else []

/-- The keys of a static provider are among those that the admission check reads. -/
theorem exists_admissionKey {flags : AuthFlags} {file : Option AuthConfig}
    (h : providersFromConfig flags file = some (.static keys)) (hk : keys.lookup hash = some k) :
    ∃ entries ∈ admissionKeysFromConfig flags file, ∃ e ∈ entries,
      e.Gives k.result ∧ k.result.quotaLimits.Flat := by
  obtain ⟨authCfg, hcfg, h⟩ := bind_eq_some_iff.mp h
  split_ifs at h
  split at h
  · cases h
  next hmode =>
    obtain ⟨keys', hkeys', heq⟩ := map_eq_some_iff.mp h
    cases heq
    have hok : newStaticKeyProvider authCfg.keys = .ok keys := by
      cases hnew : newStaticKeyProvider authCfg.keys with
      | error =>
        rw [hnew] at hkeys'
        cases hkeys'
      | ok =>
        rw [hnew] at hkeys'
        rw [some.inj hkeys']
    obtain ⟨e, he, hgives⟩ := exists_of_newStaticKeyProvider hok hk
    unfold admissionKeysFromConfig
    cases hfile : flags.authConfigFile with
    | false =>
      -- without a file there are no entries
      rw [hfile] at hcfg
      obtain rfl := some.inj hcfg
      exact absurd he not_mem_nil
    | true =>
      rw [hfile] at hcfg
      obtain rfl : file = some authCfg := hcfg
      refine ⟨authCfg.keys, ?_, e, he, hgives⟩
      simp [hmode]
  all_goals cases h

end HivenetRouter.Auth
