import HivenetRouter.Api.AdminKeys
import HivenetRouter.Router.PolicyReload

/-!
# Policies and keys of a running router

The law that spans the two configurations: if a key may call a model, and the effective policy
of the model is serverless with an input cap, then the input rate of the key, if it is set, is
no less than the cap. The machine `configuration` is a router from its start on, with
everything that changes policies or keys: the two halves of a `SIGHUP`, the policy handlers
and the key handlers of the admin API. What is read from outside, and read again for the
check, is chosen by the action, each read by itself.

The law is checked on most of these paths, but not on all. `SafeStep` says what a step must
meet for the law to survive it: a policy that is put through the API covers the keys in force,
since the handlers do not check it; the global policy lists no models; the keys in
`auth.yaml`, which a policy reload is checked against, are those in force; and a file that is
read twice does not change in between. Then the law holds in every state reached
(`admission_law`). `put_policy_breaks_law` is a run where a policy is put through the API.

The invariant is `Validated`: every policy in force covers every key in force, wherever it is used.
-/

namespace HivenetRouter.Router

open Policy Auth Api List Option Machine

/-! ### Keys in force -/

/-- `apiAuth` and `keyRegistry`. Without authentication there is no key. -/
inductive KeySource where
  | static (keys : GoMap String StaticKey)
  | dynamic (p : DynamicKeyProvider)

/-- What `Authenticate` returns for an entry. -/
def dynamicResult (e : DynamicKeyEntry) : AuthResult := ⟨e.owner, models e, e.quota⟩

def KeySource.Grants : KeySource → AuthResult → Prop
  | .static keys, k => ∃ hash s, keys.lookup hash = some s ∧ k = s.result
  | .dynamic p, k => ∃ id e, p.registry.byID.lookup id = some e ∧ k = dynamicResult e

def dynamicEntryAsAPIKey (e : DynamicKeyEntry) : APIKeyEntry :=
  ⟨"", e.id, "", "", .ok none, models e, ⟨0, 0, e.quota.inputTokensPerMinute, 0, none⟩, 0⟩

def dynamicKeysAsEntries : KeySource → List APIKeyEntry
  | .static _ => []
  | .dynamic p => p.registry.byID.sortedKeys.filterMap fun id =>
      (p.registry.byID.lookup id).map dynamicEntryAsAPIKey

/-! ### The router -/

/-- The flags of `Config` about policies. -/
structure PolicyFlags where
  policyFile : Bool
  policyModelDir : Bool

/-- The policies and the keys of a running router. -/
structure Live (Hash : Type) where
  policies : State Hash
  keys : KeySource

structure KeyStoreStart where
  db : Db
  macKey : GoString
  opened : Bool
  maxAge : Option ℕ
  now : Stamp
  fates : List Fate
  cleanup : List Fate

/-- What a start reads. `auth.yaml` is read twice; `order` is that of the named policies. -/
structure Startup (Content : Type) where
  policyFile : Option Content
  dir : Directory Content
  authFile : Option AuthConfig
  authFileAgain : Option AuthConfig
  keyStore : Option KeyStoreStart
  order : List String

/-- `order` is always that of the named policies, in the check of the step. -/
inductive ConfigAct (Content : Type) where
  | start (s : Startup Content)
  /-- The first half of `SIGHUP`, which reads `auth.yaml` twice. -/
  | reloadAuthProviders (order : List String) (authFile authFileAgain : Option AuthConfig)
  /-- The second half, without a policy directory. -/
  | reloadPolicyFile (authFile : Option AuthConfig) (content : Option Content)
  /-- The second half, with a policy directory. -/
  | reloadPolicyModelDir (authFile : Option AuthConfig) (r : Reload Content)
  | putPolicy (body : Content)
  | putModelPolicy (order : List String) (name : String) (body : Content)
  | deleteModelPolicy (name : String)
  | upsertAPIKey (order : List String) (version : GoString) (k : APIKeyEntryRequest) (now : Stamp)
      (fates : List Fate)
  | replaceAPIKeys (order : List String) (version : GoString) (keys : List APIKeyEntryRequest)
      (now : Stamp) (fates : List Fate)
  | deleteAPIKey (version keyID : GoString) (now : Stamp) (fates : List Fate)

section Machine

variable {Content Hash : Type} (D : DirLoader Content Hash)
  (providers : List String) (auth : AuthFlags) (flags : PolicyFlags)

def startPolicies (s : Startup Content) : Option (State Hash) :=
  (if flags.policyFile then s.policyFile.bind D.loadBytes else some defaultPolicy).bind
    fun activePolicy =>
      if flags.policyModelDir then (loadDirSnapshot D s.dir).map (.start activePolicy)
      else some ⟨⟨activePolicy, ∅⟩, ∅⟩

/-- The policies in force, in the order of a check. -/
def State.gather (st : State Hash) (order : List String) : List PolicyDoc :=
  gatherPolicies order st.policy.global st.policy.named

/-- The check of a restored key, `admitRestored`. -/
def admitRestored (policies : List PolicyDoc) (e : DynamicKeyEntry) : Bool :=
  (validateAdmissionInvariants policies [dynamicEntryAsAPIKey e]).isOk

/-- The keys that a start has: those of the file, or the dynamic registry with what is restored. -/
def startKeys (policies : List PolicyDoc) (keyStore : Option KeyStoreStart) :
    APIProvider → Option KeySource
  | .static keys => some (.static keys)
  | .noAuth => some (.static ∅)
  | .dynamic =>
    match keyStore with
    | none => some (.dynamic (.new ⟨none, ∅⟩ [] false))
    | some ks =>
      (Outcome.survivor (DynamicKeyProvider.wireKeyStore ⟨ks.maxAge, admitRestored policies⟩ ks.now
        ks.cleanup (.new ks.db ks.macKey ks.opened) ks.fates)).map .dynamic

/-- `New` and `Start`, as far as they concern policies and keys. -/
def start (s : Startup Content) : Option (Live Hash) :=
  (startPolicies D flags s).bind fun policies =>
    (providersFromConfig auth s.authFile).bind fun prov =>
      (startKeys (policies.gather s.order) s.keyStore prov).bind fun keys =>
        (admissionKeysFromConfig auth s.authFileAgain).bind fun entries =>
          if RangeOrder policies.policy.named s.order ∧ checkAuthMode auth prov = true ∧
              (validateAdmissionInvariants (policies.gather s.order) entries).isOk = true ∧
              (policies.gather s.order).all fun p =>
                (validateProviderPolicy providers p).isNone then
            some ⟨policies, keys⟩
          else none

/-- `reloadAuthProviders`: in dynamic mode the registry stays, and the mode cannot change. -/
def Live.reloadAuthProviders (l : Live Hash) (order : List String)
    (authFile authFileAgain : Option AuthConfig) : Live Hash :=
  match l.keys, providersFromConfig auth authFile, admissionKeysFromConfig auth authFileAgain with
  | .static _, some prov, some entries =>
    if (validateAdmissionInvariants (l.policies.gather order) entries).isOk &&
        checkAuthMode auth prov then
      match prov with
      | .static keys => { l with keys := .static keys }
      | .noAuth => { l with keys := .static ∅ }
      | .dynamic => l
    else l
  | _, _, _ => l

/-- `checkAdmissionAgainstKeys`: if `auth.yaml` cannot be read, its keys are not checked. -/
def Live.checkAdmissionAgainstKeys (l : Live Hash) (authFile : Option AuthConfig)
    (policies : List PolicyDoc) : Bool :=
  (validateAdmissionInvariants policies
    ((admissionKeysFromConfig auth authFile).getD [] ++ dynamicKeysAsEntries l.keys)).isOk

def Live.reloadPolicyFile (l : Live Hash) (authFile : Option AuthConfig)
    (content : Option Content) : Live Hash :=
  match content.bind D.loadBytes with
  | none => l
  | some p =>
    if (validateProviderPolicy providers p).isNone && l.checkAdmissionAgainstKeys auth authFile [p]
    then { l with policies := { l.policies with policy := l.policies.policy.setPolicy p } }
    else l

/-- The reload of the policy directory, with the check against the keys. -/
def Live.reload (l : Live Hash) (authFile : Option AuthConfig) (r : Reload Content) :
    Reload Content :=
  { r with checkAdmission := fun global named =>
      l.checkAdmissionAgainstKeys auth authFile (gatherPolicies r.stems global named) }

def Live.putPolicy (l : Live Hash) (body : Content) : Live Hash :=
  match D.loadBytes body with
  | none => l
  | some p =>
    if (validateProviderPolicy providers p).isSome then l
    else { l with policies := { l.policies with policy := l.policies.policy.setPolicy p } }

def Live.putModelPolicy (l : Live Hash) (order : List String) (name : String) (body : Content) :
    Live Hash :=
  if name = "" then l
  else
    match D.loadModelDocBytes body with
    | none => l
    | some p =>
      if p.models.isEmpty || (validateProviderPolicy providers p).isSome then l
      else
        match l.policies.policy.setNamedPolicy order name p with
        | .error _ => l
        | .ok policy => { l with policies := { l.policies with policy := policy } }

def Live.deleteModelPolicy (l : Live Hash) (name : String) : Live Hash :=
  if name = "" then l
  else
    { l with policies := { l.policies with policy := l.policies.policy.deleteNamedPolicy name } }

/-- The call of a key handler, without effect unless the mode is dynamic. -/
def Live.callRegistry (l : Live Hash) (request : Except KeyRefusal Mutation) (now : Stamp)
    (fates : List Fate) : Option (Live Hash) :=
  match l.keys, request with
  | .dynamic p, .ok μ =>
    (Outcome.survivor (μ.call now p fates)).map fun p' => { l with keys := .dynamic p' }
  | _, _ => some l

variable [DecidableEq Hash] in
def Live.step (l : Live Hash) : ConfigAct Content → Option (Live Hash)
  | .start _ => none
  | .reloadAuthProviders order authFile authFileAgain =>
    if RangeOrder l.policies.policy.named order then
      some (l.reloadAuthProviders auth order authFile authFileAgain)
    else none
  | .reloadPolicyFile authFile content =>
    if flags.policyFile && !flags.policyModelDir then
      some (l.reloadPolicyFile D providers auth authFile content)
    else none
  | .reloadPolicyModelDir authFile r =>
    if flags.policyModelDir then
      (l.policies.reloadPolicyModelDir D providers (l.reload auth authFile r)).map
        fun policies => { l with policies := policies }
    else none
  | .putPolicy body => some (l.putPolicy D providers body)
  | .putModelPolicy order name body =>
    if RangeOrder l.policies.policy.named order then
      some (l.putModelPolicy D providers order name body)
    else none
  | .deleteModelPolicy name => some (l.deleteModelPolicy name)
  | .upsertAPIKey order version k now fates =>
    if RangeOrder l.policies.policy.named order then
      l.callRegistry (upsertAPIKey (l.policies.gather order) version k) now fates
    else none
  | .replaceAPIKeys order version keys now fates =>
    if RangeOrder l.policies.policy.named order then
      l.callRegistry (replaceAPIKeys (l.policies.gather order) version keys) now fates
    else none
  | .deleteAPIKey version keyID now fates => l.callRegistry (deleteAPIKey version keyID) now fates

variable [DecidableEq Hash] in
def configuration : Machine (Option (Live Hash)) (ConfigAct Content) where
  Init l := l = none
  step
    | none, .start s => (start D providers auth flags s).map some
    | none, _ => none
    | some l, a => (l.step D providers auth flags a).map some

/-! ### The law -/

/-- The input rate of every key is no less than the input cap of the effective policy of every model
that the key may call, where both are set and the policy is serverless. -/
def Law (l : Live Hash) : Prop :=
  ∀ order, RangeOrder l.policies.policy.named order →
    ∀ k, l.keys.Grants k → ∀ model, k.mayCall model = true →
      let p := l.policies.policy.effectivePolicy order model
      p.isServerless = true → 0 < p.maxInputTokens → 0 < k.quotaLimits.inputTokensPerMinute →
        p.maxInputTokens ≤ k.quotaLimits.inputTokensPerMinute

def CoversAll (keys : KeySource) (p : PolicyDoc) : Prop :=
  ∀ k, keys.Grants k → Covers p k.allowedModels k.quotaLimits.inputTokensPerMinute

/-- The file lists the static keys in force, with their models and rates. -/
def InFile (auth : AuthFlags) (authFile : Option AuthConfig) : KeySource → Prop
  | .static keys => ∀ k, (KeySource.static keys).Grants k →
      ∃ entries ∈ admissionKeysFromConfig auth authFile, ∃ e ∈ entries, e.Gives k
  | .dynamic _ => True

/-- What a step must meet for the law to survive it. -/
def SafeStep : Option (Live Hash) → ConfigAct Content → Prop
  | _, .start s => s.authFile = s.authFileAgain ∧
      (∀ p ∈ s.policyFile.bind D.loadBytes, p.models = []) ∧
      (∀ snap ∈ loadDirSnapshot D s.dir, ∀ p ∈ snap.global, p.models = []) ∧
      ∀ ks ∈ s.keyStore, ∀ id e, ks.db.restorable id = some e → e.quota.Flat
  | _, .reloadAuthProviders _ authFile authFileAgain => authFile = authFileAgain
  | some l, .reloadPolicyFile authFile content => InFile auth authFile l.keys ∧
      ∀ p ∈ content.bind D.loadBytes, p.models = []
  | some l, .reloadPolicyModelDir authFile r => InFile auth authFile l.keys ∧
      ∀ snap ∈ loadDirSnapshot D r.dir, ∀ p ∈ snap.global, p.models = []
  | some l, .putPolicy body => ∀ p ∈ D.loadBytes body, p.models = [] ∧ CoversAll l.keys p
  | some l, .putModelPolicy _ _ body => ∀ p ∈ D.loadModelDocBytes body, CoversAll l.keys p
  | _, _ => True

/-- Every policy in force covers every key in force, and the global policy lists no models. -/
structure Validated (l : Live Hash) : Prop where
  global : l.policies.policy.global.models = []
  flat : ∀ k, l.keys.Grants k → k.quotaLimits.Flat
  covers : ∀ p, InForce l.policies.policy p → CoversAll l.keys p

variable {D providers auth flags} {l l' : Live Hash} {k : AuthResult} {authFile : Option AuthConfig}

/-- **The law follows**, whichever policy is effective. -/
theorem Validated.law (h : Validated l) : Law l := by
  intro order horder k hk model hcall p hserverless hcap hrate
  have hcalls : Calls k.allowedModels model := by
    unfold AuthResult.mayCall at hcall
    rcases h.flat k hk with hflat | hzero
    · rw [hflat] at hcall
      simpa [Calls] using hcall
    · -- a key with limits for each model has no input rate
      rw [hzero] at hrate
      exact absurd hrate (lt_irrefl 0)
  -- without a document that lists the model, the global policy applies to all of them
  rcases effectivePolicy_cases l.policies.policy order model with hglobal | ⟨name, hroutes⟩
  · have hlist : p.models = [] := (congrArg PolicyDoc.models hglobal).trans h.global
    exact (h.covers p (.inl hglobal) k hk).of_global hlist hserverless hcap hrate
  · exact (h.covers p (.inr ⟨name, hroutes.held⟩) k hk).of_routes hroutes.listed hcalls hserverless
      hcap hrate

/-- New policies: each was in force before, or covers the keys. -/
theorem Validated.of_policies (h : Validated l) {policies : State Hash}
    (hglobal : policies.policy.global.models = [])
    (hnew : ∀ p, InForce policies.policy p → InForce l.policies.policy p ∨ CoversAll l.keys p) :
    Validated { l with policies := policies } :=
  ⟨hglobal, h.flat, fun p hp => (hnew p hp).elim (h.covers p) id⟩

/-- New keys: each was in force before, or the policies cover it. -/
theorem Validated.of_keys (h : Validated l) {keys : KeySource}
    (hnew : ∀ k, keys.Grants k → l.keys.Grants k ∨ k.quotaLimits.Flat ∧
      ∀ p, InForce l.policies.policy p →
        Covers p k.allowedModels k.quotaLimits.inputTokensPerMinute) :
    Validated { l with keys := keys } :=
  ⟨h.global, fun k hk => (hnew k hk).elim (h.flat k) And.left,
    fun p hp k hk => (hnew k hk).elim (h.covers p hp k) fun hk => hk.2 p hp⟩

/-! ### The checks -/

theorem isOk_unit_iff {ε : Type} {x : Except ε Unit} : x.isOk = true ↔ x = .ok () := by
  cases x with
  | error => exact iff_of_false nofun nofun
  | ok => exact iff_of_true rfl rfl

theorem APIKeyEntry.Gives.covers {e : APIKeyEntry} (h : e.Gives k) {p : PolicyDoc}
    (hp : Covers p e.models e.quota.inputTokensPerMinute) :
    Covers p k.allowedModels k.quotaLimits.inputTokensPerMinute := by
  rw [← h.models, ← h.rate]
  exact hp

variable {policies : List PolicyDoc} {order : List String}

theorem coversAll_of_check (hfile : InFile auth authFile l.keys)
    (hcheck : l.checkAdmissionAgainstKeys auth authFile policies = true) :
    ∀ p ∈ policies, CoversAll l.keys p := by
  intro p hp k hk
  have hall := validateAdmissionInvariants_eq_ok_iff.mp (isOk_unit_iff.mp hcheck) p hp
  -- the static keys are checked as the file has them, the dynamic ones as they are in force
  cases hkeys : l.keys with
  | static =>
    rw [hkeys] at hk hfile
    obtain ⟨entries, hentries, e, he, hgives⟩ := hfile k hk
    rw [mem_def.mp hentries] at hall
    exact APIKeyEntry.Gives.covers hgives (hall e (mem_append_left _ he))
  | dynamic =>
    rw [hkeys] at hk hall
    obtain ⟨id, e, he, rfl⟩ := hk
    refine hall (dynamicEntryAsAPIKey e) (mem_append_right _ (mem_filterMap.mpr ?_))
    exact ⟨id, GoMap.mem_sortedKeys.mpr (GoMap.mem_of_lookup he), by rw [he]; rfl⟩

theorem covers_of_file {keys : GoMap String StaticKey}
    (hprov : providersFromConfig auth authFile = some (.static keys)) {entries : List APIKeyEntry}
    (hentries : admissionKeysFromConfig auth authFile = some entries)
    (hcheck : (validateAdmissionInvariants policies entries).isOk = true)
    (hk : (KeySource.static keys).Grants k) :
    k.quotaLimits.Flat ∧
      ∀ p ∈ policies, Covers p k.allowedModels k.quotaLimits.inputTokensPerMinute := by
  obtain ⟨hash, s, hs, rfl⟩ := hk
  obtain ⟨entries', hentries', e, he, hgives, hflat⟩ := exists_admissionKey hprov hs
  -- both readings of the file give the same entries
  obtain rfl := mem_unique hentries hentries'
  refine ⟨hflat, fun p hp => APIKeyEntry.Gives.covers hgives ?_⟩
  exact validateAdmissionInvariants_eq_ok_iff.mp (isOk_unit_iff.mp hcheck) p hp e he

theorem not_grants_empty : ¬(KeySource.static ∅).Grants k := by
  rintro ⟨hash, s, hs, -⟩
  cases hs

/-! ### One step -/

theorem mem_gather_iff {st : State Hash} (horder : RangeOrder st.policy.named order)
    {p : PolicyDoc} :
    p ∈ st.gather order ↔ InForce st.policy p :=
  mem_gatherPolicies_iff horder

theorem Validated.reloadAuthProviders (h : Validated l)
    (horder : RangeOrder l.policies.policy.named order) (authFile : Option AuthConfig) :
    Validated (l.reloadAuthProviders auth order authFile authFile) := by
  unfold Live.reloadAuthProviders
  split
  · next prov entries hkeys hprov hentries =>
    split_ifs with hcheck
    · rw [Bool.and_eq_true] at hcheck
      split
      · next keys =>
        -- the new keys have been checked against the policies in force
        refine h.of_keys fun k hk => .inr ?_
        obtain ⟨hflat, hcovers⟩ := covers_of_file hprov hentries hcheck.1 hk
        exact ⟨hflat, fun p hp => hcovers p ((mem_gather_iff horder).mpr hp)⟩
      · exact h.of_keys fun k hk => absurd hk not_grants_empty
      · exact h
    · exact h
  · exact h

theorem Validated.setPolicy (h : Validated l) {p : PolicyDoc} (hlist : p.models = [])
    (hp : CoversAll l.keys p) :
    Validated { l with
      policies := { l.policies with policy := l.policies.policy.setPolicy p } } := by
  refine h.of_policies hlist fun q hq => ?_
  rcases hq with rfl | ⟨name, hname⟩
  · exact .inr hp
  · exact .inl (.inr ⟨name, hname⟩)

theorem Validated.reloadPolicyFile (h : Validated l) (hfile : InFile auth authFile l.keys)
    {content : Option Content} (hlist : ∀ p ∈ content.bind D.loadBytes, p.models = []) :
    Validated (l.reloadPolicyFile D providers auth authFile content) := by
  unfold Live.reloadPolicyFile
  split
  · exact h
  next p hp =>
  split_ifs with hcheck
  · rw [Bool.and_eq_true] at hcheck
    exact h.setPolicy (hlist p hp) (coversAll_of_check hfile hcheck.2 p (mem_singleton_self p))
  · exact h

/-- The global policy after a reload is the one of the directory, the built-in default or the one
before. -/
theorem reloadGlobal_cases (providers : List String) (st : State Hash) (snap : DirSnapshot Hash) :
    snap.global = some (st.reloadGlobal providers snap) ∨
      st.reloadGlobal providers snap = defaultPolicy ∨
      st.reloadGlobal providers snap = st.policy.global := by
  unfold State.reloadGlobal
  split
  · next g hg =>
    split_ifs
    · exact .inr (.inr rfl)
    · exact .inl hg
  · split_ifs
    · exact .inr (.inl rfl)
    · exact .inr (.inr rfl)

variable [DecidableEq Hash] in
/-- A reload of the directory: what it takes over has been checked, and what it keeps was in
force. -/
theorem Validated.reloadPolicyModelDir (h : Validated l) (hfile : InFile auth authFile l.keys)
    {r : Reload Content}
    (hlist : ∀ snap ∈ loadDirSnapshot D r.dir, ∀ p ∈ snap.global, p.models = [])
    {policies : State Hash}
    (hreload : l.policies.reloadPolicyModelDir D providers (l.reload auth authFile r) =
      some policies) :
    Validated { l with policies := policies } := by
  unfold State.reloadPolicyModelDir at hreload
  split at hreload
  · cases hreload
    exact h
  next snap hsnap =>
  obtain ⟨R, hR, rfl⟩ := map_eq_some_iff.mp hreload
  obtain ⟨hheld, hload, hstems⟩ := reloading_eq_some hR
  obtain ⟨hdir, hchecks⟩ := filter_eq_some_iff.mp hsnap
  rw [Bool.and_eq_true] at hchecks
  -- the check reads the whole snapshot, before any document of it is refused
  have hcovers := coversAll_of_check hfile hchecks.2
  have hglobal := reloadGlobal_cases providers l.policies snap
  refine h.of_policies ?_ fun p hp => ?_
  · change (l.policies.reloadGlobal providers snap).models = []
    rcases hglobal with hnew | hdefault | hbefore
    · exact hlist snap hdir _ hnew
    · rw [hdefault]
      rfl
    · rw [hbefore]
      exact h.global
  · rcases hp with rfl | ⟨name, hname⟩
    · rcases hglobal with hnew | hdefault | hbefore
      · refine .inr (hcovers _ (mem_cons.mpr (.inl ?_)))
        rw [hnew]
        rfl
      · right
        change CoversAll l.keys (l.policies.reloadGlobal providers snap)
        rw [hdefault]
        exact fun k _ hserverless => nomatch hserverless
      · exact .inl (.inl hbefore)
    · rcases Reloading.lookup_named_eq_some_iff.mp hname with haccepted | ⟨-, -, hbefore⟩
      · -- an accepted document is one of the snapshot, and so checked
        obtain ⟨hsnapped, -⟩ := Reloading.accept_eq_some_iff.mp haccepted
        have hstem : name ∈ r.stems := by
          have hmem := Reloading.mem_stems hsnapped
          rwa [hstems] at hmem
        rw [hload] at hsnapped
        exact .inr (hcovers p (mem_cons_of_mem _ (mem_filterMap.mpr ⟨name, hstem, hsnapped⟩)))
      · rw [hheld] at hbefore
        exact .inl (.inr ⟨name, hbefore⟩)

theorem Validated.putPolicy (h : Validated l) {body : Content}
    (hsafe : ∀ p ∈ D.loadBytes body, p.models = [] ∧ CoversAll l.keys p) :
    Validated (l.putPolicy D providers body) := by
  unfold Live.putPolicy
  split
  · exact h
  next p hp =>
  split_ifs
  · exact h
  · exact h.setPolicy (hsafe p hp).1 (hsafe p hp).2

theorem Validated.putModelPolicy (h : Validated l) {name : String} {body : Content}
    (hsafe : ∀ p ∈ D.loadModelDocBytes body, CoversAll l.keys p) :
    Validated (l.putModelPolicy D providers order name body) := by
  unfold Live.putModelPolicy
  split
  · exact h
  split
  · exact h
  next p hp =>
  split
  · exact h
  split
  · exact h
  next policy hpolicy =>
  -- a document whose models are owned by another one is refused
  unfold PolicyState.setNamedPolicy at hpolicy
  split at hpolicy
  · cases hpolicy
  cases hpolicy
  refine h.of_policies h.global fun q hq => ?_
  rcases hq with hglobal | ⟨name', hname'⟩
  · exact .inl (.inl hglobal)
  · obtain ⟨rfl, rfl⟩ | ⟨-, hname'⟩ := GoMap.lookup_insert_eq_some.mp hname'
    · exact .inr (hsafe _ hp)
    · exact .inl (.inr ⟨name', hname'⟩)

theorem Validated.deleteModelPolicy (h : Validated l) (name : String) :
    Validated (l.deleteModelPolicy name) := by
  unfold Live.deleteModelPolicy
  split_ifs
  · exact h
  refine h.of_policies h.global fun q hq => ?_
  rcases hq with hglobal | ⟨name', hname'⟩
  · exact .inl (.inl hglobal)
  · exact .inl (.inr ⟨name', (GoMap.lookup_erase_eq_some.mp hname').2⟩)

theorem Checked.in_force (horder : RangeOrder l.policies.policy.named order) {e : DynamicKeyEntry}
    (h : Checked (l.policies.gather order) e) :
    e.quota.Flat ∧
      ∀ p, InForce l.policies.policy p → Covers p (models e) e.quota.inputTokensPerMinute :=
  ⟨h.flat, fun p hp => h.covered p ((mem_gather_iff horder).mpr hp)⟩

/-- A call of the registry whose entries have been checked. -/
theorem Validated.callRegistry (h : Validated l) {request : Except KeyRefusal Mutation}
    (hchecked : ∀ μ, request = .ok μ → ∀ e ∈ entriesOf μ, e.quota.Flat ∧
      ∀ p, InForce l.policies.policy p → Covers p (models e) e.quota.inputTokensPerMinute)
    {now : Stamp} {fates : List Fate} (hcall : l.callRegistry request now fates = some l') :
    Validated l' := by
  unfold Live.callRegistry at hcall
  split at hcall
  · next p μ hkeys =>
    obtain ⟨p', hp', rfl⟩ := map_eq_some_iff.mp hcall
    refine h.of_keys fun k hk => ?_
    obtain ⟨id, e, he, rfl⟩ := hk
    have hbefore : p.registry.byID.lookup id = some e → l.keys.Grants (dynamicResult e) := by
      intro hold
      rw [hkeys]
      exact ⟨id, e, hold, rfl⟩
    have hstep : registryCalls.step p (.call μ now fates) = some p' := hp'
    -- a refused call changes nothing; another one adds checked entries only
    rcases step_call hstep with ⟨-, rfl⟩ | hnext
    · exact .inl (hbefore he)
    · rcases entry_of_next hnext he with hold | ⟨e₀, he₀, rfl⟩
      · exact .inl (hbefore hold)
      · exact .inr (hchecked μ rfl e₀ he₀)
  · -- the mode is static, or the handler has refused the request
    cases hcall
    exact h

/-! ### The start -/

theorem startPolicies_models {s : Startup Content}
    (hfile : ∀ p ∈ s.policyFile.bind D.loadBytes, p.models = [])
    (hdir : ∀ snap ∈ loadDirSnapshot D s.dir, ∀ p ∈ snap.global, p.models = [])
    {policies : State Hash} (h : startPolicies D flags s = some policies) :
    policies.policy.global.models = [] := by
  obtain ⟨activePolicy, hactive, h⟩ := bind_eq_some_iff.mp h
  have hlist : activePolicy.models = [] := by
    -- a `_default` document of the directory takes the place of the policy file
    split_ifs at hactive
    · exact hfile activePolicy hactive
    · cases hactive
      rfl
  split_ifs at h
  · obtain ⟨snap, hsnap, rfl⟩ := map_eq_some_iff.mp h
    change (snap.global.getD activePolicy).models = []
    cases hglobal : snap.global with
    | none => exact hlist
    | some g => exact hdir snap hsnap g hglobal
  · cases h
    exact hlist

/-- A restored key has been checked. -/
theorem startKeys_dynamic {keyStore : Option KeyStoreStart}
    (hflat : ∀ ks ∈ keyStore, ∀ id e, ks.db.restorable id = some e → e.quota.Flat)
    {keys : KeySource} (h : startKeys policies keyStore .dynamic = some keys) (hk : keys.Grants k) :
    k.quotaLimits.Flat ∧
      ∀ p ∈ policies, Covers p k.allowedModels k.quotaLimits.inputTokensPerMinute := by
  unfold startKeys at h
  dsimp only at h
  split at h
  · -- without a key store the registry starts empty
    cases h
    obtain ⟨id, e, he, -⟩ := hk
    cases he
  next ks =>
  obtain ⟨p', hp', rfl⟩ := map_eq_some_iff.mp h
  obtain ⟨id, e, he, rfl⟩ := hk
  have hempty : p'.registry ≠ .new := by
    intro hnew
    rw [hnew] at he
    cases he
  rcases survivor_of_wp (wireKeyStore_registry _ _ _ _) hp' with ⟨_, hnew | hload⟩ | hfalse
  · exact absurd hnew hempty
  · rcases hload with hsame | ⟨m, b, husable, hrestored⟩
    · exact absurd hsame hempty
    · rw [hrestored] at he
      -- `admitRestored` has checked each key by itself
      obtain ⟨hadmits, e₀, he₀, rfl⟩ := restoredRegistry_source husable he
      refine ⟨hflat ks rfl id e₀ he₀, fun p hp => ?_⟩
      exact validateAdmissionInvariants_eq_ok_iff.mp (isOk_unit_iff.mp hadmits) p hp
        (dynamicEntryAsAPIKey _) (mem_singleton_self _)
  · exact hfalse.elim

theorem validated_start {s : Startup Content}
    (hsafe : SafeStep D auth (none : Option (Live Hash)) (.start s))
    (h : start D providers auth flags s = some l) : Validated l := by
  obtain ⟨hagain, hfile, hdir, hflat⟩ := hsafe
  obtain ⟨policies, hpolicies, h⟩ := bind_eq_some_iff.mp h
  obtain ⟨prov, hprov, h⟩ := bind_eq_some_iff.mp h
  obtain ⟨keys, hkeys, h⟩ := bind_eq_some_iff.mp h
  obtain ⟨entries, hentries, h⟩ := bind_eq_some_iff.mp h
  split_ifs at h with hchecks
  cases h
  obtain ⟨horder, -, hcheck, -⟩ := hchecks
  rw [← hagain] at hentries
  have hkey : ∀ k, keys.Grants k → k.quotaLimits.Flat ∧ ∀ p ∈ policies.gather s.order,
      Covers p k.allowedModels k.quotaLimits.inputTokensPerMinute := by
    intro k hk
    -- static keys are those of the file, and restored ones are checked one by one
    cases prov with
    | static =>
      cases hkeys
      exact covers_of_file hprov hentries hcheck hk
    | noAuth =>
      cases hkeys
      exact absurd hk not_grants_empty
    | dynamic => exact startKeys_dynamic hflat hkeys hk
  refine ⟨startPolicies_models hfile hdir hpolicies, fun k hk => (hkey k hk).1, ?_⟩
  intro p hp k hk
  exact (hkey k hk).2 p ((mem_gather_iff horder).mpr hp)

variable [DecidableEq Hash] in
/-- **A safe step keeps every policy in force covering every key in force.** -/
theorem validated_step {a : ConfigAct Content} (h : Validated l)
    (hsafe : SafeStep D auth (some l) a) (hstep : l.step D providers auth flags a = some l') :
    Validated l' := by
  cases a with
  | start => cases hstep
  | reloadAuthProviders order authFile authFileAgain =>
    obtain ⟨horder, hstep⟩ := ite_none_right_eq_some.mp hstep
    cases hstep
    obtain rfl : authFile = authFileAgain := hsafe
    exact h.reloadAuthProviders horder authFile
  | reloadPolicyFile =>
    obtain ⟨-, hstep⟩ := ite_none_right_eq_some.mp hstep
    cases hstep
    exact h.reloadPolicyFile hsafe.1 hsafe.2
  | reloadPolicyModelDir =>
    obtain ⟨-, hstep⟩ := ite_none_right_eq_some.mp hstep
    obtain ⟨policies, hreload, rfl⟩ := map_eq_some_iff.mp hstep
    exact h.reloadPolicyModelDir hsafe.1 hsafe.2 hreload
  | putPolicy =>
    cases hstep
    exact h.putPolicy hsafe
  | putModelPolicy =>
    obtain ⟨-, hstep⟩ := ite_none_right_eq_some.mp hstep
    cases hstep
    exact h.putModelPolicy hsafe
  | deleteModelPolicy name =>
    cases hstep
    exact h.deleteModelPolicy name
  | upsertAPIKey =>
    obtain ⟨horder, hstep⟩ := ite_none_right_eq_some.mp hstep
    -- the handler checks the entry against the same policies
    refine h.callRegistry (fun μ hμ e he => ?_) hstep
    exact Checked.in_force horder (upsertAPIKey_eq_ok hμ e he)
  | replaceAPIKeys =>
    obtain ⟨horder, hstep⟩ := ite_none_right_eq_some.mp hstep
    refine h.callRegistry (fun μ hμ e he => ?_) hstep
    exact Checked.in_force horder (replaceAPIKeys_eq_ok hμ e he)
  | deleteAPIKey =>
    refine h.callRegistry (fun μ hμ e he => ?_) hstep
    -- a deletion brings no entry
    rw [deleteAPIKey_eq_ok hμ] at he
    exact absurd he not_mem_nil

variable [DecidableEq Hash] in
/-- **The law holds in every state of a run whose steps are safe.** -/
theorem admission_law
    (h : (configuration D providers auth flags).ReachVia (SafeStep D auth) (some l)) : Law l := by
  -- before the start there is nothing to show
  have hinv : ∀ l₀, some l = some l₀ → Validated l₀ := by
    refine h.induction (I := fun s => ∀ l₀, s = some l₀ → Validated l₀) ?_ ?_
    · rintro s rfl l₀ h₀
      cases h₀
    · rintro s a t hs hsafe hstep l₀ rfl
      cases s with
      | none =>
        cases a with
        | start =>
          obtain ⟨l₁, hstart, heq⟩ := map_eq_some_iff.mp hstep
          cases heq
          exact validated_start hsafe hstart
        | _ => cases hstep
      | some l₁ =>
        obtain ⟨l₂, hl₂, heq⟩ := map_eq_some_iff.mp hstep
        cases heq
        exact validated_step (hs l₁ rfl) hsafe hl₂
  exact (hinv l rfl).law

end Machine

/-! ### Runs -/

def KeySource.staticKey (hash : String) : KeySource → Option AuthResult
  | .static keys => (keys.lookup hash).map (·.result)
  | .dynamic _ => none

theorem KeySource.grants_of_staticKey {src : KeySource} {hash : String} {k : AuthResult}
    (h : k ∈ src.staticKey hash) : src.Grants k := by
  cases src with
  | dynamic => cases h
  | static =>
    obtain ⟨s, hs, rfl⟩ := map_eq_some_iff.mp h
    exact ⟨hash, s, hs, rfl⟩

/-- `auth.yaml` with one key, for some models and with some input rate. -/
def oneKey (models : List String) (rate : ℤ) : Option AuthConfig :=
  some ⟨.apiKey, [⟨"aa", [], "acme", "k", .ok none, models, ⟨0, 0, rate, 0, none⟩, 0⟩], true⟩

def cappedDoc (models : List String) (cap : ℤ) : PolicyDoc :=
  { docFor models with mode := .serverless, maxInputTokens := cap }

def startOneKey (policy : PolicyDoc) (models : List String) (rate : ℤ) :
    ConfigAct (Option PolicyDoc) :=
  .start ⟨some (some policy), ⟨[], nodup_nil⟩, oneKey models rate, oneKey models rate, none, []⟩

def fileRouter : Machine (Option (Live (Option PolicyDoc))) (ConfigAct (Option PolicyDoc)) :=
  configuration plainLoader [] ⟨true, .none, true, ""⟩ ⟨true, false⟩

/-- A serverless policy at the start, a document for another model through the API, and a reload of
the keys. -/
def safeActs : List (ConfigAct (Option PolicyDoc)) :=
  [startOneKey (cappedDoc [] 1000) [] 2000, .putModelPolicy [] "d" (some (docFor ["x"])),
    .reloadAuthProviders ["d"] (oneKey [] 2000) (oneKey [] 2000)]

theorem admission_law_after_reload :
    ∃ l k, fileRouter.run none safeActs = some (some l) ∧ l.keys.Grants k ∧
      k.quotaLimits.inputTokensPerMinute = 2000 ∧
      l.policies.policy.effectivePolicy ["d"] "m" = cappedDoc [] 1000 ∧ Law l := by
  obtain ⟨s, hs, l, rfl, k, hk, hrate, heffective⟩ : ∃ s ∈ fileRouter.run none safeActs,
      ∃ l ∈ s, ∃ k ∈ l.keys.staticKey "aa", k.quotaLimits.inputTokensPerMinute = 2000 ∧
        l.policies.policy.effectivePolicy ["d"] "m" = cappedDoc [] 1000 := by
    decide +kernel
  -- that each step is safe does not depend on the state
  have hstart : ∀ t, SafeStep plainLoader ⟨true, .none, true, ""⟩ t
      (startOneKey (cappedDoc [] 1000) [] 2000) := by
    refine fun t => ⟨rfl, fun p hp => ?_, fun snap hsnap p hp => ?_, fun ks hks => ?_⟩
    · obtain rfl := some.inj hp
      rfl
    · obtain rfl := some.inj hsnap
      cases hp
    · cases hks
  have hput : ∀ t : Option (Live (Option PolicyDoc)), SafeStep plainLoader ⟨true, .none, true, ""⟩ t
      (.putModelPolicy [] "d" (some (docFor ["x"]))) := by
    intro t
    cases t with
    | none => trivial
    | some =>
      intro p hp k _ hserverless
      obtain rfl := some.inj hp
      cases hserverless
  obtain ⟨t₁, h₁, hs₁⟩ := run_cons_eq_some hs
  obtain ⟨t₂, h₂, hs₂⟩ := run_cons_eq_some hs₁
  obtain ⟨t₃, h₃, -⟩ := run_cons_eq_some hs₂
  have halong : fileRouter.Along (SafeStep plainLoader ⟨true, .none, true, ""⟩) none safeActs :=
    (along_cons h₁).mpr ⟨hstart none, (along_cons h₂).mpr
      ⟨hput t₁, (along_cons h₃).mpr ⟨rfl, trivial⟩⟩⟩
  exact ⟨l, k, hs, KeySource.grants_of_staticKey hk, hrate, heffective,
    admission_law ⟨none, safeActs, rfl, halong, hs⟩⟩

/-- **A policy that is put through the API breaks the law**: its input cap is above the input
rate of a key, and the handler does not compare them. -/
theorem put_policy_breaks_law : ∃ l, fileRouter.run none
        [startOneKey (docFor []) [] 100, .putPolicy (some (cappedDoc [] 1000))] =
        some (some l) ∧ ¬Law l := by
  obtain ⟨s, hs, l, rfl, k, hk, horder, hcall, hserverless, hlt⟩ : ∃ s ∈ fileRouter.run none
        [startOneKey (docFor []) [] 100, .putPolicy (some (cappedDoc [] 1000))],
      ∃ l ∈ s, ∃ k ∈ l.keys.staticKey "aa", RangeOrder l.policies.policy.named [] ∧
        k.mayCall "m" = true ∧
        (l.policies.policy.effectivePolicy [] "m").isServerless = true ∧
        0 < k.quotaLimits.inputTokensPerMinute ∧ k.quotaLimits.inputTokensPerMinute <
          (l.policies.policy.effectivePolicy [] "m").maxInputTokens := by
    decide +kernel
  refine ⟨l, hs, fun hlaw => ?_⟩
  have hle := hlaw [] horder k (KeySource.grants_of_staticKey hk) "m" hcall hserverless
    (hlt.1.trans hlt.2) hlt.1
  exact absurd hlt.2 (not_lt.mpr hle)

/-- The same at the start, where the global policy lists a model that the key may not call: it
is the effective policy of the models that it does not list. -/
example : ∃ s ∈ fileRouter.run none [startOneKey (cappedDoc ["a"] 1000) ["b"] 100],
    ∃ l ∈ s, ∃ k ∈ l.keys.staticKey "aa", k.mayCall "b" = true ∧
      k.quotaLimits.inputTokensPerMinute = 100 ∧
      l.policies.policy.effectivePolicy [] "b" = cappedDoc ["a"] 1000 := by
  decide +kernel

/-- And in a reload of the policy file while `auth.yaml` cannot be read. -/
example : ∃ s ∈ fileRouter.run none [startOneKey (docFor []) [] 100,
      .reloadAuthProviders [] none none, .reloadPolicyFile none (some (some (cappedDoc [] 1000)))],
    ∃ l ∈ s, ∃ k ∈ l.keys.staticKey "aa", k.quotaLimits.inputTokensPerMinute = 100 ∧
      l.policies.policy.effectivePolicy [] "m" = cappedDoc [] 1000 := by
  decide +kernel

end HivenetRouter.Router
