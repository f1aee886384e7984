import HivenetRouter.Auth.CrashConsistency
import HivenetRouter.Router.AdmissionConfig

/-!
# Keys through the admin API

`UpsertAPIKey`, `ReplaceAPIKeys` and `DeleteAPIKey`: a request becomes the mutation that the
handler passes to the registry, or is refused before that. An entry is checked against the
policies in force (`validateKeyAdmission`), and its quota block has one shape; both hold of
every entry of a mutation that a handler lets pass (`upsertAPIKey_eq_ok`,
`replaceAPIKeys_eq_ok`).
-/

namespace HivenetRouter.Api

open Policy Auth Router List

structure APIKeyEntryRequest where
  id : GoString
  keyHash : String
  keyPreview : String
  owner : String
  name : String
  enabled : Bool
  expiresAt : Option Timestamp
  /-- `none` is the `nil` slice. -/
  allowedModels : Option (List String)
  quota : QuotaConfig
  maxOccupancyShare : ℚ

inductive KeyRefusal where
  /-- "version is required". -/
  | noVersion
  /-- "invalid expires_at: %w". -/
  | expiresAt
  | quota (err : QuotaError)
  /-- The error of `validateKeyAdmission`, for a key and the models of a policy. -/
  | admission (id : GoString) (models : List String)
  /-- "key[%d]: %s". -/
  | at (i : ℕ) (err : KeyRefusal)
  /-- "key id must not be empty". -/
  | emptyID

def APIKeyEntryRequest.toEntry (k : APIKeyEntryRequest) : Except KeyRefusal DynamicKeyEntry :=
  match parseExpiresAtRFC3339 k.expiresAt with
  | .error _ => .error .expiresAt
  | .ok expiresAt =>
    match k.quota.validate with
    | .error err => .error (.quota err)
    | .ok quota =>
      .ok ⟨k.id, k.keyHash, k.keyPreview, k.owner, k.name, k.enabled, expiresAt, k.allowedModels,
        { quota with maxOccupancyShare := k.maxOccupancyShare }⟩

/-- The models of an entry, as `len` and `range` see the slice. -/
def models (e : DynamicKeyEntry) : List String := e.allowedModels.getD []

/-- The closure `check` of `validateKeyAdmission` accepts the policy. -/
def checkEntry (e : DynamicKeyEntry) (p : PolicyDoc) : Bool :=
  !p.isServerless || p.maxInputTokens ≤ 0 || !p.governsAnyOf (models e) ||
    validateITPMCoversMaxInput e.quota.inputTokensPerMinute p.maxInputTokens

/-- `validateKeyAdmission`, for the policies in the order of the check. -/
def validateKeyAdmission (policies : List PolicyDoc) (e : DynamicKeyEntry) :
    Except KeyRefusal Unit :=
  match policies.find? fun p => !checkEntry e p with
  | some p => .error (.admission e.id p.models)
  | none => .ok ()

def checkedEntry (policies : List PolicyDoc) (k : APIKeyEntryRequest) :
    Except KeyRefusal DynamicKeyEntry := do
  let entry ← k.toEntry
  validateKeyAdmission policies entry
  return entry

/-- `UpsertAPIKey`: `k` has the id of the URL. -/
def upsertAPIKey (policies : List PolicyDoc) (version : GoString) (k : APIKeyEntryRequest) :
    Except KeyRefusal Mutation :=
  if version = [] then .error .noVersion
  else (checkedEntry policies k).map (.upsert version)

/-- The loop of `ReplaceAPIKeys`, from the index `i`. -/
def checkedEntries (policies : List PolicyDoc) (i : ℕ) :
    List APIKeyEntryRequest → Except KeyRefusal (List DynamicKeyEntry)
  | [] => .ok []
  | k :: keys =>
    match checkedEntry policies k with
    | .error err => .error (.at i err)
    | .ok entry => (checkedEntries policies (i + 1) keys).map (entry :: ·)

def replaceAPIKeys (policies : List PolicyDoc) (version : GoString)
    (keys : List APIKeyEntryRequest) : Except KeyRefusal Mutation :=
  if version = [] then .error .noVersion
  else (checkedEntries policies 0 keys).map (.replaceAll version)

/-- `DeleteAPIKey`, for the id of the URL without the blanks around it. -/
def deleteAPIKey (version keyID : GoString) : Except KeyRefusal Mutation :=
  if version = [] then .error .noVersion
  else if keyID = [] then .error .emptyID
  else .ok (.delete version keyID)

/-! ### What the handlers let pass -/

/-- The entry has been checked: its quota has one shape, and every policy covers it. -/
structure Checked (policies : List PolicyDoc) (e : DynamicKeyEntry) : Prop where
  flat : e.quota.Flat
  covered : ∀ p ∈ policies, Covers p (models e) e.quota.inputTokensPerMinute

section

variable {e : DynamicKeyEntry} {version : GoString} {μ : Mutation}

theorem checkEntry_iff {p : PolicyDoc} :
    checkEntry e p = true ↔ Covers p (models e) e.quota.inputTokensPerMinute := by
  unfold checkEntry Covers validateITPMCoversMaxInput
  by_cases hserverless : p.isServerless = true
  · by_cases hcap : 0 < p.maxInputTokens
    · by_cases hgoverns : p.governsAnyOf (models e) = true
      · by_cases hrate : 0 < e.quota.inputTokensPerMinute
        · simp [hserverless, hcap, hgoverns, hrate]
        · simp [hrate]
      · simp [hgoverns]
    · simp [hcap, not_lt.mp hcap]
  · simp [hserverless]

variable {k : APIKeyEntryRequest} {policies : List PolicyDoc} {keys : List APIKeyEntryRequest}

theorem toEntry_flat (h : k.toEntry = .ok e) : e.quota.Flat := by
  unfold APIKeyEntryRequest.toEntry at h
  split at h
  · cases h
  split at h
  · cases h
  next quota hquota =>
  cases h
  exact (QuotaConfig.flat_of_validate hquota).1

theorem checkedEntry_eq_ok (h : checkedEntry policies k = .ok e) : Checked policies e := by
  obtain ⟨entry, hentry, h⟩ := bind_eq_ok.mp h
  obtain ⟨_, hadmission, h⟩ := bind_eq_ok.mp h
  cases h
  refine ⟨toEntry_flat hentry, fun p hp => ?_⟩
  unfold validateKeyAdmission at hadmission
  split at hadmission
  · cases hadmission
  · next hfind =>
    exact checkEntry_iff.mp (by simpa using List.find?_eq_none.mp hfind p hp)

theorem checkedEntries_eq_ok {i : ℕ} {entries : List DynamicKeyEntry}
    (h : checkedEntries policies i keys = .ok entries) :
    ∀ e ∈ entries, Checked policies e := by
  induction keys generalizing i entries with
  | nil =>
    cases h
    exact fun e he => absurd he not_mem_nil
  | cons k keys ih =>
    unfold checkedEntries at h
    split at h
    · cases h
    next entry hentry =>
    obtain ⟨rest, hrest, rfl⟩ := map_eq_ok.mp h
    exact forall_mem_cons.mpr ⟨checkedEntry_eq_ok hentry, ih hrest⟩

def entriesOf : Mutation → List DynamicKeyEntry
  | .upsert _ e => [e]
  | .delete _ _ => []
  | .replaceAll _ entries => entries

theorem upsertAPIKey_eq_ok (h : upsertAPIKey policies version k = .ok μ) :
    ∀ e ∈ entriesOf μ, Checked policies e := by
  unfold upsertAPIKey at h
  split_ifs at h
  obtain ⟨entry, hentry, rfl⟩ := map_eq_ok.mp h
  exact forall_mem_singleton.mpr (checkedEntry_eq_ok hentry)

theorem replaceAPIKeys_eq_ok (h : replaceAPIKeys policies version keys = .ok μ) :
    ∀ e ∈ entriesOf μ, Checked policies e := by
  unfold replaceAPIKeys at h
  split_ifs at h
  obtain ⟨entries, hentries, rfl⟩ := map_eq_ok.mp h
  exact checkedEntries_eq_ok hentries

theorem deleteAPIKey_eq_ok {keyID : GoString} (h : deleteAPIKey version keyID = .ok μ) :
    entriesOf μ = [] := by
  unfold deleteAPIKey at h
  split_ifs at h
  cases h
  rfl

/-- An entry of the registry after an accepted call was there before, or the call brings it, with
its hash in lower case. -/
theorem entry_of_next {r r' : Registry} (h : μ.next r = .ok r') {id : GoString}
    {y : DynamicKeyEntry} (hy : r'.byID.lookup id = some y) :
    r.byID.lookup id = some y ∨ ∃ e ∈ entriesOf μ, y = { e with keyHash := toLower e.keyHash } := by
  cases μ with
  | upsert version e =>
    unfold Mutation.next at h
    dsimp only at h
    split at h
    · cases h
    next e' hvalid =>
    obtain ⟨-, rfl, -⟩ := upsert_eq_ok h
    -- only the entry of the id itself is new
    obtain ⟨-, rfl⟩ | ⟨-, hy⟩ := GoMap.lookup_insert_eq_some.mp hy
    · exact .inr ⟨e, mem_singleton_self e, (normalizeAndValidateKeyEntry_ok hvalid).1⟩
    · exact .inl hy
  | delete =>
    obtain ⟨-, rfl⟩ := delete_eq_ok h
    exact .inl (Indexes.lookup_remove_byID.mp hy).1
  | replaceAll =>
    -- nothing of the old registry is left
    obtain ⟨entries', hvalid, hids, -, -, rfl⟩ := replaceAll_eq_ok h
    obtain ⟨hmem, -⟩ := (GoMap.lookup_indexBy_eq_some_iff hids).mp hy
    obtain ⟨e, he, hnormal⟩ := exists_of_validateFrom hvalid hmem
    exact .inr ⟨e, he, (normalizeAndValidateKeyEntry_ok hnormal).1⟩

end

/-!
## Keys that are revoked

The admin API as a machine: one request after the other, over any store, whether its transactions
commit or fail. A request is answered with 200 if its handler lets it pass, the registry accepts it
and the change is written.

A key is revoked by a `DELETE` with the id of the `PUT` that stored it. `UpsertAPIKey` takes the id
of the URL as it is, and `DeleteAPIKey` takes it without the blanks around it. So the `DELETE` is
for the key of the `PUT` exactly if there are none (`revocation_effective_iff`); with blanks it is
answered with 200 as well, since a deletion is idempotent, and the key stays
(`not_effective_blank`). An id of nothing but blanks cannot be deleted: the request is refused.

That a key does not come back is an invariant of the registry: no entry is of some kind, until an
accepted request brings one (`Free.step`).
-/

open Option DynamicKeyProvider Indexes Mutation Utf8

/-- A request to the admin API, with the policies in force. -/
inductive AdminRequest where
  /-- `PUT /admin/api-keys/:id`; the id of `k` is that of the URL. -/
  | put (policies : List PolicyDoc) (version : GoString) (k : APIKeyEntryRequest)
  /-- `DELETE /admin/api-keys/:id`. -/
  | delete (version id : GoString)
  /-- `POST /admin/api-keys/replace`. -/
  | replace (policies : List PolicyDoc) (version : GoString) (keys : List APIKeyEntryRequest)

/-- What the handler passes to the registry. -/
def AdminRequest.mutation : AdminRequest → Except KeyRefusal Mutation
  | put policies version k => upsertAPIKey policies version k
  | delete version id => deleteAPIKey version (trimSpace id)
  | replace policies version keys => replaceAPIKeys policies version keys

/-- A request with what happens at its time: the clock, and the fates of its transactions. -/
structure AdminCall where
  request : AdminRequest
  now : Stamp
  fates : List Fate

inductive AdminAnswer where
  | ok
  | refused (err : KeyRefusal)
  | rejected (err : RegistryError)
  /-- `writeNotDurable`. -/
  | notDurable

/-- The status, as in `writeRegistryError`. -/
def AdminAnswer.status : AdminAnswer → ℕ
  | ok => 200
  | refused _ => 400
  | rejected .staleVersion => 409
  | rejected _ => 400
  | notDurable => 503

namespace AdminCall

/-- The answer; there is none if the process crashes. -/
def answer (c : AdminCall) (p : DynamicKeyProvider) : Option AdminAnswer :=
  match c.request.mutation with
  | .error err => some (.refused err)
  | .ok μ =>
    match μ.call c.now p c.fates with
    | .returned (.ok ()) _ _ => some .ok
    | .returned (.error err) _ _ => some (.rejected err)
    | .failed _ _ => some .notDurable
    | .crashed _ => none

def next (c : AdminCall) (p : DynamicKeyProvider) : Option DynamicKeyProvider :=
  match c.request.mutation with
  | .error _ => some p
  | .ok μ => Outcome.survivor (μ.call c.now p c.fates)

/-- The request is answered with 200. -/
def Acknowledged (c : AdminCall) (p : DynamicKeyProvider) : Prop :=
  ∃ answer ∈ c.answer p, answer.status = 200

/-- The registry accepts the request, and it brings an entry of this kind. -/
def Brings (Kind : GoString → String → Prop) (p : DynamicKeyProvider) (c : AdminCall) : Prop :=
  ∃ μ r, c.request.mutation = .ok μ ∧ μ.next p.registry = .ok r ∧
    ∃ e ∈ entriesOf μ, Kind e.id (toLower e.keyHash)

end AdminCall

/-- The admin API of a process, from any state in which the start may leave the provider. As in
`registryCalls`, the background retry is left out. -/
def adminCalls : Machine DynamicKeyProvider AdminCall where
  Init := registryCalls.Reachable
  step p c := c.next p

/-! ### What a request does -/

variable {p p' : DynamicKeyProvider} {c : AdminCall} {Kind : GoString → String → Prop}

/-- After a request: nothing has changed, or the registry has accepted it. -/
theorem next_registry (h : c.next p = some p') :
    p' = p ∨ ∃ μ, c.request.mutation = .ok μ ∧ μ.next p.registry = .ok p'.registry := by
  unfold AdminCall.next at h
  split at h
  · exact .inl (some.inj h).symm
  · rename_i μ hμ
    rcases step_call h with ⟨-, rfl⟩ | hnext
    · exact .inl rfl
    · exact .inr ⟨μ, hμ, hnext⟩

/-- A request that is answered with 200 was accepted. -/
theorem registry_of_acknowledged (hack : c.Acknowledged p) (h : c.next p = some p') :
    ∃ μ, c.request.mutation = .ok μ ∧ μ.next p.registry = .ok p'.registry := by
  obtain ⟨answer, hanswer, hstatus⟩ := hack
  unfold AdminCall.answer at hanswer
  unfold AdminCall.next at h
  cases hμ : c.request.mutation with
  -- a request that was not decoded has another status
  | error =>
    rw [hμ] at hanswer
    cases hanswer
    cases hstatus
  | ok μ =>
    rw [hμ] at hanswer h
    refine ⟨μ, rfl, ?_⟩
    have hcall := call_registry μ c.now p c.fates fun _ _ => trivial
    dsimp only at hanswer h
    cases hout : μ.call c.now p c.fates with
    | returned =>
      rw [hout] at hanswer h hcall
      cases h
      rcases hcall.1 with ⟨err, -, rfl, -⟩ | ⟨hok, -⟩
      · -- a rejected request has another status
        cases hanswer
        cases err <;> cases hstatus
      · exact hok
    -- the change is in effect, but not stored: the status is another one, too
    | failed =>
      rw [hout] at hanswer
      cases hanswer
      cases hstatus
    | crashed =>
      rw [hout] at hanswer
      cases hanswer

/-- No entry is of this kind. -/
structure Free (Kind : GoString → String → Prop) (p : DynamicKeyProvider) : Prop where
  ordered : p.registry.Ordered
  free : ∀ id e, p.registry.byID.lookup id = some e → ¬Kind id e.keyHash

/-- **A kind of entry stays away** unless an accepted request brings one. -/
theorem Free.step (hp : Free Kind p) (hbrings : ¬c.Brings Kind p) (h : c.next p = some p') :
    Free Kind p' := by
  rcases next_registry h with rfl | ⟨μ, hμ, hnext⟩
  · exact hp
  · have hordered := (next_ordered hp.ordered hnext).1
    refine ⟨hordered, fun id y hy hkind => ?_⟩
    rcases entry_of_next hnext hy with hbefore | ⟨e, he, hentry⟩
    · exact hp.free id y hbefore hkind
    · -- the entry is one of the request, under its own id
      have hid : y.id = id := (hordered.inverse.ofID id y hy).1
      refine hbrings ⟨μ, _, hμ, hnext, e, he, ?_⟩
      rw [hentry] at hid hkind
      rw [show e.id = id from hid]
      exact hkind

variable {calls : List AdminCall} {version id : GoString} {μ : Mutation} {r : Registry}

/-- A kind of entry stays away over a run of which no request brings one. -/
theorem Free.run (hp : Free Kind p)
    (halong : adminCalls.Along (fun q c => ¬c.Brings Kind q) p calls)
    (hrun : adminCalls.run p calls = some p') : Free Kind p' :=
  Machine.run_induction (fun _ _ _ hq hbrings hstep => hq.step hbrings hstep) calls p p' hp halong
    hrun

theorem admin_run_ordered (hp : p.registry.Ordered) (hrun : adminCalls.run p calls = some p') :
    p'.registry.Ordered := by
  have hkeeps : ∀ q c q', q.registry.Ordered → adminCalls.step q c = some q' →
      q'.registry.Ordered := by
    intro q c q' hq hstep
    rcases next_registry hstep with rfl | ⟨μ, -, hnext⟩
    · exact hq
    · exact (next_ordered hq hnext).1
  exact Machine.run_preserves hkeeps hp hrun

theorem admin_ordered (h : adminCalls.Reachable p) : p.registry.Ordered := by
  obtain ⟨s, calls, hs, hrun⟩ := h
  exact admin_run_ordered (reachable_ordered hs) hrun

/-! ### Revocations -/

/-- A history in which a key is revoked: a `PUT` and later a `DELETE` with the same id in the URL,
both answered with 200, any requests between them, and then requests none of which stores an entry
under the id again. -/
structure Revocation (id : GoString) where
  start : DynamicKeyProvider
  reachable : adminCalls.Reachable start
  policies : List PolicyDoc
  putVersion : GoString
  key : APIKeyEntryRequest
  key_id : key.id = id
  putNow : Stamp
  putFates : List Fate
  stored : DynamicKeyProvider
  put_acknowledged : AdminCall.Acknowledged ⟨.put policies putVersion key, putNow, putFates⟩ start
  put_next : AdminCall.next ⟨.put policies putVersion key, putNow, putFates⟩ start = some stored
  between : List AdminCall
  before : DynamicKeyProvider
  between_run : adminCalls.run stored between = some before
  deleteVersion : GoString
  deleteNow : Stamp
  deleteFates : List Fate
  deleted : DynamicKeyProvider
  delete_acknowledged :
    AdminCall.Acknowledged ⟨.delete deleteVersion id, deleteNow, deleteFates⟩ before
  delete_next :
    AdminCall.next ⟨.delete deleteVersion id, deleteNow, deleteFates⟩ before = some deleted
  after : List AdminCall
  last : DynamicKeyProvider
  after_run : adminCalls.run deleted after = some last
  not_again : adminCalls.Along (fun p c => ¬c.Brings (fun id' _ => id' = id) p) deleted after

namespace Revocation

def hash (R : Revocation id) : String := toLower R.key.keyHash

/-- No request stores the hash under another id, neither before the `DELETE` nor after it. -/
def NotElsewhere (R : Revocation id) : Prop :=
  adminCalls.Along (fun p c => ¬c.Brings (fun id' hash => hash = R.hash ∧ id' ≠ id) p) R.stored
      R.between ∧
    adminCalls.Along (fun p c => ¬c.Brings (fun id' hash => hash = R.hash ∧ id' ≠ id) p) R.deleted
      R.after

/-- At the end nothing authenticates as the key: not its id, no hash with its id, and not its hash,
unless that has been stored for another key. -/
structure Effective (R : Revocation id) : Prop where
  byID : ∀ now, R.last.registry.authenticateKeyID now id = none
  asID : ∀ now hash e, R.last.registry.authenticate now hash = some e → e.id ≠ id
  byHash : R.NotElsewhere → ∀ now, R.last.registry.authenticate now R.hash = none

end Revocation

theorem mutation_of_deleteAPIKey {keyID : GoString} (h : deleteAPIKey version keyID = .ok μ) :
    μ = .delete version keyID ∧ keyID ≠ [] := by
  unfold deleteAPIKey at h
  split_ifs at h with hversion hid
  cases h
  exact ⟨rfl, hid⟩

theorem entry_of_upsertAPIKey {policies : List PolicyDoc} {k : APIKeyEntryRequest}
    (h : upsertAPIKey policies version k = .ok μ) :
    ∃ e, μ = .upsert version e ∧ e.id = k.id ∧ e.keyHash = k.keyHash := by
  unfold upsertAPIKey at h
  split_ifs at h with hversion
  obtain ⟨e, he, rfl⟩ := map_eq_ok.mp h
  obtain ⟨e', hentry, h⟩ := bind_eq_ok.mp he
  obtain ⟨_, -, h⟩ := bind_eq_ok.mp h
  cases h
  refine ⟨e, rfl, ?_⟩
  unfold APIKeyEntryRequest.toEntry at hentry
  split at hentry
  · cases hentry
  split at hentry
  · cases hentry
  cases hentry
  exact ⟨rfl, rfl⟩

namespace Revocation

variable (R : Revocation id)

theorem lookup_stored : ∃ e, R.stored.registry.byID.lookup id = some e ∧ e.keyHash = R.hash := by
  obtain ⟨μ, hμ, hnext⟩ := registry_of_acknowledged R.put_acknowledged R.put_next
  obtain ⟨e, rfl, hid, hhash⟩ := entry_of_upsertAPIKey hμ
  unfold Mutation.next at hnext
  dsimp only at hnext
  split at hnext
  · cases hnext
  next e' hvalid =>
  obtain ⟨-, hstored, -⟩ := upsert_eq_ok hnext
  obtain ⟨rfl, -⟩ := normalizeAndValidateKeyEntry_ok hvalid
  refine ⟨{ e with keyHash := toLower e.keyHash }, ?_, congrArg toLower hhash⟩
  have hlookup : R.stored.registry.byID.lookup e.id =
      some { e with keyHash := toLower e.keyHash } := by
    rw [hstored]
    exact Finmap.lookup_insert _
  have hurl : id = e.id := (hid.trans R.key_id).symm
  exact (congrArg (fun i => R.stored.registry.byID.lookup i) hurl).trans hlookup

/-- No other key has the hash when the `PUT` has been answered. -/
theorem free_stored : Free (fun id' hash => hash = R.hash ∧ id' ≠ id) R.stored := by
  obtain ⟨μ, -, hnext⟩ := registry_of_acknowledged R.put_acknowledged R.put_next
  have hordered := (next_ordered (admin_ordered R.reachable) hnext).1
  obtain ⟨e, he, hhash⟩ := R.lookup_stored
  refine ⟨hordered, fun id' e' he' hkind => hkind.2 ?_⟩
  exact hordered.inverse.eq_of_hash he' he (hkind.1.trans hhash.symm)

/-- The `DELETE` removes the id without its blanks, which are not all of it. -/
theorem registry_deleted : trimSpace id ≠ [] ∧ R.deleted.registry =
      ⟨R.before.registry.remove (trimSpace id), R.deleteVersion⟩ := by
  obtain ⟨μ, hμ, hnext⟩ := registry_of_acknowledged R.delete_acknowledged R.delete_next
  obtain ⟨rfl, hblank⟩ := mutation_of_deleteAPIKey hμ
  exact ⟨hblank, (delete_eq_ok hnext).2⟩

/-- Where the id has no blanks around it, it is free after the `DELETE`. -/
theorem free_deleted (hid : trimSpace id = id) : Free (fun id' _ => id' = id) R.deleted := by
  obtain ⟨-, hdeleted⟩ := R.registry_deleted
  obtain ⟨μ, -, hnext⟩ := registry_of_acknowledged R.delete_acknowledged R.delete_next
  have hbefore := admin_run_ordered R.free_stored.ordered R.between_run
  refine ⟨(next_ordered hbefore hnext).1, fun id' e he hkind => ?_⟩
  rw [hdeleted, hid] at he
  exact (lookup_remove_byID.mp he).2 hkind

/-- No other key has the hash at the end either. -/
theorem free_last (helsewhere : R.NotElsewhere) :
    Free (fun id' hash => hash = R.hash ∧ id' ≠ id) R.last := by
  have hbefore := R.free_stored.run helsewhere.1 R.between_run
  refine (hbefore.step ?_ R.delete_next).run helsewhere.2 R.after_run
  -- a deletion brings no entry
  rintro ⟨μ, r, hμ, -, e, he, -⟩
  rw [deleteAPIKey_eq_ok hμ] at he
  exact List.not_mem_nil he

theorem effective_of_trimmed (hid : trimSpace id = id) : R.Effective := by
  have hlast := (R.free_deleted hid).run R.not_again R.after_run
  have hnone : R.last.registry.byID.lookup id = none :=
    eq_none_iff_forall_ne_some.mpr fun e he => hlast.free id e he rfl
  have hother : ∀ hash e, R.last.registry.byHash.lookup hash = some e → e.id ≠ id := by
    intro hash e he
    exact hlast.free e.id e (hlast.ordered.inverse.ofHash hash e he).2
  refine ⟨fun now => ?_, fun now hash e he => ?_, fun helsewhere now => ?_⟩
  · unfold Registry.authenticateKeyID
    rw [hnone]
    rfl
  · exact hother hash e (eq_some_of_filter_eq_some he)
  · refine eq_none_iff_forall_ne_some.mpr fun e he => ?_
    -- an entry with the hash would be one under another id
    have hlookup := eq_some_of_filter_eq_some he
    obtain ⟨hhash, hentry⟩ := hlast.ordered.inverse.ofHash _ e hlookup
    exact (R.free_last helsewhere).free e.id e hentry ⟨hhash, hother _ e hlookup⟩

end Revocation

/-! ### An id with blanks -/

/-- A provider without a store. -/
def storeless : DynamicKeyProvider := .new ⟨none, ∅⟩ [1] false

/-- A key that every check accepts, for the id of the URL. -/
def plainKey (id : GoString) : APIKeyEntryRequest :=
  ⟨id, demoHash, "", "acme", "k", true, none, none, ⟨0, 0, 0, 0, none⟩, 0⟩

def plainEntry (id : GoString) : DynamicKeyEntry := { demoEntry with id := id }

/-- Without a store an accepted call returns at once. -/
theorem call_storeless {now : Stamp} {fates : List Fate} (hp : p.wired = false)
    (h : μ.next p.registry = .ok r) :
    μ.call now p fates = .returned (.ok ()) { p with registry := r } fates := by
  have hmutate : ∀ confirm write, mutate (.ok r) confirm now write p fates =
      .returned (.ok ()) { p with registry := r } fates := by
    intro confirm write
    simp [mutate, persistLocked, bind, Txn.bind, Txn.modify, Txn.get, pure, Txn.pure, hp]
  cases μ with
  | upsert =>
    unfold Mutation.next at h
    dsimp only at h
    unfold call DynamicKeyProvider.upsert
    dsimp only
    split at h
    · cases h
    next e' hvalid =>
    rw [hvalid]
    exact (congrArg (fun next => mutate next _ _ _ p fates) h).trans (hmutate _ _)
  | delete | replaceAll =>
    exact (congrArg (fun next => mutate next _ _ _ p fates) h).trans (hmutate _ _)

/-- So a request that is accepted is answered with 200. -/
theorem acknowledged_storeless (hμ : c.request.mutation = .ok μ) (hp : p.wired = false)
    (h : μ.next p.registry = .ok r) :
    c.Acknowledged p ∧ c.next p = some { p with registry := r } := by
  unfold AdminCall.Acknowledged AdminCall.answer AdminCall.next
  rw [hμ]
  dsimp only
  rw [call_storeless hp h]
  exact ⟨⟨.ok, rfl, rfl⟩, rfl⟩

theorem normalize_plainEntry (hid : id ≠ []) :
    normalizeAndValidateKeyEntry (plainEntry id) = .ok (plainEntry id) := by
  have hlower : toLower demoHash = demoHash := by decide +kernel
  have hsize : demoHash.utf8ByteSize = 64 := by decide +kernel
  have hhex : (demoHash.toList.find? fun c => !isLowerHex c) = none := by decide +kernel
  have hne : demoHash ≠ "" := by decide +kernel
  simp [normalizeAndValidateKeyEntry, checkKeyEntry, plainEntry, demoEntry, hid, hne, hlower,
    hsize, hhex]

/-- Under every id that is not all blanks a key can be stored and revoked. -/
theorem exists_revocation (hblank : trimSpace id ≠ []) : ∃ R : Revocation id, R.last.registry =
      ⟨(empty.store (plainEntry id)).remove (trimSpace id), [49]⟩ := by
  -- the id is kept as it is by the `PUT`, and trimmed by the `DELETE`
  have hne : id ≠ [] := by
    rintro rfl
    exact hblank rfl
  have hput := acknowledged_storeless (c := ⟨.put [] [49] (plainKey id), demoClock, []⟩)
    (μ := .upsert [49] (plainEntry id)) (p := storeless)
    (r := ⟨Indexes.empty.store (plainEntry id), [49]⟩) rfl rfl (by
      unfold Mutation.next
      dsimp only
      rw [normalize_plainEntry hne]
      rfl)
  have hdelete := acknowledged_storeless (c := ⟨.delete [49] id, demoClock, []⟩)
    (μ := .delete [49] (trimSpace id))
    (p := { storeless with registry := ⟨Indexes.empty.store (plainEntry id), [49]⟩ })
    (r := ⟨(empty.store (plainEntry id)).remove (trimSpace id), [49]⟩)
    (by
      show deleteAPIKey [49] (trimSpace id) = _
      unfold deleteAPIKey
      rw [if_neg (by decide), if_neg hblank])
    rfl (by
      unfold Mutation.next Registry.delete
      dsimp only
      rw [if_neg hblank]
      rfl)
  exact ⟨⟨storeless, ⟨storeless, [], ⟨storeless, [], rfl, rfl⟩, rfl⟩, [], [49], plainKey id, rfl,
    demoClock, [], _, hput.1, hput.2, [], _, rfl, [49], demoClock, [], _, hdelete.1, hdelete.2, [],
    _, rfl, trivial⟩, rfl⟩

/-- **With blanks around the id the key survives**: the `DELETE` is for another id. -/
theorem exists_not_effective (hid : trimSpace id ≠ id) (hblank : trimSpace id ≠ []) :
    ∃ R : Revocation id, ¬R.Effective := by
  obtain ⟨R, hlast⟩ := exists_revocation hblank
  refine ⟨R, fun heffective => ?_⟩
  -- the entry is still there, under the id with its blanks
  have hlookup : ((empty.store (plainEntry id)).remove (trimSpace id)).byID.lookup id =
      some (plainEntry id) :=
    lookup_remove_byID.mpr ⟨Finmap.lookup_insert _, fun h => hid h.symm⟩
  have hnone := heffective.byID 0
  rw [hlast] at hnone
  unfold Registry.authenticateKeyID at hnone
  rw [hlookup] at hnone
  cases hnone

/-- **When revocation is effective.** Every history in which a key is revoked under the id ends
without the key, exactly if the id has no blanks around it, or is nothing but blanks, so that no
`DELETE` is accepted for it. -/
theorem revocation_effective_iff (id : GoString) :
    (∀ R : Revocation id, R.Effective) ↔ trimSpace id = id ∨ trimSpace id = [] := by
  constructor
  · intro hall
    by_contra hneither
    obtain ⟨hid, hblank⟩ := not_or.mp hneither
    obtain ⟨R, hR⟩ := exists_not_effective hid hblank
    exact hR (hall R)
  · rintro (hid | hblank) R
    · exact R.effective_of_trimmed hid
    · exact absurd hblank R.registry_deleted.1

/-- The id `" k"` is stored with its blank and deleted without it. -/
theorem not_effective_blank : ¬∀ id, ∀ R : Revocation id, R.Effective := by
  intro hall
  have hid : trimSpace [32, 107] ≠ [32, 107] := by
    decide
  have hblank : trimSpace [32, 107] ≠ [] := by
    decide
  obtain ⟨R, hR⟩ := exists_not_effective hid hblank
  exact hR (hall _ R)

end HivenetRouter.Api
