import HivenetRouter.Auth.CrashConsistency

/-!
# Durability of the key store

The other half of crash consistency: what was acknowledged is there after a restart. Three kinds
of input are accepted and do not survive. An expiry whose year in UTC is past 9999 cannot be
written, so that the call fails without a failing transaction, and so does every rewrite of the
registry while the key is in it. An id that is not UTF-8 is written with a replacement character
and does not match its record when it is read. A version that is not UTF-8 comes back changed.
`unstorable_inputs` shows all three.

Where the inputs are **storable** and the starts sound, the round trip is exact (`round_trip`): an
accepted mutation returns no error unless a transaction fails, and a restart of a provider that
is not dirty restores the unexpired entries and the version.

The invariant that is added to `Node.Consistent` is `Faithful`. It does not speak about records: an
entry that was read from a record has an id that is text and an expiry that can be written, since a
document has no others.
-/

namespace HivenetRouter.Auth

open BadgerKeyStore List Option DynamicKeyEntry DynamicKeyProvider Mutation Node

/-- The input survives being written. -/
def Mutation.Storable : Mutation → Prop
  | upsert version e => Utf8.IsText version ∧ Utf8.IsText e.id ∧ Encodable e
  | delete version _ => Utf8.IsText version
  | replaceAll version entries =>
    Utf8.IsText version ∧ ∀ e ∈ entries, Utf8.IsText e.id ∧ Encodable e

instance (μ : Mutation) : Decidable μ.Storable := by
  unfold Storable
  split <;> infer_instance

/-- Starts are sound, and inputs storable. -/
def StorableStep (s : Node) : NodeAct → Prop
  | .mutate μ _ _ => μ.Storable
  | a => SoundStart s a

/-- The entries are equal; of the allowed models, an empty slice is equal to `nil`. -/
def SameEntry (e e' : DynamicKeyEntry) : Prop :=
  { e with allowedModels := none } = { e' with allowedModels := none } ∧
    e.allowedModels.getD [] = e'.allowedModels.getD []

/-- A restart of `p` with its own key, without a maximum age and with an admission check that
accepts every entry, in which no transaction of the process fails. -/
structure Start.Plain (cfg : Start) (p : DynamicKeyProvider) : Prop where
  macKey : cfg.macKey = p.store.macKey
  opened : cfg.opened = true
  maxAge : cfg.opts.maxAge = none
  admits : ∀ e, cfg.opts.admits e = true
  fates : ∀ f ∈ cfg.fates, f = .commit
  cleanup : ∀ f ∈ cfg.cleanup, f = .commit

/-- The registry holds what a restart restores: its unexpired entries, and its version. -/
def RestoresExactly (r r' : Registry) (now : Time) : Prop :=
  (∀ id, Option.Rel SameEntry (r'.byID.lookup id) ((r.byID.lookup id).filter (!·.expired now))) ∧
    r'.version = r.version

/-! ### The invariant -/

/-- The ids are text and the expiries can be written. -/
def TextEntries (r : Registry) : Prop :=
  ∀ id e, r.byID.lookup id = some e → Utf8.IsText id ∧ Encodable e

/-- The version of the registry is the one that is stored. -/
def VersionKept (p : DynamicKeyProvider) : Prop :=
  match p.store.db.metaRecord with
  | none => p.registry.version = []
  | some m => Utf8.ofText m.payload.version = p.registry.version

structure Faithful (p : DynamicKeyProvider) : Prop where
  entries : TextEntries p.registry
  text : Utf8.IsText p.registry.version
  version : p.dirty = false → VersionKept p

variable {μ : Mutation} {r : Registry} {b : BadgerKeyStore} {A : Fate → Prop} {cfg : Start}
  {a : NodeAct} {e : DynamicKeyEntry}

theorem Mutation.Storable.next (hμ : μ.Storable) {r' : Registry} (hr : TextEntries r)
    (h : μ.next r = .ok r') :
    TextEntries r' ∧ Utf8.IsText r'.version := by
  cases μ with
  | upsert =>
    obtain ⟨hversion, hid, hexpiry⟩ := hμ
    unfold next at h
    dsimp only at h
    split at h
    · cases h
    next e' hvalid =>
    obtain ⟨-, rfl, -⟩ := upsert_eq_ok h
    -- the checks change neither the id nor the expiry
    obtain ⟨rfl, -, -⟩ := normalizeAndValidateKeyEntry_ok hvalid
    refine ⟨fun id y hy => ?_, hversion⟩
    obtain ⟨rfl, rfl⟩ | ⟨-, hy⟩ := GoMap.lookup_insert_eq_some.mp hy
    · exact ⟨hid, hexpiry⟩
    · exact hr id y hy
  | delete =>
    obtain ⟨-, rfl⟩ := delete_eq_ok h
    exact ⟨fun id y hy => hr id y (Indexes.lookup_remove_byID.mp hy).1, hμ⟩
  | replaceAll =>
    obtain ⟨entries', hvalid, hids, -, -, rfl⟩ := replaceAll_eq_ok h
    refine ⟨fun id y hy => ?_, hμ.1⟩
    obtain ⟨hmem, rfl⟩ := (GoMap.lookup_indexBy_eq_some_iff hids).mp hy
    obtain ⟨e, he, hy⟩ := exists_of_validateFrom hvalid hmem
    rw [(normalizeAndValidateKeyEntry_ok hy).1]
    exact hμ.2 e he

variable {opts : KeyStoreLoadOptions} {p : DynamicKeyProvider} {s : Node} {now : Stamp}

/-- An entry that was read from a record is storable. -/
theorem textEntries_restored {gen : ℕ} {version : GoString} :
    TextEntries ⟨(restore opts now (b.liveKeys gen)).indexes, version⟩ := by
  intro id e he
  obtain ⟨v, e₀, -, hopen, hvalid, -⟩ := restored_source he
  obtain ⟨-, hid, rfl⟩ := openRecord_eq_ok hopen
  rw [(normalizeAndValidateKeyEntry_ok hvalid).1]
  -- what a document has was text, and its expiry a timestamp
  refine ⟨hid ▸ Utf8.isText_ofText _, fun t ht => ?_⟩
  obtain ⟨t', -, rfl⟩ := map_eq_some_iff.mp ht
  exact t'.property

theorem Written.versionKept {x : GoMap GoString DynamicKeyEntry} {b' : BadgerKeyStore}
    (h : Written x p.registry.version b b') (hstore : p.store = b')
    (htext : Utf8.IsText p.registry.version) : VersionKept p := by
  obtain ⟨m, hm, hversion⟩ := h.version
  unfold VersionKept
  rw [hstore, hm]
  dsimp only
  rw [hversion]
  exact htext

/-- A version is not less than the empty one. -/
theorem if_pos_version (version : GoString) : (if version > [] then version else []) = version := by
  cases version with
  | nil => exact ite_self _
  | cons c version => exact if_pos (nil_lt_cons c version)

theorem Reloaded.faithful {db : Db} {macKey : GoString}
    (h : Reloaded A opts now (.new db macKey true) p) :
    Faithful p := by
  cases h with
  | fresh hmeta =>
    refine ⟨nofun, rfl, fun _ => ?_⟩
    unfold VersionKept
    rw [hmeta]
    rfl
  -- the discarded snapshot was replaced by an empty one
  | @discarded b' hwritten hreason =>
    refine ⟨nofun, rfl, fun _ => ?_⟩
    exact Written.versionKept (p := { new db macKey true with store := b' }) hwritten rfl rfl
  -- the version comes from the meta record, which the repair leaves
  | @restored m b₁ b' husable hprep hmirrors =>
    have hversion : (restoredRegistry opts now (.new db macKey true) m).version =
        Utf8.ofText m.payload.version := if_pos_version _
    refine ⟨textEntries_restored, ?_, fun _ => ?_⟩
    · dsimp only
      rw [hversion]
      exact Utf8.isText_ofText _
    · unfold VersionKept
      rw [hprep.metaRecord, husable.after]
      exact hversion.symm

/-! ### Steps -/

def Node.Faithful (s : Node) : Prop := ∀ p, s.process = .up p → Auth.Faithful p

theorem faithful_mutate (hkept : Kept p) (hp : Faithful p) (hμ : μ.Storable) (now : Stamp)
    (fates : List Fate) :
    (s.afterMutation (μ.call now p fates)).Faithful := by
  have hout := wp_call (A := fun _ => True) hkept μ now fates fun _ _ => trivial
  intro p₁ hp₁
  cases hcall : μ.call now p fates with
  | returned =>
    rw [hcall] at hout hp₁
    rcases hout.1 with ⟨err, -, rfl, rfl⟩ | ⟨r, b', hnext, rfl, rfl, hwritten⟩
    · cases hp₁
      exact hp
    · cases hp₁
      obtain ⟨hentries, htext⟩ := hμ.next hp.entries hnext
      refine ⟨hentries, htext, fun _ => ?_⟩
      exact Written.versionKept (p := { p with registry := r, store := b', dirty := false })
        hwritten rfl htext
  | failed =>
    rw [hcall] at hout hp₁
    -- the change is in effect, and the provider dirty: nothing is asked of the stored version
    obtain ⟨r, b', hnext, rfl, -⟩ := hout.1
    cases hp₁
    obtain ⟨hentries, htext⟩ := hμ.next hp.entries hnext
    exact ⟨hentries, htext, nofun⟩
  | crashed =>
    rw [hcall] at hp₁
    cases hp₁

theorem faithful_retry (hkept : Kept p) (hp : Faithful p) (now : Stamp) (fates : List Fate) :
    (s.afterRetry (retry now p fates)).Faithful := by
  have hout := wp_retry (A := fun _ => True) hkept.ordered.proper now fates fun _ _ => trivial
  intro p₁ hp₁
  cases hretry : retry now p fates with
  | returned =>
    rw [hretry] at hout hp₁
    cases hp₁
    -- nothing to do, or written, or still dirty
    rcases hout.1 with rfl | ⟨hdirty, b', ⟨rfl, hwritten⟩ | ⟨rfl, -⟩⟩
    · exact hp
    · refine ⟨hp.entries, hp.text, fun _ => ?_⟩
      exact Written.versionKept (p := { p with store := b', dirty := false }) hwritten rfl hp.text
    · refine ⟨hp.entries, hp.text, fun hclean => ?_⟩
      rw [hdirty] at hclean
      cases hclean
  | failed =>
    rw [hretry] at hout
    exact absurd hout.1 not_false
  | crashed =>
    rw [hretry] at hp₁
    cases hp₁

theorem faithful_start {db : Db} (hopened : cfg.opened = true)
    (hfates : ∀ f ∈ cfg.fates, f.Unfailing) : (s.afterStart (cfg.boot db)).Faithful := by
  have hcleanup : ∀ f ∈ cfg.cleanup, (fun _ => True) f := fun _ _ => trivial
  have hout := wp_wireKeyStore Txn.not_canFail_unfailing db cfg.macKey cfg.opts cfg.now hcleanup
    cfg.fates hfates
  unfold Start.boot
  rw [hopened]
  intro p₁ hp₁
  cases hstart : wireKeyStore cfg.opts cfg.now cfg.cleanup (.new db cfg.macKey true) cfg.fates with
  | returned =>
    rw [hstart] at hout hp₁
    cases hp₁
    exact hout.1.faithful
  | failed =>
    rw [hstart] at hout
    exact absurd hout.1 not_false
  | crashed =>
    rw [hstart] at hp₁
    cases hp₁

theorem soundStart_of_storable (ha : StorableStep s a) : SoundStart s a := by
  cases a with
  | mutate | retry | close | crash => trivial
  | start => exact ha

theorem faithful_step {t : Node} (hs : s.Consistent) (hf : s.Faithful) (ha : StorableStep s a)
    (hstep : keyNode.step s a = some t) : t.Faithful := by
  have hkept : ∀ p, s.process = .up p → Kept p := fun p hup => (hs.of_process hup).1
  cases step_moved hstep with
  | mutated hup => exact faithful_mutate (hkept _ hup) (hf _ hup) ha _ _
  | retried hup => exact faithful_retry (hkept _ hup) (hf _ hup) _ _
  | @closed p hup =>
    intro p₁ hp₁
    cases hp₁
    have hp := hf p hup
    unfold closeKeyStore
    rw [if_pos (hkept p hup).wired]
    exact ⟨hp.entries, hp.text, hp.version⟩
  | crashed =>
    intro p₁ hp₁
    cases hp₁
  | started => exact faithful_start ha.1 ha.2

theorem faithful_of_reachVia (hs : keyNode.ReachVia StorableStep s) :
    s.Consistent ∧ s.Faithful := by
  refine hs.induction (I := fun s => s.Consistent ∧ s.Faithful) (fun s hs => ?_)
    fun s a t ih ha hstep => ⟨consistent_step ih.1 (soundStart_of_storable ha) hstep,
      faithful_step ih.1 ih.2 ha hstep⟩
  obtain rfl := hs
  exact ⟨consistent_fresh, fun p hp => by cases hp⟩

/-! ### The round trip -/

theorem sameEntry_of_snapshotCopy {e' : DynamicKeyEntry} (h : snapshotCopy e = snapshotCopy e') :
    SameEntry e e' := by
  have hmodels : ∀ models : Option (List String),
      (models.filter (· ≠ [])).getD [] = models.getD [] := by
    rintro (_ | _ | ⟨m, ms⟩) <;> rfl
  unfold snapshotCopy at h
  rw [DynamicKeyEntry.mk.injEq] at h
  obtain ⟨hid, hhash, hpreview, howner, hname, henabled, hexpires, hallowed, hquota⟩ := h
  refine ⟨?_, ?_⟩
  · rw [DynamicKeyEntry.mk.injEq]
    exact ⟨hid, hhash, hpreview, howner, hname, henabled, hexpires, rfl, hquota⟩
  · rw [← hmodels e.allowedModels, hallowed, hmodels]

theorem checkKeyEntry_allowedModels (h : checkKeyEntry e = .ok e) (models : Option (List String)) :
    checkKeyEntry { e with allowedModels := models } = .ok { e with allowedModels := models } := by
  unfold checkKeyEntry at h ⊢
  dsimp only
  split at h
  · cases h
  next hlength =>
  split at h
  · cases h
  next hhex =>
  split_ifs at h with howner hname hshare htokens hmodel
  rw [if_neg hlength, if_neg howner, if_neg hname, if_neg hshare, if_neg htokens, if_neg hmodel]

/-- What is kept of a valid entry is valid. -/
theorem normalize_of_canonical {e₀ : DynamicKeyEntry} (h : canonical e₀ = canonical e)
    (he : normalizeAndValidateKeyEntry e = .ok e) :
    ∃ e', normalizeAndValidateKeyEntry e₀ = .ok e' := by
  obtain ⟨-, hid, hcheck⟩ := normalizeAndValidateKeyEntry_ok he
  have hlower : toLower e.keyHash = e.keyHash := toLower_of_lowerHex (checkKeyEntry_ok hcheck).2
  -- up to the case of the hash, the stored entry differs in its models only
  have heq : { e₀ with keyHash := toLower e₀.keyHash } =
      { e with allowedModels := e₀.allowedModels } := by
    rw [DynamicKeyEntry.mk.injEq] at h ⊢
    obtain ⟨hid, hhash, hpreview, howner, hname, henabled, hexpires, -, hquota⟩ := h
    exact ⟨hid, hhash.trans hlower, hpreview, howner, hname, henabled, hexpires, rfl, hquota⟩
  -- a valid entry has a hash
  have hhash : e₀.keyHash ≠ "" := by
    intro hempty
    have hsame : toLower e₀.keyHash = e.keyHash := congrArg keyHash heq
    have hkey : e.keyHash = "" := by
      rw [← hsame, hempty]
      rfl
    unfold checkKeyEntry at hcheck
    rw [hkey] at hcheck
    cases hcheck
  unfold normalizeAndValidateKeyEntry
  rw [if_neg (id_eq_of_canonical h ▸ hid), if_neg hhash, heq]
  exact ⟨_, checkKeyEntry_allowedModels hcheck _⟩

section Restore

variable {x : Indexes} {now : Time}

variable {e' : DynamicKeyEntry}

theorem expired_of_snapshotCopy (h : snapshotCopy e = snapshotCopy e') (now : Time) :
    e.expired now = e'.expired now := by
  change (snapshotCopy e).expired now = (snapshotCopy e').expired now
  rw [h]

variable (hmirrors : Mirrors x.byID b)

include hmirrors

/-- A restored entry is an unexpired entry of the index with the same id. -/
theorem Mirrors.restored_sound (hproper : Proper x.byID)
    (hgen : b.gen ≠ 0) {id : GoString}
    (he' : (restore opts now (b.liveKeys b.gen)).indexes.byID.lookup id = some e') :
    ∃ e, x.byID.lookup id = some e ∧ snapshotCopy e' = snapshotCopy e ∧ e.expired now = false := by
  obtain ⟨v, e₀, hv, hopen, hvalid, hexpired⟩ := restored_source he'
  -- a record stands for an entry of the index
  have hrel := hmirrors.records hgen id
  rw [hv] at hrel
  cases hx : x.byID.lookup id with
  | none =>
    rw [hx] at hrel
    cases hrel
  | some e =>
    rw [hx] at hrel
    cases hrel with
    | some hholds =>
      obtain ⟨rfl, he⟩ := hproper id e hx
      have hcanonical : canonical e' = canonical e :=
        (canonical_of_normalize hvalid).trans (hholds.canonical_eq hopen)
      have hcopy := snapshotCopy_eq_of_canonical hcanonical
        (normalizeAndValidateKeyEntry_idem hvalid) he
      exact ⟨e, rfl, hcopy, (expired_of_snapshotCopy hcopy now).symm.trans hexpired⟩

/-- The record of an unexpired entry whose id is text opens and passes the checks. -/
theorem Mirrors.check_record (hproper : Proper x.byID)
    (hgen : b.gen ≠ 0) (hadmits : ∀ e, opts.admits e = true) (hx : x.byID.lookup e.id = some e)
    (htext : Utf8.IsText e.id) (hexpired : e.expired now = false) :
    ∃ pk ∈ b.liveKeys b.gen, pk.id = e.id ∧ ∃ e', pk.check opts now = .ok e' ∧
      snapshotCopy e' = snapshotCopy e := by
  have he := (hproper e.id e hx).2
  have hrel := hmirrors.records hgen e.id
  rw [hx] at hrel
  cases hv : b.db.records.lookup (recordKey b.gen e.id) with
  | none =>
    rw [hv] at hrel
    cases hrel
  | some v =>
    rw [hv] at hrel
    cases hrel with
    | some hholds =>
      -- the record opens because the id is text, and its entry is valid because the one it
      -- holds is
      obtain ⟨e₀, hopen⟩ := hholds.openRecord_ok htext
      have hcanonical := hholds.canonical_eq hopen
      obtain ⟨e', hvalid⟩ := normalize_of_canonical hcanonical he
      have hcopy : snapshotCopy e' = snapshotCopy e :=
        snapshotCopy_eq_of_canonical ((canonical_of_normalize hvalid).trans hcanonical)
          (normalizeAndValidateKeyEntry_idem hvalid) he
      have hfresh : e'.expired now = false := (expired_of_snapshotCopy hcopy now).trans hexpired
      refine ⟨⟨e.id, openRecord b.macKey e.id v⟩, mem_liveKeys.mpr ⟨v, hv, rfl⟩, rfl, e', ?_, hcopy⟩
      unfold PersistedKey.check
      rw [hopen]
      dsimp only
      rw [hvalid]
      dsimp only
      rw [if_neg (by simp [hfresh]), if_neg (by simp [hadmits])]

/-- Such an entry is restored: no other record has its hash. -/
theorem Mirrors.restored_complete (hinverse : x.Inverse)
    (hproper : Proper x.byID) (hgen : b.gen ≠ 0) (hadmits : ∀ e, opts.admits e = true)
    (hx : x.byID.lookup e.id = some e) (htext : Utf8.IsText e.id)
    (hexpired : e.expired now = false) :
    ∃ e', (restore opts now (b.liveKeys b.gen)).indexes.byID.lookup e.id = some e' ∧
      snapshotCopy e' = snapshotCopy e := by
  have hrestored : Restored opts now (b.liveKeys b.gen) _ := restored_restore (keyed_liveKeys b.gen)
  obtain ⟨pk, hpk, hpkid, e', hcheck, hcopy⟩ :=
    hmirrors.check_record hproper hgen hadmits hx htext hexpired
  -- a record that passes the checks is kept, unless another one with its hash came first
  obtain ⟨e₁, hhash, hcase⟩ := hrestored.kept pk hpk e' hcheck
  obtain ⟨hkey, hid⟩ := hrestored.inverse.ofHash _ e₁ hhash
  -- that other record stands for an entry of the index, where a hash has one id
  have hsame : e₁ = e' := by
    refine hcase.resolve_right ?_
    rintro ⟨pk', hpk', hne, hcheck'⟩
    have hpkid' : e₁.id = pk'.id := (keyed_liveKeys b.gen).check_id hpk' hcheck'
    obtain ⟨e₂, he₂, hcopy₂, -⟩ := hmirrors.restored_sound hproper hgen hid
    have hkey₂ : e₂.keyHash = e.keyHash := by
      change (snapshotCopy e₂).keyHash = (snapshotCopy e).keyHash
      rw [← hcopy₂, ← hcopy]
      exact hkey
    rw [hpkid] at hne
    exact hne (hpkid'.symm.trans (hinverse.eq_of_hash he₂ hx hkey₂))
  have hid' : e'.id = e.id := by
    change (snapshotCopy e').id = (snapshotCopy e).id
    rw [hcopy]
  rw [hsame, hid'] at hid
  exact ⟨e', hid, hcopy⟩

/-- **A mirror restores exactly the unexpired entries**, if the ids are text. -/
theorem Mirrors.restored_iff (hinverse : x.Inverse)
    (hproper : Proper x.byID) (hgen : b.gen ≠ 0) (hadmits : ∀ e, opts.admits e = true)
    (htext : ∀ id e, x.byID.lookup id = some e → Utf8.IsText id) (now : Time) (id : GoString) :
    Option.Rel SameEntry ((restore opts now (b.liveKeys b.gen)).indexes.byID.lookup id)
      ((x.byID.lookup id).filter (!·.expired now)) := by
  -- soundness where the entry is missing or expired, completeness where it is not
  cases hfilter : (x.byID.lookup id).filter (!·.expired now) with
  | none =>
    have hnone : (restore opts now (b.liveKeys b.gen)).indexes.byID.lookup id = none := by
      refine eq_none_iff_forall_ne_some.mpr fun e' he' => ?_
      obtain ⟨e, he, -, hexpired⟩ := hmirrors.restored_sound hproper hgen he'
      rw [he, filter_some, if_pos (by simp [hexpired])] at hfilter
      cases hfilter
    rw [hnone]
    exact .none
  | some e =>
    obtain ⟨hx, hexpired⟩ := filter_eq_some_iff.mp hfilter
    obtain ⟨rfl, -⟩ := hproper id e hx
    obtain ⟨e', he', hcopy⟩ := hmirrors.restored_complete hinverse hproper hgen hadmits hx
      (htext e.id e hx) (by simpa using hexpired)
    rw [he']
    exact .some (sameEntry_of_snapshotCopy hcopy)

end Restore

def Committed (f : Fate) : Prop := f = .commit

theorem not_canFail_committed : ¬Txn.CanFail Committed := fun ⟨_, h⟩ => nomatch h

theorem not_canCrash_committed : ¬Txn.CanCrash Committed := fun ⟨_, h⟩ => nomatch h

/-- An accepted mutation returns no error, if no transaction fails. -/
theorem call_returns (hkept : Kept p) (hp : Faithful p) (hopen : p.closed = false)
    {fates : List Fate} (hμ : μ.Storable) (hfates : ∀ f ∈ fates, Committed f)
    (hnext : μ.next p.registry = .ok r) :
    ∃ p' rest, μ.call now p fates = .returned (.ok ()) p' rest ∧ p'.registry = r := by
  have hout := wp_call hkept μ now fates hfates
  cases hcall : μ.call now p fates with
  | returned res p' rest =>
    rw [hcall] at hout
    rcases hout.1 with ⟨err, herr, -⟩ | ⟨r', b', hr', rfl, rfl, -⟩
    · rw [hnext] at herr
      cases herr
    · exact ⟨_, rest, rfl, (Except.ok.inj (hnext.symm.trans hr')).symm⟩
  | failed =>
    rw [hcall] at hout
    -- a failure has one of three causes, and none of them applies
    obtain ⟨r', b', hr', rfl, -, hclosed | hfail | ⟨id, e, he, hexpiry⟩⟩ := hout.1
    · rw [hopen] at hclosed
      cases hclosed
    · exact absurd hfail not_canFail_committed
    · exact absurd ((hμ.next hp.entries hr').1 id e he).2 hexpiry
  | crashed =>
    rw [hcall] at hout
    obtain ⟨-, -, -, -, -, hcrash⟩ := hout
    exact absurd hcrash not_canCrash_committed

/-- What a plain restart of a clean provider loads. -/
theorem Reloaded.restoresExactly {p' : DynamicKeyProvider} (hkept : Kept p) (hp : Faithful p)
    (hdirty : p.dirty = false) (hmaxAge : opts.maxAge = none)
    (hadmits : ∀ e, opts.admits e = true)
    (h : Reloaded A opts now (.new p.store.db p.store.macKey true) p') :
    RestoresExactly p.registry p'.registry now := by
  -- what is restored is the generation that mirrors the registry
  have hmirrors := hkept.mirrors hdirty
  have hversion := hp.version hdirty
  unfold VersionKept at hversion
  cases h with
  | fresh hmeta =>
    -- nothing is stored, and so the registry is empty
    change p.store.db.metaRecord = none at hmeta
    rw [hmeta] at hversion
    refine ⟨fun id => ?_, hversion.symm⟩
    rcases hmirrors.synced with ⟨hgen, -⟩ | ⟨m, hm, -⟩
    · rw [hmirrors.fresh hgen id]
      exact .none
    · rw [hmeta] at hm
      cases hm
  | discarded hwritten hreason =>
    -- the meta record is in order, and there is no maximum age
    obtain ⟨m, hm, hcause⟩ := hreason
    rcases hmirrors.synced with ⟨-, hnone⟩ | ⟨m', hm', hmac, hschema, -⟩
    · exact absurd (hnone.symm.trans hm) nofun
    · obtain rfl := mem_unique hm' hm
      rcases hcause with hcause | hcause | hcause
      · exact absurd hmac hcause
      · exact absurd hschema hcause
      · exact absurd hmaxAge hcause
  | @restored m b₁ b' husable hprep =>
    have hm : p.store.db.metaRecord = some m := husable.before
    rw [hm] at hversion
    rcases hmirrors.synced with ⟨-, hnone⟩ | ⟨m', hm', -, -, hgen, hne⟩
    · exact absurd (hnone.symm.trans hm) nofun
    · obtain rfl := mem_unique hm' hm
      refine ⟨fun id => ?_, (if_pos_version _).trans hversion⟩
      have hexact := hmirrors.restored_iff hkept.ordered.inverse hkept.ordered.proper hne hadmits
        (fun id e he => (hp.entries id e he).1) now id
      rw [← hgen] at hexact
      exact hexact

theorem boot_plain (hcfg : cfg.Plain p) (db : Db) : ∃ p' rest, cfg.boot db = .returned () p' rest ∧
      Reloaded Committed cfg.opts cfg.now (.new db p.store.macKey true) p' := by
  have hout := wp_wireKeyStore not_canFail_committed db cfg.macKey cfg.opts cfg.now hcfg.cleanup
    cfg.fates hcfg.fates
  unfold Start.boot
  rw [hcfg.macKey, hcfg.opened]
  rw [hcfg.macKey] at hout
  cases hstart : wireKeyStore cfg.opts cfg.now cfg.cleanup
      (.new db p.store.macKey true) cfg.fates with
  | returned u p' rest =>
    rw [hstart] at hout
    exact ⟨p', rest, rfl, hout.1⟩
  | failed =>
    rw [hstart] at hout
    exact absurd hout.1 not_false
  | crashed =>
    rw [hstart] at hout
    rcases hout.2 with hcrash | hcrash
    all_goals exact absurd hcrash not_canCrash_committed

/-- **The round trip.** In every state that storable inputs and sound starts lead to: an accepted
storable mutation returns no error if no transaction fails, unless the store was closed; and if
the provider is not dirty, a plain restart restores its unexpired entries and its version. -/
theorem round_trip {s : Node} {p : DynamicKeyProvider} (hs : keyNode.ReachVia StorableStep s)
    (hup : s.process = .up p) :
    (p.closed = false → ∀ μ now fates r, Mutation.Storable μ → (∀ f ∈ fates, f = .commit) →
      μ.next p.registry = .ok r →
      ∃ p' rest, μ.call now p fates = .returned (.ok ()) p' rest ∧ p'.registry = r) ∧
    (p.dirty = false → ∀ cfg : Start, cfg.Plain p →
      ∃ t p', keyNode.run s [.crash, .start cfg] = some t ∧ t.process = .up p' ∧
        RestoresExactly p.registry p'.registry cfg.now) := by
  obtain ⟨hconsistent, hfaithful⟩ := faithful_of_reachVia hs
  have hkept := (hconsistent.of_process hup).1
  have hp := hfaithful p hup
  refine ⟨fun hopen μ now fates r hμ hfates hnext => ?_, fun hdirty cfg hcfg => ?_⟩
  · exact call_returns hkept hp hopen hμ hfates hnext
  · obtain ⟨p', rest, hboot, hreloaded⟩ := boot_plain hcfg p.store.db
    refine ⟨{ s with process := .up p', held := [p'.registry] }, p', ?_, rfl,
      hreloaded.restoresExactly hkept hp hdirty hcfg.maxAge hcfg.admits⟩
    -- the crash leaves the database, and the restart loads it
    have hcrash : keyNode.step s .crash = some { s with process := .down p.store.db } := by
      change step s .crash = _
      unfold step
      rw [hup]
    have hstart : keyNode.step { s with process := .down p.store.db } (.start cfg) =
        some { s with process := .up p', held := [p'.registry] } := by
      change some (afterStart _ (cfg.boot p.store.db)) = _
      rw [hboot]
      rfl
    rw [Machine.run_cons, hcrash, bind_some, Machine.run_cons, hstart]
    rfl

instance (s : Node) (a : NodeAct) : Decidable (StorableStep s a) := by
  unfold StorableStep
  split <;> infer_instance

def demoRunning : List NodeAct :=
  [.start (demoStart true []), .mutate (.upsert [49] demoEntry) demoClock []]

theorem round_trip_stored_key :
    ∃ s p t p', keyNode.run fresh demoRunning = some s ∧ s.process = .up p ∧
      (∃ p₁ rest, (Mutation.delete [50] [107]).call demoClock p [] = .returned (.ok ()) p₁ rest) ∧
      keyNode.run s [.crash, .start (demoStart true [])] = some t ∧ t.process = .up p' ∧
      RestoresExactly p.registry p'.registry demoClock ∧ (p.registry.byID.lookup [107]).isSome := by
  have hrun : ∃ s ∈ keyNode.run fresh demoRunning, ∃ p ∈ s.process.provider,
      ((Mutation.delete [50] [107]).next p.registry).toOption.isSome ∧ p.closed = false ∧
        p.dirty = false ∧ p.store.macKey = [1] ∧ (p.registry.byID.lookup [107]).isSome := by
    decide +kernel
  have halong : keyNode.Along StorableStep fresh demoRunning := by decide +kernel
  obtain ⟨s, hs, p, hp, hnext, hopen, hdirty, hmac, hsome⟩ := hrun
  have hup : s.process = .up p := Process.provider_eq_some hp
  have htrip := round_trip ⟨_, _, rfl, halong, hs⟩ hup
  obtain ⟨r, hr⟩ := exists_eq_ok hnext
  have hstorable : (Mutation.delete [50] [107]).Storable := by decide +kernel
  have hplain : (demoStart true []).Plain p :=
    ⟨hmac.symm, rfl, rfl, fun _ => rfl, fun _ hf => absurd hf not_mem_nil,
      fun _ hf => absurd hf not_mem_nil⟩
  obtain ⟨p₁, rest, hcall, -⟩ := htrip.1 hopen _ demoClock [] r hstorable
    (fun _ hf => absurd hf not_mem_nil) hr
  obtain ⟨t, p', ht, hup', hexact⟩ := htrip.2 hdirty _ hplain
  exact ⟨s, p, t, p', hs, hup, ⟨p₁, rest, hcall⟩, ht, hup', hexact, hsome⟩

def demoUp : List NodeAct := [.start (demoStart true [])]

/-- The last second of the year 9999, an hour behind UTC. -/
def demoExpiry : Timestamp := ⟨9999, 12, 31, 23, 59, 59, 0, -60⟩

/-- The call has failed, with the change in effect. -/
def Outcome.NotDurable : Outcome DynamicKeyProvider (Except RegistryError Unit) → Prop
  | .failed _ _ => True
  | _ => False

instance : DecidablePred Outcome.NotDurable := fun o => by
  unfold Outcome.NotDurable
  split <;> infer_instance

/-- **Inputs that are accepted and do not survive**, though every transaction commits: an
expiry that is parsed and cannot be written, an id that is not UTF-8, and a version that is
not. -/
theorem unstorable_inputs : (∃ t, parseExpiresAtRFC3339 (some demoExpiry) = .ok (some t) ∧
      ∃ s ∈ keyNode.run fresh demoUp, ∃ p ∈ s.process.provider,
        ((Mutation.upsert [49] { demoEntry with expiresAt := some t }).next
          p.registry).toOption.isSome ∧
        Outcome.NotDurable ((Mutation.upsert [49] { demoEntry with expiresAt := some t }).call
          demoClock p [])) ∧
    (∃ s ∈ keyNode.run fresh (demoUp ++
        [.mutate (.upsert [49] { demoEntry with id := [0xff] }) demoClock []]),
      ∃ p ∈ s.process.provider, p.dirty = false ∧ (p.registry.byID.lookup [0xff]).isSome ∧
        ∃ t ∈ keyNode.run s [.crash, .start (demoStart true [])], ∃ p' ∈ t.process.provider,
          p'.registry.byID.lookup [0xff] = none) ∧
    ∃ s ∈ keyNode.run fresh (demoUp ++ [.mutate (.delete [0xff] [107]) demoClock []]),
      ∃ p ∈ s.process.provider, p.dirty = false ∧ p.registry.version = [0xff] ∧
        ∃ t ∈ keyNode.run s [.crash, .start (demoStart true [])], ∃ p' ∈ t.process.provider,
          p'.registry.version ≠ [0xff] := by
  refine ⟨⟨demoExpiry.instant, rfl, ?_⟩, ?_, ?_⟩
  all_goals decide +kernel

end HivenetRouter.Auth
