import HivenetRouter.Auth.BadgerKeyStore

/-!
# A store that mirrors a registry

`Mirrors x b` says that the live generation of the store `b` holds a record for each entry of
the index `x`, and no other. A record **holds** an entry if it was sealed with the key of the
store and says what the entry says, up to what storing does not keep (`canonical`): the
difference between an empty slice and `nil`, and the case of the hash. The id is apart: a record
of an id that is not text holds its entry, but does not open.

Each write of the store takes a mirror of the registry before a change to a mirror of the
registry after it (`wp_upsert`, `wp_delete`, `wp_touch`, `wp_replaceAll`), or fails and leaves
the store in step with its meta record, or crashes.
-/

namespace HivenetRouter.Auth

open BadgerKeyStore Txn Finmap List Option Preparing

/-- What is kept of an entry: an empty slice is `nil`, and the hash is in lower case. -/
def canonical (e : DynamicKeyEntry) : DynamicKeyEntry :=
  { snapshotCopy e with keyHash := toLower e.keyHash }

structure Holds (macKey : GoString) (v : Sealed EntryDocument) (e : DynamicKeyEntry) : Prop where
  macKey : v.macKey = macKey
  entry : canonical (wireToEntry { unmarshalEntry v.payload with id := e.id }) = canonical e
  text : Utf8.IsText e.id → Utf8.ofText v.payload.id = e.id

structure Mirrors (x : GoMap GoString DynamicKeyEntry) (b : BadgerKeyStore) : Prop where
  synced : Synced b
  fresh : b.gen = 0 → ∀ id, x.lookup id = none
  records : b.gen ≠ 0 → ∀ id,
    Option.Rel (Holds b.macKey) (b.db.records.lookup (recordKey b.gen id)) (x.lookup id)

/-- The entries of an index have their own ids and are valid. -/
def Proper (x : GoMap GoString DynamicKeyEntry) : Prop :=
  ∀ id e, x.lookup id = some e → e.id = id ∧ normalizeAndValidateKeyEntry e = .ok e

/-- The entry is one of the index, as it is kept. -/
def Among (x : GoMap GoString DynamicKeyEntry) (id : GoString) (e : DynamicKeyEntry) : Prop :=
  ∃ e₀, x.lookup id = some e₀ ∧ canonical e = canonical e₀

/-- The list has the entries of the index, as they are kept. -/
structure Lists (entries : List DynamicKeyEntry) (x : GoMap GoString DynamicKeyEntry) : Prop where
  nodup : (entries.map (·.id)).Nodup
  sound : ∀ e ∈ entries, Among x e.id e
  complete : ∀ id e₀, x.lookup id = some e₀ → ∃ e ∈ entries, e.id = id ∧ canonical e = canonical e₀

/-- After a write: the store mirrors `x`, with this version. -/
structure Written (x : GoMap GoString DynamicKeyEntry) (version : GoString)
    (b b' : BadgerKeyStore) : Prop where
  mirrors : Mirrors x b'
  macKey : b'.macKey = b.macKey
  version : ∃ m, b'.db.metaRecord = some m ∧ m.payload.version = Utf8.toText version

/-- The expiry of the entry can be written. -/
def Encodable (e : DynamicKeyEntry) : Prop := ∀ t ∈ e.expiresAt, HasFourDigitYear t

instance (e : DynamicKeyEntry) : Decidable (Encodable e) :=
  inferInstanceAs (Decidable (∀ t ∈ e.expiresAt, _))

/-- What a crash while `x` is written leaves: nothing can be restored but what could before, and
entries of `x`. -/
structure Survived (x : GoMap GoString DynamicKeyEntry) (db db' : Db) : Prop where
  sane : db.Sane → db'.Sane
  covered : ∀ S, (∀ id e, Among x id e → S id e) → db.Covered S → db'.Covered S

/-- What a failed write leaves: the store still agrees with the meta record. -/
structure Stalled (x : GoMap GoString DynamicKeyEntry) (b b' : BadgerKeyStore) : Prop extends
    Survived x b.db b'.db where
  macKey : b'.macKey = b.macKey
  synced : Synced b → Synced b'

/-- How a write of `x` may end. It fails only if a transaction does, or at an entry that cannot
be written. -/
def writing (A : Fate → Prop) (x : GoMap GoString DynamicKeyEntry) (version : GoString)
    (b : BadgerKeyStore) : Post BadgerKeyStore Unit where
  returned _ b' := Written x version b b'
  failed b' := Stalled x b b' ∧ (CanFail A ∨ ∃ id e, x.lookup id = some e ∧ ¬Encodable e)
  crashed b' := Survived x b.db b'.db ∧ CanCrash A

/-! ### Records and entries -/

section

variable {e e₀ : DynamicKeyEntry} {macKey : GoString} {v : Sealed EntryDocument}

theorem id_eq_of_canonical (h : canonical e = canonical e₀) : e.id = e₀.id := by
  change (canonical e).id = (canonical e₀).id
  rw [h]

theorem quota_eq_of_canonical (h : canonical e = canonical e₀) : e.quota = e₀.quota := by
  change (canonical e).quota = (canonical e₀).quota
  rw [h]

theorem canonical_snapshotCopy (e : DynamicKeyEntry) :
    canonical (snapshotCopy e) = canonical e := by
  unfold canonical snapshotCopy
  rw [Option.filter_filter]
  simp only [Bool.and_self]

variable {e' : DynamicKeyEntry}

theorem canonical_of_normalize (h : normalizeAndValidateKeyEntry e = .ok e') :
    canonical e' = canonical e := by
  obtain ⟨heq, -, hcheck⟩ := normalizeAndValidateKeyEntry_ok h
  have hlower : toLower e'.keyHash = toLower e.keyHash := by
    rw [toLower_of_lowerHex (checkKeyEntry_ok hcheck).2, heq]
  unfold canonical
  rw [hlower, heq]
  rfl

theorem perModel_ne_of_valid (h : normalizeAndValidateKeyEntry e = .ok e) :
    e.quota.perModel ≠ some ∅ := by
  intro hempty
  obtain ⟨-, -, hcheck⟩ := normalizeAndValidateKeyEntry_ok h
  unfold checkKeyEntry at hcheck
  split at hcheck
  · cases hcheck
  split at hcheck
  · cases hcheck
  -- a table without a model is refused
  split_ifs at hcheck

theorem omitEmpty_of_ne {q : QuotaLimits} (h : q.perModel ≠ some ∅) : q.omitEmpty = q := by
  unfold QuotaLimits.omitEmpty
  obtain ⟨_, _, _, _, _, perModel⟩ := q
  cases perModel with
  | none => rfl
  | some m =>
    have hm : m ≠ ∅ := fun heq => h (congrArg some heq)
    simp [Option.filter, hm]

theorem stored_of_ne (h : e.quota.perModel ≠ some ∅) : stored e = e := by
  unfold stored wireToEntry entryToWire
  rw [omitEmpty_of_ne h, omitEmpty_of_ne h]

theorem holds_of_sealEntry (hseal : sealEntry macKey e = some v)
    (hcanonical : canonical e = canonical e₀) (hvalid : normalizeAndValidateKeyEntry e₀ = .ok e₀) :
    Holds macKey v e₀ := by
  obtain ⟨hmac, hid, hwire⟩ := sealEntry_eq_some hseal
  have hsame : e.id = e₀.id := id_eq_of_canonical hcanonical
  -- writing keeps all of a valid entry
  have hstored : stored e = e := by
    refine stored_of_ne ?_
    rw [quota_eq_of_canonical hcanonical]
    exact perModel_ne_of_valid hvalid
  refine ⟨hmac, ?_, fun htext => ?_⟩
  · rw [← hsame, hwire, ← hcanonical]
    exact congrArg canonical hstored
  · rw [hid, hsame]
    exact htext

/-- A record that holds an entry opens to it, as it is kept. -/
theorem Holds.canonical_eq {macKey' : GoString} (h : Holds macKey v e)
    (hopen : openRecord macKey' e.id v = .ok e') :
    canonical e' = canonical e := by
  obtain ⟨-, -, rfl⟩ := openRecord_eq_ok hopen
  exact h.entry

theorem Holds.openRecord_ok (h : Holds macKey v e) (htext : Utf8.IsText e.id) :
    ∃ e', openRecord macKey e.id v = .ok e' := by
  unfold openRecord
  have hid : (unmarshalEntry v.payload).id = e.id := h.text htext
  simp [h.macKey, hid]

theorem holds_of_openRecord {id : GoString} (hopen : openRecord macKey id v = .ok e)
    (hvalid : normalizeAndValidateKeyEntry e = .ok e') :
    Holds macKey v e' := by
  obtain ⟨hmac, hid, rfl⟩ := openRecord_eq_ok hopen
  have hcanonical := canonical_of_normalize hvalid
  have hsame : e'.id = id := id_eq_of_canonical hcanonical
  refine ⟨hmac, ?_, fun _ => ?_⟩
  · rw [hsame, hcanonical]
  · rw [hid, hsame]

/-! ### Mirrors of other indexes -/

variable {x : GoMap GoString DynamicKeyEntry} {b b' : BadgerKeyStore}

/-- What can be restored from a mirror is in the index. -/
theorem Mirrors.covered (h : Mirrors x b) (hx : Proper x) : b.db.Covered (Among x) := by
  intro id e he
  obtain ⟨m, v, hm, hv, hopen⟩ := Db.restorable_eq_some_iff.mp he
  -- what is restored is read in the generation of the meta record, which is the live one
  rcases h.synced with ⟨-, hnone⟩ | ⟨m', hm', -, -, hgen, hne⟩
  · rw [hnone] at hm
    cases hm
  · obtain rfl := mem_unique hm hm'
    have hrel := h.records hne id
    rw [← hgen, hv] at hrel
    cases hlookup : x.lookup id with
    | none =>
      rw [hlookup] at hrel
      cases hrel
    | some e₀ =>
      rw [hlookup] at hrel
      cases hrel with
      | some hholds =>
        obtain ⟨rfl, -⟩ := hx id e₀ hlookup
        exact ⟨e₀, hlookup, hholds.canonical_eq hopen⟩

theorem Flipped.mirrors {m : Sealed (KeyStoreMeta String)} {entries : List DynamicKeyEntry}
    (h : Flipped m entries b') (hgen : b'.gen = m.payload.gen) (hne : m.payload.gen ≠ 0)
    (hschema : m.payload.schema = keyStoreSchema)
    (hall : ∀ e ∈ entries, (sealEntry m.macKey e).isSome) (hlists : Lists entries x)
    (hx : Proper x) : Mirrors x b' := by
  have hgen0 : b'.gen ≠ 0 := hgen ▸ hne
  refine ⟨.inr ⟨m, h.metaRecord, h.macKey.symm, hschema, hgen.symm, hgen0⟩,
    fun h0 => absurd h0 hgen0, fun _ id => ?_⟩
  rw [hgen]
  have hgeneration := h.generation id
  rw [h.macKey] at hgeneration ⊢
  -- a record for each entry of the list, and the list has the entries of the index
  cases hlookup : x.lookup id with
  | none =>
    have hnone : b'.db.records.lookup (recordKey m.payload.gen id) = none := by
      refine eq_none_iff_forall_ne_some.mpr fun v hv => ?_
      obtain ⟨e, he, rfl, -⟩ := (hgeneration v).mp hv
      obtain ⟨e₀, he₀, -⟩ := hlists.sound e he
      rw [hlookup] at he₀
      cases he₀
    rw [hnone]
    exact .none
  | some e₀ =>
    obtain ⟨e, he, rfl, hcanonical⟩ := hlists.complete id e₀ hlookup
    obtain ⟨v, hv⟩ := isSome_iff_exists.mp (hall e he)
    rw [(hgeneration v).mpr ⟨e, he, rfl, hv⟩]
    exact .some (holds_of_sealEntry hv hcanonical (hx e.id e₀ hlookup).2)

/-! ### Full writes -/

section Writes

variable {A : Fate → Prop} {version : GoString} {savedAt : Stamp} {confirmedAt : Option Stamp}
  {entries : List DynamicKeyEntry}

/-- Entries of the index may be written. -/
theorem allowed_of_among (hx : Proper x) (hentries : ∀ e ∈ entries, Among x e.id e) :
    Allowed entries (Among x) := by
  intro e he
  obtain ⟨e₀, he₀, hcanonical⟩ := hentries e he
  have hne : e.quota.perModel ≠ some ∅ := by
    rw [quota_eq_of_canonical hcanonical]
    exact perModel_ne_of_valid (hx e.id e₀ he₀).2
  rw [stored_of_ne hne]
  exact ⟨e₀, he₀, hcanonical⟩

theorem Survives.survived {db db' : Db} (h : Survives entries db db') (hx : Proper x)
    (hentries : ∀ e ∈ entries, Among x e.id e) : Survived x db db' :=
  ⟨h.sane, fun S hS => h.covered S fun e he => hS _ _ (allowed_of_among hx hentries e he)⟩

theorem Interrupted.stalled (h : Interrupted entries b b') (hx : Proper x)
    (hentries : ∀ e ∈ entries, Among x e.id e) : Stalled x b b' :=
  ⟨h.toSurvives.survived hx hentries, h.macKey, h.synced⟩

theorem sealEntry_isSome (h : Encodable e) : (sealEntry macKey e).isSome := by
  have hexpiry : (marshalExpiry e.expiresAt).isSome := by
    unfold marshalExpiry
    cases ht : e.expiresAt with
    | none => rfl
    | some t =>
      dsimp only
      rw [dif_pos (h t ht)]
      rfl
  unfold sealEntry marshalEntry
  rw [isSome_map, isSome_map]
  exact hexpiry

/-- An entry that cannot be sealed is one of the index whose expiry cannot be written. -/
theorem exists_not_encodable (hentries : ∀ e ∈ entries, Among x e.id e)
    (h : Unencodable macKey entries) : ∃ id e, x.lookup id = some e ∧ ¬Encodable e := by
  obtain ⟨e, he, hnone⟩ := h
  obtain ⟨e₀, he₀, hcanonical⟩ := hentries e he
  refine ⟨e.id, e₀, he₀, fun hencodable => ?_⟩
  -- the copy has the expiry of the entry
  have hexpiry : e.expiresAt = e₀.expiresAt := by
    change (canonical e).expiresAt = (canonical e₀).expiresAt
    rw [hcanonical]
  have hsome : (sealEntry macKey e).isSome := by
    refine sealEntry_isSome fun t ht => hencodable t ?_
    rw [← hexpiry]
    exact ht
  rw [hnone] at hsome
  cases hsome

theorem wp_replaceAll (hlists : Lists entries x) (hx : Proper x) :
    wp A (replaceAll version entries savedAt confirmedAt) (writing A x version b) b := by
  refine wp_mono (wp_writeGeneration hlists.nodup) ?_ ?_ ?_
  · rintro _ b' ⟨⟨hflipped, hgen, -⟩, hall⟩
    exact ⟨hflipped.mirrors hgen (Nat.succ_ne_zero b.gen) rfl hall hlists hx, hflipped.macKey,
      _, hflipped.metaRecord, rfl⟩
  · rintro b' ⟨hinterrupted, hcause⟩
    exact ⟨hinterrupted.stalled hx hlists.sound,
      hcause.imp_right (exists_not_encodable hlists.sound)⟩
  · rintro b' ⟨hsurvives, hcrash⟩
    exact ⟨hsurvives.survived hx hlists.sound, hcrash⟩

theorem lists_nil (hx : ∀ id, x.lookup id = none) : Lists [] x where
  nodup := nodup_nil
  sound _ he := absurd he not_mem_nil
  complete id e₀ he₀ := by
    rw [hx id] at he₀
    cases he₀

theorem proper_of_lookup_none (hx : ∀ id, x.lookup id = none) : Proper x := by
  intro id e he
  rw [hx id] at he
  cases he

theorem wp_reset : wp A (reset savedAt) (writing A ∅ [] b) b := by
  have hempty : ∀ id, (∅ : GoMap GoString DynamicKeyEntry).lookup id = none := fun _ => rfl
  refine wp_bind (wp_get (wp_bind (wp_modify (wp_onFail ?_))))
  refine wp_mono (wp_replaceAll (x := ∅) (lists_nil hempty) (proper_of_lookup_none hempty)) ?_ ?_ ?_
  · rintro _ b' ⟨hmirrors, hmac, hversion⟩
    exact ⟨hmirrors, hmac, hversion⟩
  · -- the confirmation time that is put back is in memory only
    rintro b' ⟨hstalled, hcause⟩
    exact ⟨⟨hstalled.toSurvived, hstalled.macKey, hstalled.synced⟩, hcause⟩
  · exact fun _ h => h

/-! ### Incremental writes -/

/-- A meta record for the live generation changes nothing that can be restored. -/
theorem Db.Covered.setMeta {S : GoString → DynamicKeyEntry → Prop} (h : b.db.Covered S)
    (hsynced : Synced b) (hne : b.gen ≠ 0) :
    (b.setMeta (b.sealMeta b.gen version savedAt confirmedAt)).db.Covered S := by
  intro id e he
  obtain ⟨m, v, hm, hv, hopen⟩ := Db.restorable_eq_some_iff.mp he
  obtain rfl := some.inj hm
  rcases hsynced with ⟨h0, -⟩ | ⟨m', hm', hmac, -, hgen, -⟩
  · exact absurd h0 hne
  · -- the new record has the generation and the key of the old one
    refine h id e (Db.restorable_eq_some_iff.mpr ⟨m', v, hm', ?_, ?_⟩)
    · rw [hgen]
      exact hv
    · rw [hmac]
      exact hopen

/-- A change of records of the live generation, together with the meta record. -/
theorem wp_update_meta {f : BadgerKeyStore → BadgerKeyStore} (hsynced : Synced b)
    (hne : b.gen ≠ 0) (hf : Preparing entries b (f b)) (hx : Proper x)
    (hentries : ∀ e ∈ entries, Among x e.id e)
    (hrecords : ∀ id, Option.Rel (Holds b.macKey) ((f b).db.records.lookup (recordKey b.gen id))
      (x.lookup id)) :
    wp A (update (setMeta (b.sealMeta b.gen version savedAt confirmedAt) ∘ f))
      (writing A x version b) b := by
  have hseal : b.sealMeta b.gen version savedAt confirmedAt =
      (f b).sealMeta (f b).gen version savedAt confirmedAt := by
    unfold sealMeta
    rw [hf.macKey, hf.gen]
  have hsynced' : Synced (f b) := hf.interrupted.synced hsynced
  have hne' : (f b).gen ≠ 0 := hf.gen ▸ hne
  -- the transaction is atomic: nothing is written, or the records and the meta record are
  have hbefore : Stalled x b b := (refl entries b).interrupted.stalled hx hentries
  refine wp_update ⟨⟨.inr ⟨_, rfl, hf.macKey.symm, rfl, hf.gen.symm, hne'⟩,
      fun h0 => absurd h0 hne', fun _ id => ?_⟩, hf.macKey, _, rfl, rfl⟩
    (fun hfail => ⟨hbefore, .inl hfail⟩)
    fun hcrash => ⟨⟨hbefore.toSurvived, hcrash⟩, ⟨fun _ m hm => ?_, fun S hS hb => ?_⟩, hcrash⟩
  · change Option.Rel (Holds (f b).macKey) ((f b).db.records.lookup (recordKey (f b).gen id)) _
    rw [hf.macKey, hf.gen]
    exact hrecords id
  · rw [← some.inj hm]
    exact hne
  · rw [Function.comp_apply, hseal]
    refine Db.Covered.setMeta (hf.covered S (fun e he => ?_) hb) hsynced' hne'
    exact hS _ _ (allowed_of_among hx hentries e he)

variable (hb : Mirrors x b)

include hb

theorem wp_upsert (hx : Proper (x.insert e.id e)) :
    wp A (upsert version e savedAt) (writing A (x.insert e.id e) version b) b := by
  have hentries : ∀ e' ∈ [e], Among (x.insert e.id e) e'.id e' := by
    intro e' he'
    obtain rfl := mem_singleton.mp he'
    exact ⟨e', lookup_insert _, rfl⟩
  refine wp_bind (wp_get ?_)
  dsimp only
  split_ifs with hgen
  · -- nothing has been written: the first generation has this entry only
    refine wp_replaceAll ⟨nodup_singleton _, hentries, fun id e₀ he₀ => ?_⟩ hx
    obtain ⟨rfl, rfl⟩ | ⟨-, he₀⟩ := GoMap.lookup_insert_eq_some.mp he₀
    · exact ⟨_, mem_singleton_self _, rfl, rfl⟩
    · rw [hb.fresh hgen id] at he₀
      cases he₀
  · cases hseal : sealEntry b.macKey e with
    | none =>
      -- an expiry that cannot be written
      exact wp_fail ⟨(refl [e] b).interrupted.stalled hx hentries,
        .inr (exists_not_encodable hentries ⟨e, mem_singleton_self e, hseal⟩)⟩
    | some v =>
      refine wp_update_meta hb.synced hgen
        ((refl [e] b).setRecord (mem_singleton_self e) hseal) hx hentries
        fun id => ?_
      change Option.Rel _ ((b.db.records.insert (recordKey b.gen e.id) v).lookup
        (recordKey b.gen id)) _
      by_cases hid : id = e.id
      · subst hid
        rw [lookup_insert, lookup_insert]
        exact .some (holds_of_sealEntry hseal rfl (hx e.id e (lookup_insert _)).2)
      · have hk : recordKey b.gen id ≠ recordKey b.gen e.id := fun h => hid (recordKey_inj.mp h).2
        rw [lookup_insert_of_ne _ hk, lookup_insert_of_ne _ hid]
        exact hb.records hgen id

theorem wp_delete {id : GoString} (hx : Proper (x.erase id)) :
    wp A (BadgerKeyStore.delete version id savedAt) (writing A (x.erase id) version b) b := by
  refine wp_bind (wp_get ?_)
  dsimp only
  split_ifs with hgen
  · -- nothing has been written: the first generation is empty
    refine wp_replaceAll (lists_nil fun id' => ?_) hx
    by_cases hid : id' = id
    · subst hid
      exact lookup_erase _ _
    · rw [lookup_erase_ne hid]
      exact hb.fresh hgen id'
  · refine wp_update_meta hb.synced hgen ((refl [] b).eraseRecord _) hx
      (fun _ he => absurd he not_mem_nil)
      fun id' => ?_
    change Option.Rel _ ((b.db.records.erase (recordKey b.gen id)).lookup (recordKey b.gen id')) _
    by_cases hid : id' = id
    · subst hid
      rw [lookup_erase, lookup_erase]
      exact .none
    · -- the record of another id has another key
      have hk : recordKey b.gen id' ≠ recordKey b.gen id := fun h => hid (recordKey_inj.mp h).2
      rw [lookup_erase_ne hk, lookup_erase_ne hid]
      exact hb.records hgen id'

theorem wp_touch (hx : Proper x) :
    wp A (touch version savedAt confirmedAt) (writing A x version b) b := by
  refine wp_bind (wp_get ?_)
  dsimp only
  split_ifs with hgen
  · exact wp_replaceAll (lists_nil (hb.fresh hgen)) hx
  · refine wp_bind (wp_mono (wp_update_meta (f := id) hb.synced hgen (.refl [] b) hx
      (fun _ he => absurd he not_mem_nil)
      (hb.records hgen)) ?_ (fun _ h => h) fun _ h => h)
    rintro _ b' ⟨⟨hsynced, hfresh, hrecords⟩, hmac, hversion⟩
    exact wp_modify ⟨⟨hsynced, hfresh, hrecords⟩, hmac, hversion⟩

end Writes

end

/-!
## Loading a store

What `Load` reads (`wp_load`), what the loop of `LoadKeyStore` makes of it, and what the store
holds after the records that were skipped have been removed: it mirrors the restored index
(`mirrors_restored`). This needs the removal. A record that was skipped and is still there is
in no index, and no later incremental write removes it.

A load brings in nothing by itself: an entry that is restored could be restored before
(`restored_covered`).
-/

variable {b b' : BadgerKeyStore} {A B : Fate → Prop} {gen : ℕ} {m : Sealed (KeyStoreMeta String)}

/-! ### The records that are read -/

theorem mem_liveKeys {pk : PersistedKey} :
    pk ∈ b.liveKeys gen ↔ ∃ v, b.db.records.lookup (recordKey gen pk.id) = some v ∧
      pk.entry = openRecord b.macKey pk.id v := by
  unfold liveKeys
  rw [mem_filterMap]
  constructor
  · rintro ⟨k, hk, hpk⟩
    obtain ⟨v, hv, rfl⟩ := map_eq_some_iff.mp hpk
    have hgen : (ofLex k).1 = gen := of_decide_eq_true (mem_keysOf.mp hk).2
    refine ⟨v, ?_, rfl⟩
    rw [← hgen]
    exact hv
  · rintro ⟨v, hv, hentry⟩
    refine ⟨recordKey gen pk.id, mem_keysOf.mpr ⟨?_, decide_eq_true rfl⟩, ?_⟩
    · rw [hv]
      rfl
    · rw [hv]
      exact congrArg some (congrArg (PersistedKey.mk pk.id) hentry.symm)

theorem keyed_liveKeys (gen : ℕ) : Keyed (b.liveKeys gen) := by
  constructor
  · -- the ids are those of the keys, which differ in nothing else
    have hids : (b.liveKeys gen).map (·.id) = (b.keysOf (· = gen)).map fun k => (ofLex k).2 := by
      unfold liveKeys
      rw [map_filterMap, filterMap_eq_map_iff_forall_eq_some]
      intro k hk
      obtain ⟨v, hv⟩ := isSome_iff_exists.mp (mem_keysOf.mp hk).1
      rw [hv]
      rfl
    rw [hids]
    refine List.Nodup.map_on ?_ (List.Nodup.filter _ (GoMap.nodup_sortedKeys _))
    intro k hk k' hk' hid
    have hgen : (ofLex k).1 = gen := of_decide_eq_true (mem_keysOf.mp hk).2
    have hgen' : (ofLex k').1 = gen := of_decide_eq_true (mem_keysOf.mp hk').2
    exact congrArg toLex (Prod.ext (hgen.trans hgen'.symm) hid)
  · intro pk hpk e he
    obtain ⟨v, -, hentry⟩ := mem_liveKeys.mp hpk
    rw [he] at hentry
    obtain ⟨-, -, rfl⟩ := openRecord_eq_ok hentry.symm
    rfl

/-! ### `Load` -/

/-- The store after a usable meta record has been read: the live generation is as before. -/
structure Usable (m : Sealed (KeyStoreMeta String)) (b b' : BadgerKeyStore) : Prop where
  before : b.db.metaRecord = some m
  after : b'.db.metaRecord = some m
  sealed : m.macKey = b.macKey
  schema : m.payload.schema = keyStoreSchema
  macKey : b'.macKey = b.macKey
  gen : b'.gen = m.payload.gen
  records : ∀ id, b'.db.records.lookup (recordKey m.payload.gen id) =
    b.db.records.lookup (recordKey m.payload.gen id)

theorem Usable.eraseRecord (h : Usable m b b') {k : RecordKey} (hk : (ofLex k).1 ≠ m.payload.gen) :
    Usable m b (b'.eraseRecord k) := by
  refine { h with records := fun id => ?_ }
  change (b'.db.records.erase k).lookup (recordKey m.payload.gen id) = _
  have hne : recordKey m.payload.gen id ≠ k := by
    rintro rfl
    exact hk rfl
  rw [Finmap.lookup_erase_ne hne]
  exact h.records id

theorem Usable.survives (h : Usable m b b') : Survives [] b.db b'.db := by
  refine ⟨fun hsane => ?_, fun S _ hS id e he => ?_⟩
  · unfold Db.Sane
    rw [h.after, ← h.before]
    exact hsane
  · obtain ⟨m', v, hm', hv, hopen⟩ := Db.restorable_eq_some_iff.mp he
    obtain rfl := mem_unique h.after hm'
    -- the meta record and its generation are those of before
    refine hS id e (Db.restorable_eq_some_iff.mpr ⟨m, v, h.before, ?_, hopen⟩)
    rw [← h.records id]
    exact hv

/-- What `Load` finds in the store, and the store that it leaves. -/
def Found (b : BadgerKeyStore) : Loaded → BadgerKeyStore → Prop
  | .fresh, b' => b.db.metaRecord = none ∧ b' = b
  | .unusable _, b' => (∃ m, b.db.metaRecord = some m ∧
      (m.macKey ≠ b.macKey ∨ m.payload.schema ≠ keyStoreSchema)) ∧
      b' = { b with gen := 0, confirmedAt := none }
  | .snapshot snap, b' => ∃ m, Usable m b b' ∧ snap = ⟨Utf8.ofText m.payload.version,
      m.payload.savedAt, m.payload.confirmedAt, b.liveKeys m.payload.gen⟩

/-- **`Load`**, with the removal of orphaned generations in its own hands. -/
theorem wp_load {cleanup : List Fate} (hcleanup : ∀ f ∈ cleanup, B f) : wp A (load cleanup)
      ⟨Found b, fun b' => b' = b ∧ CanFail A,
        fun b' => Survives [] b.db b'.db ∧ (CanCrash A ∨ CanCrash B)⟩ b := by
  refine wp_bind (wp_view (wp_bind (wp_get ?_)) (fun hfail => ⟨rfl, hfail⟩)
    fun hcrash => ⟨.refl [] b.db, .inl hcrash⟩)
  dsimp only
  cases hm : b.db.metaRecord with
  | none => exact wp_pure ⟨hm, rfl⟩
  | some m =>
    dsimp only
    split_ifs with hmac hschema hnewer
    · -- a record that cannot be trusted is reported, and nothing is written
      exact wp_bind (wp_modify (wp_pure ⟨⟨m, hm, .inl hmac⟩, rfl⟩))
    · exact wp_bind (wp_modify (wp_pure ⟨⟨m, hm, .inr hschema⟩, rfl⟩))
    · exact wp_bind (wp_modify (wp_pure ⟨⟨m, hm, .inr hschema⟩, rfl⟩))
    · -- only orphaned generations are removed from here on
      have husable : Usable m b
          { b with gen := m.payload.gen, confirmedAt := m.payload.confirmedAt } :=
        ⟨hm, hm, not_not.mp hmac, not_not.mp hschema, rfl, rfl, fun _ => rfl⟩
      have horphan : ∀ k ∈ b.keysOf (· ≠ m.payload.gen), (ofLex k).1 ≠ m.payload.gen := fun k hk =>
        of_decide_eq_true (mem_keysOf.mp hk).2
      refine wp_bind (wp_modify (wp_bind (wp_attempt (wp_under hcleanup ?_))))
      refine wp_mono (wp_deleteKeys (I := Usable m b)
        (fun k hk _ h => h.eraseRecord (horphan k hk)) husable) ?_ ?_ ?_
      · exact fun _ b' h => wp_pure ⟨m, h.1, rfl⟩
      · exact fun b' h => wp_pure ⟨m, h.1, rfl⟩
      · exact fun b' h => ⟨h.1.survives, .inr h.2⟩

theorem wp_deleteRecords {ids : List GoString} : wp A (deleteRecords ids)
      ⟨fun _ b' => Preparing [] b b' ∧ (b.gen ≠ 0 → ∀ id,
          b'.db.records.lookup (recordKey b.gen id) =
            if id ∈ ids then none else b.db.records.lookup (recordKey b.gen id)),
        fun b' => Preparing [] b b' ∧ CanFail A, fun b' => Preparing [] b b' ∧ CanCrash A⟩ b := by
  refine wp_bind (wp_get ?_)
  dsimp only
  split_ifs with hgen
  · exact wp_pure ⟨.refl [] b, fun hne => absurd hgen hne⟩
  · refine wp_mono (wp_deleteKeys (I := Preparing [] b) (fun k _ _ h => h.eraseRecord k)
      (.refl [] b)) ?_ (fun _ h => h) fun _ h => h
    rintro _ b' ⟨hprep, rfl⟩
    refine ⟨hprep, fun _ id => ?_⟩
    rw [lookup_applyAll_eraseRecord]
    simp [List.mem_map]

/-! ### What is restored -/

variable {opts : KeyStoreLoadOptions} {now : Time}

variable {id : GoString} {e : DynamicKeyEntry}

/-- The record behind a restored entry. -/
theorem restored_source (he : (restore opts now (b.liveKeys gen)).indexes.byID.lookup id = some e) :
    ∃ v e₀, b.db.records.lookup (recordKey gen id) = some v ∧ openRecord b.macKey id v = .ok e₀ ∧
      normalizeAndValidateKeyEntry e₀ = .ok e ∧ e.expired now = false := by
  obtain ⟨pk, hpk, rfl, hcheck⟩ := (restored_restore (keyed_liveKeys gen)).source id e he
  obtain ⟨e₀, he₀, hvalid, hexpired⟩ := PersistedKey.check_eq_ok hcheck
  obtain ⟨v, hv, hentry⟩ := mem_liveKeys.mp hpk
  exact ⟨v, e₀, hv, hentry.symm.trans he₀, hvalid, hexpired⟩

theorem proper_restored (gen : ℕ) : Proper (restore opts now (b.liveKeys gen)).indexes.byID := by
  intro id e he
  obtain ⟨v, e₀, -, -, hvalid, -⟩ := restored_source he
  exact ⟨((restored_restore (keyed_liveKeys gen)).inverse.ofID id e he).1,
    normalizeAndValidateKeyEntry_idem hvalid⟩

theorem restored_covered (h : Usable m b b') {S : GoString → DynamicKeyEntry → Prop}
    (hS : b.db.Covered S)
    (he : (restore opts now (b.liveKeys m.payload.gen)).indexes.byID.lookup id = some e) :
    ∃ e₀, S id e₀ ∧ canonical e = canonical e₀ := by
  obtain ⟨v, e₀, hv, hopen, hvalid, -⟩ := restored_source he
  refine ⟨e₀, hS id e₀ (Db.restorable_eq_some_iff.mpr ⟨m, v, h.before, hv, ?_⟩),
    canonical_of_normalize hvalid⟩
  rw [h.sealed]
  exact hopen

/-- **The store mirrors what was restored**, once the skipped records are gone. -/
theorem mirrors_restored {b'' : BadgerKeyStore} (h : Usable m b b') (hne : m.payload.gen ≠ 0)
    (hprep : Preparing [] b' b'')
    (hgone : ∀ id, b''.db.records.lookup (recordKey b'.gen id) =
      if id ∈ (restore opts now (b.liveKeys m.payload.gen)).skipped.map (·.1) then none
      else b'.db.records.lookup (recordKey b'.gen id)) :
    Mirrors (restore opts now (b.liveKeys m.payload.gen)).indexes.byID b'' := by
  have hgen : b''.gen = m.payload.gen := hprep.gen.trans h.gen
  have hmac : b''.macKey = b.macKey := hprep.macKey.trans h.macKey
  have hrestored : Restored opts now (b.liveKeys m.payload.gen) _ :=
    restored_restore (keyed_liveKeys m.payload.gen)
  refine ⟨.inr ⟨m, hprep.metaRecord.trans h.after, h.sealed.trans hmac.symm, h.schema, hgen.symm,
    hgen ▸ hne⟩, fun h0 => absurd (hgen.symm.trans h0) hne, fun _ id => ?_⟩
  rw [hmac, hprep.gen, hgone id, h.gen, h.records id]
  cases hv : b.db.records.lookup (recordKey m.payload.gen id) with
  | none =>
    -- without a record there is nothing to restore
    have hnone : (restore opts now (b.liveKeys m.payload.gen)).indexes.byID.lookup id = none := by
      refine eq_none_iff_forall_ne_some.mpr fun e he => ?_
      obtain ⟨v, e₀, hv', -⟩ := restored_source he
      rw [hv] at hv'
      cases hv'
    rw [hnone, ite_self]
    exact .none
  | some v =>
    have hmem : (⟨id, openRecord b.macKey id v⟩ : PersistedKey) ∈ b.liveKeys m.payload.gen :=
      mem_liveKeys.mpr ⟨v, hv, rfl⟩
    -- a record is skipped exactly when its id is not restored
    have hskipped : id ∈ (restore opts now (b.liveKeys m.payload.gen)).skipped.map (·.1) ↔
        (restore opts now (b.liveKeys m.payload.gen)).indexes.byID.lookup id = none := by
      rw [← hrestored.skipped _ hmem, List.mem_map]
      exact ⟨fun ⟨⟨_, reason⟩, hx, heq⟩ => ⟨reason, heq ▸ hx⟩, fun ⟨reason, hx⟩ => ⟨_, hx, rfl⟩⟩
    split_ifs with hskip
    · rw [hskipped.mp hskip]
      exact .none
    · cases hlookup : (restore opts now (b.liveKeys m.payload.gen)).indexes.byID.lookup id with
      | none => exact absurd (hskipped.mpr hlookup) hskip
      | some =>
        -- a restored entry is what its own record says
        obtain ⟨v', e₀, hv', hopen, hvalid, -⟩ := restored_source hlookup
        obtain rfl := mem_unique hv hv'
        exact .some (holds_of_openRecord hopen hvalid)

end HivenetRouter.Auth
