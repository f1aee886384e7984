import Mathlib.Data.Prod.Lex
import HivenetRouter.Auth.Registry
import HivenetRouter.Framework.Transaction

/-!
# The key store

`BadgerKeyStore`: the registry on disk. A record for each key, under a **generation** and the
id, and one meta record, which says which generation is live. `Upsert` and `Delete` change the
record of one key and the meta record in one transaction; `ReplaceAll` writes a new generation,
flips the meta record to it, and drops the old one. Each function is a program over
transactions that can fail or crash.

A record is a sealed JSON document. The document is modelled by what it says: a text is
`String`, so that an id that is not UTF-8 is changed by writing it (`Utf8.toText`), and an
expiry outside the years 0 to 9999 cannot be written. A seal is the key it was made with: a
record opens with that key and with no other.

`Db.restorable` is what a `Load` with the key of the meta record reads for an id.
`wp_writeGeneration` says what the three steps of writing a generation do to it, wherever they
are interrupted; the other programs are in `Auth.Mirror`.
-/

namespace HivenetRouter.Auth

open Finmap List Option

/-! ### The format -/

/-- `keyStoreEntry`, in the program or in a document: there the id is text, and the expiry is
in the years 0 to 9999. -/
structure KeyStoreEntry (Str Instant : Type) where
  id : Str
  keyHash : String
  keyPreview : String
  owner : String
  name : String
  enabled : Bool
  expiresAt : Option Instant
  allowedModels : Option (List String)
  quota : QuotaLimits

abbrev EntryWire := KeyStoreEntry GoString Time

abbrev EntryDocument := KeyStoreEntry String Stamp

/-- `per_model,omitempty`: an empty map is left out. -/
def QuotaLimits.omitEmpty (q : QuotaLimits) : QuotaLimits :=
  { q with perModel := q.perModel.filter (· ≠ ∅) }

def entryToWire (e : DynamicKeyEntry) : EntryWire :=
  ⟨e.id, e.keyHash, e.keyPreview, e.owner, e.name, e.enabled, e.expiresAt, e.allowedModels,
    e.quota.omitEmpty⟩

def wireToEntry (w : EntryWire) : DynamicKeyEntry :=
  ⟨w.id, w.keyHash, w.keyPreview, w.owner, w.name, w.enabled, w.expiresAt, w.allowedModels,
    w.quota.omitEmpty⟩

/-- `MarshalJSON` of an expiry: a year outside 0 to 9999 is an error. -/
def marshalExpiry : Option Time → Option (Option Stamp)
  | none => some none
  | some t => if h : HasFourDigitYear t then some (some ⟨t, h⟩) else none

/-- `json.Marshal`. -/
def marshalEntry (w : EntryWire) : Option EntryDocument :=
  (marshalExpiry w.expiresAt).map fun expiresAt =>
    ⟨Utf8.toText w.id, w.keyHash, w.keyPreview, w.owner, w.name, w.enabled, expiresAt,
      w.allowedModels, w.quota⟩

/-- `json.Unmarshal`. -/
def unmarshalEntry (doc : EntryDocument) : EntryWire :=
  ⟨Utf8.ofText doc.id, doc.keyHash, doc.keyPreview, doc.owner, doc.name, doc.enabled,
    doc.expiresAt.map Subtype.val, doc.allowedModels, doc.quota⟩

/-- `keyStoreMeta`; a zero time is `none`. -/
structure KeyStoreMeta (Str : Type) where
  schema : ℕ
  gen : ℕ
  version : Str
  savedAt : Stamp
  confirmedAt : Option Stamp

def keyStoreSchema : ℕ := 3

/-- A value with its MAC. -/
structure Sealed (α : Type) where
  macKey : GoString
  payload : α

/-- The key of a record: the generation and the id, in the order of the keys. -/
abbrev RecordKey := ℕ ×ₗ GoString

def recordKey (gen : ℕ) (id : GoString) : RecordKey := toLex (gen, id)

variable {gen : ℕ} {id : GoString} {S : GoString → DynamicKeyEntry → Prop}

@[simp] theorem recordKey_inj {gen' : ℕ} {id' : GoString} :
    recordKey gen id = recordKey gen' id' ↔ gen = gen' ∧ id = id' := by
  unfold recordKey
  rw [EmbeddingLike.apply_eq_iff_eq, Prod.mk.injEq]

structure Db where
  metaRecord : Option (Sealed (KeyStoreMeta String))
  records : GoMap RecordKey (Sealed EntryDocument)

structure BadgerKeyStore where
  db : Db
  macKey : GoString
  gen : ℕ
  confirmedAt : Option Stamp

/-- `PersistedRegistry` of a usable snapshot. -/
structure PersistedRegistry where
  version : GoString
  savedAt : Stamp
  confirmedAt : Option Stamp
  keys : List PersistedKey

inductive Loaded where
  | fresh
  | unusable (reason : String)
  | snapshot (snap : PersistedRegistry)

namespace BadgerKeyStore

def setRecord (k : RecordKey) (v : Sealed EntryDocument) (b : BadgerKeyStore) : BadgerKeyStore :=
  { b with db := { b.db with records := b.db.records.insert k v } }

def eraseRecord (k : RecordKey) (b : BadgerKeyStore) : BadgerKeyStore :=
  { b with db := { b.db with records := b.db.records.erase k } }

def setMeta (m : Sealed (KeyStoreMeta String)) (b : BadgerKeyStore) : BadgerKeyStore :=
  { b with db := { b.db with metaRecord := some m } }

/-- `metaFor` and `sealMeta`. -/
def sealMeta (b : BadgerKeyStore) (gen : ℕ) (version : GoString) (savedAt : Stamp)
    (confirmedAt : Option Stamp) : Sealed (KeyStoreMeta String) :=
  ⟨b.macKey, keyStoreSchema, gen, Utf8.toText version, savedAt, confirmedAt⟩

def sealEntry (macKey : GoString) (e : DynamicKeyEntry) : Option (Sealed EntryDocument) :=
  (marshalEntry (entryToWire e)).map fun doc => ⟨macKey, doc⟩

/-- The part of `Load` that opens the record of an id. -/
def openRecord (macKey : GoString) (id : GoString) (v : Sealed EntryDocument) :
    Except RecordError DynamicKeyEntry :=
  if v.macKey ≠ macKey then .error .integrity
  else
    let w := unmarshalEntry v.payload
    if w.id ≠ id then .error (.idMismatch w.id) else .ok (wireToEntry w)

/-- The keys of the records of some generations. -/
def keysOf (b : BadgerKeyStore) (gens : ℕ → Bool) : List RecordKey :=
  b.db.records.sortedKeys.filter fun k => gens (ofLex k).1

/-! ### The programs -/

open Txn

def deleteKeys (keys : List RecordKey) : Txn BadgerKeyStore Unit := batch (keys.map eraseRecord)

/-- `deletePrefix` at the records of a generation. -/
def deletePrefix (gen : ℕ) : Txn BadgerKeyStore Unit := do
  view
  let b ← get
  deleteKeys (b.keysOf (· = gen))

/-- The batch of the records of a new generation; at an entry that cannot be encoded it is
cancelled. -/
def writeRecords (gen : ℕ) (entries : List DynamicKeyEntry) : Txn BadgerKeyStore Unit := do
  let b ← get
  let ops := entries.filterMap fun e => (sealEntry b.macKey e).map (setRecord (recordKey gen e.id))
  if entries.all fun e => (sealEntry b.macKey e).isSome then batch ops else cancel ops

def writeGenerationLocked (version : GoString) (entries : List DynamicKeyEntry) (savedAt : Stamp)
    (confirmedAt : Option Stamp) : Txn BadgerKeyStore Unit := do
  let b ← get
  let newGen := b.gen + 1
  let conf := confirmedAt.or b.confirmedAt
  deletePrefix newGen
  writeRecords newGen entries
  update (setMeta (b.sealMeta newGen version savedAt conf))
  modify fun b => { b with gen := newGen, confirmedAt := conf }
  if b.gen ≠ 0 then deletePrefix b.gen

def upsert (version : GoString) (e : DynamicKeyEntry) (savedAt : Stamp) :
    Txn BadgerKeyStore Unit := do
  let b ← get
  if b.gen = 0 then writeGenerationLocked version [e] savedAt none
  else
    match sealEntry b.macKey e with
    | none => fail
    | some v =>
      update (setMeta (b.sealMeta b.gen version savedAt b.confirmedAt) ∘
        setRecord (recordKey b.gen e.id) v)

def delete (version id : GoString) (savedAt : Stamp) : Txn BadgerKeyStore Unit := do
  let b ← get
  if b.gen = 0 then writeGenerationLocked version [] savedAt none
  else
    update (setMeta (b.sealMeta b.gen version savedAt b.confirmedAt) ∘
      eraseRecord (recordKey b.gen id))

def replaceAll (version : GoString) (entries : List DynamicKeyEntry) (savedAt : Stamp)
    (confirmedAt : Option Stamp) : Txn BadgerKeyStore Unit :=
  writeGenerationLocked version entries savedAt confirmedAt

def touch (version : GoString) (savedAt : Stamp) (confirmedAt : Option Stamp) :
    Txn BadgerKeyStore Unit := do
  let b ← get
  if b.gen = 0 then writeGenerationLocked version [] savedAt confirmedAt
  else
    let conf := confirmedAt.or b.confirmedAt
    update (setMeta (b.sealMeta b.gen version savedAt conf))
    modify fun b => { b with confirmedAt := conf }

def reset (savedAt : Stamp) : Txn BadgerKeyStore Unit := do
  let prev ← get
  modify fun b => { b with confirmedAt := none }
  onFail (writeGenerationLocked [] [] savedAt none) fun b =>
    { b with confirmedAt := prev.confirmedAt }

def deleteRecords (ids : List GoString) : Txn BadgerKeyStore Unit := do
  let b ← get
  if b.gen = 0 then return ()
  else deleteKeys (ids.map (recordKey b.gen))

/-- The records of the live generation, as `Load` returns them. -/
def liveKeys (b : BadgerKeyStore) (gen : ℕ) : List PersistedKey :=
  (b.keysOf (· = gen)).filterMap fun k =>
    (b.db.records.lookup k).map fun v => ⟨(ofLex k).2, openRecord b.macKey (ofLex k).2 v⟩

/-- `Load`; `cleanup` are the fates of the removal of orphaned generations, which may fail. -/
def load (cleanup : List Fate) : Txn BadgerKeyStore Loaded := do
  view
  let b ← get
  match b.db.metaRecord with
  | none => return .fresh
  | some m =>
    if m.macKey ≠ b.macKey then
      modify fun b => { b with gen := 0, confirmedAt := none }
      return .unusable "integrity check on the meta record failed"
    else if m.payload.schema ≠ keyStoreSchema then
      modify fun b => { b with gen := 0, confirmedAt := none }
      return .unusable
        (if m.payload.schema > keyStoreSchema then "snapshot schema is newer than this router's"
        else "snapshot schema is older than this router's")
    else
      modify fun b => { b with gen := m.payload.gen, confirmedAt := m.payload.confirmedAt }
      let _ ← attempt (under cleanup (deleteKeys (b.keysOf (· ≠ m.payload.gen))))
      return .snapshot ⟨Utf8.ofText m.payload.version, m.payload.savedAt, m.payload.confirmedAt,
        b.liveKeys m.payload.gen⟩

end BadgerKeyStore

/-! ### What can be restored -/

open BadgerKeyStore

/-- The entry as it comes back from its record. -/
def stored (e : DynamicKeyEntry) : DynamicKeyEntry := wireToEntry (entryToWire e)

/-- The entry that a load with the key of the meta record reads for an id. -/
def Db.restorable (db : Db) (id : GoString) : Option DynamicKeyEntry :=
  db.metaRecord.bind fun m =>
    (db.records.lookup (recordKey m.payload.gen id)).bind fun v =>
      (openRecord m.macKey id v).toOption

/-- Everything that can be restored is among the entries of `S`. -/
def Db.Covered (db : Db) (S : GoString → DynamicKeyEntry → Prop) : Prop :=
  ∀ id e, db.restorable id = some e → S id e

variable {e : DynamicKeyEntry} {macKey : GoString} {v : Sealed EntryDocument} {b : BadgerKeyStore}

theorem Db.restorable_eq_some_iff {db : Db} :
    db.restorable id = some e ↔ ∃ m v, db.metaRecord = some m ∧
      db.records.lookup (recordKey m.payload.gen id) = some v ∧
        openRecord m.macKey id v = .ok e := by
  unfold Db.restorable
  simp only [bind_eq_some_iff]
  refine exists_congr fun m => ?_
  constructor
  · rintro ⟨hm, v, hv, he⟩
    refine ⟨v, hm, hv, ?_⟩
    cases ho : openRecord m.macKey id v with
    | error =>
      rw [ho] at he
      cases he
    | ok =>
      rw [ho] at he
      rw [← some.inj he]
  · rintro ⟨v, hm, hv, he⟩
    exact ⟨hm, v, hv, by rw [he]; rfl⟩

theorem marshalExpiry_eq_some {t : Option Time} {t' : Option Stamp}
    (h : marshalExpiry t = some t') : t'.map Subtype.val = t := by
  cases t with
  | none =>
    cases h
    rfl
  | some =>
    unfold marshalExpiry at h
    dsimp only at h
    split_ifs at h
    cases h
    rfl

/-- What a record says, apart from the id. -/
theorem sealEntry_eq_some (h : sealEntry macKey e = some v) :
    v.macKey = macKey ∧ v.payload.id = Utf8.toText e.id ∧
      { unmarshalEntry v.payload with id := e.id } = entryToWire e := by
  obtain ⟨doc, hdoc, rfl⟩ := map_eq_some_iff.mp h
  obtain ⟨t, ht, rfl⟩ := map_eq_some_iff.mp hdoc
  refine ⟨rfl, rfl, ?_⟩
  unfold unmarshalEntry
  rw [marshalExpiry_eq_some ht]
  rfl

theorem openRecord_eq_ok (h : openRecord macKey id v = .ok e) :
    v.macKey = macKey ∧ Utf8.ofText v.payload.id = id ∧
      e = wireToEntry { unmarshalEntry v.payload with id := id } := by
  unfold openRecord at h
  dsimp only at h
  -- the record is sealed with another key, or is that of another id
  split_ifs at h with hmac hid
  cases h
  obtain rfl := not_not.mp hid
  exact ⟨not_not.mp hmac, rfl, rfl⟩

theorem openRecord_sealEntry {macKey' : GoString} {e' : DynamicKeyEntry}
    (hseal : sealEntry macKey e = some v) (hopen : openRecord macKey' e.id v = .ok e') :
    e' = stored e := by
  obtain ⟨-, -, hwire⟩ := sealEntry_eq_some hseal
  obtain ⟨-, -, rfl⟩ := openRecord_eq_ok hopen
  exact congrArg wireToEntry hwire

theorem Db.Covered.eraseRecord (h : b.db.Covered S) (k : RecordKey) :
    (b.eraseRecord k).db.Covered S := by
  intro id e he
  obtain ⟨m, v, hm, hv, ho⟩ := Db.restorable_eq_some_iff.mp he
  exact h id e (Db.restorable_eq_some_iff.mpr ⟨m, v, hm, (GoMap.lookup_erase_eq_some.mp hv).2, ho⟩)

/-- A record of an entry of `S` may be written in any generation. -/
theorem Db.Covered.setRecord (h : b.db.Covered S) (hseal : sealEntry macKey e = some v)
    (he : S e.id (stored e)) :
    (b.setRecord (recordKey gen e.id) v).db.Covered S := by
  intro id e' he'
  obtain ⟨m, v', hm, hv', ho⟩ := Db.restorable_eq_some_iff.mp he'
  -- read in the live generation, the record is the new one or was there before
  obtain ⟨hk, rfl⟩ | ⟨-, hv'⟩ := GoMap.lookup_insert_eq_some.mp hv'
  · obtain ⟨-, rfl⟩ := recordKey_inj.mp hk
    rw [openRecord_sealEntry hseal ho]
    exact he
  · exact h id e' (Db.restorable_eq_some_iff.mpr ⟨m, v', hm, hv', ho⟩)

/-! ### Removing and writing records -/

section Programs

open Txn

variable {A : Fate → Prop} {entries : List DynamicKeyEntry} {k : RecordKey}

theorem lookup_applyAll_eraseRecord (keys : List RecordKey) (k : RecordKey) (b : BadgerKeyStore) :
    (applyAll (keys.map eraseRecord) b).db.records.lookup k =
      if k ∈ keys then none else b.db.records.lookup k := by
  -- by induction on the removals, from any store
  induction keys generalizing b with
  | nil => rfl
  | cons k' keys ih =>
    refine (ih (b.eraseRecord k')).trans ?_
    change (if k ∈ keys then none else (b.db.records.erase k').lookup k) = _
    by_cases hk : k = k'
    · subst hk
      rw [lookup_erase, if_pos mem_cons_self]
      split_ifs <;> rfl
    · rw [lookup_erase_ne hk]
      simp only [mem_cons, hk, false_or]

theorem mem_keysOf {gens : ℕ → Bool} :
    k ∈ b.keysOf gens ↔ (b.db.records.lookup k).isSome ∧ gens (ofLex k).1 = true := by
  unfold keysOf
  rw [mem_filter, GoMap.mem_sortedKeys, lookup_isSome]

variable {I : BadgerKeyStore → Prop}

/-- Any property that the removal of records keeps is kept, whether or not all of them go. -/
theorem wp_deleteKeys {keys : List RecordKey}
    (herase : ∀ k ∈ keys, ∀ b, I b → I (b.eraseRecord k)) (hI : I b) :
    wp A (deleteKeys keys)
      ⟨fun _ b' => I b' ∧ b' = applyAll (keys.map eraseRecord) b,
        fun b' => I b' ∧ CanFail A, fun b' => I b' ∧ CanCrash A⟩ b := by
  have hops : ∀ op ∈ keys.map eraseRecord, ∀ b, I b → I (op b) := by
    intro op hop
    obtain ⟨k, hk, rfl⟩ := mem_map.mp hop
    exact herase k hk
  exact wp_batch ⟨applyAll_preserves hops hI, rfl⟩
    (fun hfail l => ⟨applyOnly_preserves hops l hI, hfail⟩)
    fun hcrash l => ⟨applyOnly_preserves hops l hI, hcrash⟩

theorem wp_deletePrefix (herase : ∀ k, (ofLex k).1 = gen → ∀ b, I b → I (b.eraseRecord k))
    (hI : I b) :
    wp A (deletePrefix gen)
      ⟨fun _ b' => I b' ∧ ∀ id, b'.db.records.lookup (recordKey gen id) = none,
        fun b' => I b' ∧ CanFail A, fun b' => I b' ∧ CanCrash A⟩ b := by
  refine wp_bind (wp_view (wp_bind (wp_get ?_)) (fun hfail => ⟨hI, hfail⟩)
    fun hcrash => ⟨hI, hcrash⟩)
  have hgen : ∀ k ∈ b.keysOf (· = gen), (ofLex k).1 = gen := fun k hk =>
    of_decide_eq_true (mem_keysOf.mp hk).2
  refine wp_mono (wp_deleteKeys (fun k hk => herase k (hgen k hk)) hI) ?_ (fun _ h => h)
    fun _ h => h
  rintro _ b' ⟨hI', rfl⟩
  refine ⟨hI', fun id => ?_⟩
  rw [lookup_applyAll_eraseRecord]
  split_ifs with hmem
  · rfl
  · -- a key that was not removed was not there
    rw [mem_keysOf, not_and_or, Bool.not_eq_true, isSome_eq_false_iff, isNone_iff_eq_none] at hmem
    exact hmem.resolve_right fun hne => hne (decide_eq_true rfl)

theorem lookup_applyAll_setRecord {macKey : GoString} (hids : (entries.map (·.id)).Nodup)
    (hempty : ∀ id, b.db.records.lookup (recordKey gen id) = none) (id : GoString)
    (v : Sealed EntryDocument) :
    (applyAll (entries.filterMap fun e => (sealEntry macKey e).map
        (setRecord (recordKey gen e.id))) b).db.records.lookup
        (recordKey gen id) = some v ↔
      ∃ e ∈ entries, e.id = id ∧ sealEntry macKey e = some v := by
  -- the records are written from the left, so the induction is on the list read from its end
  induction entries using reverseRecOn with
  | nil =>
    change b.db.records.lookup (recordKey gen id) = some v ↔ _
    rw [hempty id]
    exact iff_of_false nofun (fun ⟨_, he, _⟩ => absurd he not_mem_nil)
  | append_singleton entries e ih =>
    rw [map_append, map_singleton, nodup_append] at hids
    have hne : ∀ e' ∈ entries, e'.id ≠ e.id := fun e' he' =>
      hids.2.2 _ (mem_map_of_mem he') _ (mem_singleton_self _)
    have ih := ih hids.1
    rw [filterMap_append]
    simp only [mem_append, List.mem_singleton, or_and_right, exists_or, exists_eq_left]
    rw [← ih]
    cases hseal : sealEntry macKey e with
    | none => simp [hseal]
    | some w =>
      simp only [filterMap_cons, hseal, map_some, filterMap_nil]
      unfold applyAll at ih ⊢
      rw [foldl_concat]
      change ((Txn.applyAll _ b).db.records.insert (recordKey gen e.id) w).lookup
        (recordKey gen id) = some v ↔ _
      by_cases hid : id = e.id
      · subst hid
        rw [lookup_insert]
        -- no earlier entry has the id, and so its record is this one
        have hnone : ¬∃ e' ∈ entries, e'.id = e.id ∧ sealEntry macKey e' = some v := by
          rintro ⟨e', he', hid', -⟩
          exact hne e' he' hid'
        rw [ih]
        simp only [hnone, false_or, true_and]
      · have hk : recordKey gen id ≠ recordKey gen e.id := fun h => hid (recordKey_inj.mp h).2
        rw [lookup_insert_of_ne _ hk]
        simp only [Ne.symm hid, false_and, or_false]
        rfl

/-! ### Writing a generation -/

/-- The entries may be restored under `S`. -/
def Allowed (entries : List DynamicKeyEntry) (S : GoString → DynamicKeyEntry → Prop) : Prop :=
  ∀ e ∈ entries, S e.id (stored e)

/-- The records of a generation are those of the entries. -/
def Generation (b : BadgerKeyStore) (gen : ℕ) (entries : List DynamicKeyEntry) : Prop :=
  ∀ id v, b.db.records.lookup (recordKey gen id) = some v ↔
    ∃ e ∈ entries, e.id = id ∧ sealEntry b.macKey e = some v

/-- The store in memory agrees with the meta record. -/
def Synced (b : BadgerKeyStore) : Prop :=
  b.gen = 0 ∧ b.db.metaRecord = none ∨
    ∃ m, b.db.metaRecord = some m ∧ m.macKey = b.macKey ∧ m.payload.schema = keyStoreSchema ∧
      m.payload.gen = b.gen ∧ b.gen ≠ 0

/-- Before the meta record is flipped: only records have changed, and nothing new can be
restored except entries. -/
structure Preparing (entries : List DynamicKeyEntry) (b b' : BadgerKeyStore) : Prop where
  macKey : b'.macKey = b.macKey
  gen : b'.gen = b.gen
  confirmedAt : b'.confirmedAt = b.confirmedAt
  metaRecord : b'.db.metaRecord = b.db.metaRecord
  covered : ∀ S, Allowed entries S → b.db.Covered S → b'.db.Covered S

/-- After the flip: the meta record points at a generation that holds the entries. -/
structure Flipped (m : Sealed (KeyStoreMeta String)) (entries : List DynamicKeyEntry)
    (b' : BadgerKeyStore) : Prop where
  macKey : b'.macKey = m.macKey
  metaRecord : b'.db.metaRecord = some m
  generation : Generation b' m.payload.gen entries

theorem Preparing.refl (entries : List DynamicKeyEntry) (b : BadgerKeyStore) :
    Preparing entries b b :=
  ⟨rfl, rfl, rfl, rfl, fun _ _ h => h⟩

variable {b' : BadgerKeyStore} {m : Sealed (KeyStoreMeta String)}

theorem Preparing.eraseRecord (h : Preparing entries b b') (k : RecordKey) :
    Preparing entries b (b'.eraseRecord k) :=
  ⟨h.macKey, h.gen, h.confirmedAt, h.metaRecord, fun S hS hb => (h.covered S hS hb).eraseRecord k⟩

theorem Preparing.setRecord (h : Preparing entries b b') {e : DynamicKeyEntry} (he : e ∈ entries)
    {v : Sealed EntryDocument} (hv : sealEntry b.macKey e = some v) :
    Preparing entries b (b'.setRecord (recordKey gen e.id) v) :=
  ⟨h.macKey, h.gen, h.confirmedAt, h.metaRecord,
    fun S hS hb => (h.covered S hS hb).setRecord hv (hS e he)⟩

theorem Flipped.covered (h : Flipped m entries b') {S : GoString → DynamicKeyEntry → Prop}
    (hS : Allowed entries S) : b'.db.Covered S := by
  intro id e he
  obtain ⟨m', v, hm', hv, ho⟩ := Db.restorable_eq_some_iff.mp he
  rw [h.metaRecord] at hm'
  obtain rfl := some.inj hm'
  -- the live generation holds the entries and nothing else
  obtain ⟨e', he', rfl, hseal⟩ := (h.generation id v).mp hv
  rw [openRecord_sealEntry hseal ho]
  exact hS e' he'

/-- The records of another generation may go. -/
theorem Flipped.eraseRecord (h : Flipped m entries b') (hk : (ofLex k).1 ≠ m.payload.gen) :
    Flipped m entries (b'.eraseRecord k) := by
  refine ⟨h.macKey, h.metaRecord, fun id v => ?_⟩
  change (b'.db.records.erase k).lookup (recordKey m.payload.gen id) = some v ↔ _
  have hne : recordKey m.payload.gen id ≠ k := by
    rintro rfl
    exact hk rfl
  rw [lookup_erase_ne hne]
  exact h.generation id v

/-- Some entry cannot be encoded. -/
def Unencodable (macKey : GoString) (entries : List DynamicKeyEntry) : Prop :=
  ∃ e ∈ entries, sealEntry macKey e = none

/-- The batch of the records of a generation that is empty before. -/
theorem wp_writeRecords {b₀ : BadgerKeyStore} (hids : (entries.map (·.id)).Nodup)
    (hb : Preparing entries b₀ b) (hempty : ∀ id, b.db.records.lookup (recordKey gen id) = none) :
    wp A (writeRecords gen entries)
      ⟨fun _ b' => (Preparing entries b₀ b' ∧ Generation b' gen entries) ∧
          ∀ e ∈ entries, (sealEntry b₀.macKey e).isSome,
        fun b' => Preparing entries b₀ b' ∧ (CanFail A ∨ Unencodable b₀.macKey entries),
        fun b' => Preparing entries b₀ b' ∧ CanCrash A⟩ b := by
  refine wp_bind (wp_get ?_)
  dsimp only
  rw [hb.macKey]
  -- whichever of the writes reach the disk, only records of the entries are added
  have hops : ∀ op ∈ entries.filterMap fun e =>
      (sealEntry b₀.macKey e).map (setRecord (recordKey gen e.id)),
      ∀ b', Preparing entries b₀ b' → Preparing entries b₀ (op b') := by
    intro op hop b' hb'
    obtain ⟨e, he, hop⟩ := mem_filterMap.mp hop
    obtain ⟨v, hv, rfl⟩ := map_eq_some_iff.mp hop
    exact hb'.setRecord he hv
  split_ifs with hall
  · have hdone := applyAll_preserves hops hb
    refine wp_batch ⟨⟨hdone, fun id v => ?_⟩, by simpa using hall⟩
      (fun hfail l => ⟨applyOnly_preserves hops l hb, .inl hfail⟩)
      fun hcrash l => ⟨applyOnly_preserves hops l hb, hcrash⟩
    rw [hdone.macKey]
    exact lookup_applyAll_setRecord hids hempty id v
  · -- an entry that cannot be encoded cancels the batch
    have hbad : Unencodable b₀.macKey entries := by
      rw [List.all_eq_true] at hall
      push Not at hall
      obtain ⟨e, he, hnone⟩ := hall
      exact ⟨e, he, not_isSome_iff_eq_none.mp hnone⟩
    exact wp_cancel ⟨hb, .inr hbad⟩ (fun l => ⟨applyOnly_preserves hops l hb, .inr hbad⟩)
      fun hcrash l => ⟨applyOnly_preserves hops l hb, hcrash⟩

/-- The meta record points at a generation that can be written: they count from 1. -/
def Db.Sane (db : Db) : Prop := ∀ m ∈ db.metaRecord, m.payload.gen ≠ 0

/-- What a crash leaves: nothing can be restored but what could before, and the entries. -/
structure Survives (entries : List DynamicKeyEntry) (db db' : Db) : Prop where
  sane : db.Sane → db'.Sane
  covered : ∀ S, Allowed entries S → db.Covered S → db'.Covered S

/-- What a failure leaves: the store still agrees with the meta record. -/
structure Interrupted (entries : List DynamicKeyEntry) (b b' : BadgerKeyStore) : Prop extends
    Survives entries b.db b'.db where
  macKey : b'.macKey = b.macKey
  synced : Synced b → Synced b'

theorem Survives.refl (entries : List DynamicKeyEntry) (db : Db) : Survives entries db db :=
  ⟨fun h => h, fun _ _ h => h⟩

theorem Preparing.interrupted (h : Preparing entries b b') : Interrupted entries b b' := by
  refine ⟨⟨fun hsane => ?_, h.covered⟩, h.macKey, fun hsynced => ?_⟩
  · unfold Db.Sane
    rwa [h.metaRecord]
  · unfold Synced
    rwa [h.gen, h.metaRecord, h.macKey]

theorem Flipped.survives (h : Flipped m entries b') (hgen : m.payload.gen ≠ 0) (db : Db) :
    Survives entries db b'.db := by
  refine ⟨fun _ m' hm' => ?_, fun S hS _ => h.covered hS⟩
  rw [h.metaRecord] at hm'
  rwa [← some.inj hm']

theorem Synced.sane (h : Synced b) : b.db.Sane := by
  intro m hm
  rcases h with ⟨-, hnone⟩ | ⟨m', hm', -, -, hgen, hne⟩
  · rw [hnone] at hm
    cases hm
  · rw [hm'] at hm
    rwa [← some.inj hm, hgen]

/-- **Writing a generation.** If it returns, the new generation is live and holds the
entries. -/
theorem wp_writeGeneration {version : GoString} {savedAt : Stamp} {confirmedAt : Option Stamp}
    (hids : (entries.map (·.id)).Nodup) :
    wp A (writeGenerationLocked version entries savedAt confirmedAt)
      ⟨fun _ b' =>
          (Flipped (b.sealMeta (b.gen + 1) version savedAt (confirmedAt.or b.confirmedAt)) entries
              b' ∧
            b'.gen = b.gen + 1 ∧ b'.confirmedAt = confirmedAt.or b.confirmedAt) ∧
          ∀ e ∈ entries, (sealEntry b.macKey e).isSome,
        fun b' => Interrupted entries b b' ∧ (CanFail A ∨ Unencodable b.macKey entries),
        fun b' => Survives entries b.db b'.db ∧ CanCrash A⟩ b := by
  refine wp_bind (wp_get (wp_bind ?_))
  -- leftovers of an interrupted write are removed first, then the records are written
  refine wp_mono (wp_deletePrefix (I := Preparing entries b) (fun k _ _ h => h.eraseRecord k)
    (.refl entries b)) ?_ (fun b' h => ⟨h.1.interrupted, .inl h.2⟩)
    fun b' h => ⟨h.1.interrupted.toSurvives, h.2⟩
  rintro _ b₁ ⟨hb₁, hempty⟩
  refine wp_bind (wp_mono (wp_writeRecords hids hb₁ hempty) ?_
    (fun b' h => ⟨h.1.interrupted, h.2⟩) fun b' h => ⟨h.1.interrupted.toSurvives, h.2⟩)
  rintro _ b₂ ⟨⟨hb₂, hgeneration⟩, hall⟩
  set m := b.sealMeta (b.gen + 1) version savedAt (confirmedAt.or b.confirmedAt) with hm
  have hflipped : Flipped m entries (b₂.setMeta m) := ⟨hb₂.macKey, rfl, hgeneration⟩
  refine wp_bind (wp_update (wp_bind (wp_modify ?_)) (fun hfail => ⟨hb₂.interrupted, .inl hfail⟩)
    fun hcrash => ⟨⟨hb₂.interrupted.toSurvives, hcrash⟩,
      hflipped.survives (Nat.succ_ne_zero b.gen) b.db, hcrash⟩)
  -- from here on the meta record points at the new generation
  have hnew : Flipped m entries { b₂.setMeta m with
      gen := b.gen + 1, confirmedAt := confirmedAt.or b.confirmedAt } :=
    ⟨hflipped.macKey, rfl, hflipped.generation⟩
  have hold : ∀ k, (ofLex k).1 = b.gen → ∀ b',
      (Flipped m entries b' ∧ b'.gen = b.gen + 1 ∧ b'.confirmedAt = confirmedAt.or b.confirmedAt) →
      (Flipped m entries (b'.eraseRecord k) ∧ (b'.eraseRecord k).gen = b.gen + 1 ∧
        (b'.eraseRecord k).confirmedAt = confirmedAt.or b.confirmedAt) := by
    rintro k hk b' ⟨h, hgen, hconf⟩
    refine ⟨h.eraseRecord ?_, hgen, hconf⟩
    rw [hk]
    exact Nat.ne_of_lt (Nat.lt_succ_self b.gen)
  -- the old generation goes last; if that fails the flip stands
  split_ifs with hgen
  · refine wp_mono (wp_deletePrefix hold ⟨hnew, rfl, rfl⟩) (fun _ b' h => ⟨h.1, hall⟩) ?_
      fun b' h => ⟨h.1.1.survives (Nat.succ_ne_zero b.gen) b.db, h.2⟩
    rintro b' ⟨⟨h, hgen', -⟩, hfail⟩
    refine ⟨⟨h.survives (Nat.succ_ne_zero b.gen) b.db, h.macKey,
      fun _ => .inr ⟨m, h.metaRecord, h.macKey.symm, rfl, hgen'.symm, ?_⟩⟩, .inl hfail⟩
    rw [hgen']
    exact Nat.succ_ne_zero b.gen
  · exact wp_pure ⟨⟨hnew, rfl, rfl⟩, hall⟩

end Programs

end HivenetRouter.Auth
