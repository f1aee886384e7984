import HivenetRouter.Auth.KeyEntry

/-!
# The key registry in memory

The two indexes of `DynamicKeyProvider`, by hash and by id, its version, and the changes that
`Upsert`, `Delete`, `ReplaceAll` and `LoadKeyStore` make to them; what they write to the store
is in `Auth.Provider`.

The indexes are **inverse**: an entry is in one exactly when it is in the other, each time
under its own key. Each change keeps them so: `Inverse.store`, `Inverse.remove`,
`inverse_ofEntries` and, for the loop of `LoadKeyStore`, `restored_restore`.
-/

namespace HivenetRouter.Auth

open Finmap List Option GoMap

/-- `byHash` and `byID`. Both indexes hold pointers to one entry; the entry is never changed in
place, so that a pointer stands for its value. -/
structure Indexes where
  byHash : GoMap String DynamicKeyEntry
  byID : GoMap GoString DynamicKeyEntry

structure Indexes.Inverse (x : Indexes) : Prop where
  ofID : ∀ id e, x.byID.lookup id = some e → e.id = id ∧ x.byHash.lookup e.keyHash = some e
  ofHash : ∀ h e, x.byHash.lookup h = some e → e.keyHash = h ∧ x.byID.lookup e.id = some e

namespace Indexes

def empty : Indexes := ⟨∅, ∅⟩

/-- The entry replaces the one with its id; a hash that this one had is dropped. -/
def store (x : Indexes) (e : DynamicKeyEntry) : Indexes where
  byHash :=
    (match x.byID.lookup e.id with
      | some old => if old.keyHash ≠ e.keyHash then x.byHash.erase old.keyHash else x.byHash
      | none => x.byHash).insert e.keyHash e
  byID := x.byID.insert e.id e

/-- The entry of an id is removed, from `byHash` only if it is the one found there. -/
def remove (x : Indexes) (id : GoString) : Indexes :=
  match x.byID.lookup id with
  | some entry =>
    ⟨if x.byHash.lookup entry.keyHash = some entry then x.byHash.erase entry.keyHash else x.byHash,
      x.byID.erase id⟩
  | none => x

def ofEntries (entries : List DynamicKeyEntry) : Indexes :=
  ⟨GoMap.indexBy (·.keyHash) entries, indexBy (·.id) entries⟩

end Indexes

/-- The registry: the indexes and the version of the last change. -/
structure Registry extends Indexes where
  version : GoString

/-- `NewDynamicKeyProvider`. -/
def Registry.new : Registry := ⟨.empty, []⟩

inductive RegistryError where
  | invalid (err : KeyEntryError)
  /-- "key[%d]: %w". -/
  | invalidAt (i : ℕ) (err : KeyEntryError)
  /-- `ErrStaleVersion`. -/
  | staleVersion
  /-- "key_hash already registered to id %q". -/
  | hashTaken (owner id : GoString)
  /-- "delete: keyID must not be empty". -/
  | emptyKeyID
  /-- "key[%d]: duplicate ID %q (first seen at index %d)". -/
  | duplicateID (i : ℕ) (id : GoString) (first : ℕ)
  /-- "key[%d]: duplicate key_hash (first seen at index %d)". -/
  | duplicateHash (i first : ℕ)

/-- The check of a version against the current one. -/
def Registry.checkVersion (r : Registry) (version : GoString) : Except RegistryError Unit :=
  if version < r.version then .error .staleVersion else .ok ()

/-- `Upsert`, for an entry that has been validated. -/
def Registry.upsert (r : Registry) (version : GoString) (e : DynamicKeyEntry) :
    Except RegistryError Registry := do
  r.checkVersion version
  match r.byHash.lookup e.keyHash with
  | some existing =>
    if existing.id ≠ e.id then .error (.hashTaken existing.id e.id)
    else .ok ⟨r.store e, version⟩
  | none => .ok ⟨r.store e, version⟩

def Registry.delete (r : Registry) (version : GoString) (keyID : GoString) :
    Except RegistryError Registry := do
  if keyID = [] then throw .emptyKeyID
  r.checkVersion version
  return ⟨r.remove keyID, version⟩

/-- The loop of `checkDuplicates` at index `i`. -/
def checkDuplicatesFrom (i : ℕ) (seenIDs : GoMap GoString ℕ) (seenHashes : GoMap String ℕ) :
    List DynamicKeyEntry → Except RegistryError Unit
  | [] => .ok ()
  | e :: entries =>
    match seenIDs.lookup e.id with
    | some j => .error (.duplicateID i e.id j)
    | none =>
      match seenHashes.lookup e.keyHash with
      | some j => .error (.duplicateHash i j)
      | none =>
        checkDuplicatesFrom (i + 1) (seenIDs.insert e.id i) (seenHashes.insert e.keyHash i) entries

def checkDuplicates (entries : List DynamicKeyEntry) : Except RegistryError Unit :=
  checkDuplicatesFrom 0 ∅ ∅ entries

/-- The first loop of `ReplaceAll`, from index `i`. -/
def validateFrom (i : ℕ) : List DynamicKeyEntry → Except RegistryError (List DynamicKeyEntry)
  | [] => .ok []
  | e :: entries =>
    match normalizeAndValidateKeyEntry e with
    | .error err => .error (.invalidAt i err)
    | .ok e' => (validateFrom (i + 1) entries).map (e' :: ·)

def Registry.replaceAll (r : Registry) (version : GoString) (entries : List DynamicKeyEntry) :
    Except RegistryError Registry := do
  let entries ← validateFrom 0 entries
  checkDuplicates entries
  r.checkVersion version
  return ⟨.ofEntries entries, version⟩

/-- `Authenticate`, by the hash of the token, with the checks of `resultFor`. -/
def Registry.authenticate (r : Registry) (now : Time) (hash : String) : Option DynamicKeyEntry :=
  (r.byHash.lookup hash).filter fun e => e.enabled && !e.expired now

/-- `AuthenticateKeyID`, with the same checks. -/
def Registry.authenticateKeyID (r : Registry) (now : Time) (keyID : GoString) :
    Option DynamicKeyEntry :=
  (r.byID.lookup keyID).filter fun e => e.enabled && !e.expired now

/-- The copy that `Snapshot` makes of an entry: an empty slice becomes `nil`. -/
def snapshotCopy (e : DynamicKeyEntry) : DynamicKeyEntry :=
  { e with allowedModels := e.allowedModels.filter (· ≠ []) }

def Registry.snapshot (r : Registry) : List DynamicKeyEntry :=
  r.byID.sortedKeys.filterMap fun id => (r.byID.lookup id).map snapshotCopy

/-! ### The loop of `LoadKeyStore` -/

/-- Why a persisted record cannot be used. -/
inductive RecordError where
  /-- "integrity check failed". -/
  | integrity
  /-- "record id %q does not match its key". -/
  | idMismatch (id : GoString)

structure PersistedKey where
  id : GoString
  entry : Except RecordError DynamicKeyEntry

/-- `KeyStoreLoadOptions`; without a maximum age there is no check of it. -/
structure KeyStoreLoadOptions where
  maxAge : Option ℕ
  admits : DynamicKeyEntry → Bool

inductive SkipReason where
  | record (err : RecordError)
  | invalid (err : KeyEntryError)
  | expired
  | admission
  /-- "duplicate key_hash (already restored for id %q)". -/
  | duplicateHash (id : GoString)

def PersistedKey.check (opts : KeyStoreLoadOptions) (now : Time) (pk : PersistedKey) :
    Except SkipReason DynamicKeyEntry :=
  match pk.entry with
  | .error err => .error (.record err)
  | .ok e =>
    match normalizeAndValidateKeyEntry e with
    | .error err => .error (.invalid err)
    | .ok e =>
      if e.expired now then .error .expired
      else if !opts.admits e then .error .admission
      else .ok e

/-- The new indexes so far, and the records that were skipped. -/
structure Restoring where
  indexes : Indexes
  skipped : List (GoString × SkipReason)

/-- One turn of the loop. -/
def Restoring.next (opts : KeyStoreLoadOptions) (now : Time) (st : Restoring) (pk : PersistedKey) :
    Restoring :=
  match pk.check opts now with
  | .error reason => { st with skipped := st.skipped ++ [(pk.id, reason)] }
  | .ok e =>
    match st.indexes.byHash.lookup e.keyHash with
    | some other => { st with skipped := st.skipped ++ [(pk.id, .duplicateHash other.id)] }
    | none =>
      { st with
        indexes := ⟨st.indexes.byHash.insert e.keyHash e, st.indexes.byID.insert e.id e⟩ }

/-- The indexes that a list of records gives, and the records skipped. -/
def restore (opts : KeyStoreLoadOptions) (now : Time) (keys : List PersistedKey) : Restoring :=
  keys.foldl (Restoring.next opts now) ⟨.empty, []⟩

/-! ### The indexes stay inverse -/

theorem Indexes.Inverse.empty : Indexes.empty.Inverse := by
  constructor
  · intro id e h
    cases h
  · intro h e he
    cases he

variable {x : Indexes} {e y : DynamicKeyEntry} {entries : List DynamicKeyEntry} {version : GoString}
  {opts : KeyStoreLoadOptions}

variable {id id' : GoString} {e' : DynamicKeyEntry} {h : String} {r r' : Registry} {i : ℕ}
  {entries' : List DynamicKeyEntry} {now : Time} {pk : PersistedKey} {keys : List PersistedKey}

theorem Indexes.Inverse.eq_of_hash (h : x.Inverse) (he : x.byID.lookup id = some e)
    (he' : x.byID.lookup id' = some e') (hhash : e.keyHash = e'.keyHash) : id = id' := by
  obtain ⟨rfl, hlookup⟩ := h.ofID id e he
  obtain ⟨rfl, hlookup'⟩ := h.ofID id' e' he'
  rw [hhash, hlookup'] at hlookup
  rw [some.inj hlookup]

theorem Indexes.Inverse.id_of_hash (h : x.Inverse) (he : x.byID.lookup id = some e)
    (hy : x.byHash.lookup e.keyHash = some y) : y.id = id := by
  obtain ⟨hid, hlookup⟩ := h.ofID id e he
  rw [mem_unique hy hlookup]
  exact hid

/-- After an entry is stored: it under its hash, and under every other hash the entry found
there before, unless it had the same id. -/
theorem Indexes.Inverse.lookup_store (hx : x.Inverse) : (x.store e).byHash.lookup h = some y ↔
      h = e.keyHash ∧ y = e ∨ h ≠ e.keyHash ∧ x.byHash.lookup h = some y ∧ y.id ≠ e.id := by
  unfold Indexes.store
  by_cases hh : h = e.keyHash
  · subst hh
    simp [eq_comm]
  · rw [lookup_insert_of_ne _ hh]
    simp only [hh, false_and, ne_eq, not_false_eq_true, true_and, false_or]
    -- an entry with the same id is the old one, and so it is found under the old hash
    have hsame : x.byHash.lookup h = some y → y.id = e.id → x.byID.lookup e.id = some y :=
      fun hy hid => hid ▸ (hx.ofHash h y hy).2
    cases hold : x.byID.lookup e.id with
    | none =>
      refine ⟨fun hy => ⟨hy, fun hid => ?_⟩, And.left⟩
      rw [hsame hy hid] at hold
      cases hold
    | some old =>
      obtain ⟨holdid, holdhash⟩ := hx.ofID e.id old hold
      have hy_iff : x.byHash.lookup h = some y → (y.id = e.id ↔ h = old.keyHash) := by
        intro hy
        constructor
        · intro hid
          have heq := hsame hy hid
          rw [hold] at heq
          rw [some.inj heq, (hx.ofHash h y hy).1]
        · rintro rfl
          rw [holdhash] at hy
          rw [← some.inj hy, holdid]
      dsimp only
      -- the old hash is removed from the index, unless it is the hash of the new entry too
      split_ifs with hkept
      · refine ⟨fun hy => ⟨hy, fun hid => hh ?_⟩, And.left⟩
        rw [(hy_iff hy).mp hid, hkept]
      · by_cases hh' : h = old.keyHash
        · subst hh'
          rw [lookup_erase]
          refine iff_of_false nofun ?_
          rintro ⟨hy, hid⟩
          exact hid ((hy_iff hy).mpr rfl)
        · rw [lookup_erase_ne hh']
          exact ⟨fun hy => ⟨hy, fun hid => hh' ((hy_iff hy).mp hid)⟩, And.left⟩

theorem Indexes.Inverse.store (hx : x.Inverse)
    (hfree : ∀ y, x.byHash.lookup e.keyHash = some y → y.id = e.id) : (x.store e).Inverse := by
  constructor
  · intro id y hy
    obtain ⟨rfl, rfl⟩ | ⟨hid, hy⟩ := lookup_insert_eq_some.mp hy
    · exact ⟨rfl, hx.lookup_store.mpr (.inl ⟨rfl, rfl⟩)⟩
    · obtain ⟨rfl, hhash⟩ := hx.ofID id y hy
      -- another id has another hash, since the new hash was free
      refine ⟨rfl, hx.lookup_store.mpr (.inr ⟨fun heq => hid ?_, hhash, hid⟩)⟩
      rw [heq] at hhash
      exact hfree y hhash
  · intro h y hy
    change y.keyHash = h ∧ (x.byID.insert e.id e).lookup y.id = some y
    rcases hx.lookup_store.mp hy with ⟨rfl, rfl⟩ | ⟨-, hhash, hid⟩
    · exact ⟨rfl, lookup_insert _⟩
    · rw [lookup_insert_of_ne _ hid]
      exact hx.ofHash h y hhash

theorem Indexes.Inverse.lookup_remove (hx : x.Inverse) :
    (x.remove id).byHash.lookup h = some y ↔ x.byHash.lookup h = some y ∧ y.id ≠ id := by
  unfold Indexes.remove
  cases hentry : x.byID.lookup id with
  | none =>
    refine ⟨fun hy => ⟨hy, ?_⟩, And.left⟩
    rintro rfl
    rw [(hx.ofHash h y hy).2] at hentry
    cases hentry
  | some entry =>
    obtain ⟨rfl, hhash⟩ := hx.ofID id entry hentry
    dsimp only
    -- the hash is that of the entry itself, and so it is removed with it
    rw [if_pos hhash]
    by_cases hh : h = entry.keyHash
    · subst hh
      rw [lookup_erase, hhash]
      refine iff_of_false nofun ?_
      rintro ⟨heq, hne⟩
      exact hne (congrArg (·.id) (some.inj heq)).symm
    · rw [lookup_erase_ne hh]
      refine ⟨fun hy => ⟨hy, fun hid => hh ?_⟩, And.left⟩
      obtain ⟨rfl, hlookup⟩ := hx.ofHash h y hy
      rw [hid, hentry] at hlookup
      rw [some.inj hlookup]

theorem Indexes.lookup_remove_byID :
    (x.remove id).byID.lookup id' = some y ↔ x.byID.lookup id' = some y ∧ id' ≠ id := by
  unfold Indexes.remove
  by_cases hid : id' = id
  · subst hid
    cases hentry : x.byID.lookup id' with
    | none => simp [hentry]
    | some => simp [lookup_erase]
  · cases hentry : x.byID.lookup id with
    | none => simp [hid]
    | some => simp [lookup_erase_ne hid, hid]

theorem Indexes.Inverse.remove (hx : x.Inverse) (id : GoString) : (x.remove id).Inverse := by
  constructor
  · intro id' y hy
    obtain ⟨hy, hid⟩ := lookup_remove_byID.mp hy
    obtain ⟨rfl, hhash⟩ := hx.ofID id' y hy
    exact ⟨rfl, hx.lookup_remove.mpr ⟨hhash, hid⟩⟩
  · intro h y hy
    obtain ⟨hy, hid⟩ := hx.lookup_remove.mp hy
    obtain ⟨rfl, hlookup⟩ := hx.ofHash h y hy
    exact ⟨rfl, lookup_remove_byID.mpr ⟨hlookup, hid⟩⟩

theorem Indexes.inverse_ofEntries (hids : (entries.map (·.id)).Nodup)
    (hhashes : (entries.map (·.keyHash)).Nodup) :
    (Indexes.ofEntries entries).Inverse := by
  constructor
  · intro id e he
    obtain ⟨hmem, rfl⟩ := (lookup_indexBy_eq_some_iff hids).mp he
    exact ⟨rfl, (lookup_indexBy_eq_some_iff hhashes).mpr ⟨hmem, rfl⟩⟩
  · intro h e he
    obtain ⟨hmem, rfl⟩ := (lookup_indexBy_eq_some_iff hhashes).mp he
    exact ⟨rfl, (lookup_indexBy_eq_some_iff hids).mpr ⟨hmem, rfl⟩⟩

/-! ### What an accepted call does -/

theorem checkVersion_eq_ok_iff {u : Unit} :
    r.checkVersion version = .ok u ↔ r.version ≤ version := by
  unfold Registry.checkVersion
  split_ifs with h
  · exact iff_of_false nofun (not_le.mpr h)
  · exact iff_of_true rfl (not_lt.mp h)

theorem upsert_eq_ok (h : r.upsert version e = .ok r') :
    r.version ≤ version ∧ r' = ⟨r.store e, version⟩ ∧
      ∀ existing, r.byHash.lookup e.keyHash = some existing → existing.id = e.id := by
  obtain ⟨_, hversion, h⟩ := bind_eq_ok.mp h
  refine ⟨checkVersion_eq_ok_iff.mp hversion, ?_⟩
  split at h
  · next existing hexisting =>
    split_ifs at h with hid
    cases h
    refine ⟨rfl, fun existing' hexisting' => ?_⟩
    rw [hexisting] at hexisting'
    rw [← some.inj hexisting', not_not.mp hid]
  · next hnone =>
    cases h
    refine ⟨rfl, fun existing hexisting => ?_⟩
    rw [hnone] at hexisting
    cases hexisting

theorem delete_eq_ok {keyID : GoString} (h : r.delete version keyID = .ok r') :
    r.version ≤ version ∧ r' = ⟨r.remove keyID, version⟩ := by
  unfold Registry.delete at h
  split_ifs at h
  · cases h
  · obtain ⟨_, hversion, h⟩ := bind_eq_ok.mp h
    cases h
    exact ⟨checkVersion_eq_ok_iff.mp hversion, rfl⟩

/-- An element whose key has not been seen, before elements whose keys have not been seen after
it. -/
theorem nodup_map_cons_of_seen {α κ : Type} [DecidableEq κ] {key : α → κ} {seen : GoMap κ ℕ}
    {a : α} {as : List α} (ha : seen.lookup (key a) = none) (hnodup : (as.map key).Nodup)
    (hnew : ∀ x ∈ as, (seen.insert (key a) i).lookup (key x) = none) :
    ((a :: as).map key).Nodup ∧ ∀ x ∈ a :: as, seen.lookup (key x) = none := by
  have hne : ∀ x ∈ as, key x ≠ key a := by
    intro x hx heq
    have hnone := hnew x hx
    rw [heq, lookup_insert] at hnone
    cases hnone
  constructor
  · rw [map_cons, nodup_cons]
    refine ⟨fun hmem => ?_, hnodup⟩
    obtain ⟨x, hx, heq⟩ := mem_map.mp hmem
    exact hne x hx heq
  · rw [forall_mem_cons]
    refine ⟨ha, fun x hx => ?_⟩
    rw [← hnew x hx, lookup_insert_of_ne _ (hne x hx)]

/-- What the loop of `checkDuplicates` has let pass has new keys, all different. -/
theorem nodup_of_checkDuplicatesFrom {seenIDs : GoMap GoString ℕ} {seenHashes : GoMap String ℕ}
    (h : checkDuplicatesFrom i seenIDs seenHashes entries = .ok ()) :
    ((entries.map (·.id)).Nodup ∧ ∀ e ∈ entries, seenIDs.lookup e.id = none) ∧
      (entries.map (·.keyHash)).Nodup ∧ ∀ e ∈ entries, seenHashes.lookup e.keyHash = none := by
  -- by induction on the entries that are left, with what has been seen of the others
  induction entries generalizing i seenIDs seenHashes with
  | nil =>
    exact ⟨⟨nodup_nil, fun _ he => absurd he not_mem_nil⟩, nodup_nil,
      fun _ he => absurd he not_mem_nil⟩
  | cons e entries ih =>
    unfold checkDuplicatesFrom at h
    split at h
    · cases h
    next hid =>
    split at h
    · cases h
    next hhash =>
    obtain ⟨⟨hids, hnewIDs⟩, hhashes, hnewHashes⟩ := ih h
    exact ⟨nodup_map_cons_of_seen hid hids hnewIDs, nodup_map_cons_of_seen hhash hhashes hnewHashes⟩

theorem validateFrom_eq_ok (h : validateFrom i entries = .ok entries') :
    List.Forall₂ (fun e e' => normalizeAndValidateKeyEntry e = .ok e') entries entries' := by
  induction entries generalizing i entries' with
  | nil =>
    cases h
    exact .nil
  | cons e entries ih =>
    unfold validateFrom at h
    split at h
    · cases h
    · next e' he =>
      obtain ⟨rest, hrest, rfl⟩ := map_eq_ok.mp h
      exact .cons he (ih hrest)

theorem exists_of_validateFrom (h : validateFrom i entries = .ok entries') (he' : e' ∈ entries') :
    ∃ e ∈ entries, normalizeAndValidateKeyEntry e = .ok e' := by
  have hall := validateFrom_eq_ok h
  clear h
  -- entry by entry, beside the list of the valid ones
  induction hall with
  | nil => exact absurd he' not_mem_nil
  | cons hvalid _ ih =>
    rcases mem_cons.mp he' with rfl | he'
    · exact ⟨_, mem_cons_self, hvalid⟩
    · obtain ⟨e, he, hvalid⟩ := ih he'
      exact ⟨e, mem_cons_of_mem _ he, hvalid⟩

theorem replaceAll_eq_ok (h : r.replaceAll version entries = .ok r') :
    ∃ entries', validateFrom 0 entries = .ok entries' ∧ (entries'.map (·.id)).Nodup ∧
      (entries'.map (·.keyHash)).Nodup ∧ r.version ≤ version ∧
        r' = ⟨.ofEntries entries', version⟩ := by
  obtain ⟨entries', hvalid, h⟩ := bind_eq_ok.mp h
  obtain ⟨_, hdup, h⟩ := bind_eq_ok.mp h
  obtain ⟨_, hversion, h⟩ := bind_eq_ok.mp h
  cases h
  obtain ⟨⟨hids, -⟩, hhashes, -⟩ := nodup_of_checkDuplicatesFrom hdup
  exact ⟨entries', hvalid, hids, hhashes, checkVersion_eq_ok_iff.mp hversion, rfl⟩

/-! ### What `LoadKeyStore` restores -/

/-- Records as a store returns them: under different ids, each with the entry of its id. -/
structure Keyed (keys : List PersistedKey) : Prop where
  nodup : (keys.map (·.id)).Nodup
  own : ∀ pk ∈ keys, ∀ e, pk.entry = .ok e → e.id = pk.id

theorem PersistedKey.check_eq_ok (h : pk.check opts now = .ok e) :
    ∃ e₀, pk.entry = .ok e₀ ∧ normalizeAndValidateKeyEntry e₀ = .ok e ∧ e.expired now = false := by
  unfold PersistedKey.check at h
  split at h
  · cases h
  next e₀ he₀ =>
  split at h
  · cases h
  next e' he' =>
  split_ifs at h with hexpired
  cases h
  exact ⟨e₀, he₀, he', Bool.eq_false_iff.mpr hexpired⟩

theorem PersistedKey.admits_of_check (h : pk.check opts now = .ok e) : opts.admits e = true := by
  unfold PersistedKey.check at h
  split at h
  · cases h
  split at h
  · cases h
  split_ifs at h with hexpired hadmits
  cases h
  simpa using hadmits

theorem Keyed.check_id (hkeys : Keyed keys) (hpk : pk ∈ keys) (h : pk.check opts now = .ok e) :
    e.id = pk.id := by
  obtain ⟨e₀, he₀, he, -⟩ := PersistedKey.check_eq_ok h
  rw [(normalizeAndValidateKeyEntry_ok he).1]
  exact hkeys.own pk hpk e₀ he₀

/-- What the loop has made of the records `done`. -/
structure Restored (opts : KeyStoreLoadOptions) (now : Time) (done : List PersistedKey)
    (st : Restoring) : Prop where
  inverse : st.indexes.Inverse
  /-- An entry comes from a record with its id. -/
  source : ∀ id e, st.indexes.byID.lookup id = some e →
    ∃ pk ∈ done, pk.id = id ∧ pk.check opts now = .ok e
  /-- A record is restored or skipped, and not both. -/
  skipped : ∀ pk ∈ done, (∃ reason, (pk.id, reason) ∈ st.skipped) ↔
    st.indexes.byID.lookup pk.id = none
  /-- A record that passes the checks is restored, unless another with its hash is. -/
  kept : ∀ pk ∈ done, ∀ e, pk.check opts now = .ok e →
    ∃ e', st.indexes.byHash.lookup e.keyHash = some e' ∧
      (e' = e ∨ ∃ pk' ∈ done, pk'.id ≠ pk.id ∧ pk'.check opts now = .ok e')
  /-- Only ids of records are skipped. -/
  names : ∀ x ∈ st.skipped, ∃ pk ∈ done, pk.id = x.1

theorem Restored.start : Restored opts now [] ⟨.empty, []⟩ where
  inverse := .empty
  source _ _ h := by cases h
  skipped pk hpk := absurd hpk not_mem_nil
  kept pk hpk := absurd hpk not_mem_nil
  names x hx := absurd hx not_mem_nil

variable {done : List PersistedKey} {st : Restoring}

theorem Restored.lookup_new (h : Restored opts now done st) (hnew : ∀ pk' ∈ done, pk'.id ≠ pk.id) :
    st.indexes.byID.lookup pk.id = none := by
  refine eq_none_iff_forall_ne_some.mpr fun e he => ?_
  obtain ⟨pk', hpk', hid, -⟩ := h.source pk.id e he
  exact hnew pk' hpk' hid

theorem Restored.skip (h : Restored opts now done st) (hnew : ∀ pk' ∈ done, pk'.id ≠ pk.id)
    (reason : SkipReason)
    (hkept : ∀ e, pk.check opts now = .ok e → ∃ e', st.indexes.byHash.lookup e.keyHash = some e' ∧
      ∃ pk' ∈ done, pk'.id ≠ pk.id ∧ pk'.check opts now = .ok e') :
    Restored opts now (done ++ [pk]) { st with skipped := st.skipped ++ [(pk.id, reason)] } := by
  -- the indexes stay, and only the id of the record is new in the list
  refine ⟨h.inverse, ?_, ?_, ?_, ?_⟩
  · intro id e he
    obtain ⟨pk', hpk', hrest⟩ := h.source id e he
    exact ⟨pk', mem_append_left _ hpk', hrest⟩
  · intro pk' hpk'
    rcases mem_append.mp hpk' with hdone | hlast
    · rw [← h.skipped pk' hdone]
      simp [hnew pk' hdone]
    · obtain rfl := mem_singleton.mp hlast
      exact iff_of_true ⟨reason, by simp⟩ (h.lookup_new hnew)
  · intro pk' hpk' e he
    rcases mem_append.mp hpk' with hdone | hlast
    · obtain ⟨e', he', hcase⟩ := h.kept pk' hdone e he
      refine ⟨e', he', hcase.imp_right ?_⟩
      rintro ⟨pk'', hpk'', hrest⟩
      exact ⟨pk'', mem_append_left _ hpk'', hrest⟩
    · obtain rfl := mem_singleton.mp hlast
      obtain ⟨e', he', pk'', hpk'', hrest⟩ := hkept e he
      exact ⟨e', he', .inr ⟨pk'', mem_append_left _ hpk'', hrest⟩⟩
  · intro x hx
    rcases mem_append.mp hx with hx | hx
    · obtain ⟨pk', hpk', hid⟩ := h.names x hx
      exact ⟨pk', mem_append_left _ hpk', hid⟩
    · refine ⟨pk, mem_append_right _ (mem_singleton_self pk), ?_⟩
      rw [mem_singleton.mp hx]

theorem Restored.add (h : Restored opts now done st) (hnew : ∀ pk' ∈ done, pk'.id ≠ pk.id)
    (he : pk.check opts now = .ok e) (hid : e.id = pk.id)
    (hfree : st.indexes.byHash.lookup e.keyHash = none) :
    Restored opts now (done ++ [pk]) { st with
      indexes := ⟨st.indexes.byHash.insert e.keyHash e, st.indexes.byID.insert e.id e⟩ } := by
  have hfresh : st.indexes.byID.lookup e.id = none := hid ▸ h.lookup_new hnew
  -- nothing is stored under the id, so that the turn is a plain `store`
  have hstore : (⟨st.indexes.byHash.insert e.keyHash e, st.indexes.byID.insert e.id e⟩ : Indexes) =
      st.indexes.store e := by
    unfold Indexes.store
    rw [hfresh]
  refine ⟨?_, ?_, ?_, ?_, ?_⟩
  · rw [hstore]
    refine h.inverse.store fun y hy => ?_
    rw [hfree] at hy
    cases hy
  · intro id e' he'
    obtain ⟨rfl, rfl⟩ | ⟨-, he'⟩ := lookup_insert_eq_some.mp he'
    · exact ⟨pk, mem_append_right _ (mem_singleton_self pk), hid.symm, he⟩
    · obtain ⟨pk', hpk', hrest⟩ := h.source id e' he'
      exact ⟨pk', mem_append_left _ hpk', hrest⟩
  · intro pk' hpk'
    rcases mem_append.mp hpk' with hdone | hlast
    · rw [h.skipped pk' hdone, lookup_insert_of_ne _ (hid ▸ hnew pk' hdone)]
    · obtain rfl := mem_singleton.mp hlast
      rw [hid, lookup_insert]
      refine iff_of_false ?_ nofun
      -- an id is skipped only once its record has come
      rintro ⟨reason, hmem⟩
      obtain ⟨pk'', hpk'', hid''⟩ := h.names _ hmem
      exact hnew pk'' hpk'' hid''
  · intro pk' hpk' e' he'
    rcases mem_append.mp hpk' with hdone | hlast
    · obtain ⟨e'', he'', hcase⟩ := h.kept pk' hdone e' he'
      -- a hash that is kept already is not the new one, which was free
      have hne : e'.keyHash ≠ e.keyHash := by
        intro heq
        rw [heq, hfree] at he''
        cases he''
      refine ⟨e'', by rw [lookup_insert_of_ne _ hne, he''], hcase.imp_right ?_⟩
      rintro ⟨pk'', hpk'', hrest⟩
      exact ⟨pk'', mem_append_left _ hpk'', hrest⟩
    · obtain rfl := mem_singleton.mp hlast
      obtain rfl : e = e' := Except.ok.inj (he.symm.trans he')
      exact ⟨e, lookup_insert _, .inl rfl⟩
  · intro x hx
    obtain ⟨pk', hpk', hid'⟩ := h.names x hx
    exact ⟨pk', mem_append_left _ hpk', hid'⟩

theorem Restored.next (h : Restored opts now done st) (hnew : ∀ pk' ∈ done, pk'.id ≠ pk.id)
    (hid : ∀ e, pk.check opts now = .ok e → e.id = pk.id) :
    Restored opts now (done ++ [pk]) (st.next opts now pk) := by
  unfold Restoring.next
  split
  · next reason hcheck =>
    refine h.skip hnew reason fun e he => ?_
    rw [hcheck] at he
    cases he
  · next e hcheck =>
    split
    · next other hother =>
      refine h.skip hnew _ fun e' he' => ?_
      obtain rfl : e = e' := Except.ok.inj (hcheck.symm.trans he')
      -- the entry that has the hash comes from an earlier record, with another id
      obtain ⟨pk', hpk', -, hcheck'⟩ := h.source _ other (h.inverse.ofHash _ other hother).2
      exact ⟨other, hother, pk', hpk', hnew pk' hpk', hcheck'⟩
    · next hfree => exact h.add hnew hcheck (hid e hcheck) hfree

/-- **The loop of `LoadKeyStore`** restores each usable record, unless another with its hash is. -/
theorem restored_restore (hkeys : Keyed keys) : Restored opts now keys (restore opts now keys) := by
  unfold restore
  -- the records are taken from the left, so the induction is on the list read from its end
  induction keys using reverseRecOn with
  | nil => exact .start
  | append_singleton keys pk ih =>
    rw [foldl_concat]
    have hnodup := hkeys.nodup
    rw [map_append, map_singleton, nodup_append] at hnodup
    refine (ih ⟨hnodup.1, fun pk' hpk' => hkeys.own pk' (mem_append_left _ hpk')⟩).next ?_ ?_
    · intro pk' hpk'
      exact hnodup.2.2 _ (mem_map_of_mem hpk') _ (mem_singleton_self _)
    · intro e he
      exact hkeys.check_id (mem_append_right _ (mem_singleton_self pk)) he

end HivenetRouter.Auth
