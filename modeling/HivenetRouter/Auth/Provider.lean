import HivenetRouter.Auth.Mirror

/-!
# The provider: registry and store together

`DynamicKeyProvider` applies each mutation in memory and then writes it (`mutate`). A write that
fails leaves the change in effect and the provider **dirty**; from then on the next mutation, or
the background retry, writes the whole registry in place of its own change. A call is rejected
before anything is changed, and this is a returned error; a failed write is a failure of the
program (`ErrNotDurable`).

`wp_mutate`, `wp_retry` and `wp_loadKeyStore` say how each program may end, in terms of `Kept`:
the registry is in order, the store agrees with its meta record, and unless the provider is
dirty it mirrors the registry.
-/

namespace HivenetRouter.Auth

open Txn GoMap BadgerKeyStore Indexes

/-- `DynamicKeyProvider`, with the store on disk, also where it is not wired. -/
structure DynamicKeyProvider where
  registry : Registry
  store : BadgerKeyStore
  /-- `store != nil`. -/
  wired : Bool
  dirty : Bool
  closed : Bool

namespace DynamicKeyProvider

def onStore {α : Type} (m : Txn BadgerKeyStore α) : Txn DynamicKeyProvider α :=
  zoom (·.store) (fun b p => { p with store := b }) m

def rewriteLocked (now : Stamp) (confirmedAt : Option Stamp) : Txn DynamicKeyProvider Unit := do
  let p ← get
  onStore (replaceAll p.registry.version p.registry.snapshot now confirmedAt)

/-- `persistLocked`, with `markDirtyLocked` where it fails. -/
def persistLocked (confirm : Bool) (now : Stamp) (write : Txn DynamicKeyProvider Unit) :
    Txn DynamicKeyProvider Unit := do
  let p ← get
  if !p.wired then return ()
  else
    onFail
      (if p.closed then fail
        else if p.dirty then rewriteLocked now (if confirm then some now else none)
        else write)
      fun p => { p with dirty := true }
    modify fun p => { p with dirty := false }

/-- What the three mutations share: a rejected call returns its error, an accepted one is applied
in memory and then written. -/
def mutate (next : Except RegistryError Registry) (confirm : Bool) (now : Stamp)
    (write : Txn DynamicKeyProvider Unit) : Txn DynamicKeyProvider (Except RegistryError Unit) :=
  match next with
  | .error err => return .error err
  | .ok r => do
    modify fun p => { p with registry := r }
    persistLocked confirm now write
    return .ok ()

def upsert (version : GoString) (e : DynamicKeyEntry) (now : Stamp) :
    Txn DynamicKeyProvider (Except RegistryError Unit) :=
  match normalizeAndValidateKeyEntry e with
  | .error err => return .error (.invalid err)
  | .ok e => do
    let p ← get
    mutate (p.registry.upsert version e) false now (onStore (BadgerKeyStore.upsert version e now))

def delete (version keyID : GoString) (now : Stamp) :
    Txn DynamicKeyProvider (Except RegistryError Unit) := do
  let p ← get
  mutate (p.registry.delete version keyID) false now
    (onStore (BadgerKeyStore.delete version keyID now))

/-- The write of `ReplaceAll`: if the entries are those that were there, the meta record only. -/
def writeAll (before : Registry) (version : GoString) (now : Stamp) :
    Txn DynamicKeyProvider Unit := do
  let p ← get
  if p.registry.byID = before.byID then onStore (touch version now (some now))
  else rewriteLocked now (some now)

def replaceAll (version : GoString) (entries : List DynamicKeyEntry) (now : Stamp) :
    Txn DynamicKeyProvider (Except RegistryError Unit) := do
  let p ← get
  mutate (p.registry.replaceAll version entries) true now (writeAll p.registry version now)

/-- One turn of `retryLoop`. -/
def retry (now : Stamp) : Txn DynamicKeyProvider Unit := do
  let p ← get
  if p.closed || !p.dirty then return ()
  else
    let done ← attempt (rewriteLocked now none)
    if done then modify fun p => { p with dirty := false }

def closeKeyStore (p : DynamicKeyProvider) : DynamicKeyProvider :=
  if p.wired then { p with closed := true } else p

def degradeKeyStore (p : DynamicKeyProvider) : DynamicKeyProvider :=
  { p.closeKeyStore with wired := false, registry := .new }

end DynamicKeyProvider

/-- `now.Sub(ref)`, which saturates, and is no less than 0. -/
def snapshotAge (now ref : Time) : ℤ := max 0 (min (now - ref) (2 ^ 63 - 1))

/-- The snapshot is too old, or was never confirmed. -/
def PersistedRegistry.discarded (snap : PersistedRegistry) (opts : KeyStoreLoadOptions)
    (now : Stamp) : Bool :=
  match opts.maxAge with
  | none => false
  | some maxAge =>
    match snap.confirmedAt with
    | none => true
    | some confirmedAt => snapshotAge now (min snap.savedAt.val confirmedAt.val) > maxAge

namespace DynamicKeyProvider

def loadKeyStore (opts : KeyStoreLoadOptions) (now : Stamp) (cleanup : List Fate) :
    Txn DynamicKeyProvider Unit := do
  let p ← get
  if !p.wired then return ()
  else
    match ← onStore (load cleanup) with
    | .fresh => return ()
    | .unusable _ => onStore (reset now)
    | .snapshot snap =>
      if snap.discarded opts now then onStore (reset now)
      else
        let st := restore opts now snap.keys
        let _ ← attempt (onStore (deleteRecords (st.skipped.map (·.1))))
        modify fun p => { p with
          registry := ⟨st.indexes,
            if snap.version > p.registry.version then snap.version else p.registry.version⟩ }

/-- A new provider over a database, as `OpenBadgerKeyStore` and `SetKeyStore` leave it. -/
def new (db : Db) (macKey : GoString) (opened : Bool) : DynamicKeyProvider :=
  ⟨.new, ⟨db, macKey, 0, none⟩, opened, false, false⟩

/-- `wireKeyStore`, from a new provider: a store that cannot be opened or read is given up. -/
def wireKeyStore (opts : KeyStoreLoadOptions) (now : Stamp) (cleanup : List Fate) :
    Txn DynamicKeyProvider Unit := do
  let p ← get
  if !p.wired then modify degradeKeyStore
  else
    let loaded ← attempt (loadKeyStore opts now cleanup)
    if !loaded then modify degradeKeyStore

end DynamicKeyProvider

/-! ### Mutations -/

/-- A call of one of the three mutations. -/
inductive Mutation where
  | upsert (version : GoString) (e : DynamicKeyEntry)
  | delete (version keyID : GoString)
  | replaceAll (version : GoString) (entries : List DynamicKeyEntry)

def Mutation.call (now : Stamp) : Mutation → Txn DynamicKeyProvider (Except RegistryError Unit)
  | upsert version e => DynamicKeyProvider.upsert version e now
  | delete version keyID => DynamicKeyProvider.delete version keyID now
  | replaceAll version entries => DynamicKeyProvider.replaceAll version entries now

def Mutation.next (r : Registry) : Mutation → Except RegistryError Registry
  | upsert version e =>
    match normalizeAndValidateKeyEntry e with
    | .error err => .error (.invalid err)
    | .ok e => r.upsert version e
  | delete version keyID => r.delete version keyID
  | replaceAll version entries => r.replaceAll version entries

/-- The registry is in order: the indexes are inverse, and the entries valid. -/
structure Registry.Ordered (r : Registry) : Prop where
  inverse : r.Inverse
  proper : Proper r.byID

theorem Registry.Ordered.new : Registry.new.Ordered := ⟨.empty, proper_of_lookup_none fun _ => rfl⟩

theorem Indexes.remove_byID (x : Indexes) (id : GoString) :
    (x.remove id).byID = x.byID.erase id := by
  refine Finmap.ext_lookup fun id' => Option.ext fun e => ?_
  rw [lookup_remove_byID, lookup_erase_eq_some, and_comm]

theorem Proper.insert {x : GoMap GoString DynamicKeyEntry} (hx : Proper x) {e : DynamicKeyEntry}
    (he : normalizeAndValidateKeyEntry e = .ok e) : Proper (x.insert e.id e) := by
  intro id e' he'
  obtain ⟨rfl, rfl⟩ | ⟨-, he'⟩ := lookup_insert_eq_some.mp he'
  · exact ⟨rfl, he⟩
  · exact hx id e' he'

variable {r : Registry} {confirm : Bool} {write : Txn DynamicKeyProvider Unit} {cleanup : List Fate}

/-- **A mutation keeps the registry in order**, and the version does not decrease. -/
theorem Mutation.next_ordered {r' : Registry} (hr : r.Ordered) {μ : Mutation}
    (h : μ.next r = .ok r') : r'.Ordered ∧ r.version ≤ r'.version := by
  cases μ with
  | upsert =>
    unfold Mutation.next at h
    dsimp only at h
    split at h
    · cases h
    next e' hvalid =>
    -- the hash is free, or was the hash of this id
    obtain ⟨hversion, rfl, hfree⟩ := upsert_eq_ok h
    exact ⟨⟨hr.inverse.store hfree, hr.proper.insert (normalizeAndValidateKeyEntry_idem hvalid)⟩,
      hversion⟩
  | delete version keyID =>
    obtain ⟨hversion, rfl⟩ := delete_eq_ok h
    refine ⟨⟨hr.inverse.remove keyID, fun id e he => ?_⟩, hversion⟩
    exact hr.proper id e (lookup_remove_byID.mp he).1
  | replaceAll =>
    obtain ⟨entries', hvalid, hids, hhashes, hversion, rfl⟩ := replaceAll_eq_ok h
    refine ⟨⟨Indexes.inverse_ofEntries hids hhashes, fun id e he => ?_⟩, hversion⟩
    -- the request has neither an id nor a hash twice
    obtain ⟨hmem, hid⟩ := (lookup_indexBy_eq_some_iff hids).mp he
    obtain ⟨e₀, -, he₀⟩ := exists_of_validateFrom hvalid hmem
    exact ⟨hid, normalizeAndValidateKeyEntry_idem he₀⟩

/-! ### Writing the registry -/

variable {A B : Fate → Prop} {p : DynamicKeyProvider} {now : Stamp} {opts : KeyStoreLoadOptions}

theorem lists_snapshot (hr : Proper r.byID) : Lists r.snapshot r.byID := by
  -- the snapshot has a copy of each entry, and nothing else
  have hmem : ∀ e, e ∈ r.snapshot ↔ ∃ id e₀, r.byID.lookup id = some e₀ ∧ snapshotCopy e₀ = e := by
    intro e
    unfold Registry.snapshot
    rw [List.mem_filterMap]
    refine exists_congr fun id => ?_
    rw [Option.map_eq_some_iff]
    refine ⟨And.right, fun h => ⟨?_, h⟩⟩
    obtain ⟨e₀, he₀, -⟩ := h
    exact mem_sortedKeys.mpr (mem_of_lookup he₀)
  refine ⟨?_, ?_, ?_⟩
  · have hids : r.snapshot.map (·.id) = r.byID.sortedKeys.map id := by
      unfold Registry.snapshot
      -- the ids of the copies are the keys of the map, in order
      rw [List.map_filterMap, List.filterMap_eq_map_iff_forall_eq_some]
      intro id hid
      rw [mem_sortedKeys, ← Finmap.lookup_isSome] at hid
      obtain ⟨e, he⟩ := Option.isSome_iff_exists.mp hid
      rw [he]
      exact congrArg some (hr id e he).1
    rw [hids, List.map_id]
    exact nodup_sortedKeys _
  · intro e he
    obtain ⟨id, e₀, he₀, rfl⟩ := (hmem e).mp he
    refine ⟨e₀, ?_, canonical_snapshotCopy e₀⟩
    change r.byID.lookup e₀.id = some e₀
    rw [(hr id e₀ he₀).1]
    exact he₀
  · intro id e₀ he₀
    exact ⟨snapshotCopy e₀, (hmem _).mpr ⟨id, e₀, he₀, rfl⟩, (hr id e₀ he₀).1,
      canonical_snapshotCopy e₀⟩

/-- How a write of the registry of `p` may end. -/
def persisting (A : Fate → Prop) (p : DynamicKeyProvider) : Post DynamicKeyProvider Unit where
  returned _ p' := ∃ b', p' = { p with store := b' } ∧
    Written p.registry.byID p.registry.version p.store b'
  failed p' := ∃ b', p' = { p with store := b' } ∧ Stalled p.registry.byID p.store b' ∧
    (CanFail A ∨ ∃ id e, p.registry.byID.lookup id = some e ∧ ¬Encodable e)
  crashed p' := ∃ b', p' = { p with store := b' } ∧ Survived p.registry.byID p.store.db b'.db ∧
    CanCrash A

theorem wp_onStore {m : Txn BadgerKeyStore Unit}
    (h : wp A m (writing A p.registry.byID p.registry.version p.store) p.store) :
    wp A (DynamicKeyProvider.onStore m) (persisting A p) p :=
  wp_zoom (wp_mono h (fun _ b' h => ⟨b', rfl, h⟩) (fun b' h => ⟨b', rfl, h⟩)
    fun b' h => ⟨b', rfl, h⟩)

theorem wp_rewriteLocked {confirmedAt : Option Stamp} (hp : Proper p.registry.byID) :
    wp A (DynamicKeyProvider.rewriteLocked now confirmedAt) (persisting A p) p :=
  wp_bind (wp_get (wp_onStore (wp_replaceAll (lists_snapshot hp) hp)))

/-- **`persistLocked`.** It fails also if the store is closed. -/
theorem wp_persistLocked (hwired : p.wired = true) (hp : Proper p.registry.byID)
    (hwrite : p.dirty = false → wp A write (persisting A p) p) :
    wp A (DynamicKeyProvider.persistLocked confirm now write)
      ⟨fun _ p' => ∃ b', p' = { p with store := b', dirty := false } ∧
          Written p.registry.byID p.registry.version p.store b',
        fun p' => ∃ b', p' = { p with store := b', dirty := true } ∧
          Stalled p.registry.byID p.store b' ∧ (p.closed = true ∨ CanFail A ∨
            ∃ id e, p.registry.byID.lookup id = some e ∧ ¬Encodable e),
        (persisting A p).crashed⟩ p := by
  -- what is written is the whole registry if an earlier write has failed
  have hbody : wp A (if p.closed then fail
      else if p.dirty then DynamicKeyProvider.rewriteLocked now (if confirm then some now else none)
      else write)
      ⟨(persisting A p).returned, fun p' => ∃ b', p' = { p with store := b' } ∧
        Stalled p.registry.byID p.store b' ∧ (p.closed = true ∨ CanFail A ∨
          ∃ id e, p.registry.byID.lookup id = some e ∧ ¬Encodable e),
        (persisting A p).crashed⟩ p := by
    split
    · -- a closed store is not written to, and stays as it is
      next hclosed =>
      exact wp_fail ⟨p.store, rfl, ⟨⟨fun h => h, fun _ _ h => h⟩, rfl, fun h => h⟩, .inl hclosed⟩
    · refine wp_mono (Q := persisting A p) ?_ (fun _ _ h => h)
        (fun p' ⟨b', heq, hstalled, h⟩ => ⟨b', heq, hstalled, .inr h⟩) fun _ h => h
      split
      · exact wp_rewriteLocked hp
      · next hdirty => exact hwrite (eq_false_of_ne_true hdirty)
  refine wp_bind (wp_get ?_)
  dsimp only
  rw [if_neg (by simp [hwired])]
  refine wp_bind (wp_onFail (wp_mono hbody ?_ ?_ fun _ h => h))
  · rintro _ p' ⟨b', rfl, hwritten⟩
    exact wp_modify ⟨b', rfl, hwritten⟩
  · rintro p' ⟨b', rfl, hrest⟩
    exact ⟨b', rfl, hrest⟩

/-! ### Calls -/

/-- The provider is in step with its store. -/
structure Kept (p : DynamicKeyProvider) : Prop where
  wired : p.wired = true
  ordered : p.registry.Ordered
  synced : Synced p.store
  mirrors : p.dirty = false → Mirrors p.registry.byID p.store

/-- How a call that makes `next` of the registry may end: it is rejected without an effect, or
applied and written, or applied and not written. -/
def mutating (A : Fate → Prop) (next : Except RegistryError Registry) (p : DynamicKeyProvider) :
    Post DynamicKeyProvider (Except RegistryError Unit) where
  returned res p' :=
    (∃ err, next = .error err ∧ res = .error err ∧ p' = p) ∨
    ∃ r b', next = .ok r ∧ res = .ok () ∧
      p' = { p with registry := r, store := b', dirty := false } ∧
      Written r.byID r.version p.store b'
  failed p' := ∃ r b', next = .ok r ∧ p' = { p with registry := r, store := b', dirty := true } ∧
    Stalled r.byID p.store b' ∧ (p.closed = true ∨ CanFail A ∨
      ∃ id e, r.byID.lookup id = some e ∧ ¬Encodable e)
  crashed p' := ∃ r b', next = .ok r ∧ p' = { p with registry := r, store := b' } ∧
    Survived r.byID p.store.db b'.db ∧ CanCrash A

theorem wp_mutate {next : Except RegistryError Registry} (hwired : p.wired = true)
    (hproper : ∀ r, next = .ok r → Proper r.byID)
    (hwrite : ∀ r, next = .ok r → p.dirty = false →
      wp A write (persisting A { p with registry := r }) { p with registry := r }) :
    wp A (DynamicKeyProvider.mutate next confirm now write) (mutating A next p) p := by
  cases next with
  | error err => exact wp_pure (.inl ⟨err, rfl, rfl, rfl⟩)
  | ok r =>
    refine wp_bind (wp_modify (wp_bind ?_))
    refine wp_mono (wp_persistLocked (p := { p with registry := r }) hwired (hproper r rfl)
      (hwrite r rfl)) ?_ ?_ ?_
    · rintro _ p' ⟨b', rfl, hwritten⟩
      exact wp_pure (.inr ⟨r, b', rfl, rfl, rfl, hwritten⟩)
    all_goals
      rintro p' ⟨b', rfl, hrest⟩
      exact ⟨r, b', rfl, rfl, hrest⟩

/-- **Every mutation**, from a provider that is in step with its store. -/
theorem wp_call (hp : Kept p) (μ : Mutation) (now : Stamp) :
    wp A (μ.call now) (mutating A (μ.next p.registry) p) p := by
  have hordered : ∀ r, μ.next p.registry = .ok r → Proper r.byID := fun r hr =>
    (Mutation.next_ordered hp.ordered hr).1.proper
  cases μ with
  | upsert version e =>
    unfold Mutation.call DynamicKeyProvider.upsert Mutation.next at *
    dsimp only at *
    -- an entry that is not valid is rejected before the registry is read
    cases hvalid : normalizeAndValidateKeyEntry e with
    | error err => exact wp_pure (.inl ⟨.invalid err, rfl, rfl, rfl⟩)
    | ok =>
      rw [hvalid] at hordered
      refine wp_bind (wp_get (wp_mutate hp.wired hordered fun r hr hdirty => ?_))
      have hproper := hordered r hr
      obtain ⟨-, rfl, -⟩ := upsert_eq_ok hr
      exact wp_onStore (wp_upsert (hp.mirrors hdirty) hproper)
  | delete =>
    refine wp_bind (wp_get (wp_mutate hp.wired hordered fun r hr hdirty => ?_))
    have hproper := hordered r hr
    obtain ⟨-, rfl⟩ := delete_eq_ok hr
    rw [remove_byID] at hproper
    refine wp_onStore ?_
    rw [remove_byID]
    exact wp_delete (hp.mirrors hdirty) hproper
  | replaceAll version entries =>
    refine wp_bind (wp_get (wp_mutate hp.wired hordered fun r hr hdirty => ?_))
    have hproper := hordered r hr
    obtain ⟨entries', -, -, -, -, hreq⟩ := replaceAll_eq_ok hr
    have hversion : r.version = version := by rw [hreq]
    refine wp_bind (wp_get ?_)
    dsimp only
    -- the same entries: only the meta record is written, and the store mirrors them already
    split_ifs with hsame
    · refine wp_onStore ?_
      rw [hversion]
      exact wp_touch (hsame ▸ hp.mirrors hdirty) hproper
    · exact wp_rewriteLocked hproper

/-- **The background retry**, which does something only if the provider is dirty. -/
theorem wp_retry (hp : Proper p.registry.byID) (now : Stamp) : wp A (DynamicKeyProvider.retry now)
      ⟨fun _ p' => p' = p ∨ p.dirty = true ∧ ∃ b',
          (p' = { p with store := b', dirty := false } ∧
            Written p.registry.byID p.registry.version p.store b') ∨
          (p' = { p with store := b' } ∧ Stalled p.registry.byID p.store b'),
        fun _ => False,
        fun p' => p.dirty = true ∧ (persisting A p).crashed p'⟩ p := by
  refine wp_bind (wp_get ?_)
  dsimp only
  split_ifs with hidle
  · exact wp_pure (.inl rfl)
  have hdirty : p.dirty = true := by
    revert hidle
    cases p.dirty <;> simp
  -- a write that fails is not an error of the loop: the provider stays dirty
  refine wp_bind (wp_attempt (wp_mono (wp_rewriteLocked hp) ?_ ?_ fun p' h => ⟨hdirty, h⟩))
  · rintro _ p' ⟨b', rfl, hwritten⟩
    dsimp only
    exact wp_modify (.inr ⟨hdirty, b', .inl ⟨rfl, hwritten⟩⟩)
  · rintro p' ⟨b', rfl, hstalled, -⟩
    exact wp_pure (.inr ⟨hdirty, b', .inr ⟨rfl, hstalled⟩⟩)

/-! ### Loading -/

/-- The registry that is restored from a usable snapshot. -/
def restoredRegistry (opts : KeyStoreLoadOptions) (now : Stamp) (p : DynamicKeyProvider)
    (m : Sealed (KeyStoreMeta String)) : Registry :=
  ⟨(restore opts now (p.store.liveKeys m.payload.gen)).indexes,
    if Utf8.ofText m.payload.version > p.registry.version then Utf8.ofText m.payload.version
    else p.registry.version⟩

def Discardable (opts : KeyStoreLoadOptions) (b : BadgerKeyStore) : Prop :=
  ∃ m, b.db.metaRecord = some m ∧
    (m.macKey ≠ b.macKey ∨ m.payload.schema ≠ keyStoreSchema ∨ opts.maxAge ≠ none)

/-- What `LoadKeyStore` may return with. -/
inductive Reloaded (A : Fate → Prop) (opts : KeyStoreLoadOptions) (now : Stamp)
    (p : DynamicKeyProvider) : DynamicKeyProvider → Prop where
  | fresh (hmeta : p.store.db.metaRecord = none) : Reloaded A opts now p p
  /-- The snapshot was discarded and the store is reset. -/
  | discarded {b' : BadgerKeyStore} (hwritten : Written ∅ [] p.store b')
      (hreason : Discardable opts p.store) :
      Reloaded A opts now p { p with store := b' }
  /-- The registry was restored; unless a transaction could fail, the store mirrors it. -/
  | restored {m : Sealed (KeyStoreMeta String)} {b₁ b' : BadgerKeyStore}
      (husable : Usable m p.store b₁) (hprep : Preparing [] b₁ b')
      (hmirrors : CanFail A ∨ m.payload.gen = 0 ∨ Mirrors (restoredRegistry opts now p m).byID b') :
      Reloaded A opts now p { p with store := b', registry := restoredRegistry opts now p m }

theorem discarded_maxAge {snap : PersistedRegistry} (h : snap.discarded opts now = true) :
    opts.maxAge ≠ none := by
  intro hnone
  unfold PersistedRegistry.discarded at h
  rw [hnone] at h
  cases h

theorem wp_discard {b₁ : BadgerKeyStore} (hmac : b₁.macKey = p.store.macKey)
    (hsurvives : Survives [] p.store.db b₁.db) (hreason : Discardable opts p.store) :
    wp A (DynamicKeyProvider.onStore (reset now))
      ⟨fun _ p' => Reloaded A opts now p p', fun p' => CanFail A ∧ p'.registry = p.registry,
        fun p' => Survives [] p.store.db p'.store.db ∧ (CanCrash A ∨ CanCrash B)⟩
      { p with store := b₁ } := by
  refine wp_zoom (wp_mono wp_reset ?_ ?_ ?_)
  · rintro _ b' ⟨hmirrors, hmac', hversion⟩
    exact .discarded ⟨hmirrors, hmac'.trans hmac, hversion⟩ hreason
  · rintro b' ⟨-, hfail | ⟨id, e, he, -⟩⟩
    · exact ⟨hfail, rfl⟩
    · cases he
  · rintro b' ⟨hsurvived, hcrash⟩
    refine ⟨⟨fun h => hsurvived.sane (hsurvives.sane h), fun S hS hb => ?_⟩, .inl hcrash⟩
    refine hsurvived.covered S ?_ (hsurvives.covered S hS hb)
    -- a reset writes no entry, so that none is left to be covered
    rintro id e ⟨e₀, he₀, -⟩
    cases he₀

/-- **`LoadKeyStore`** reloads; a transaction that fails leaves the registry, and a crash the
database. -/
theorem wp_loadKeyStore (hcleanup : ∀ f ∈ cleanup, B f) (hwired : p.wired = true) :
    wp A (DynamicKeyProvider.loadKeyStore opts now cleanup)
      ⟨fun _ p' => Reloaded A opts now p p', fun p' => CanFail A ∧ p'.registry = p.registry,
        fun p' => Survives [] p.store.db p'.store.db ∧ (CanCrash A ∨ CanCrash B)⟩ p := by
  refine wp_bind (wp_get ?_)
  dsimp only
  rw [if_neg (by simp [hwired])]
  refine wp_bind (wp_zoom (wp_mono (wp_load hcleanup) ?_ ?_ fun _ h => h))
  · intro loaded b₁ hfound
    cases loaded with
    | fresh =>
      obtain ⟨hmeta, rfl⟩ := hfound
      exact wp_pure (.fresh hmeta)
    | unusable =>
      obtain ⟨⟨m, hm, hreason⟩, rfl⟩ := hfound
      exact wp_discard rfl (.refl [] _) ⟨m, hm, hreason.imp_right .inl⟩
    | snapshot =>
      obtain ⟨m, husable, rfl⟩ := hfound
      dsimp only
      split_ifs with hdiscarded
      · exact wp_discard husable.macKey husable.survives
          ⟨m, husable.before, .inr (.inr (discarded_maxAge hdiscarded))⟩
      -- the skipped records are deleted, and a failure to do so is not an error
      refine wp_bind (wp_attempt (wp_zoom (wp_mono wp_deleteRecords ?_ ?_ ?_)))
      · rintro _ b' ⟨hprep, hgone⟩
        refine wp_modify (.restored husable hprep (.inr ?_))
        -- generation 0 is that of a store that was never written
        by_cases hgen : m.payload.gen = 0
        · exact .inl hgen
        · exact .inr (mirrors_restored husable hgen hprep (hgone (husable.gen ▸ hgen)))
      · rintro b' ⟨hprep, hfail⟩
        exact wp_modify (.restored husable hprep (.inl hfail))
      · rintro b' ⟨hprep, hcrash⟩
        refine ⟨⟨fun h => hprep.interrupted.sane (husable.survives.sane h), fun S hS hb => ?_⟩,
          .inl hcrash⟩
        exact hprep.covered S hS (husable.survives.covered S hS hb)
  · rintro b' ⟨rfl, hfail⟩
    exact ⟨hfail, rfl⟩

/-- **A start** where no transaction fails. -/
theorem wp_wireKeyStore (hA : ¬CanFail A) (db : Db) (macKey : GoString)
    (opts : KeyStoreLoadOptions) (now : Stamp) (hcleanup : ∀ f ∈ cleanup, B f) :
    wp A (DynamicKeyProvider.wireKeyStore opts now cleanup)
      ⟨fun _ p => Reloaded A opts now (.new db macKey true) p, fun _ => False,
        fun p => Survives [] db p.store.db ∧ (CanCrash A ∨ CanCrash B)⟩
      (.new db macKey true) := by
  refine wp_bind (wp_get (wp_bind (wp_attempt
    (wp_mono (wp_loadKeyStore hcleanup rfl) ?_ ?_ fun p h => h))))
  · exact fun _ p hreloaded => wp_pure hreloaded
  · rintro p ⟨hfail, -⟩
    exact absurd hfail hA

end HivenetRouter.Auth
