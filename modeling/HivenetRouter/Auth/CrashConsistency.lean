import HivenetRouter.Auth.Provider
import HivenetRouter.Framework.Machine

/-!
# Crash consistency of the key store

A node over its whole life: it starts from what is on disk, takes mutations whose transactions
commit, fail or crash, retries in the background, is shut down, crashes at any moment, and
starts again with another configuration. Two histories are kept beside it. `since` are the
registries after the last mutation that was **acknowledged**, that is, returned no error, and
after each one applied after it; `held` is the same, from the last start if that was later.

A restart restores only keys of `held`, and so only keys of `since` (`restart_restores_only`).
This holds as long as at every start the database opens and no transaction of `LoadKeyStore`
fails, apart from the removal of orphaned generations. Without it there are two ways out. If the
records skipped at a load cannot be removed, they stay in the live generation, and an incremental
write or a `Touch` acknowledges a registry without them (`skipped_key_returns`). If the store
cannot be opened, read or reset, mutations are acknowledged and not written at all.

The invariant is `Consistent`: what can be restored is among `held` (`Db.Covered`), and a running
provider is in step with its store (`Kept`).
-/

namespace HivenetRouter.Auth

open List Option DynamicKeyProvider

/-- The process: only the database survives it. -/
inductive Process where
  | down (db : Db)
  | up (p : DynamicKeyProvider)

def Process.provider : Process → Option DynamicKeyProvider
  | down _ => none
  | up p => some p

theorem Process.provider_eq_some {x : Process} {p : DynamicKeyProvider}
    (h : x.provider = some p) : x = .up p := by
  cases x with
  | down => cases h
  | up => rw [some.inj h]

structure Node where
  process : Process
  /-- The registries after the last acknowledged mutation and after each one applied since. -/
  since : List Registry
  /-- The same, from the last start if it was later. -/
  held : List Registry

/-- A start: the configuration, the clock, and what becomes of the transactions. -/
structure Start where
  macKey : GoString
  opened : Bool
  opts : KeyStoreLoadOptions
  now : Stamp
  fates : List Fate
  cleanup : List Fate

/-- The start of the process over a database. -/
def Start.boot (cfg : Start) (db : Db) : Outcome DynamicKeyProvider Unit :=
  wireKeyStore cfg.opts cfg.now cfg.cleanup (.new db cfg.macKey cfg.opened) cfg.fates

inductive NodeAct where
  | mutate (μ : Mutation) (now : Stamp) (fates : List Fate)
  | retry (now : Stamp) (fates : List Fate)
  | close
  | crash
  | start (cfg : Start)

namespace Node

def afterMutation (s : Node) : Outcome DynamicKeyProvider (Except RegistryError Unit) → Node
  | .returned (.ok ()) p _ => ⟨.up p, [p.registry], [p.registry]⟩
  | .returned (.error _) p _ => { s with process := .up p }
  | .failed p _ => ⟨.up p, p.registry :: s.since, p.registry :: s.held⟩
  | .crashed p => ⟨.down p.store.db, p.registry :: s.since, p.registry :: s.held⟩

def afterRetry (s : Node) : Outcome DynamicKeyProvider Unit → Node
  | .returned _ p _ | .failed p _ => { s with process := .up p }
  | .crashed p => { s with process := .down p.store.db }

def afterStart (s : Node) : Outcome DynamicKeyProvider Unit → Node
  | .returned _ p _ | .failed p _ => { s with process := .up p, held := [p.registry] }
  | .crashed p => { s with process := .down p.store.db }

def step (s : Node) : NodeAct → Option Node
  | .mutate μ now fates =>
    match s.process with
    | .up p => some (s.afterMutation (μ.call now p fates))
    | .down _ => none
  | .retry now fates =>
    match s.process with
    | .up p => some (s.afterRetry (retry now p fates))
    | .down _ => none
  | .close =>
    match s.process with
    | .up p => some { s with process := .up p.closeKeyStore }
    | .down _ => none
  | .crash =>
    match s.process with
    | .up p => some { s with process := .down p.store.db }
    | .down _ => none
  | .start cfg =>
    match s.process with
    | .down db => some (s.afterStart (cfg.boot db))
    | .up _ => none

/-- **What a step can do**: only a start finds the process down. -/
inductive Moved (s : Node) : NodeAct → Node → Prop where
  | mutated {p μ now fates} (hup : s.process = .up p) :
      Moved s (.mutate μ now fates) (s.afterMutation (μ.call now p fates))
  | retried {p now fates} (hup : s.process = .up p) :
      Moved s (.retry now fates) (s.afterRetry (retry now p fates))
  | closed {p} (hup : s.process = .up p) :
      Moved s .close { s with process := .up p.closeKeyStore }
  | crashed {p} (hup : s.process = .up p) : Moved s .crash { s with process := .down p.store.db }
  | started {db cfg} (hdown : s.process = .down db) :
      Moved s (.start cfg) (s.afterStart (cfg.boot db))

theorem step_moved {s t : Node} {a : NodeAct} (h : s.step a = some t) : Moved s a t := by
  unfold step at h
  cases hprocess : s.process with
  | up =>
    cases a with
    | start => simp [hprocess] at h
    | mutate =>
      rw [hprocess] at h
      exact some.inj h ▸ .mutated hprocess
    | retry =>
      rw [hprocess] at h
      exact some.inj h ▸ .retried hprocess
    | close =>
      rw [hprocess] at h
      exact some.inj h ▸ .closed hprocess
    | crash =>
      rw [hprocess] at h
      exact some.inj h ▸ .crashed hprocess
  | down =>
    cases a with
    | start =>
      rw [hprocess] at h
      exact some.inj h ▸ .started hprocess
    | _ => simp [hprocess] at h

def fresh : Node := ⟨.down ⟨none, ∅⟩, [.new], [.new]⟩

end Node

def keyNode : Machine Node NodeAct where
  Init s := s = Node.fresh
  step := Node.step

/-- At a start the database opens, and of the transactions of `LoadKeyStore` only the removal of
orphaned generations fails. -/
def SoundStart : Node → NodeAct → Prop
  | _, .start cfg => cfg.opened = true ∧ ∀ f ∈ cfg.fates, f.Unfailing
  | _, _ => True

/-- The keys of the registry are keys of the others, with the same hash, limits and all else, and
what authenticates with it does so with one of them. -/
def Restores (r : Registry) (rs : List Registry) : Prop :=
  (∀ id e, r.byID.lookup id = some e → ∃ r' ∈ rs, ∃ e', r'.byID.lookup id = some e' ∧
    snapshotCopy e = snapshotCopy e') ∧
  ∀ now hash e, r.authenticate now hash = some e → ∃ r' ∈ rs, ∃ e',
    r'.authenticate now hash = some e' ∧ snapshotCopy e = snapshotCopy e'

/-! ### The invariant -/

/-- The entry is one of the registries, as it is kept. -/
def AmongAny (rs : List Registry) (id : GoString) (e : DynamicKeyEntry) : Prop :=
  ∃ r ∈ rs, Among r.byID id e

/-- What holds of the process, given the registries whose keys may come back. -/
def Process.Consistent (rs : List Registry) : Process → Prop
  | .down db => db.Sane ∧ db.Covered (AmongAny rs)
  | .up p => Kept p ∧ p.store.db.Covered (AmongAny rs) ∧
      ∀ id e, Among p.registry.byID id e → AmongAny rs id e

structure Node.Consistent (s : Node) : Prop where
  process : s.process.Consistent s.held
  within : ∀ id e, AmongAny s.held id e → AmongAny s.since id e
  since : ∀ r ∈ s.since, r.Ordered
  held : ∀ r ∈ s.held, r.Ordered

section

variable {r : Registry} {id : GoString} {e : DynamicKeyEntry} {s : Node} {p : DynamicKeyProvider}

theorem amongAny_singleton : AmongAny [r] id e ↔ Among r.byID id e := by
  unfold AmongAny
  simp

theorem amongAny_cons {rs : List Registry} :
    AmongAny (r :: rs) id e ↔ Among r.byID id e ∨ AmongAny rs id e := by
  unfold AmongAny
  simp

theorem Db.Covered.mono {db : Db} {S S' : GoString → DynamicKeyEntry → Prop} (h : db.Covered S)
    (hS : ∀ id e, S id e → S' id e) : db.Covered S' :=
  fun id e he => hS id e (h id e he)

/-- A provider that is not dirty: only the keys of its registry can be restored. -/
theorem Kept.consistent (h : Kept p) (hdirty : p.dirty = false) :
    (Process.up p).Consistent [p.registry] := by
  refine ⟨h, ((h.mirrors hdirty).covered h.ordered.proper).mono ?_, ?_⟩
  all_goals exact fun id e he => amongAny_singleton.mpr he

theorem consistent_fresh : Node.fresh.Consistent := by
  refine ⟨⟨fun m hm => ?_, fun id e he => ?_⟩, fun _ _ h => h, ?_, ?_⟩
  · cases hm
  · cases he
  all_goals
    intro r hr
    rw [mem_singleton.mp hr]
    exact .new

theorem Node.Consistent.of_process (hs : s.Consistent) {x : Process}
    (hx : s.process = x) : x.Consistent s.held :=
  hx ▸ hs.process

/-! ### Mutations, retries and crashes -/

/-- A registry that has been applied and not acknowledged is added to both histories. -/
theorem Node.Consistent.applied (h : s.Consistent) (hr : r.Ordered)
    {process : Process} (hprocess : process.Consistent (r :: s.held)) :
    Node.Consistent ⟨process, r :: s.since, r :: s.held⟩ := by
  refine ⟨hprocess, fun id e he => ?_, forall_mem_cons.mpr ⟨hr, h.since⟩,
    forall_mem_cons.mpr ⟨hr, h.held⟩⟩
  exact amongAny_cons.mpr ((amongAny_cons.mp he).imp_right (h.within id e))

theorem consistent_mutate (hs : s.Consistent)
    (hup : s.process = .up p) (μ : Mutation) (now : Stamp) (fates : List Fate) :
    (s.afterMutation (μ.call now p fates)).Consistent := by
  obtain ⟨hkept, hcovered, hwithin⟩ := hs.of_process hup
  have hout := wp_call (A := fun _ => True) hkept μ now fates fun _ _ => trivial
  -- what could be restored before, and the keys of the new registry
  have hgrown : ∀ r : Registry, p.store.db.Covered (AmongAny (r :: s.held)) := fun r =>
    hcovered.mono fun id e he => amongAny_cons.mpr (.inr he)
  have hnew : ∀ (r : Registry) id e, Among r.byID id e → AmongAny (r :: s.held) id e :=
    fun r id e he => amongAny_cons.mpr (.inl he)
  cases hcall : μ.call now p fates with
  | returned =>
    rw [hcall] at hout
    rcases hout.1 with ⟨err, -, rfl, rfl⟩ | ⟨r, b', hnext, rfl, rfl, hwritten⟩
    · -- a rejected call has no effect
      refine { hs with process := ?_ }
      exact ⟨hkept, hcovered, hwithin⟩
    · have hordered := (Mutation.next_ordered hkept.ordered hnext).1
      -- an acknowledged one is all that can come back
      have hkept' : Kept { p with registry := r, store := b', dirty := false } :=
        ⟨hkept.wired, hordered, hwritten.mirrors.synced, fun _ => hwritten.mirrors⟩
      have hall : ∀ r' ∈ [r], r'.Ordered := fun r' hr' => mem_singleton.mp hr' ▸ hordered
      exact ⟨hkept'.consistent rfl, fun _ _ h => h, hall, hall⟩
  | failed =>
    rw [hcall] at hout
    -- in effect and not written: some of its keys may have been
    obtain ⟨r, b', hnext, rfl, hstalled, -⟩ := hout.1
    have hordered := (Mutation.next_ordered hkept.ordered hnext).1
    refine hs.applied hordered ⟨⟨hkept.wired, hordered, hstalled.synced hkept.synced, nofun⟩, ?_,
      hnew r⟩
    exact hstalled.covered _ (hnew r) (hgrown r)
  | crashed =>
    rw [hcall] at hout
    obtain ⟨r, b', hnext, rfl, hsurvived, -⟩ := hout
    have hordered := (Mutation.next_ordered hkept.ordered hnext).1
    exact hs.applied hordered ⟨hsurvived.sane hkept.synced.sane,
      hsurvived.covered _ (hnew r) (hgrown r)⟩

theorem consistent_retry (hs : s.Consistent)
    (hup : s.process = .up p) (now : Stamp) (fates : List Fate) :
    (s.afterRetry (retry now p fates)).Consistent := by
  obtain ⟨hkept, hcovered, hwithin⟩ := hs.of_process hup
  have hout := wp_retry (A := fun _ => True) hkept.ordered.proper now fates fun _ _ => trivial
  cases hretry : retry now p fates with
  | returned =>
    rw [hretry] at hout
    refine { hs with process := ?_ }
    -- there was nothing to do, or it was written, or the write has failed
    rcases hout.1 with rfl | ⟨hdirty, b', ⟨rfl, hwritten⟩ | ⟨rfl, hstalled⟩⟩
    · exact ⟨hkept, hcovered, hwithin⟩
    · -- the registry was among `held` before it was written
      exact ⟨⟨hkept.wired, hkept.ordered, hwritten.mirrors.synced, fun _ => hwritten.mirrors⟩,
        (hwritten.mirrors.covered hkept.ordered.proper).mono hwithin, hwithin⟩
    · refine ⟨⟨hkept.wired, hkept.ordered, hstalled.synced hkept.synced, fun hclean => ?_⟩,
        hstalled.covered _ hwithin hcovered, hwithin⟩
      rw [hdirty] at hclean
      cases hclean
  | failed =>
    rw [hretry] at hout
    exact absurd hout.1 not_false
  -- what survives is what was stored before, or what the retry has written
  | crashed =>
    rw [hretry] at hout
    obtain ⟨-, b', rfl, hsurvived, -⟩ := hout
    refine { hs with process := ?_ }
    exact ⟨hsurvived.sane hkept.synced.sane, hsurvived.covered _ hwithin hcovered⟩

/-! ### Restarts -/

variable {A : Fate → Prop} {opts : KeyStoreLoadOptions} {now : Stamp} {db : Db} {macKey : GoString}

/-- A provider that has loaded is in step with its store. -/
theorem Reloaded.kept (hA : ¬Txn.CanFail A) (hsane : db.Sane)
    (h : Reloaded A opts now (.new db macKey true) p) : Kept p ∧ p.dirty = false := by
  cases h with
  | fresh hmeta =>
    have hmirrors : Mirrors (∅ : GoMap GoString DynamicKeyEntry) ⟨db, macKey, 0, none⟩ :=
      ⟨.inl ⟨rfl, hmeta⟩, fun _ _ => rfl, fun hne => absurd rfl hne⟩
    exact ⟨⟨rfl, .new, hmirrors.synced, fun _ => hmirrors⟩, rfl⟩
  | discarded hwritten =>
    exact ⟨⟨rfl, .new, hwritten.mirrors.synced, fun _ => hwritten.mirrors⟩, rfl⟩
  | @restored m b₁ b' husable hprep hmirrors =>
    -- no transaction fails, and generation 0 is never stored
    have hmirrors := (hmirrors.resolve_left hA).resolve_left (hsane m husable.before)
    exact ⟨⟨rfl, ⟨(restored_restore (keyed_liveKeys _)).inverse, proper_restored _⟩,
      hmirrors.synced, fun _ => hmirrors⟩, rfl⟩

/-- What it has loaded could be restored. -/
theorem Reloaded.covered (h : Reloaded A opts now (.new db macKey true) p)
    {S : GoString → DynamicKeyEntry → Prop} (hS : db.Covered S)
    (he : p.registry.byID.lookup id = some e) :
    ∃ e₀, S id e₀ ∧ canonical e = canonical e₀ := by
  cases h with
  | fresh | discarded => cases he
  | restored husable => exact restored_covered husable hS he

theorem consistent_start (hs : s.Consistent) (hdown : s.process = .down db) {cfg : Start}
    (hopened : cfg.opened = true) (hfates : ∀ f ∈ cfg.fates, f.Unfailing) :
    (s.afterStart (cfg.boot db)).Consistent ∧ ∀ p, (s.afterStart (cfg.boot db)).process = .up p →
      p.registry.Ordered ∧ ∀ id e, Among p.registry.byID id e → AmongAny s.held id e := by
  obtain ⟨hsane, hcovered⟩ := hs.of_process hdown
  unfold Start.boot
  rw [hopened]
  have hcleanup : ∀ f ∈ cfg.cleanup, (fun _ => True) f := fun _ _ => trivial
  have hout := wp_wireKeyStore Txn.not_canFail_unfailing db cfg.macKey cfg.opts cfg.now hcleanup
    cfg.fates hfates
  cases hstart : wireKeyStore cfg.opts cfg.now cfg.cleanup (.new db cfg.macKey true) cfg.fates with
  | returned u p =>
    rw [hstart] at hout
    obtain ⟨hkept, hdirty⟩ := hout.1.kept Txn.not_canFail_unfailing hsane
    -- what is loaded was covered by the database
    have hold : ∀ id e, Among p.registry.byID id e → AmongAny s.held id e := by
      rintro id e ⟨e', he', hcanonical⟩
      obtain ⟨e₀, ⟨r, hr, e₁, he₁, hcanonical₁⟩, hcanonical₀⟩ := hout.1.covered hcovered he'
      exact ⟨r, hr, e₁, he₁, hcanonical.trans (hcanonical₀.trans hcanonical₁)⟩
    refine ⟨⟨hkept.consistent hdirty, fun id e he => ?_, hs.since, fun r hr => ?_⟩, ?_⟩
    · exact hs.within id e (hold id e (amongAny_singleton.mp he))
    · exact mem_singleton.mp hr ▸ hkept.ordered
    · intro p' hp'
      cases hp'
      exact ⟨hkept.ordered, hold⟩
  | failed =>
    rw [hstart] at hout
    exact absurd hout.1 not_false
  | crashed =>
    rw [hstart] at hout
    refine ⟨{ hs with process := ⟨hout.1.sane hsane, ?_⟩ }, fun p' hp' => by cases hp'⟩
    exact hout.1.covered _ (fun _ he => absurd he not_mem_nil) hcovered

/-- **Every step keeps the node consistent**, if its start is sound. -/
theorem consistent_step {s t : Node} {a : NodeAct} (hs : s.Consistent) (ha : SoundStart s a)
    (hstep : keyNode.step s a = some t) : t.Consistent := by
  cases Node.step_moved hstep with
  | mutated hup => exact consistent_mutate hs hup _ _ _
  | retried hup => exact consistent_retry hs hup _ _
  | closed hup =>
    obtain ⟨⟨hwired, hordered, hsynced, hmirrors⟩, hcovered, hwithin⟩ := hs.of_process hup
    refine { hs with process := ?_ }
    unfold closeKeyStore
    rw [if_pos hwired]
    exact ⟨⟨hwired, hordered, hsynced, hmirrors⟩, hcovered, hwithin⟩
  | crashed hup =>
    -- what is stored is all that is left of the process
    exact { hs with process := ⟨(hs.of_process hup).1.synced.sane, (hs.of_process hup).2.1⟩ }
  | started hdown => exact (consistent_start hs hdown ha.1 ha.2).1

theorem consistent_of_reachVia (hs : keyNode.ReachVia SoundStart s) : s.Consistent := by
  refine hs.induction (fun s hs => ?_) fun s a t hs ha hstep => consistent_step hs ha hstep
  obtain rfl := hs
  exact consistent_fresh

/-! ### What a restart restores -/

theorem snapshotCopy_eq_of_canonical {e e' : DynamicKeyEntry} (h : canonical e = canonical e')
    (he : normalizeAndValidateKeyEntry e = .ok e) (he' : normalizeAndValidateKeyEntry e' = .ok e') :
    snapshotCopy e = snapshotCopy e' := by
  have hcanonical : ∀ e : DynamicKeyEntry, normalizeAndValidateKeyEntry e = .ok e →
      canonical e = snapshotCopy e := by
    intro e he
    obtain ⟨-, -, hcheck⟩ := normalizeAndValidateKeyEntry_ok he
    unfold canonical
    rw [toLower_of_lowerHex (checkKeyEntry_ok hcheck).2]
    rfl
  rw [← hcanonical e he, ← hcanonical e' he', h]

theorem Registry.authenticate_eq_some_iff {now : Time} {hash : String} : r.authenticate now hash =
    some e ↔
      r.byHash.lookup hash = some e ∧ e.enabled = true ∧ e.expired now = false := by
  unfold Registry.authenticate
  simp

/-- Registries in order: the keys by id give those by hash. -/
theorem restores_of_among {rs : List Registry} (hr : r.Ordered)
    (hrs : ∀ r' ∈ rs, r'.Ordered) (h : ∀ id e, Among r.byID id e → AmongAny rs id e) :
    Restores r rs := by
  have hids : ∀ id e, r.byID.lookup id = some e → ∃ r' ∈ rs, ∃ e', r'.byID.lookup id = some e' ∧
      snapshotCopy e = snapshotCopy e' := by
    intro id e he
    obtain ⟨r', hr', e', he', hcanonical⟩ := h id e ⟨e, he, rfl⟩
    exact ⟨r', hr', e', he', snapshotCopy_eq_of_canonical hcanonical (hr.proper id e he).2
      ((hrs r' hr').proper id e' he').2⟩
  refine ⟨hids, fun now hash e he => ?_⟩
  obtain ⟨hlookup, henabled, hexpired⟩ := Registry.authenticate_eq_some_iff.mp he
  -- the key by hash is the key by its id, which another registry has; there it has the same
  -- hash
  obtain ⟨rfl, hid⟩ := hr.inverse.ofHash hash e hlookup
  obtain ⟨r', hr', e', he', hcopy⟩ := hids e.id e hid
  refine ⟨r', hr', e', Registry.authenticate_eq_some_iff.mpr ⟨?_, ?_, ?_⟩, hcopy⟩
  · have hhash : e.keyHash = e'.keyHash := by
      change (snapshotCopy e).keyHash = (snapshotCopy e').keyHash
      rw [hcopy]
    rw [hhash]
    exact ((hrs r' hr').inverse.ofID e.id e' he').2
  · rw [← henabled]
    change (snapshotCopy e').enabled = (snapshotCopy e).enabled
    rw [hcopy]
  · rw [← hexpired]
    change (snapshotCopy e').expired now = (snapshotCopy e).expired now
    rw [hcopy]

/-- **A restart restores only keys of the registries since the last acknowledged mutation**, and
only keys of those since the last start. -/
theorem restart_restores_only {s t : Node} {cfg : Start} {p : DynamicKeyProvider}
    (hs : keyNode.ReachVia SoundStart s) (hcfg : SoundStart s (.start cfg))
    (hstep : keyNode.step s (.start cfg) = some t) (hup : t.process = .up p) :
    Restores p.registry s.since ∧ Restores p.registry s.held := by
  have hconsistent := consistent_of_reachVia hs
  change s.step (.start cfg) = some t at hstep
  cases Node.step_moved hstep with
  | started hdown =>
    obtain ⟨hordered, hheld⟩ := (consistent_start hconsistent hdown hcfg.1 hcfg.2).2 p hup
    exact ⟨restores_of_among hordered hconsistent.since fun id e he =>
      hconsistent.within id e (hheld id e he), restores_of_among hordered hconsistent.held hheld⟩

/-! ### Three lives of one key -/

def demoHash : String := "00000000000000000000000000000000000000000000000000000000000000aa"

def demoEntry : DynamicKeyEntry :=
  ⟨[107], demoHash, "", "acme", "k", true, none, none, ⟨0, 0, 0, 0, 0, none⟩⟩

def demoClock : Stamp := ⟨0, by decide⟩

/-- A start whose admission check accepts every key, or none. -/
def demoStart (admits : Bool) (fates : List Fate) : Start :=
  ⟨[1], true, ⟨none, fun _ => admits⟩, demoClock, fates, []⟩

def demoStored : List NodeAct :=
  [.start (demoStart true []), .mutate (.upsert [49] demoEntry) demoClock [], .crash]

instance (s : Node) (a : NodeAct) : Decidable (SoundStart s a) := by
  unfold SoundStart
  split <;> infer_instance

theorem restart_restores_stored_key : ∃ s t p, keyNode.run Node.fresh demoStored = some s ∧
      keyNode.step s (.start (demoStart true [])) = some t ∧ t.process = .up p ∧
      (p.registry.authenticate 0 demoHash).isSome ∧
      Restores p.registry s.since ∧ Restores p.registry s.held := by
  have hrun : ∃ s ∈ keyNode.run Node.fresh demoStored,
      ∃ t ∈ keyNode.step s (.start (demoStart true [])), ∃ p ∈ t.process.provider,
        (p.registry.authenticate 0 demoHash).isSome := by decide +kernel
  have halong : keyNode.Along SoundStart Node.fresh demoStored := by decide +kernel
  obtain ⟨s, hs, t, ht, p, hp, hauth⟩ := hrun
  have hup : t.process = .up p := Process.provider_eq_some hp
  exact ⟨s, t, p, hs, ht, hup, hauth, restart_restores_only ⟨_, _, rfl, halong, hs⟩
      ⟨rfl, fun _ hf => absurd hf not_mem_nil⟩ ht hup⟩

/-- A start skips the key and fails to remove its record; then a full replace without it is
acknowledged, by a `Touch`, since the registry had no key before it either. -/
def demoReplaced : List NodeAct :=
  demoStored ++ [.start (demoStart false [.commit, .fail []]),
    .mutate (.replaceAll [50] []) demoClock [], .crash]

/-- **A key comes back** after the acknowledged replace that left it out. -/
theorem skipped_key_returns : ∃ s ∈ keyNode.run Node.fresh demoReplaced,
      ∃ t ∈ keyNode.step s (.start (demoStart true [])), ∃ p ∈ t.process.provider,
        (∀ r ∈ s.since, r.version = [50] ∧ r.authenticate 0 demoHash = none) ∧
        (p.registry.authenticate 0 demoHash).isSome ∧ ¬Restores p.registry s.since := by
  have hrun : ∃ s ∈ keyNode.run Node.fresh demoReplaced,
      ∃ t ∈ keyNode.step s (.start (demoStart true [])), ∃ p ∈ t.process.provider,
        (∀ r ∈ s.since, r.version = [50] ∧ r.authenticate 0 demoHash = none) ∧
        (p.registry.authenticate 0 demoHash).isSome := by decide +kernel
  obtain ⟨s, hs, t, ht, p, hp, hnone, hauth⟩ := hrun
  refine ⟨s, hs, t, ht, p, hp, hnone, hauth, fun hrestores => ?_⟩
  obtain ⟨e, he⟩ := isSome_iff_exists.mp hauth
  obtain ⟨r, hr, e', he', -⟩ := hrestores.2 0 demoHash e he
  rw [(hnone r hr).2] at he'
  cases he'

/-- The same where the database does not open: the key is deleted in memory only, which is
acknowledged. -/
example :
    ∃ s ∈ keyNode.run Node.fresh (demoStored ++ [.start { demoStart true [] with opened := false },
        .mutate (.delete [50] [107]) demoClock [], .crash]),
      ∃ t ∈ keyNode.step s (.start (demoStart true [])), ∃ p ∈ t.process.provider,
        (∀ r ∈ s.since, r.authenticate 0 demoHash = none) ∧
        (p.registry.authenticate 0 demoHash).isSome := by
  decide +kernel

end

/-!
## The registry invariant

Any sequence of calls on one provider, over any store, whether its transactions commit or fail:
the two indexes are inverse to each other, the version does not decrease, and a call that is
rejected changes nothing (`registry_invariant`).

A hash that was dropped, by a rotation or by a deletion, stays unknown until a call **stores** it.
A mutation stores the hashes of its entries. `LoadKeyStore` stores what it finds on disk, and this
need not be the registry that it replaces: if the write of a deletion failed, a second load brings
the key back (`reload_returns_key`).

What a call does to the registry does not depend on the store (`call_registry`): the programs of the
store are run by `onStore`, which leaves the registry as it is (`KeepsRegistry`).
-/

open Txn Mutation

/-! ### The registry in a call -/

/-- Whatever becomes of the transactions, the registry is not changed. -/
def KeepsRegistry {α : Type} (m : Txn DynamicKeyProvider α) : Prop :=
  ∀ p, wp (fun _ => True) m
    ⟨fun _ p' => p'.registry = p.registry, fun p' => p'.registry = p.registry,
      fun p' => p'.registry = p.registry⟩ p

variable {α : Type} {write : Txn DynamicKeyProvider Unit} {now : Stamp} {r : Registry}
  {hash : String}

theorem keepsRegistry_onStore (m : Txn BadgerKeyStore α) :
    KeepsRegistry (onStore m) := by
  intro p fates _
  unfold onStore zoom
  cases m p.store fates with
  | returned | failed => exact ⟨rfl, fun _ _ => trivial⟩
  | crashed => exact rfl

theorem keepsRegistry_rewriteLocked (now : Stamp) (confirmedAt : Option Stamp) :
    KeepsRegistry (rewriteLocked now confirmedAt) :=
  fun p => wp_bind (wp_get (keepsRegistry_onStore _ p))

theorem keepsRegistry_writeAll (before : Registry) (version : GoString) (now : Stamp) :
    KeepsRegistry (writeAll before version now) := by
  intro p
  refine wp_bind (wp_get ?_)
  dsimp only
  split_ifs
  · exact keepsRegistry_onStore _ p
  · exact keepsRegistry_rewriteLocked _ _ p

theorem KeepsRegistry.persistLocked (hwrite : KeepsRegistry write) (confirm : Bool) (now : Stamp) :
    KeepsRegistry (persistLocked confirm now write) := by
  intro p
  refine wp_bind (wp_get ?_)
  dsimp only
  split
  · exact wp_pure rfl
  -- a closed store, a dirty one and the write of the call: none of them touches the registry
  have hbody : wp (fun _ => True) (if p.closed then fail
      else if p.dirty then rewriteLocked now (if confirm then some now else none)
      else write)
      ⟨fun _ p' => p'.registry = p.registry, fun p' => p'.registry = p.registry,
        fun p' => p'.registry = p.registry⟩ p := by
    split
    · exact wp_fail rfl
    · split
      · exact keepsRegistry_rewriteLocked _ _ p
      · exact hwrite p
  exact wp_bind (wp_onFail (wp_mono hbody (fun _ _ h => wp_modify h) (fun _ h => h) fun _ h => h))

/-- What a call does to the registry, whatever becomes of its transactions. -/
def callPost (next : Except RegistryError Registry) (p : DynamicKeyProvider) :
    Post DynamicKeyProvider (Except RegistryError Unit) where
  returned res p' := (∃ err, next = .error err ∧ res = .error err ∧ p' = p) ∨
    next = .ok p'.registry ∧ res = .ok ()
  failed p' := next = .ok p'.registry
  crashed p' := next = .ok p'.registry

theorem wp_mutate_registry {next : Except RegistryError Registry} {confirm : Bool}
    (hwrite : KeepsRegistry write) (p : DynamicKeyProvider) :
    wp (fun _ => True) (mutate next confirm now write) (callPost next p) p := by
  cases next with
  | error err => exact wp_pure (.inl ⟨err, rfl, rfl, rfl⟩)
  | ok =>
    refine wp_bind (wp_modify (wp_bind (wp_mono (hwrite.persistLocked confirm now _) ?_ ?_ ?_)))
    · exact fun _ p' h => wp_pure (.inr ⟨congrArg Except.ok h.symm, rfl⟩)
    all_goals exact fun p' h => congrArg Except.ok h.symm

/-- **The effect of a call on the registry.** -/
theorem call_registry (μ : Mutation) (now : Stamp) (p : DynamicKeyProvider) :
    wp (fun _ => True) (μ.call now) (callPost (μ.next p.registry) p) p := by
  cases μ with
  | upsert version e =>
    unfold call DynamicKeyProvider.upsert Mutation.next
    dsimp only
    cases normalizeAndValidateKeyEntry e with
    | error err => exact wp_pure (.inl ⟨.invalid err, rfl, rfl, rfl⟩)
    | ok => exact wp_bind (wp_get (wp_mutate_registry (keepsRegistry_onStore _) p))
  | delete => exact wp_bind (wp_get (wp_mutate_registry (keepsRegistry_onStore _) p))
  | replaceAll => exact wp_bind (wp_get (wp_mutate_registry (keepsRegistry_writeAll _ _ _) p))

/-! ### Calls as a machine -/

inductive RegistryAct where
  | call (μ : Mutation) (now : Stamp) (fates : List Fate)
  | load (opts : KeyStoreLoadOptions) (now : Stamp) (fates cleanup : List Fate)

def Outcome.survivor {α : Type} : Outcome DynamicKeyProvider α → Option DynamicKeyProvider
  | .returned _ p _ | .failed p _ => some p
  | .crashed _ => none

/-- One provider, from the time it is made, with any store. The background retry and `CloseKeyStore`
are left out: they do not touch the registry. -/
def registryCalls : Machine DynamicKeyProvider RegistryAct where
  Init p := p.registry = .new
  step p
    | .call μ now fates => Outcome.survivor (μ.call now p fates)
    | .load opts now fates cleanup => Outcome.survivor (loadKeyStore opts now cleanup p fates)

def Mutation.Carries (hash : String) : Mutation → Prop
  | upsert _ e => toLower e.keyHash = hash
  | delete _ _ => False
  | replaceAll _ entries => ∃ e ∈ entries, toLower e.keyHash = hash

/-- The call stores the hash: it is accepted and has an entry with it, or finds one on
disk. -/
def Stores (hash : String) (p : DynamicKeyProvider) : RegistryAct → Prop
  | .call μ _ _ => (∃ r, μ.next p.registry = .ok r) ∧ μ.Carries hash
  | .load _ _ _ _ => ∃ id e, p.store.db.restorable id = some e ∧ toLower e.keyHash = hash

/-- The call drops the hash of a key: it gives the key another one, or removes the key. -/
def Mutation.Drops (hash : String) (r : Registry) : Mutation → Prop
  | upsert _ e => toLower e.keyHash ≠ hash ∧ ∃ old, r.byID.lookup e.id = some old ∧
      old.keyHash = hash
  | delete _ keyID => ∃ old, r.byID.lookup keyID = some old ∧ old.keyHash = hash
  | replaceAll _ entries => ∀ e ∈ entries, toLower e.keyHash ≠ hash

/-- What a load does to the registry: nothing, or it puts there what is on disk. -/
def Reloads (opts : KeyStoreLoadOptions) (now : Stamp) (p p' : DynamicKeyProvider) : Prop :=
  p'.registry = p.registry ∨ ∃ m b, Usable m p.store b ∧ p'.registry = restoredRegistry opts now p m

variable {p p' : DynamicKeyProvider} {opts : KeyStoreLoadOptions} {fates : List Fate} {μ : Mutation}

/-- An entry that is restored has passed the admission check and comes from a record on disk. -/
theorem restoredRegistry_source {m : Sealed (KeyStoreMeta String)} {b : BadgerKeyStore}
    (husable : Usable m p.store b) {id : GoString} {e : DynamicKeyEntry}
    (he : (restoredRegistry opts now p m).byID.lookup id = some e) :
    opts.admits e = true ∧
      ∃ e₀, p.store.db.restorable id = some e₀ ∧ e = { e₀ with keyHash := toLower e₀.keyHash } := by
  obtain ⟨pk, hpk, rfl, hcheck⟩ := (restored_restore (keyed_liveKeys _)).source id e he
  obtain ⟨v, e₀, hv, hopen, hvalid, -⟩ := restored_source he
  refine ⟨PersistedKey.admits_of_check hcheck, e₀, Db.restorable_eq_some_iff.mpr
    ⟨m, v, husable.before, hv, ?_⟩, (normalizeAndValidateKeyEntry_ok hvalid).1⟩
  rw [husable.sealed]
  exact hopen

theorem load_registry (opts : KeyStoreLoadOptions) (now : Stamp) (cleanup : List Fate)
    (p : DynamicKeyProvider) :
    wp (fun _ => True) (loadKeyStore opts now cleanup)
      ⟨fun _ => Reloads opts now p, Reloads opts now p, fun _ => True⟩ p := by
  by_cases hwired : p.wired = true
  · have hcleanup : ∀ f ∈ cleanup, (fun _ => True) f := fun _ _ => trivial
    refine wp_mono (wp_loadKeyStore hcleanup hwired) ?_ (fun _ h => .inl h.2) fun _ _ => trivial
    intro _ p' hreloaded
    cases hreloaded with
    | fresh | discarded => exact .inl rfl
    | restored husable => exact .inr ⟨_, _, husable, rfl⟩
  · -- without a store there is nothing to load
    refine wp_bind (wp_get ?_)
    dsimp only
    rw [if_pos (by simpa using hwired)]
    exact wp_pure (.inl rfl)

/-- The same for a start: if the store cannot be used, the registry is empty. -/
theorem wireKeyStore_registry (opts : KeyStoreLoadOptions) (now : Stamp) (cleanup : List Fate)
    (p : DynamicKeyProvider) :
    wp (fun _ => True) (wireKeyStore opts now cleanup)
      ⟨fun _ p' => p'.registry = .new ∨ Reloads opts now p p', fun _ => False,
        fun _ => True⟩ p := by
  refine wp_bind (wp_get ?_)
  dsimp only
  split_ifs with hwired
  · exact wp_modify (.inl rfl)
  · refine wp_bind
      (wp_attempt (wp_mono (load_registry opts now cleanup p) ?_ ?_ fun _ _ => trivial))
    · exact fun _ p' h => wp_pure (.inr h)
    · -- a load that fails degrades the provider, and its registry is empty
      exact fun p' h => wp_modify (.inl rfl)

/-! ### One step -/

theorem survivor_of_wp {m : Txn DynamicKeyProvider α} {Q : Post DynamicKeyProvider α}
    (h : wp (fun _ => True) m Q p) (hp' : Outcome.survivor (m p fates) = some p') :
    (∃ a, Q.returned a p') ∨ Q.failed p' := by
  have hout := h fates fun _ _ => trivial
  cases hrun : m p fates with
  | returned a =>
    rw [hrun] at hout hp'
    obtain rfl := some.inj hp'
    exact .inl ⟨a, hout.1⟩
  | failed =>
    rw [hrun] at hout hp'
    obtain rfl := some.inj hp'
    exact .inr hout.1
  | crashed =>
    rw [hrun] at hp'
    cases hp'

/-- After a call: it was rejected and nothing has changed, or it was accepted and the registry is
the next one. -/
theorem step_call (h : registryCalls.step p (.call μ now fates) = some p') :
    (∃ err, μ.next p.registry = .error err) ∧ p' = p ∨ μ.next p.registry = .ok p'.registry := by
  rcases survivor_of_wp (call_registry μ now p) h with ⟨res, hcall⟩ | hcall
  · rcases hcall with ⟨err, herr, -, hp'⟩ | ⟨hok, -⟩
    · exact .inl ⟨⟨err, herr⟩, hp'⟩
    · exact .inr hok
  · exact .inr hcall

theorem step_load {cleanup : List Fate}
    (h : registryCalls.step p (.load opts now fates cleanup) = some p') :
    Reloads opts now p p' := by
  rcases survivor_of_wp (load_registry opts now cleanup p) h with ⟨_, hload⟩ | hload
  all_goals exact hload

variable {a : RegistryAct}

/-- **A step keeps the registry in order**, and the version does not decrease. -/
theorem step_ordered (hp : p.registry.Ordered) (h : registryCalls.step p a = some p') :
    p'.registry.Ordered ∧ p.registry.version ≤ p'.registry.version := by
  cases a with
  | call =>
    rcases step_call h with ⟨-, rfl⟩ | hnext
    · exact ⟨hp, le_rfl⟩
    · exact next_ordered hp hnext
  | load =>
    rcases step_load h with hsame | ⟨m, b, husable, hrestored⟩
    · rw [hsame]
      exact ⟨hp, le_rfl⟩
    · rw [hrestored]
      refine ⟨⟨(restored_restore (keyed_liveKeys _)).inverse, proper_restored _⟩, ?_⟩
      unfold restoredRegistry
      -- the version on disk is taken only if it is newer
      split_ifs with hnewer
      · exact le_of_lt hnewer
      · exact le_rfl

/-- The hash of an entry after an accepted call: one of the entries of the call has it, or an entry
that was there before had it and the call does not drop it. -/
theorem Mutation.hash_of_next {r' : Registry} (hr : r.Inverse) {y : DynamicKeyEntry}
    (h : μ.next r = .ok r') (hy : r'.byHash.lookup hash = some y) :
    μ.Carries hash ∨ r.byHash.lookup hash = some y ∧ ¬μ.Drops hash r := by
  cases μ with
  | upsert =>
    unfold Mutation.next at h
    dsimp only at h
    split at h
    · cases h
    next e' hvalid =>
    obtain ⟨rfl, -⟩ := normalizeAndValidateKeyEntry_ok hvalid
    obtain ⟨-, rfl, -⟩ := upsert_eq_ok h
    -- the hash is that of the new entry, or of an entry with another id
    rcases hr.lookup_store.mp hy with ⟨hhash, -⟩ | ⟨-, hbefore, hid⟩
    · exact .inl hhash.symm
    · refine .inr ⟨hbefore, ?_⟩
      rintro ⟨-, old, hold, rfl⟩
      exact hid (hr.id_of_hash hold hbefore)
  | delete =>
    obtain ⟨-, rfl⟩ := delete_eq_ok h
    obtain ⟨hbefore, hid⟩ := hr.lookup_remove.mp hy
    refine .inr ⟨hbefore, ?_⟩
    rintro ⟨old, hold, rfl⟩
    exact hid (hr.id_of_hash hold hbefore)
  | replaceAll version entries =>
    obtain ⟨entries', hvalid, -, hhashes, -, rfl⟩ := replaceAll_eq_ok h
    -- nothing is left of the entries before, so the hash is in the request
    obtain ⟨hmem, hhash⟩ := (GoMap.lookup_indexBy_eq_some_iff hhashes).mp hy
    obtain ⟨e, he, hnormal⟩ := exists_of_validateFrom hvalid hmem
    refine .inl ⟨e, he, ?_⟩
    rw [← hhash, (normalizeAndValidateKeyEntry_ok hnormal).1]

theorem Mutation.Drops.not_carries (h : μ.Drops hash r) : ¬μ.Carries hash := by
  cases μ with
  | upsert => exact h.1
  | delete => exact not_false
  | replaceAll =>
    rintro ⟨e, he, hhash⟩
    exact h e he hhash

/-- The registry is in order, and the hash is not known. -/
structure Unknown (hash : String) (p : DynamicKeyProvider) : Prop where
  ordered : p.registry.Ordered
  unknown : p.registry.byHash.lookup hash = none

/-- **An unknown hash stays unknown** unless the step stores it. -/
theorem Unknown.step (hp : Unknown hash p) (hstores : ¬Stores hash p a)
    (h : registryCalls.step p a = some p') :
    Unknown hash p' := by
  refine ⟨(step_ordered hp.ordered h).1, eq_none_iff_forall_ne_some.mpr fun y hy => ?_⟩
  cases a with
  | call =>
    rcases step_call h with ⟨-, rfl⟩ | hnext
    · rw [hp.unknown] at hy
      cases hy
    · rcases hash_of_next hp.ordered.inverse hnext hy with hcarries | ⟨hbefore, -⟩
      · exact hstores ⟨⟨_, hnext⟩, hcarries⟩
      · rw [hp.unknown] at hbefore
        cases hbefore
  | load =>
    rcases step_load h with hsame | ⟨m, b, husable, hrestored⟩
    · rw [hsame, hp.unknown] at hy
      cases hy
    · rw [hrestored] at hy
      -- an entry that is restored is on disk, with its hash up to the case
      obtain ⟨hhash, hbyID⟩ := (restored_restore (keyed_liveKeys _)).inverse.ofHash hash y hy
      obtain ⟨-, e₀, he₀, hy₀⟩ := restoredRegistry_source husable hbyID
      refine hstores ⟨y.id, e₀, he₀, ?_⟩
      rw [← hhash, hy₀]

/-! ### Whole runs -/

theorem reachable_ordered (h : registryCalls.Reachable p) : p.registry.Ordered := by
  refine h.induction (I := fun p => p.registry.Ordered) ?_ ?_
  · intro p hp
    rw [show p.registry = .new from hp]
    exact .new
  · exact fun p a p' hp hstep => (step_ordered hp hstep).1

theorem run_version {acts : List RegistryAct} (hp : p.registry.Ordered)
    (h : registryCalls.run p acts = some p') :
    p.registry.version ≤ p'.registry.version := by
  have hkeeps : ∀ q a q', q.registry.Ordered ∧ p.registry.version ≤ q.registry.version →
      registryCalls.step q a = some q' →
      q'.registry.Ordered ∧ p.registry.version ≤ q'.registry.version := by
    rintro q a q' ⟨hq, hle⟩ hstep
    obtain ⟨hq', hle'⟩ := step_ordered hq hstep
    exact ⟨hq', hle.trans hle'⟩
  exact (Machine.run_preserves hkeeps ⟨hp, le_rfl⟩ h).2

/-- **The registry invariant.** In every state that calls of the three mutations and of
`LoadKeyStore` lead to: the indexes are inverse, and no two keys have one hash; the version does not
decrease afterwards; a rejected call changes nothing; and a hash that an accepted call drops is not
authenticated afterwards, until a call stores it again. -/
theorem registry_invariant {p : DynamicKeyProvider} (hp : registryCalls.Reachable p) :
    p.registry.Inverse ∧
    (∀ id id' e e', p.registry.byID.lookup id = some e → p.registry.byID.lookup id' = some e' →
      e.keyHash = e'.keyHash → id = id') ∧
    (∀ acts p', registryCalls.run p acts = some p' → p.registry.version ≤ p'.registry.version) ∧
    (∀ μ now fates err p' rest, Mutation.call now μ p fates = .returned (.error err) p' rest →
      p' = p) ∧
    (∀ μ now fates p₁ hash, registryCalls.step p (.call μ now fates) = some p₁ →
      (∃ r, μ.next p.registry = .ok r) → μ.Drops hash p.registry →
      ∀ acts p₂ now, registryCalls.Along (fun q a => ¬Stores hash q a) p₁ acts →
        registryCalls.run p₁ acts = some p₂ → p₂.registry.authenticate now hash = none) := by
  have hordered := reachable_ordered hp
  refine ⟨hordered.inverse, fun id id' e e' => hordered.inverse.eq_of_hash,
    fun acts p' => run_version hordered, ?_, ?_⟩
  · intro μ now fates err p' rest hcall
    have hout := call_registry μ now p fates fun _ _ => trivial
    rw [hcall] at hout
    rcases hout.1 with ⟨_, _, _, hsame⟩ | ⟨_, hok⟩
    · exact hsame
    · cases hok
  · intro μ now fates p₁ hash hstep ⟨r, hr⟩ hdrops acts p₂ now' halong hrun
    -- the call was accepted, and so the registry is the next one
    have hnext : μ.next p.registry = .ok p₁.registry := by
      rcases step_call hstep with ⟨⟨err, herr⟩, -⟩ | hnext
      · rw [herr] at hr
        cases hr
      · exact hnext
    have hunknown : Unknown hash p₁ := by
      refine ⟨(step_ordered hordered hstep).1, eq_none_iff_forall_ne_some.mpr ?_⟩
      intro y hy
      rcases Mutation.hash_of_next hordered.inverse hnext hy with hcarries | ⟨-, hnot⟩
      · exact hdrops.not_carries hcarries
      · exact hnot hdrops
    -- the hash is unknown from here on, step by step
    have hend := Machine.run_induction (fun _ _ _ h => h.step) acts p₁ p₂ hunknown halong hrun
    unfold Registry.authenticate
    rw [hend.unknown]
    rfl

/-! ### A key that comes back -/

def demoProvider : DynamicKeyProvider := .new ⟨none, ∅⟩ [1] true

theorem registry_invariant_deleted_key :
    ∃ p₁ ∈ registryCalls.run demoProvider [.call (.upsert [49] demoEntry) demoClock []],
    ∃ p₂ ∈ registryCalls.step p₁ (.call (.delete [50] [107]) demoClock []),
      (p₁.registry.authenticate 0 demoHash).isSome ∧ p₁.registry.Inverse ∧
      p₂.registry.authenticate 0 demoHash = none := by
  have hrun : ∃ p₁ ∈ registryCalls.run demoProvider [.call (.upsert [49] demoEntry) demoClock []],
      ∃ p₂ ∈ registryCalls.step p₁ (.call (.delete [50] [107]) demoClock []),
      (p₁.registry.authenticate 0 demoHash).isSome ∧
      ((Mutation.delete [50] [107]).next p₁.registry).toOption.isSome ∧
      ∃ old ∈ p₁.registry.byID.lookup [107], old.keyHash = demoHash := by
    decide +kernel
  obtain ⟨p₁, hp₁, p₂, hp₂, hauth, hnext, hdrops⟩ := hrun
  obtain ⟨hinverse, -, -, -, hdropped⟩ := registry_invariant ⟨demoProvider, _, rfl, hp₁⟩
  exact ⟨p₁, hp₁, p₂, hp₂, hauth, hinverse,
    hdropped _ _ _ p₂ demoHash hp₂ (exists_eq_ok hnext) hdrops [] p₂ 0 trivial rfl⟩

/-- **A deleted key comes back** with no mutation in between: the write of the deletion fails, and
`LoadKeyStore` finds the record that is left. -/
theorem reload_returns_key :
    ∃ p₁ ∈ registryCalls.run demoProvider [.call (.upsert [49] demoEntry) demoClock [],
      .call (.delete [50] [107]) demoClock [.fail []]],
    ∃ p₂ ∈ registryCalls.step p₁ (.load ⟨none, fun _ => true⟩ demoClock [] []),
      p₁.registry.version = [50] ∧ p₁.registry.authenticate 0 demoHash = none ∧
      (p₂.registry.authenticate 0 demoHash).isSome := by
  decide +kernel

end HivenetRouter.Auth
