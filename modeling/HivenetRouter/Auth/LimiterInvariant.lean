import HivenetRouter.Auth.Quota

/-!
# The invariant of the persisted quota

`BadgerLimiter.tally` reads the tally of a key off the limiter. `Memory` says that all tallies
are sound and that the objects of the two maps are distinct; `Memory.setBucket`,
`Memory.adopt`, `Memory.locked` and the others are what the operations of the limiter do to
it.

A process relies on what it has found (`LimiterProc.OK`), and goes on relying on it while
others make their steps: `Frame` is what a step leaves of it, and `Frame.ok` says that it is
enough. `Normal` puts both together; `Normal.goOn` and `Normal.finish` are the two ways in
which a step of a process ends.
-/

namespace HivenetRouter.Auth

open Function Finmap Option BadgerLimiter Tally

/-! ### What a process relies on -/

namespace BadgerLimiter

variable {s t m : BadgerLimiter} {pid g ref : ℕ} {key : String}

/-- What the limiter has about a bucket. -/
def tally (s : BadgerLimiter) (key : String) : Tally where
  bucket := (s.dailyBuckets.lookup key).map s.buckets
  gate := (s.initOnce.lookup key).map s.gates
  stored := s.stored key
  accepted := s.accepted key

def Loaded (s : BadgerLimiter) (key : String) : Prop := (s.tally key).gate = some .done

def Runs (s : BadgerLimiter) (pid : ℕ) (key : String) (g : ℕ) : Prop :=
  s.initOnce.lookup key = some g ∧ s.gates g = .running pid

/-- What has been accepted is stored, but for some keys. -/
def Covered (s : BadgerLimiter) (todo : Finset String) : Prop :=
  ∀ key, key ∉ todo → s.accepted key ≤ s.stored key

/-- There is no other process. -/
def Alone (s : BadgerLimiter) (pid : ℕ) : Prop := ∀ q p, s.procs.lookup q = some p → q = pid

theorem Runs.gate (h : s.Runs pid key g) : (s.tally key).gate = some (.running pid) := by
  change (s.initOnce.lookup key).map s.gates = _
  rw [h.1, map_some, h.2]

theorem Runs.not_loaded (h : s.Runs pid key g) : (s.tally key).gate ≠ some .done := by
  rw [h.gate]
  rintro ⟨⟩

theorem tally_bucket (h : s.dailyBuckets.lookup key = some ref) :
    (s.tally key).bucket = some (s.buckets ref) := by
  change (s.dailyBuckets.lookup key).map s.buckets = _
  rw [h]
  rfl

theorem tally_bucket_none (h : s.dailyBuckets.lookup key = none) : (s.tally key).bucket = none := by
  change (s.dailyBuckets.lookup key).map s.buckets = _
  rw [h]
  rfl

end BadgerLimiter

namespace QuotaStage

def OK (s : BadgerLimiter) (pid : ℕ) (c : QuotaCall) : QuotaStage → Prop
  | .entered => True
  | .gated g => s.initOnce.lookup c.bucket = some g
  | .preloading g => s.Runs pid c.bucket g
  | .read g v => s.Runs pid c.bucket g ∧ s.stored c.bucket = v
  | .readMissed g v => s.Runs pid c.bucket g ∧ s.stored c.bucket = v
  | .adopting g v ref =>
    s.Runs pid c.bucket g ∧ s.stored c.bucket = v ∧ s.dailyBuckets.lookup c.bucket = some ref
  | .preloaded => s.Loaded c.bucket
  | .missed => s.Loaded c.bucket ∧ unlimited c = false
  | .located ref =>
    s.Loaded c.bucket ∧ unlimited c = false ∧ s.dailyBuckets.lookup c.bucket = some ref

end QuotaStage

namespace FlushStage

def left : FlushStage → Finset String
  | .ranging todo => todo
  | .storing key _ todo => insert key todo

def Located (s : BadgerLimiter) : FlushStage → Prop
  | .ranging _ => True
  | .storing key ref _ => s.dailyBuckets.lookup key = some ref

end FlushStage

namespace LimiterProc

/-- What a process relies on. The last two phases of a reset are apart. -/
def OK (s : BadgerLimiter) (pid : ℕ) : LimiterProc → Prop
  | .call c stage => stage.OK s pid c
  | .flush since stage =>
    stage.Located s ∧ since ≤ s.charges ∧ (since = s.charges → s.Covered stage.left)
  | .reset (.flushing stage) => stage.Located s ∧ s.Covered stage.left
  | .reset _ => False
  | .sweep _ => True

/-- The gate that the process is behind, with its key. -/
def gate : LimiterProc → Option (String × ℕ)
  | .call c stage => stage.gate.map fun g => (c.bucket, g)
  | _ => none

end LimiterProc

namespace BadgerLimiter

variable {s t m : BadgerLimiter} {pid g ref : ℕ} {key : String} {p : LimiterProc} {x : Gate}

/-- What a step of the process leaves to the others. -/
structure Frame (pid : ℕ) (s t : BadgerLimiter) : Prop where
  day : t.day = s.day
  procs : t.procs = s.procs
  gate : ∀ key g, s.initOnce.lookup key = some g → t.initOnce.lookup key = some g
  loaded : ∀ key, s.Loaded key → t.Loaded key
  runs : ∀ q, q ≠ pid → ∀ key g, t.Runs q key g ↔ s.Runs q key g
  bucket : ∀ key ref, s.dailyBuckets.lookup key = some ref → s.Held ref →
    t.dailyBuckets.lookup key = some ref
  stored : ∀ q, q ≠ pid → ∀ key g, s.Runs q key g → t.stored key = s.stored key
  stored_le : ∀ key, s.stored key ≤ t.stored key
  charges : s.charges ≤ t.charges
  accepted : t.charges = s.charges → t.accepted = s.accepted

namespace Frame

theorem refl (pid : ℕ) (s : BadgerLimiter) : Frame pid s s :=
  ⟨rfl, rfl, fun _ _ h => h, fun _ h => h, fun _ _ _ _ => Iff.rfl, fun _ _ h _ => h,
    fun _ _ _ _ _ => rfl, fun _ => le_rfl, le_rfl, fun _ => rfl⟩

theorem held (h : Frame pid s t) {ref : ℕ} : t.Held ref ↔ s.Held ref := by
  unfold Held
  rw [h.procs]

theorem trans {u : BadgerLimiter} (hst : Frame pid s t) (htu : Frame pid t u) : Frame pid s u where
  day := htu.day.trans hst.day
  procs := htu.procs.trans hst.procs
  gate key g h := htu.gate key g (hst.gate key g h)
  loaded key h := htu.loaded key (hst.loaded key h)
  runs q hq key g := (htu.runs q hq key g).trans (hst.runs q hq key g)
  bucket key ref h hheld := htu.bucket key ref (hst.bucket key ref h hheld) (hst.held.mpr hheld)
  stored q hq key g h :=
    (htu.stored q hq key g ((hst.runs q hq key g).mpr h)).trans (hst.stored q hq key g h)
  stored_le key := le_trans (hst.stored_le key) (htu.stored_le key)
  charges := le_trans hst.charges htu.charges
  accepted h := by
    have ht : t.charges = s.charges := le_antisymm (h ▸ htu.charges) hst.charges
    exact (htu.accepted (h.trans ht.symm)).trans (hst.accepted ht)

/-- The gates and the store are as they were. -/
theorem of_same (hday : t.day = s.day) (hprocs : t.procs = s.procs)
    (hinitOnce : t.initOnce = s.initOnce) (hgates : t.gates = s.gates) (hstore : t.store = s.store)
    (hbucket : ∀ key ref, s.dailyBuckets.lookup key = some ref → s.Held ref →
      t.dailyBuckets.lookup key = some ref)
    (hcharges : s.charges ≤ t.charges)
    (haccepted : t.charges = s.charges → t.accepted = s.accepted) :
    Frame pid s t := by
  have hstored : ∀ key, t.stored key = s.stored key := by
    intro key
    unfold BadgerLimiter.stored
    rw [hstore]
  refine ⟨hday, hprocs, fun key g h => hinitOnce ▸ h, fun key h => ?_, fun q _ key g => ?_, hbucket,
    fun _ _ key _ _ => hstored key, fun key => (hstored key).ge, hcharges, haccepted⟩
  · change (t.initOnce.lookup key).map t.gates = some .done
    rw [hinitOnce, hgates]
    exact h
  · unfold Runs
    rw [hinitOnce, hgates]

/-- **A process can go on relying on what it has found.** -/
theorem ok (h : Frame pid s t) {q : ℕ} (hq : q ≠ pid) {p : LimiterProc}
    (hp : s.procs.lookup q = some p) (hreset : p.isReset = false) (hok : p.OK s q) : p.OK t q := by
  -- The bucket that the process has got stays in the map.
  have hheld : ∀ key ref, p.holds = some ref → s.dailyBuckets.lookup key = some ref →
      t.dailyBuckets.lookup key = some ref := by
    intro key ref hholds hkey
    have hq : q ∈ s.procs.keys := mem_keys.mpr (GoMap.mem_of_lookup hp)
    exact h.bucket key ref hkey ⟨q, hq, p, hp, hholds⟩
  cases p with
  | call c stage =>
    cases stage with
    | entered => trivial
    | gated g => exact h.gate _ g hok
    | preloading g => exact (h.runs q hq _ g).mpr hok
    | read g v
    | readMissed g => exact ⟨(h.runs q hq _ g).mpr hok.1, (h.stored q hq _ g hok.1).trans hok.2⟩
    | adopting g v ref =>
      exact ⟨(h.runs q hq _ g).mpr hok.1, (h.stored q hq _ g hok.1).trans hok.2.1,
        hheld _ ref rfl hok.2.2⟩
    | preloaded => exact h.loaded _ hok
    | missed => exact ⟨h.loaded _ hok.1, hok.2⟩
    | located ref => exact ⟨h.loaded _ hok.1, hok.2.1, hheld _ ref rfl hok.2.2⟩
  | flush since stage =>
    obtain ⟨hlocated, hsince, hcovered⟩ := hok
    refine ⟨?_, le_trans hsince h.charges, fun heq key hkey => ?_⟩
    · cases stage with
      | ranging => trivial
      | storing key ref => exact hheld key ref rfl hlocated
    · -- Nothing has been charged meanwhile, and no counter in the store has gone down.
      have hcharges : s.charges = since := le_antisymm (heq ▸ h.charges) hsince
      rw [h.accepted (heq.symm.trans hcharges.symm)]
      exact le_trans (hcovered hcharges.symm key hkey) (h.stored_le key)
  | reset => cases hreset
  | sweep => trivial

end Frame

/-- The part of the invariant that is about the memory and the store. -/
structure Memory (s : BadgerLimiter) : Prop where
  sound : ∀ key, (s.tally key).Sound s.day
  buckets : Distinct s.dailyBuckets s.nextBucket
  gates : Distinct s.initOnce s.nextGate

/-- **The invariant**: each process is where its gates and the memory allow it to be, a gate that
runs belongs to a process, a reset is alone, and a flush that nothing was charged after covers the
store. -/
structure Normal (s : BadgerLimiter) : Prop where
  memory : s.Memory
  procs : ∀ pid p, s.procs.lookup pid = some p → p.OK s pid
  running : ∀ pid key g, s.Runs pid key g →
    ∃ p, s.procs.lookup pid = some p ∧ p.gate = some (key, g)
  alone : ∀ pid p, s.procs.lookup pid = some p → p.isReset → s.Alone pid
  flushed : ∀ since, s.flushed = some since → since ≤ s.charges ∧ (since = s.charges → s.Covered ∅)

/-- No other process is a reset. -/
def Undisturbed (s : BadgerLimiter) (pid : ℕ) : Prop :=
  ∀ q p, q ≠ pid → s.procs.lookup q = some p → p.isReset = false

/-- The process has changed the memory; the others are where they were. -/
theorem Normal.resume (h : s.Normal) (hothers : s.Undisturbed pid) (hframe : Frame pid s m)
    (hmemory : m.Memory) {procs : GoMap ℕ LimiterProc}
    (hsame : ∀ q, q ≠ pid → procs.lookup q = s.procs.lookup q)
    (hok : ∀ p, procs.lookup pid = some p → p.OK m pid)
    (hgate : ∀ key g, m.Runs pid key g → ∃ p, procs.lookup pid = some p ∧ p.gate = some (key, g))
    (halone : ∀ p, procs.lookup pid = some p → p.isReset → s.Alone pid) :
    ({ m with procs := procs, flushed := none } : BadgerLimiter).Normal where
  memory := ⟨hmemory.sound, hmemory.buckets, hmemory.gates⟩
  procs q p hp := by
    by_cases hq : q = pid
    · subst hq
      exact hok p hp
    · rw [hsame q hq] at hp
      exact hframe.ok hq hp (hothers q p hq hp) (h.procs q p hp)
  running q key g hruns := by
    by_cases hq : q = pid
    · subst hq
      exact hgate key g hruns
    · rw [hsame q hq]
      exact h.running q key g ((hframe.runs q hq key g).mp hruns)
  alone q p hp hreset := by
    -- No other process is a reset, so that it is this one.
    have hq : q = pid := by
      by_contra hq
      rw [hsame q hq] at hp
      rw [hothers q p hq hp] at hreset
      cases hreset
    subst hq
    intro q' p' hp'
    by_contra hq'
    rw [hsame q' hq'] at hp'
    exact hq' (halone p hp hreset q' p' hp')
  flushed _ heq := nomatch heq

theorem Normal.goOn (h : s.Normal) (hothers : s.Undisturbed pid) (hframe : Frame pid s m)
    (hmemory : m.Memory) (hok : p.OK m pid)
    (hgate : ∀ key g, m.Runs pid key g → p.gate = some (key, g))
    (halone : p.isReset → s.Alone pid) : (m.goOn pid p).Normal := by
  have hself : ∀ p', (m.procs.insert pid p).lookup pid = some p' → p' = p := by
    intro p' hp'
    rw [lookup_insert] at hp'
    exact (some.inj hp').symm
  refine h.resume hothers hframe hmemory (fun q hq => ?_) (fun p' hp' => ?_) (fun key g hruns => ?_)
    fun p' hp' hreset => ?_
  · rw [lookup_insert_of_ne _ hq, hframe.procs]
  · rw [hself p' hp']
    exact hok
  · exact ⟨p, lookup_insert _, hgate key g hruns⟩
  · rw [hself p' hp'] at hreset
    exact halone hreset

theorem Normal.finish (h : s.Normal) (hothers : s.Undisturbed pid) (hframe : Frame pid s m)
    (hmemory : m.Memory) (hgate : ∀ key g, ¬m.Runs pid key g) : (m.finish pid).Normal := by
  have hself : ∀ p, (m.procs.erase pid).lookup pid ≠ some p :=
    fun p hp => (GoMap.lookup_erase_eq_some.mp hp).1 rfl
  refine h.resume hothers hframe hmemory (fun q hq => ?_) (fun p hp => absurd hp (hself p))
    (fun key g hruns => absurd hruns (hgate key g)) fun p hp _ => absurd hp (hself p)
  rw [lookup_erase_ne hq, hframe.procs]

theorem Normal.gate_of_runs (h : s.Normal) (hp : s.procs.lookup pid = some p)
    (hruns : s.Runs pid key g) : p.gate = some (key, g) := by
  obtain ⟨p', hp', hgate⟩ := h.running pid key g hruns
  rw [hp] at hp'
  cases hp'
  exact hgate

/-! ### The changes of the memory -/

theorem Memory.change (h : s.Memory) (key : String) (hday : m.day = s.day)
    (hother : ∀ k, k ≠ key → m.tally k = s.tally k) (hkey : (m.tally key).Sound s.day)
    (hbuckets : Distinct m.dailyBuckets m.nextBucket) (hgates : Distinct m.initOnce m.nextGate) :
    m.Memory := by
  refine ⟨fun k => ?_, hbuckets, hgates⟩
  rw [hday]
  by_cases hk : k = key
  · rw [hk]
    exact hkey
  · rw [hother k hk]
    exact h.sound k

theorem tally_setBucket (h : s.Memory) (hkey : s.dailyBuckets.lookup key = some ref)
    (b : DailyBucket) (k : String) :
    (s.setBucket ref b).tally k =
      { s.tally k with bucket := if k = key then some b else (s.tally k).bucket } :=
  Tally.ext (h.buckets.map_update s.buckets b hkey k) rfl rfl rfl

theorem tally_newBucket (h : s.Memory) (key k : String) : (s.newBucket key).tally k =
      { s.tally k with bucket := if k = key then some ⟨0, s.day⟩ else (s.tally k).bucket } :=
  Tally.ext (h.buckets.map_insert s.buckets ⟨0, s.day⟩ key k) rfl rfl rfl

theorem tally_setGate (h : Distinct s.initOnce s.nextGate)
    (hkey : s.initOnce.lookup key = some g) (x : Gate) (k : String) :
    (s.setGate g x).tally k =
      { s.tally k with gate := if k = key then some x else (s.tally k).gate } :=
  Tally.ext rfl (h.map_update s.gates x hkey k) rfl rfl

section

variable (h : s.Memory)

include h

theorem tally_newGate (key k : String) : (s.newGate key).tally k =
      { s.tally k with gate := if k = key then some .fresh else (s.tally k).gate } :=
  Tally.ext rfl (h.gates.map_insert s.gates .fresh key k) rfl rfl

theorem Memory.setBucket (hkey : s.dailyBuckets.lookup key = some ref)
    {b : DailyBucket}
    (hb : ({ s.tally key with bucket := some b } : Tally).Sound s.day) :
    (s.setBucket ref b).Memory := by
  refine h.change key rfl (fun k hk => ?_) ?_ h.buckets h.gates
  · rw [tally_setBucket h hkey, if_neg hk]
  · rw [tally_setBucket h hkey, if_pos rfl]
    exact hb

theorem Memory.newBucket (hnone : s.dailyBuckets.lookup key = none)
    (hgate : s.Loaded key ∨ ∃ pid g, s.Runs pid key g) : (s.newBucket key).Memory := by
  refine h.change key rfl (fun k hk => ?_) ?_ (h.buckets.insert key) h.gates
  · rw [tally_newBucket h, if_neg hk]
  · rw [tally_newBucket h, if_pos rfl]
    refine (h.sound key).create (tally_bucket_none hnone) (hgate.imp id ?_)
    rintro ⟨pid, g, hruns⟩
    exact ⟨pid, hruns.gate⟩

theorem Memory.setGate (hkey : s.initOnce.lookup key = some g)
    (hx : ({ s.tally key with gate := some x } : Tally).Sound s.day) : (s.setGate g x).Memory := by
  refine h.change key rfl (fun k hk => ?_) ?_ h.buckets h.gates
  · rw [tally_setGate h.gates hkey, if_neg hk]
  · rw [tally_setGate h.gates hkey, if_pos rfl]
    exact hx

theorem Memory.newGate (hnone : s.initOnce.lookup key = none) : (s.newGate key).Memory := by
  have hgate : (s.tally key).gate = none := by
    change (s.initOnce.lookup key).map s.gates = none
    rw [hnone]
    rfl
  refine h.change key rfl (fun k hk => ?_) ?_ h.buckets (h.gates.insert key)
  · rw [tally_newGate h, if_neg hk]
  · rw [tally_newGate h, if_pos rfl]
    refine (h.sound key).open_gate ?_ (nofun) fun pid hpid => ?_
    · rw [hgate]
      nofun
    · rw [hgate] at hpid
      cases hpid

end

theorem frame_setBucket (pid ref : ℕ) (b : DailyBucket) : Frame pid s (s.setBucket ref b) :=
  .of_same rfl rfl rfl rfl rfl (fun _ _ h _ => h) le_rfl fun _ => rfl

theorem frame_newBucket (pid : ℕ) (hnone : s.dailyBuckets.lookup key = none) :
    Frame pid s (s.newBucket key) := by
  refine .of_same rfl rfl rfl rfl rfl (fun k ref h _ => ?_) le_rfl fun _ => rfl
  have hne : k ≠ key := by
    rintro rfl
    rw [hnone] at h
    cases h
  exact (lookup_insert_of_ne _ hne).trans h

/-- The process enters a gate, or the gate that it is behind is done. -/
theorem frame_setGate (h : Distinct s.initOnce s.nextGate) (hkey : s.initOnce.lookup key = some g)
    (hdone : s.gates g ≠ .done) (hold : ∀ q, q ≠ pid → s.gates g ≠ .running q)
    (hnew : ∀ q, q ≠ pid → x ≠ .running q) : Frame pid s (s.setGate g x) where
  day := rfl
  procs := rfl
  gate _ _ hg := hg
  loaded k hk := by
    -- a key that is loaded has another gate, which is done
    have hne : k ≠ key := by
      rintro rfl
      change (s.initOnce.lookup k).map s.gates = some .done at hk
      rw [hkey] at hk
      exact hdone (some.inj hk)
    change ((s.setGate g x).tally k).gate = _
    rw [tally_setGate h hkey, if_neg hne]
    exact hk
  runs q hq k g' := by
    change _ ∧ update s.gates g x g' = .running q ↔ _ ∧ s.gates g' = .running q
    -- this gate is nobody else's, before and after
    by_cases hg : g' = g
    · rw [hg, update_self]
      exact and_congr_right fun _ => iff_of_false (hnew q hq) (hold q hq)
    · rw [update_of_ne hg]
      rfl
  bucket _ _ hk _ := hk
  stored _ _ _ _ _ := rfl
  stored_le _ := le_rfl
  charges := le_rfl
  accepted _ := rfl

theorem runs_newGate (h : s.Memory) (hnone : s.initOnce.lookup key = none) (q : ℕ) (k : String)
    (g : ℕ) :
    (s.newGate key).Runs q k g ↔ s.Runs q k g := by
  change (s.initOnce.insert key s.nextGate).lookup k = some g ∧
    update s.gates s.nextGate .fresh g = .running q ↔ s.initOnce.lookup k = some g ∧ _
  -- the new gate has not been entered
  by_cases hk : k = key
  · subst hk
    rw [lookup_insert, hnone]
    refine iff_of_false ?_ fun hruns => nomatch hruns.1
    rintro ⟨hg, hrunning⟩
    rw [← some.inj hg, update_self] at hrunning
    cases hrunning
  · rw [lookup_insert_of_ne _ hk]
    refine and_congr_right fun hg => ?_
    rw [update_of_ne (ne_of_lt (h.gates.lt k g hg))]

theorem frame_newGate (h : s.Memory) (pid : ℕ) (hnone : s.initOnce.lookup key = none) :
    Frame pid s (s.newGate key) where
  day := rfl
  procs := rfl
  gate k g hg := by
    have hne : k ≠ key := by
      rintro rfl
      rw [hnone] at hg
      cases hg
    exact (lookup_insert_of_ne _ hne).trans hg
  loaded k hk := by
    have hne : k ≠ key := by
      rintro rfl
      -- what is loaded has a gate, and the new one has not
      change (s.initOnce.lookup k).map s.gates = some .done at hk
      rw [hnone] at hk
      cases hk
    change ((s.newGate key).tally k).gate = _
    rw [tally_newGate h, if_neg hne]
    exact hk
  runs q _ k g := runs_newGate h hnone q k g
  bucket _ _ hk _ := hk
  stored _ _ _ _ _ := rfl
  stored_le _ := le_rfl
  charges := le_rfl
  accepted _ := rfl

theorem Memory.adopt (h : s.Memory) (hruns : s.Runs pid key g)
    (hkey : s.dailyBuckets.lookup key = some ref) :
    ((s.setBucket ref ((s.buckets ref).adopt s.day (s.stored key))).setGate g .done).Memory := by
  have htally : ∀ k,
      ((s.setBucket ref ((s.buckets ref).adopt s.day (s.stored key))).setGate g .done).tally k =
        { s.tally k with
          bucket := if k = key then some ((s.buckets ref).adopt s.day (s.stored key))
            else (s.tally k).bucket
          gate := if k = key then some .done else (s.tally k).gate } := fun k =>
    Tally.ext (h.buckets.map_update _ _ hkey k) (h.gates.map_update _ _ hruns.1 k) rfl rfl
  refine h.change key rfl (fun k hk => ?_) ?_ h.buckets h.gates
  · rw [htally, if_neg hk, if_neg hk]
  · rw [htally, if_pos rfl, if_pos rfl]
    exact (h.sound key).adopt hruns.not_loaded (tally_bucket hkey)

variable {c : QuotaCall}

theorem amount_pos (h : unlimited c = false) {n : ℤ} (hn : c.what = .allow n) : 0 < n := by
  unfold unlimited at h
  rw [hn, Bool.or_eq_false_iff] at h
  exact Int.not_le.mp (of_decide_eq_false h.2)

/-- The locked section of a call. -/
theorem Memory.locked (h : s.Memory) (hkey : s.dailyBuckets.lookup c.bucket = some ref)
    (hloaded : s.Loaded c.bucket) (hlimited : unlimited c = false)
    (hfits : ∀ n ∈ c.what.amount, Fits64 (((s.buckets ref).rollOver s.day).used + n)) :
    (s.locked c ref).Memory := by
  have hsound := h.sound c.bucket
  have hused : (s.tally c.bucket).used s.day = ((s.buckets ref).rollOver s.day).used :=
    used_of_some (tally_bucket hkey)
  unfold BadgerLimiter.locked
  cases hwhat : c.what with
  -- the bucket is rolled over, which its tally does not see
  | remaining =>
    refine h.setBucket hkey ?_
    change
      ({ s.tally c.bucket with bucket := some ((s.buckets ref).rollOver s.day) } : Tally).Sound _
    rw [DailyBucket.rollOver_eta]
    exact hsound.raise hloaded hused.le
  | allow n =>
    dsimp only
    split
    · next rem b hallow =>
      -- accepted: the counter and the accepted amount grow by the same
      obtain ⟨rfl, -⟩ := DailyBucket.allowTokens_eq_true hallow
      have hn : n ∈ c.what.amount := by
        rw [hwhat]
        rfl
      rw [wrap64_of_fits (hfits n hn), ← hused]
      -- what the section changes of the tallies: one bucket and its accepted amount
      have htally : ∀ k, ({ s.setBucket ref ⟨(s.tally c.bucket).used s.day + n, s.day⟩ with
          accepted := update s.accepted c.bucket (s.accepted c.bucket + n)
          charges := s.charges + 1 } : BadgerLimiter).tally k =
          { s.tally k with
            bucket := if k = c.bucket then some ⟨(s.tally c.bucket).used s.day + n, s.day⟩
              else (s.tally k).bucket
            accepted := update s.accepted c.bucket (s.accepted c.bucket + n) k } := fun k =>
        Tally.ext (h.buckets.map_update _ _ hkey k) rfl rfl rfl
      refine h.change c.bucket rfl (fun k hk => ?_) ?_ h.buckets h.gates
      · rw [htally, if_neg hk, update_of_ne hk]
        rfl
      · rw [htally, if_pos rfl, update_self]
        exact hsound.charge hloaded (amount_pos hlimited hwhat)
    · next rem b hallow =>
      obtain ⟨rfl, -⟩ := DailyBucket.allowTokens_eq_false hallow
      -- refused: the counter is raised to the limit
      refine h.setBucket hkey (hsound.raise hloaded ?_)
      rw [hused]
      exact le_max_left _ _

theorem frame_locked (pid : ℕ) (c : QuotaCall) (ref : ℕ) : Frame pid s (s.locked c ref) := by
  unfold locked
  split
  · exact frame_setBucket pid ref _
  · split
    · exact .of_same rfl rfl rfl rfl rfl (fun _ _ h _ => h) (Nat.le_succ _)
        fun h => absurd h (Nat.succ_ne_self _)
    · exact frame_setBucket pid ref _

theorem runs_locked (c : QuotaCall) (ref q : ℕ) (key : String) (g : ℕ) :
    (s.locked c ref).Runs q key g ↔ s.Runs q key g := by
  unfold locked
  split
  · rfl
  · split
    all_goals rfl

theorem gate_ne_running (h : ¬s.Preloading key) (pid : ℕ) :
    (s.tally key).gate ≠ some (.running pid) := by
  intro hgate
  obtain ⟨g, hg, hrunning⟩ := map_eq_some_iff.mp hgate
  refine h ⟨g, hg, ?_, ?_⟩
  all_goals
    rw [hrunning]
    nofun

theorem stored_storeBucket (key : String) (ref : ℕ) (k : String) :
    (s.storeBucket key ref).stored k =
      if k = key ∧ (s.buckets ref).day = s.day ∧ 0 ≤ (s.buckets ref).used then (s.buckets ref).used
      else s.stored k := by
  change (lookup k (ite _ _ _)).getD 0 = _
  by_cases hstore : (s.buckets ref).day = s.day ∧ 0 ≤ (s.buckets ref).used
  · rw [if_pos hstore]
    by_cases hk : k = key
    · rw [if_pos ⟨hk, hstore⟩, hk, lookup_insert]
      rfl
    · rw [if_neg fun hand => hk hand.1, lookup_insert_of_ne _ hk]
      rfl
  · rw [if_neg hstore, if_neg fun hand => hstore hand.2]
    rfl

theorem tally_storeBucket (key : String) (ref : ℕ) (k : String) : (s.storeBucket key ref).tally k =
      { s.tally k with stored := (s.storeBucket key ref).stored k } := rfl

section Store

variable (h : s.Memory) (hkey : s.dailyBuckets.lookup key = some ref) (hsafe : ¬s.Preloading key)
include h hkey hsafe

/-- **A flush does not store less.** -/
theorem stored_le_storeBucket (k : String) : s.stored k ≤ (s.storeBucket key ref).stored k := by
  rw [stored_storeBucket]
  split_ifs with hstore
  · rw [hstore.1]
    exact ((h.sound key).stored_le (tally_bucket hkey) hstore.2.1 (gate_ne_running hsafe)).2
  · exact le_rfl

theorem Memory.storeBucket : (s.storeBucket key ref).Memory := by
  refine h.change key rfl (fun k hk => ?_) ?_ h.buckets h.gates
  · rw [tally_storeBucket, stored_storeBucket, if_neg fun hand => hk hand.1]
    rfl
  · rw [tally_storeBucket, stored_storeBucket]
    split_ifs with hstore
    · have hdone := (h.sound key).stored_le (tally_bucket hkey) hstore.2.1 (gate_ne_running hsafe)
      exact (h.sound key).store (tally_bucket hkey) hstore.2.1 hdone.1
    · exact h.sound key

theorem frame_storeBucket (pid : ℕ) : Frame pid s (s.storeBucket key ref) where
  day := rfl
  procs := rfl
  gate _ _ hg := hg
  loaded _ hloaded := hloaded
  runs _ _ _ _ := Iff.rfl
  bucket _ _ hk _ := hk
  stored q _ k g hruns := by
    -- The key is under preload, and so not the one that is stored.
    rw [stored_storeBucket, if_neg]
    rintro ⟨rfl, -⟩
    exact gate_ne_running hsafe q hruns.gate
  stored_le := stored_le_storeBucket h hkey hsafe
  charges := le_rfl
  accepted _ := rfl

theorem Covered.storeBucket {todo : Finset String} (hcovered : s.Covered (insert key todo)) :
    (s.storeBucket key ref).Covered todo := by
  intro k hk
  by_cases heq : k = key
  · subst heq
    rw [stored_storeBucket]
    split_ifs with hstore
    · have hbucket := tally_bucket hkey
      have hdone := (h.sound k).stored_le hbucket hstore.2.1 (gate_ne_running hsafe)
      rw [← used_of_today hbucket hstore.2.1]
      exact ((h.sound k).loaded hdone.1).1
    · -- There was nothing to store.
      refine (h.sound k).covered fun b hb hday => ?_
      rw [tally_bucket hkey] at hb
      cases hb
      exact Int.not_le.mp fun hnonneg => hstore ⟨rfl, hday, hnonneg⟩
  · have hmem : k ∉ insert key todo := fun hmem => (Finset.mem_insert.mp hmem).elim heq hk
    exact le_trans (hcovered k hmem) (stored_le_storeBucket h hkey hsafe k)

end Store

theorem Memory.covered_of_none (h : s.Memory) (hnone : s.dailyBuckets.lookup key = none) :
    s.accepted key ≤ s.stored key := by
  refine (h.sound key).covered fun b hb => ?_
  rw [tally_bucket_none hnone] at hb
  cases hb

theorem Memory.covered_keys (h : s.Memory) : s.Covered s.dailyBuckets.keys := by
  intro key hkey
  refine h.covered_of_none ?_
  rwa [mem_keys, ← lookup_eq_none] at hkey

theorem Memory.visitFlush (h : s.Memory) {stage stage' : FlushStage}
    (hvisit : s.visitFlush key stage = some stage') :
    stage'.Located s ∧ (s.Covered stage.left → s.Covered stage'.left) := by
  cases stage with
  | storing => cases hvisit
  | ranging todo =>
    dsimp only [BadgerLimiter.visitFlush] at hvisit
    split at hvisit
    · next ref hkey =>
      cases hvisit
      refine ⟨hkey, fun hcovered k hk => hcovered k fun hmem => hk ?_⟩
      exact Finset.insert_erase_subset key todo hmem
    · next hnone =>
      -- a key that is gone has nothing to store
      split_ifs at hvisit
      -- the key is taken from the range, and is left to store
      cases hvisit
      refine ⟨trivial, fun hcovered k hk => ?_⟩
      by_cases heq : k = key
      · rw [heq]
        exact h.covered_of_none hnone
      · exact hcovered k fun hmem => hk (Finset.mem_erase.mpr ⟨heq, hmem⟩)

/-- A sweep deletes a bucket of an earlier day. -/
theorem Memory.delete (h : s.Memory)
    (hstale : ∀ ref ∈ s.dailyBuckets.lookup key, (s.buckets ref).day ≠ s.day) :
    ({ s with dailyBuckets := s.dailyBuckets.erase key } : BadgerLimiter).Memory := by
  have htally : ∀ k, ({ s with dailyBuckets := s.dailyBuckets.erase key } : BadgerLimiter).tally k =
      { s.tally k with bucket := if k = key then none else (s.tally k).bucket } := by
    intro k
    refine Tally.ext ?_ rfl rfl rfl
    change ((s.dailyBuckets.erase key).lookup k).map s.buckets = ite _ _ _
    split_ifs with hk
    · rw [hk, lookup_erase]
      rfl
    · rw [lookup_erase_ne hk]
      rfl
  refine h.change key rfl (fun k hk => ?_) ?_ (h.buckets.erase key) h.gates
  · rw [htally, if_neg hk]
  · rw [htally, if_pos rfl]
    refine (h.sound key).delete fun b hb => ?_
    obtain ⟨ref, href, rfl⟩ := map_eq_some_iff.mp hb
    exact hstale ref href

theorem frame_delete (pid : ℕ) (hheld : ∀ ref ∈ s.dailyBuckets.lookup key, ¬s.Held ref) :
    Frame pid s { s with dailyBuckets := s.dailyBuckets.erase key } := by
  refine .of_same rfl rfl rfl rfl rfl (fun k ref hk hheld' => ?_) le_rfl fun _ => rfl
  have hne : k ≠ key := by
    rintro rfl
    exact hheld ref hk hheld'
  exact (lookup_erase_ne hne).trans hk

end BadgerLimiter

end HivenetRouter.Auth
