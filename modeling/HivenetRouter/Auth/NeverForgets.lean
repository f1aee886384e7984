import HivenetRouter.Auth.LimiterInvariant

/-!
# The persisted quota never forgets

Every safe step keeps the invariant `Normal`, but for the last two phases of a reset: there
the process is alone, all accepted amounts are stored, and the buckets and then the gates go
(`Wiping`). At the end nothing is in memory, as after a restart, and the counters are loaded
again (`normal_of_empty`).

In the invariant a safe step remembers (`remembers_of_inv`), and so does every step of a safe run
(`never_forgets`). `reset_forgets` is a run with a step that is not safe.
-/

namespace HivenetRouter.Auth

open Function Finmap Option GoMap Machine

namespace BadgerLimiter

variable {s t m : BadgerLimiter} {pid g ref : ℕ} {key : String} {p : LimiterProc}

/-! ### The steps -/

theorem Normal.no_runs (h : s.Normal) (hp : s.procs.lookup pid = some p) (hgate : p.gate = none)
    (key : String) (g : ℕ) : ¬s.Runs pid key g := by
  intro hruns
  rw [h.gate_of_runs hp hruns] at hgate
  cases hgate

/-- The process, which was behind the gate, has left it. -/
theorem Normal.no_runs_done (h : s.Normal) (hp : s.procs.lookup pid = some p)
    (hgate : p.gate = some (key, g)) (k : String) (g' : ℕ) :
    ¬(s.setGate g .done).Runs pid k g' := by
  rintro ⟨hk, hrunning⟩
  change update s.gates g .done g' = .running pid at hrunning
  by_cases hg : g' = g
  · rw [hg, update_self] at hrunning
    cases hrunning
  · rw [update_of_ne hg] at hrunning
    have hgate' := h.gate_of_runs hp ⟨hk, hrunning⟩
    rw [hgate] at hgate'
    cases hgate'
    exact hg rfl

section Call

variable {c : QuotaCall} {stage : QuotaStage} (h : s.Normal) (hothers : s.Undisturbed pid)
  (hp : s.procs.lookup pid = some (.call c stage))
include h hothers hp

/-- A call goes on with the memory as it is. -/
theorem normal_call {stage' : QuotaStage} (hok : stage'.OK s pid c)
    (hgate : stage.gate = none ∨ stage'.gate = stage.gate) :
    (s.goOn pid (.call c stage')).Normal := by
  refine h.goOn hothers (.refl pid s) h.memory hok (fun key g hruns => ?_) nofun
  have hruns' := h.gate_of_runs hp hruns
  rcases hgate with hgate | hgate
  · change stage.gate.map _ = _ at hruns'
    rw [hgate] at hruns'
    cases hruns'
  · change stage'.gate.map _ = _
    rw [hgate]
    exact hruns'

/-- The first call at a gate, which is fresh, goes behind it. -/
theorem normal_enter_gate (hgate : stage.gate = none)
    (hkey : s.initOnce.lookup c.bucket = some g) (hfresh : s.gates g = .fresh) :
    ((s.setGate g (.running pid)).goOn pid (.call c (.preloading g))).Normal := by
  have hnone : (LimiterProc.call c stage).gate = none := by
    change stage.gate.map _ = _
    rw [hgate]
    rfl
  -- nobody has run the preload of this gate
  have htally : (s.tally c.bucket).gate = some .fresh := by
    change (s.initOnce.lookup c.bucket).map s.gates = _
    rw [hkey, map_some, hfresh]
  have hmemory : (s.setGate g (.running pid)).Memory := by
    refine h.memory.setGate hkey ((h.memory.sound c.bucket).open_gate ?_ nofun fun q hq => ?_)
    · rw [htally]
      nofun
    · rw [htally] at hq
      cases hq
  refine h.goOn hothers (frame_setGate h.memory.gates hkey ?_ (fun q _ => ?_) fun q hq heq => ?_)
    hmemory ⟨hkey, update_self ..⟩ (fun key g' hruns => ?_) nofun
  · rw [hfresh]
    nofun
  · rw [hfresh]
    nofun
  · exact hq (Gate.running.inj heq).symm
  · -- the call was behind no other gate
    by_cases hg : g' = g
    · subst hg
      rw [h.memory.gates.inj key c.bucket g' hruns.1 hkey]
      rfl
    · have hrunning : update s.gates g (.running pid) g' = .running pid := hruns.2
      rw [update_of_ne hg] at hrunning
      exact absurd ⟨hruns.1, hrunning⟩ (h.no_runs hp hnone key g')

theorem normal_leave_gate (hgate : stage.gate = some g) (hruns : s.Runs pid c.bucket g)
    (hframe : Frame pid s m) (hinitOnce : m.initOnce = s.initOnce) (hgates : m.gates = s.gates)
    (hnextGate : m.nextGate = s.nextGate) (hmemory : (m.setGate g .done).Memory) :
    ((m.setGate g .done).goOn pid (.call c .preloaded)).Normal := by
  -- the gate is still the one that the call has entered
  have hdistinct : Distinct m.initOnce m.nextGate := by
    rw [hinitOnce, hnextGate]
    exact h.memory.gates
  have hkey : m.initOnce.lookup c.bucket = some g := by
    rw [hinitOnce]
    exact hruns.1
  have hrunning : m.gates g = .running pid := by
    rw [hgates]
    exact hruns.2
  have hdone : Frame pid m (m.setGate g .done) := by
    refine frame_setGate hdistinct hkey ?_ (fun q hq => ?_) fun _ _ => nofun
    · rw [hrunning]
      nofun
    · rw [hrunning]
      exact fun heq => hq (Gate.running.inj heq).symm
  refine h.goOn hothers (hframe.trans hdone) hmemory ?_ (fun k g' hruns' => ?_) nofun
  · change ((m.setGate g .done).tally c.bucket).gate = some .done
    rw [tally_setGate hdistinct hkey, if_pos rfl]
  · -- it was behind this gate only, and that is done
    have hgate' : (LimiterProc.call c stage).gate = some (c.bucket, g) := by
      change stage.gate.map _ = _
      rw [hgate]
      rfl
    refine absurd ?_ (h.no_runs_done hp hgate' k g')
    change m.initOnce.lookup k = some g' ∧ update m.gates g .done g' = _ at hruns'
    rw [hinitOnce, hgates] at hruns'
    exact hruns'

theorem normal_loadOrStore (stage' : ℕ → QuotaStage)
    (hloaded : s.Loaded c.bucket ∨ ∃ g, s.Runs pid c.bucket g)
    (hok : ∀ ref t, (∀ key, t.Loaded key ↔ s.Loaded key) →
      (∀ key g, t.Runs pid key g ↔ s.Runs pid key g) →
      (∀ key, t.stored key = s.stored key) → t.dailyBuckets.lookup c.bucket = some ref →
      (stage' ref).OK t pid c)
    (hgate : ∀ ref, (stage' ref).gate = stage.gate) :
    ((s.loadOrStore c.bucket).2.goOn pid (.call c (stage' (s.loadOrStore c.bucket).1))).Normal := by
  -- the call stays behind the gate that it is behind
  have hgates : ∀ ref key g, s.Runs pid key g →
      (LimiterProc.call c (stage' ref)).gate = some (key, g) := by
    intro ref key g hruns
    change (stage' ref).gate.map _ = _
    rw [hgate]
    exact h.gate_of_runs hp hruns
  unfold loadOrStore
  split
  · next ref hkey =>
    exact h.goOn hothers (.refl pid s) h.memory
      (hok ref s (fun _ => Iff.rfl) (fun _ _ => Iff.rfl) (fun _ => rfl) hkey) (hgates ref) nofun
  · next hnone =>
    -- a bucket is made only by a call behind the gate, or past it
    have hmemory := h.memory.newBucket hnone (hloaded.imp id fun ⟨g, hruns⟩ => ⟨pid, g, hruns⟩)
    exact h.goOn hothers (frame_newBucket pid hnone) hmemory
      (hok _ (s.newBucket c.bucket) (fun _ => Iff.rfl) (fun _ _ => Iff.rfl) (fun _ => rfl)
        (lookup_insert _))
      (hgates _) nofun

/-- **The steps of a call** keep the invariant, if the sum it charges is a machine integer. -/
theorem normal_advanceCall (hfits : ∀ ref, stage = .located ref → ∀ n ∈ c.what.amount,
      Fits64 (((s.buckets ref).rollOver s.day).used + n))
    (hstep : s.advanceCall pid c stage = some t) : t.Normal := by
  have hok : stage.OK s pid c := h.procs pid _ hp
  cases stage with
  -- `LoadOrStore` of the gate: it is there, or is made and fresh
  | entered =>
    dsimp only [advanceCall] at hstep
    split at hstep
    · next g hg =>
      cases hstep
      exact normal_call h hothers hp hg (.inl rfl)
    · next hnone =>
      cases hstep
      refine h.goOn hothers (frame_newGate h.memory pid hnone) (h.memory.newGate hnone)
        (lookup_insert _) (fun key g hruns => ?_) nofun
      exact absurd ((runs_newGate h.memory hnone pid key g).mp hruns) (h.no_runs hp rfl key g)
  -- `Once.Do`: the first call runs the preload, the others wait until it is done
  | gated =>
    dsimp only [advanceCall] at hstep
    split at hstep
    · next hfresh =>
      cases hstep
      exact normal_enter_gate h hothers hp rfl hok hfresh
    · cases hstep
    · next hdone =>
      cases hstep
      refine normal_call h hothers hp ?_ (.inl rfl)
      change (s.initOnce.lookup c.bucket).map s.gates = _
      rw [hok, map_some, hdone]
  -- a stored counter of zero is not adopted
  | preloading =>
    dsimp only [advanceCall] at hstep
    split_ifs at hstep with hzero
    · cases hstep
      have hstored : (s.tally c.bucket).stored ≤ (s.tally c.bucket).used s.day :=
        le_of_eq_of_le hzero (h.memory.sound c.bucket).used_nonneg
      refine normal_leave_gate h hothers hp rfl hok (.refl pid s) rfl rfl rfl ?_
      exact h.memory.setGate hok.1 ((h.memory.sound c.bucket).load (Runs.not_loaded hok) hstored)
    · cases hstep
      exact normal_call h hothers hp ⟨hok, rfl⟩ (.inr rfl)
  -- the bucket that adopts the counter is looked up, or made
  | read =>
    dsimp only [advanceCall] at hstep
    split at hstep
    · next ref hkey =>
      cases hstep
      exact normal_call h hothers hp ⟨hok.1, hok.2, hkey⟩ (.inr rfl)
    · cases hstep
      exact normal_call h hothers hp hok (.inr rfl)
  | readMissed g v =>
    cases hstep
    refine normal_loadOrStore h hothers hp (fun ref => .adopting g v ref)
      (.inr ⟨g, hok.1⟩) (fun ref t _ hruns hstored hkey => ?_) fun _ => rfl
    exact ⟨(hruns _ g).mpr hok.1, (hstored _).trans hok.2, hkey⟩
  -- the bucket is raised to the counter, and the gate is done
  | adopting g v ref =>
    cases hstep
    obtain ⟨hruns, rfl, hkey⟩ := hok
    exact normal_leave_gate h hothers hp rfl hruns (frame_setBucket pid ref _) rfl rfl rfl
      (h.memory.adopt hruns hkey)
  -- past the gate: the call of the limiter in memory
  | preloaded =>
    dsimp only [advanceCall] at hstep
    split_ifs at hstep with hlimit
    · cases hstep
      exact h.finish hothers (.refl pid s) h.memory (h.no_runs hp rfl)
    · have hlimited : unlimited c = false := Bool.eq_false_iff.mpr hlimit
      split at hstep
      · next ref hkey =>
        cases hstep
        exact normal_call h hothers hp ⟨hok, hlimited, hkey⟩ (.inl rfl)
      · cases hstep
        exact normal_call h hothers hp ⟨hok, hlimited⟩ (.inl rfl)
  | missed =>
    cases hstep
    refine normal_loadOrStore h hothers hp (fun ref => .located ref)
      (.inl hok.1) (fun ref t hloaded _ _ hkey => ?_) fun _ => rfl
    exact ⟨(hloaded _).mpr hok.1, hok.2, hkey⟩
  -- the locked section; what the call relies on is enough for it
  | located ref =>
    cases hstep
    obtain ⟨hloaded, hlimited, hkey⟩ := hok
    have hmemory := h.memory.locked hkey hloaded hlimited (hfits ref rfl)
    refine h.finish hothers (frame_locked pid c ref) hmemory fun key g hruns => ?_
    exact h.no_runs hp rfl key g ((runs_locked c ref pid key g).mp hruns)

end Call

section Process

variable (h : s.Normal) (hothers : s.Undisturbed pid) {p' : LimiterProc}
include h hothers

theorem normal_start (hstep : s.start pid p = some t) (hok : p.OK s pid)
    (halone : p.isReset → s.Alone pid) : t.Normal := by
  unfold start at hstep
  split at hstep
  · next hnone =>
    cases hstep
    refine h.goOn hothers (.refl pid s) h.memory hok (fun key g hruns => ?_) halone
    obtain ⟨p', hp', -⟩ := h.running pid key g hruns
    rw [hnone] at hp'
    cases hp'
  · cases hstep

variable (hp : s.procs.lookup pid = some p)

include hp

/-- A process that is behind no gate has changed the memory, and goes on to another such stage. -/
theorem normal_goOn (hgate : p.gate = none)
    (hframe : Frame pid s m) (hmemory : m.Memory)
    (hruns : ∀ key g, m.Runs pid key g ↔ s.Runs pid key g) (hok : p'.OK m pid)
    (hreset : p'.isReset = p.isReset) : (m.goOn pid p').Normal := by
  refine h.goOn hothers hframe hmemory hok (fun key g hruns' => ?_) fun hreset' => ?_
  · exact absurd ((hruns key g).mp hruns') (h.no_runs hp hgate key g)
  · exact h.alone pid p hp (hreset ▸ hreset')

theorem normal_storeBucket (hgate : p.gate = none) {ref : ℕ}
    (hkey : s.dailyBuckets.lookup key = some ref) (hsafe : ¬s.Preloading key)
    (hok : p'.OK (s.storeBucket key ref) pid) (hreset : p'.isReset = p.isReset) :
    ((s.storeBucket key ref).goOn pid p').Normal := by
  exact normal_goOn h hothers hp hgate (frame_storeBucket h.memory hkey hsafe pid)
    (h.memory.storeBucket hkey hsafe) (fun k g => Iff.rfl) hok hreset

theorem normal_visit (hstep : s.visit pid key p = some t) : t.Normal := by
  have hok := h.procs pid p hp
  cases p with
  | call => cases hstep
  -- what is left to store shrinks by a key that is stored or has no bucket
  | flush =>
    obtain ⟨stage', hvisit, rfl⟩ := map_eq_some_iff.mp hstep
    obtain ⟨hlocated, hcovered⟩ := h.memory.visitFlush hvisit
    exact normal_goOn h hothers hp rfl (.refl pid s) h.memory (fun _ _ => Iff.rfl)
      ⟨hlocated, hok.2.1, fun heq => hcovered (hok.2.2 heq)⟩ rfl
  | reset stage =>
    cases stage with
    | flushing =>
      obtain ⟨stage', hvisit, rfl⟩ := map_eq_some_iff.mp hstep
      obtain ⟨hlocated, hcovered⟩ := h.memory.visitFlush hvisit
      exact normal_goOn h hothers hp rfl (.refl pid s) h.memory (fun _ _ => Iff.rfl)
        ⟨hlocated, hcovered hok.2⟩ rfl
    -- a reset that deletes is not in a normal state
    | clearing | reopening => exact hok.elim
  | sweep stage =>
    cases stage with
    | ranging =>
      obtain ⟨ref, -, rfl⟩ := map_eq_some_iff.mp hstep
      exact normal_goOn h hothers hp rfl (.refl pid s) h.memory (fun _ _ => Iff.rfl) trivial rfl
    | testing | stale => cases hstep

end Process

/-! ### The end of a reset -/

end BadgerLimiter

def ResetStage.Remaining (s : BadgerLimiter) : ResetStage → Prop
  | .flushing _ => False
  | .clearing todo => ∀ key ref, s.dailyBuckets.lookup key = some ref → key ∈ todo
  | .reopening todo =>
    (∀ key, s.dailyBuckets.lookup key = none) ∧ ∀ key g, s.initOnce.lookup key = some g → key ∈ todo

namespace BadgerLimiter

variable {s t m : BadgerLimiter} {pid g ref : ℕ} {key : String} {p : LimiterProc} {a : BadgerAct}

/-- All that has been accepted is stored, and a counter that is stored is not negative. -/
structure Saved (s : BadgerLimiter) : Prop where
  nonneg : ∀ key, 0 ≤ s.stored key
  covered : s.Covered ∅

/-- A reset has flushed, and deletes what is in memory. -/
structure Wiping (s : BadgerLimiter) (pid : ℕ) (stage : ResetStage) : Prop where
  proc : s.procs.lookup pid = some (.reset stage)
  alone : s.Alone pid
  saved : s.Saved
  remaining : stage.Remaining s
  flushed : s.flushed = none

/-- With nothing in memory, the counters are loaded again. -/
theorem normal_of_empty (hsaved : s.Saved) (hprocs : ∀ pid, s.procs.lookup pid = none)
    (hbuckets : ∀ key, s.dailyBuckets.lookup key = none)
    (hgates : ∀ key, s.initOnce.lookup key = none) (hflushed : s.flushed = none) : s.Normal where
  memory := by
    refine ⟨fun key => ?_, ⟨fun key ref h => ?_, fun key _ ref h => ?_⟩,
      ⟨fun key ref h => ?_, fun key _ ref h => ?_⟩⟩
    · refine .of_empty (tally_bucket_none (hbuckets key)) ?_ (hsaved.nonneg key)
        (hsaved.covered key (Finset.notMem_empty key))
      change (s.initOnce.lookup key).map s.gates = none
      rw [hgates key]
      rfl
    · cases (hbuckets key).symm.trans h
    · cases (hbuckets key).symm.trans h
    all_goals cases (hgates key).symm.trans h
  procs pid p hp := nomatch (hprocs pid).symm.trans hp
  running pid key g hruns := nomatch (hgates key).symm.trans hruns.1
  alone pid p hp := nomatch (hprocs pid).symm.trans hp
  flushed since h := nomatch hflushed.symm.trans h

/-- The reset is the only process, before and after its step. -/
theorem Alone.insert (h : s.Alone pid) (p : LimiterProc) : (s.goOn pid p).Alone pid := by
  intro q p' hp'
  by_contra hq
  change (s.procs.insert pid p).lookup q = some p' at hp'
  rw [lookup_insert_of_ne _ hq] at hp'
  exact hq (h q p' hp')

variable {stage : ResetStage}

/-- **The steps of the last two phases of a reset.** -/
theorem wiping_visit (h : s.Wiping pid stage) (hstep : s.visit pid key (.reset stage) = some t) :
    ∃ stage', t.Wiping pid stage' := by
  cases stage with
  | flushing => exact h.remaining.elim
  -- the buckets that are left are those that the range has not visited
  | clearing =>
    cases hstep
    refine ⟨_, lookup_insert _, h.alone.insert _, ⟨h.saved.nonneg, h.saved.covered⟩,
      fun k ref hk => ?_, rfl⟩
    obtain ⟨hne, hk⟩ := lookup_erase_eq_some.mp hk
    exact Finset.mem_erase.mpr ⟨hne, h.remaining k ref hk⟩
  -- the same for the gates; the buckets are gone
  | reopening =>
    cases hstep
    refine ⟨_, lookup_insert _, h.alone.insert _, ⟨h.saved.nonneg, h.saved.covered⟩,
      ⟨h.remaining.1, fun k g hk => ?_⟩, rfl⟩
    obtain ⟨hne, hk⟩ := lookup_erase_eq_some.mp hk
    exact Finset.mem_erase.mpr ⟨hne, h.remaining.2 k g hk⟩

omit s t pid key in
/-- A range that has deleted all it was to visit has left nothing. -/
theorem lookup_eq_none_of_remaining {m : GoMap String ℕ} {todo : Finset String}
    (h : ∀ key ref, m.lookup key = some ref → key ∈ todo) (htodo : todo = ∅) (key : String) :
    m.lookup key = none := by
  refine eq_none_iff_forall_ne_some.mpr fun ref href => ?_
  have hmem := h key ref href
  rw [htodo] at hmem
  exact Finset.notMem_empty key hmem

theorem wiping_advance (h : s.Wiping pid stage) (hstep : s.advance pid (.reset stage) = some t) :
    t.Normal ∨ ∃ stage', t.Wiping pid stage' := by
  cases stage with
  | flushing => exact h.remaining.elim
  -- all buckets are deleted, and the gates are next
  | clearing =>
    dsimp only [advance] at hstep
    split_ifs at hstep with htodo
    cases hstep
    refine .inr ⟨_, lookup_insert _, h.alone.insert _, ⟨h.saved.nonneg, h.saved.covered⟩,
      ⟨fun key => ?_, fun key g hkey => ?_⟩, rfl⟩
    · exact lookup_eq_none_of_remaining h.remaining htodo key
    · exact mem_keys.mpr (mem_of_lookup hkey)
  -- the last step of the reset leaves an empty limiter
  | reopening =>
    dsimp only [advance] at hstep
    split_ifs at hstep with htodo
    cases hstep
    refine .inl (normal_of_empty ⟨h.saved.nonneg, h.saved.covered⟩ (fun q => ?_) h.remaining.1
      (fun key => ?_) rfl)
    · change (s.procs.erase pid).lookup q = none
      by_cases hq : q = pid
      · rw [hq, lookup_erase]
      · rw [lookup_erase_ne hq]
        cases hlookup : s.procs.lookup q with
        | none => rfl
        | some p => exact absurd (h.alone q p hlookup) hq
    · exact lookup_eq_none_of_remaining h.remaining.2 htodo key

/-! ### The invariant along a run -/

/-- The limiter is in its normal state, or a reset is deleting what is in memory. -/
def Inv (s : BadgerLimiter) : Prop := s.Normal ∨ ∃ pid stage, s.Wiping pid stage

theorem inv_advance (h : s.Normal) (hothers : s.Undisturbed pid)
    (hp : s.procs.lookup pid = some p) (hsafe : SafeStep s (.advance pid))
    (hstep : s.advance pid p = some t) : t.Inv := by
  have hok := h.procs pid p hp
  cases p with
  | call =>
    refine .inl (normal_advanceCall h hothers hp (fun ref hstage => ?_) hstep)
    subst hstage
    exact hsafe.charge _ hp _ rfl
  | flush since stage =>
    cases stage with
    | ranging todo =>
      dsimp only [advance] at hstep
      split_ifs at hstep with htodo
      cases hstep
      have hfinished : (s.finish pid).Normal :=
        h.finish hothers (.refl pid s) h.memory (h.no_runs hp rfl)
      refine .inl ⟨⟨hfinished.memory.sound, hfinished.memory.buckets, hfinished.memory.gates⟩,
        hfinished.procs, hfinished.running, hfinished.alone, fun since' hsince => ?_⟩
      cases hsince
      refine ⟨hok.2.1, fun heq => ?_⟩
      have hcovered := hok.2.2 heq
      rw [show FlushStage.left (.ranging todo) = ∅ from htodo] at hcovered
      exact hcovered
    | storing =>
      cases hstep
      have hpreload := hsafe.flush _ hp _ rfl
      refine .inl (normal_storeBucket h hothers hp rfl hok.1 hpreload ⟨trivial, hok.2.1, ?_⟩ rfl)
      exact fun heq => Covered.storeBucket h.memory hok.1 hpreload (hok.2.2 heq)
  | reset stage =>
    cases stage with
    | flushing stage =>
      cases stage with
      | ranging todo =>
        -- From here on the process deletes, and all is stored.
        dsimp only [advance] at hstep
        split_ifs at hstep with htodo
        cases hstep
        have hcovered := hok.2
        rw [show FlushStage.left (.ranging todo) = ∅ from htodo] at hcovered
        refine .inr ⟨pid, _, lookup_insert _, (h.alone pid _ hp rfl).insert _,
          ⟨fun key => (h.memory.sound key).stored_nonneg, hcovered⟩, fun key ref hkey => ?_, rfl⟩
        exact mem_keys.mpr (mem_of_lookup hkey)
      | storing =>
        cases hstep
        have hpreload := hsafe.flush _ hp _ rfl
        refine .inl (normal_storeBucket h hothers hp rfl hok.1 hpreload ⟨trivial, ?_⟩ rfl)
        exact Covered.storeBucket h.memory hok.1 hpreload hok.2
    | clearing | reopening => exact hok.elim
  | sweep stage =>
    cases stage with
    | ranging =>
      cases hstep
      exact .inl (h.finish hothers (.refl pid s) h.memory (h.no_runs hp rfl))
    | testing =>
      have hnormal : ∀ stage, (s.goOn pid (.sweep stage)).Normal := fun stage =>
        normal_goOn h hothers hp rfl (.refl pid s) h.memory (fun _ _ => Iff.rfl) trivial rfl
      dsimp only [advance] at hstep
      split_ifs at hstep
      all_goals
        cases hstep
        exact .inl (hnormal _)
    | stale key =>
      cases hstep
      have hdelete := hsafe.sweep _ hp key rfl
      exact .inl (normal_goOn h hothers hp rfl
        (frame_delete pid fun ref href => (hdelete ref href).2)
        (h.memory.delete fun ref href => (hdelete ref href).1) (fun _ _ => Iff.rfl) trivial rfl)

/-- A process that makes a step is not disturbed by a reset. -/
theorem SafeStep.undisturbed (hsafe : SafeStep s a) (ha : a.pid = some pid) :
    s.Undisturbed pid := by
  intro q p hq hp
  refine Bool.eq_false_iff.mpr fun hreset => hq ?_
  have hmem : q ∈ s.procs.keys := mem_keys.mpr (mem_of_lookup hp)
  rw [hsafe.exclusive q hmem p hp hreset] at ha
  exact some.inj ha

theorem inv_step_of_normal (h : s.Normal) (hsafe : SafeStep s a) (hstep : s.step a = some t) :
    t.Inv := by
  cases a with
  | call => exact .inl (normal_start h (hsafe.undisturbed rfl) hstep trivial nofun)
  | flush =>
    exact .inl (normal_start h (hsafe.undisturbed rfl) hstep
      ⟨trivial, le_rfl, fun _ => h.memory.covered_keys⟩ nofun)
  -- a reset is started when no other process is there
  | reset =>
    refine .inl (normal_start h (hsafe.undisturbed rfl) hstep ⟨trivial, h.memory.covered_keys⟩ ?_)
    intro _ q p hp
    rw [hsafe.reset rfl] at hp
    cases hp
  | sweep => exact .inl (normal_start h (hsafe.undisturbed rfl) hstep trivial nofun)
  | visit =>
    obtain ⟨p, hp, hvisit⟩ := bind_eq_some_iff.mp hstep
    exact .inl (normal_visit h (hsafe.undisturbed rfl) hp hvisit)
  | advance =>
    obtain ⟨p, hp, hadvance⟩ := bind_eq_some_iff.mp hstep
    exact inv_advance h (hsafe.undisturbed rfl) hp hsafe hadvance
  -- a restart keeps what is stored, and that covers what was accepted
  | restart =>
    obtain ⟨since, hsince, rfl⟩ := map_eq_some_iff.mp hstep
    have hcovered := (h.flushed since hsince).2 (hsafe.restart rfl since hsince)
    exact .inl (normal_of_empty ⟨fun key => (h.memory.sound key).stored_nonneg, hcovered⟩
      (fun _ => rfl) (fun _ => rfl) (fun _ => rfl) rfl)

theorem inv_step_of_wiping (h : s.Wiping pid stage) (hsafe : SafeStep s a)
    (hstep : s.step a = some t) : t.Inv := by
  -- Only the reset makes steps.
  have ha : a.pid = some pid :=
    hsafe.exclusive pid (mem_keys.mpr (mem_of_lookup h.proc)) _ h.proc rfl
  have hstart : ∀ p, s.start pid p ≠ some t := by
    intro p hp
    unfold start at hp
    rw [h.proc] at hp
    cases hp
  cases a with
  | call | flush | reset | sweep =>
    cases ha
    exact absurd hstep (hstart _)
  | visit =>
    cases ha
    obtain ⟨p, hp, hvisit⟩ := bind_eq_some_iff.mp hstep
    rw [h.proc] at hp
    cases hp
    exact .inr ⟨pid, wiping_visit h hvisit⟩
  | advance =>
    cases ha
    obtain ⟨p, hp, hadvance⟩ := bind_eq_some_iff.mp hstep
    rw [h.proc] at hp
    cases hp
    exact (wiping_advance h hadvance).imp id fun hwiping => ⟨pid, hwiping⟩
  | restart => cases ha

theorem inv_step (h : s.Inv) (hsafe : SafeStep s a) (hstep : s.step a = some t) : t.Inv := by
  rcases h with h | ⟨pid, stage, h⟩
  · exact inv_step_of_normal h hsafe hstep
  · exact inv_step_of_wiping h hsafe hstep

theorem inv_start (h : s.Start) : s.Inv := by
  have hstored : ∀ key, s.stored key = 0 := by
    intro key
    unfold stored
    rw [h.store]
    rfl
  have haccepted : ∀ key, s.accepted key = 0 := fun key => congrFun h.accepted key
  have hinitOnce : ∀ key, s.initOnce.lookup key = none := by
    intro key
    rw [h.initOnce]
    rfl
  have hgate : ∀ key, (s.tally key).gate ≠ some .done := by
    intro key
    change (s.initOnce.lookup key).map s.gates ≠ _
    rw [hinitOnce key]
    nofun
  have hprocs : ∀ pid, s.procs.lookup pid = none := by
    intro pid
    rw [h.procs]
    rfl
  -- Every bucket is of an earlier day.
  have hday : ∀ key, ∀ b ∈ (s.tally key).bucket, b.day ≠ s.day := by
    intro key b hb
    obtain ⟨ref, href, rfl⟩ := map_eq_some_iff.mp hb
    exact h.day key ref href
  refine .inl ⟨⟨fun key => ⟨(hstored key).ge, ?_, fun hdone => absurd hdone (hgate key),
      fun _ => ?_, fun _ _ _ => (hstored key).le,
      fun _ b hb heq => absurd heq (hday key b hb)⟩, ⟨h.lt, h.inj⟩, ?_⟩,
    fun pid p hp => ?_, fun pid key g hruns => ?_, fun pid p hp => ?_, fun since hsince => ?_⟩
  · cases hb : (s.tally key).bucket with
    | none => exact (Tally.used_of_none hb).ge
    | some b => exact (Tally.used_of_stale hb (hday key b hb)).ge
  · exact (haccepted key).trans_le (hstored key).ge
  · rw [h.initOnce]
    exact .empty _
  · cases (hprocs pid).symm.trans hp
  · cases (hinitOnce key).symm.trans hruns.1
  · cases (hprocs pid).symm.trans hp
  · cases h.flushed.symm.trans hsince

theorem exists_of_advancing (h : p ∈ s.advancing a) : ∃ pid, s.procs.lookup pid = some p := by
  cases a with
  | advance pid => exact ⟨pid, h⟩
  | call | flush | reset | sweep | visit | restart => cases h

/-- The bucket that a process checks is the one of its key, and loaded. -/
theorem Normal.checks (h : s.Normal) (hp : s.procs.lookup pid = some p) {l : QuotaCall × ℕ}
    (hl : l ∈ p.checks) :
    s.Loaded l.1.bucket ∧ s.dailyBuckets.lookup l.1.bucket = some l.2 := by
  have hok := h.procs pid p hp
  unfold LimiterProc.checks at hl
  split at hl
  · cases hl
    exact ⟨hok.1, hok.2.2⟩
  · cases hl

/-- The bucket that a process stores is the one of its key. -/
theorem Normal.stores (h : s.Normal) (hp : s.procs.lookup pid = some p) {l : String × ℕ}
    (hl : l ∈ p.stores) : s.dailyBuckets.lookup l.1 = some l.2 := by
  have hok := h.procs pid p hp
  unfold LimiterProc.stores at hl
  split at hl
  · cases hl
    exact hok.1
  · cases hl
    exact hok.1
  · cases hl

/-- **In the invariant, a safe step remembers.** -/
theorem remembers_of_inv (h : s.Inv) (hsafe : SafeStep s a) : s.Remembers a := by
  rcases h with h | ⟨pid, stage, h⟩
  · constructor
    · intro p hp l hl
      obtain ⟨pid, hpid⟩ := exists_of_advancing hp
      -- a check comes after the preload, and a loaded tally covers what is accepted
      obtain ⟨hloaded, hkey⟩ := h.checks hpid hl
      rw [← Tally.used_of_some (tally_bucket hkey)]
      exact ((h.memory.sound l.1.bucket).loaded hloaded).1
    · intro p hp l hl
      obtain ⟨pid, hpid⟩ := exists_of_advancing hp
      exact stored_le_storeBucket h.memory (h.stores hpid hl) (hsafe.flush p hp l hl) l.1
  · -- A reset that deletes neither checks nor stores.
    have hproc : ∀ p ∈ s.advancing a, p = .reset stage := by
      intro p hp
      obtain ⟨q, hq⟩ := exists_of_advancing hp
      rw [h.alone q p hq, h.proc] at hq
      exact (some.inj hq).symm
    constructor
    · intro p hp l hl
      rw [hproc p hp] at hl
      cases hl
    · intro p hp l hl
      rw [hproc p hp] at hl
      cases stage with
      | flushing => exact h.remaining.elim
      | clearing | reopening => cases hl

end BadgerLimiter

/-- **The persisted quota never forgets**: in a run of safe steps every check applies at least
what has been accepted, and no flush stores less than is stored. -/
theorem never_forgets {s : BadgerLimiter} {acts : List BadgerAct} (hstart : badgerLimiter.Init s)
    (hsafe : badgerLimiter.Along BadgerLimiter.SafeStep s acts) :
    badgerLimiter.Along BadgerLimiter.Remembers s acts :=
  along_of_invariant (I := BadgerLimiter.Inv)
    (fun _ _ _ h hsafe hstep => BadgerLimiter.inv_step h hsafe hstep)
    (fun _ _ h hsafe => BadgerLimiter.remembers_of_inv h hsafe) acts s
    (BadgerLimiter.inv_start hstart) hsafe

namespace BadgerLimiter

theorem safeStep_iff {s : BadgerLimiter} {a : BadgerAct} : SafeStep s a ↔
      (∀ p ∈ s.advancing a, ∀ l ∈ p.checks, ∀ n ∈ l.1.what.amount,
        Fits64 (((s.buckets l.2).rollOver s.day).used + n)) ∧
      (∀ p ∈ s.advancing a, ∀ l ∈ p.stores, ¬s.Preloading l.1) ∧
      (∀ p ∈ s.advancing a, ∀ key ∈ p.sweeps, ∀ ref ∈ s.dailyBuckets.lookup key,
        (s.buckets ref).day ≠ s.day ∧ ¬s.Held ref) ∧
      (a.startsReset → s.procs = ∅) ∧
      (∀ pid ∈ s.procs.keys, ∀ p ∈ s.procs.lookup pid, p.isReset → a.pid = some pid) ∧
      (a.restarts → ∀ since ∈ s.flushed, since = s.charges) :=
  ⟨fun h => ⟨h.1, h.2, h.3, h.4, h.5, h.6⟩, fun h => ⟨h.1, h.2.1, h.2.2.1, h.2.2.2.1, h.2.2.2.2.1,
    h.2.2.2.2.2⟩⟩

instance (s : BadgerLimiter) (key : String) : Decidable (s.Preloading key) :=
  inferInstanceAs (Decidable (∃ g ∈ s.initOnce.lookup key, _))

instance (s : BadgerLimiter) (ref : ℕ) : Decidable (s.Held ref) :=
  inferInstanceAs (Decidable (∃ pid ∈ s.procs.keys, _))

instance (s : BadgerLimiter) (a : BadgerAct) : Decidable (SafeStep s a) :=
  decidable_of_iff _ safeStep_iff.symm

end BadgerLimiter

/-! ### A day -/

def demoBadger : BadgerLimiter where
  dailyBuckets := (∅ : GoMap String ℕ).insert "tenant" 0
  buckets := fun _ => ⟨40, 6⟩
  nextBucket := 1
  initOnce := ∅
  gates := fun _ => .fresh
  nextGate := 0
  store := ∅
  day := 7
  procs := ∅
  accepted := fun _ => 0
  charges := 0
  flushed := none

/-- Process `pid` asks for an amount, with a limit of one hundred, and makes some steps. -/
def askActs (pid : ℕ) (n : ℤ) (steps : ℕ) : List BadgerAct :=
  .call pid "tenant" "" 100 (.allow n) :: List.replicate steps (.advance pid)

theorem start_demoBadger : demoBadger.Start := by
  have hkey : ∀ key ref, demoBadger.dailyBuckets.lookup key = some ref →
      key = "tenant" ∧ ref = 0 := by
    intro key ref h
    obtain h | ⟨-, h⟩ := lookup_insert_eq_some.mp h
    · exact h
    · cases h
  refine ⟨fun key ref h => ?_, fun key key' ref h h' => ?_, fun _ _ _ => ?_, rfl, rfl, rfl, rfl,
    rfl⟩
  · rw [(hkey key ref h).2]
    exact Nat.zero_lt_one
  · rw [(hkey key ref h).1, (hkey key' ref h').1]
  · show (6 : ℤ) ≠ 7
    decide

def flushActs (pid : ℕ) : List BadgerAct :=
  [.flush pid, .visit pid "tenant", .advance pid, .advance pid]

def wipeActs (pid : ℕ) : List BadgerAct :=
  [.advance pid, .visit pid "tenant", .advance pid, .visit pid "tenant", .advance pid]

/-- A charge of 5, a flush, a restart, a charge of 3, a reset, and a charge of 1. -/
def dayActs : List BadgerAct :=
  askActs 0 5 5 ++ flushActs 1 ++ [.restart] ++ askActs 2 3 8 ++
    [.reset 3, .visit 3 "tenant", .advance 3] ++ wipeActs 3 ++ askActs 4 1 8

theorem remembers_day : ∃ t ∈ badgerLimiter.run demoBadger dayActs, t.accepted "tenant" = 9 ∧
      badgerLimiter.Along BadgerLimiter.Remembers demoBadger dayActs := by
  refine exists_mem_and (by decide +kernel) fun t _ _ => ?_
  exact never_forgets start_demoBadger (by decide +kernel)

/-- **A reset forgets**: call 0 is charged 5, which the reset stores; call 2 is charged 3 before the
reset deletes the bucket. Call 3 then loads 5, where 8 have been accepted. -/
theorem reset_forgets : ∃ t ∈ badgerLimiter.run demoBadger
        (askActs 0 5 5 ++ [.reset 1, .visit 1 "tenant", .advance 1] ++ askActs 2 3 4 ++
          wipeActs 1 ++ askActs 3 1 7),
      t.accepted "tenant" = 8 ∧ ¬t.Remembers (.advance 3) := by
  refine exists_mem_imp (fun t => t.accepted "tenant" = 8 ∧
    t.procs.lookup 3 = some (.call ⟨"tenant", 100, .allow 1⟩ (.located 1)) ∧
      ((t.buckets 1).rollOver t.day).used = 5) (by decide +kernel) ?_
  rintro t - ⟨haccepted, hproc, hused⟩
  refine ⟨haccepted, fun h => ?_⟩
  have hle := h.check _ hproc _ rfl
  rw [haccepted, hused] at hle
  exact absurd hle (by decide)

end HivenetRouter.Auth
