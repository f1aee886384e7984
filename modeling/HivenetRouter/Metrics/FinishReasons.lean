import Mathlib.Tactic.IntervalCases
import HivenetRouter.Framework.Go
import HivenetRouter.Framework.Machine

/-!
# The counter of finish reasons

An engine counts its finished requests by reason, from zero again after a restart. The router gets
snapshots of the counts from two senders, and `engineFinishReasonTracker` turns them into increments
of a counter of its own: what the count has grown since the last snapshot, or all of it if it has
become less, which is taken for a restart.

A snapshot that is delivered behind a later one looks like a restart as well, and then everything
that the engine has counted since it started is added again (`not_bounded_overtaken`). If no
snapshot is older than the one before, the counter is at most what the engine has counted since the
baseline (`bounded_of_inOrder`).
-/

namespace HivenetRouter.Metrics

open List Option Finmap

inductive EngineEvent where
  | finish (reason : String)
  | restart
  deriving DecidableEq

def EngineEvent.count (reason : String) (c : ℕ) : EngineEvent → ℕ
  | .finish r => if r = reason then c + 1 else c
  | .restart => 0

/-- The count of a reason, from `c` on. -/
def cumulative (reason : String) (c : ℕ) (events : List EngineEvent) : ℕ :=
  events.foldl (EngineEvent.count reason) c

/-- `FinishReasonCounts` as it is scraped after some of the events, with an order in which the loop
visits it. A reason that is missing has not been counted. -/
structure Snapshot (events : List EngineEvent) where
  time : ℕ
  counts : GoMap String ℕ
  order : List String
  isOrder : RangeOrder counts order
  counts_eq : ∀ r, (counts.lookup r).getD 0 = cumulative r 0 (events.take time)

def delta (p cur : ℕ) : ℕ := if cur < p then cur else cur - p

/-- The loop of `deltas` over a snapshot, for a peer that has one before. -/
def deltas (prev current : GoMap String ℕ) (order : List String) :
    GoMap String ℕ × GoMap String ℕ :=
  (GoMap.extend ∅ order fun r => (current.lookup r).bind fun cur =>
    let d := delta ((prev.lookup r).getD 0) cur
    if d > 0 then some d else none,
  prev.extend order current.lookup)

/-- The tracker's state for one peer and the router's counter, with the times of the baseline and of
the snapshot that came last. -/
structure Tracker where
  state : Option (GoMap String ℕ)
  counter : String → ℕ
  baseline : ℕ
  last : ℕ

variable {events : List EngineEvent}

/-- `AgentEnginePunctualUpdated`, as far as the finish reasons go. -/
def Tracker.update (s : Tracker) (x : Snapshot events) : Tracker :=
  if x.counts.keys.card = 0 then s else
  match s.state with
  | none => ⟨some (GoMap.extend ∅ x.order x.counts.lookup), s.counter, x.time, x.time⟩
  | some prev =>
    let (ds, next) := deltas prev x.counts x.order
    ⟨some next, fun r => s.counter r + (ds.lookup r).getD 0, s.baseline, x.time⟩

/-- The deliveries for one peer, in any order and any number. -/
def tracker (events : List EngineEvent) : Machine Tracker (Snapshot events) where
  Init s := s = ⟨none, fun _ => 0, 0, 0⟩
  step s x := some (s.update x)

/-- **The counter never over-counts**: it is at most what was counted since the baseline. -/
def Tracker.Bounded (events : List EngineEvent) (s : Tracker) : Prop :=
  ∀ r, s.counter r ≤ (events.drop s.baseline).count (.finish r)

/-- The snapshot is not older than the one before. -/
def Tracker.InOrder (s : Tracker) (x : Snapshot events) : Prop := s.state.isSome → s.last ≤ x.time

/-! ### One increment -/

/-- Over some events a count grows by those of its reason, or it has begun again. -/
theorem cumulative_cases (r : String) (c : ℕ) (es : List EngineEvent) :
    cumulative r c es = c + es.count (.finish r) ∨ cumulative r c es ≤ es.count (.finish r) := by
  induction es generalizing c with
  | nil => exact .inl rfl
  | cons e es ih =>
    show cumulative r (e.count r c) es = _ ∨ cumulative r (e.count r c) es ≤ _
    cases e with
    | restart =>
      have := ih 0
      rw [count_cons_of_ne (fun h => by cases h), EngineEvent.count]
      omega
    | finish r' =>
      have := ih (EngineEvent.count r c (.finish r'))
      rw [count_cons]
      by_cases hr : r' = r
      · simp only [EngineEvent.count, hr, if_true, beq_self_eq_true] at this ⊢
        omega
      · simp only [EngineEvent.count, if_neg hr, beq_iff_eq, EngineEvent.finish.injEq] at this ⊢
        omega

def counted (events : List EngineEvent) (r : String) (k : ℕ) : ℕ :=
  (events.take k).count (.finish r)

/-- **An increment between two snapshots in order** is at most what was counted between them. -/
theorem delta_add_le {j k : ℕ} (h : j ≤ k) (r : String) :
    delta (cumulative r 0 (events.take j)) (cumulative r 0 (events.take k)) + counted events r j ≤
      counted events r k := by
  obtain ⟨es, hes⟩ : ∃ es, events.take k = events.take j ++ es := by
    have htake : (events.take k).take j = events.take j := by rw [take_take, Nat.min_eq_left h]
    exact ⟨(events.take k).drop j, by rw [← htake, take_append_drop]⟩
  have hcases := cumulative_cases r (cumulative r 0 (events.take j)) es
  have happend : cumulative r 0 (events.take k) =
      cumulative r (cumulative r 0 (events.take j)) es := by
    rw [hes]
    exact foldl_append
  rw [happend, delta, counted, counted, hes, count_append]
  split <;> omega

/-! ### Runs in order -/

/-- What the tracker keeps of a reason is its count in a snapshot since the baseline, and the
counter is at most what was counted until then. -/
structure Inv (events : List EngineEvent) (s : Tracker) : Prop where
  zero : s.state = none → ∀ r, s.counter r = 0
  kept : ∀ prev, s.state = some prev → ∀ r, ∃ j ≤ s.last,
    (prev.lookup r).getD 0 = cumulative r 0 (events.take j) ∧
    s.counter r + counted events r s.baseline ≤ counted events r j

/-- A reason after the loop: it is in the snapshot, or as it was. -/
theorem lookup_extend_snapshot (prev : GoMap String ℕ) (x : Snapshot events) (r : String) :
    (prev.extend x.order x.counts.lookup).lookup r = (x.counts.lookup r).or (prev.lookup r) := by
  rw [GoMap.lookup_extend]
  split
  · rfl
  · next hr =>
    rw [x.isOrder.mem_iff, Bool.not_eq_true, isSome_eq_false_iff, isNone_iff_eq_none] at hr
    rw [hr]
    rfl

theorem Inv.update {s : Tracker} (h : Inv events s) {x : Snapshot events} (hx : s.InOrder x) :
    Inv events (s.update x) := by
  unfold Tracker.update
  split
  · exact h
  split
  · next hstate =>
    -- the baseline: every reason is as in the snapshot
    refine ⟨nofun, fun prev hprev r => ⟨x.time, le_rfl, ?_, ?_⟩⟩
    · rw [← some.inj hprev, lookup_extend_snapshot, ← x.counts_eq r]
      cases x.counts.lookup r <;> rfl
    · rw [h.zero hstate r, Nat.zero_add]
  · next prev hstate =>
    have hlast : s.last ≤ x.time := hx (by rw [hstate]; rfl)
    refine ⟨nofun, fun next hnext r => ?_⟩
    obtain ⟨j, hj, hcount, hle⟩ := h.kept prev hstate r
    rw [← some.inj hnext]
    dsimp only [deltas]
    rw [lookup_extend_snapshot, GoMap.lookup_extend]
    cases hlookup : x.counts.lookup r with
    | none =>
      refine ⟨j, hj.trans hlast, hcount, ?_⟩
      simpa using hle
    | some cur =>
      have hcur := x.counts_eq r
      have hmem : r ∈ x.order := (x.isOrder.mem_iff r).mpr (by rw [hlookup]; rfl)
      rw [hlookup] at hcur
      refine ⟨x.time, le_rfl, hcur, ?_⟩
      have hdelta := @delta_add_le events _ _ (hj.trans hlast) r
      rw [← hcount, ← hcur] at hdelta
      rw [if_pos hmem]
      dsimp only [bind_some, getD_some] at hdelta ⊢
      split
      · show s.counter r + delta _ cur + _ ≤ _
        omega
      · show s.counter r + 0 + _ ≤ _
        omega

/-- **With no snapshot older than the one before, the counter never over-counts.** -/
theorem bounded_of_inOrder (events : List EngineEvent) {s : Tracker}
    (h : (tracker events).ReachVia Tracker.InOrder s) : s.Bounded events := by
  have hinv : Inv events s := by
    refine h.induction ?_ ?_
    · rintro _ rfl
      exact ⟨fun _ _ => rfl, nofun⟩
    · rintro s x t hs hx ⟨⟩
      exact hs.update hx
  intro r
  have hsplit : counted events r s.baseline + (events.drop s.baseline).count (.finish r) =
      events.count (.finish r) := by
    rw [counted, ← count_append, take_append_drop]
  cases hstate : s.state with
  | none => rw [hinv.zero hstate r]; exact Nat.zero_le _
  | some prev =>
    obtain ⟨j, -, -, hle⟩ := hinv.kept prev hstate r
    have hall : counted events r j ≤ events.count (.finish r) := (take_sublist j events).count_le _
    omega

def oneReason {events : List EngineEvent} (time n : ℕ)
    (h : ∀ r, cumulative r 0 (events.take time) = if r = "stop" then n else 0) :
      Snapshot events where
  time := time
  counts := insert "stop" n ∅
  order := ["stop"]
  isOrder := ⟨List.nodup_singleton _, by ext k; simp [Finmap.mem_keys, notMem_empty]⟩
  counts_eq r := by
    rw [h r]
    by_cases hr : r = "stop"
    · rw [hr, lookup_insert, if_pos rfl, getD_some]
    · rw [lookup_insert_of_ne _ hr, if_neg hr]
      rfl

def threeStops : List EngineEvent := [.finish "stop", .finish "stop", .finish "stop"]

theorem cumulative_threeStops (k : ℕ) (hk : k ≤ 3) (r : String) :
    cumulative r 0 (threeStops.take k) = if r = "stop" then k else 0 := by
  by_cases hr : r = "stop"
  · subst hr
    interval_cases k <;> rfl
  · have hne : ¬ "stop" = r := fun h => hr h.symm
    interval_cases k <;> simp [threeStops, cumulative, EngineEvent.count, hr, hne]

def afterStops (k : ℕ) (hk : k ≤ 3) : Snapshot threeStops :=
  oneReason k k (cumulative_threeStops k hk)

theorem bounded_afterStops : ∃ s, (tracker threeStops).run ⟨none, fun _ => 0, 0, 0⟩
    [afterStops 2 (by decide), afterStops 3 (by decide)] = some s ∧ s.counter "stop" = 1 ∧
      s.Bounded threeStops := by
  refine ⟨_, rfl, by decide +kernel, bounded_of_inOrder threeStops ⟨_,
    [afterStops 2 (by decide), afterStops 3 (by decide)], rfl, ?_, rfl⟩⟩
  exact ⟨nofun, fun _ => by decide +kernel, trivial⟩

/-- The first of them is the baseline and arrives once more, behind the second. -/
theorem not_bounded_overtaken :
    ¬ ∀ (events : List EngineEvent) (s : Tracker), (tracker events).Reachable s →
      s.Bounded events := by
  intro h
  have hbounded := h threeStops _ ⟨_, [afterStops 2 (by decide), afterStops 3 (by decide),
    afterStops 2 (by decide)], rfl, rfl⟩ "stop"
  revert hbounded
  decide +kernel

end HivenetRouter.Metrics
