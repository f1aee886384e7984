import HivenetRouter.Framework.Go
import HivenetRouter.Framework.Machine

/-!
# Lifetime counters

`UniversalCounterStore` counts the requests of a peer in memory, on top of the totals that its
history on disk had when the state was made. `Bootstrap` makes a new state from the history, and so
what was counted since the last flush is lost when a peer registers again
(`not_conserved_reregistered`). If the history is up to date then, and nothing is recorded for a
peer without a state, the totals are what was recorded (`conserved_of_flushed`).

The entries of a peer are changed by its own calls and by `FlushAll` only, so that one peer is
enough.
-/

namespace HivenetRouter.Metrics

open Option

inductive Counter where
  | successfulRequests | failedRequests | inputTokens | outputTokens

abbrev Counts := Counter → ℤ

def Counts.plus (a b : Counts) : Counts := fun c => wrap64 (a c + b c)

/-- `agentCounterState`: the baselines and what was counted since. -/
structure AgentCounterState where
  base : Counts
  count : Counts

/-- The totals, as `buildHistory` and `GetAgentStats` compute them. -/
def AgentCounterState.totals (st : AgentCounterState) : Counts := st.base.plus st.count

/-- The state and the history of a peer, with what was recorded since its first `Bootstrap`. -/
structure PeerCounters where
  state : Option AgentCounterState
  history : Option Counts
  recorded : Option Counts

inductive CounterCall where
  | bootstrap
  | recordSuccess (inputTokens outputTokens : ℤ)
  | recordFailure
  | flushAll
  /-- `RecordDisconnect`, and then `DeleteState`. -/
  | disconnect

def CounterCall.counts : CounterCall → Counts
  | .recordSuccess inputTokens outputTokens => fun
    | .successfulRequests => 1
    | .failedRequests => 0
    | .inputTokens => inputTokens
    | .outputTokens => outputTokens
  | .recordFailure => fun
    | .failedRequests => 1
    | _ => 0
  | _ => fun _ => 0

namespace PeerCounters

def getAgentStats (s : PeerCounters) : Option Counts := s.state.map AgentCounterState.totals

def flushed (s : PeerCounters) : Option Counts := s.getAgentStats.or s.history

/-- The request is counted in the state that `getOrInit` returns. -/
def record (s : PeerCounters) (d : Counts) : PeerCounters :=
  let st := s.state.getD ⟨0, 0⟩
  ⟨some { st with count := st.count.plus d }, s.history, s.recorded.map (· + d)⟩

def step (s : PeerCounters) : CounterCall → PeerCounters
  | .bootstrap => ⟨some ⟨s.history.getD 0, 0⟩, s.history, some (s.recorded.getD 0)⟩
  | .flushAll => { s with history := s.flushed }
  | .disconnect => { s with state := none, history := s.flushed }
  | call => s.record call.counts

/-- **The totals are what was recorded.** -/
def Conserved (s : PeerCounters) : Prop := ∀ r ∈ s.recorded, ∀ stats ∈ s.getAgentStats, stats = r

/-- The history is up to date when the peer registers. Requests are recorded while it has a state,
and the sums fit into 64 bits. -/
def Flushed (s : PeerCounters) : CounterCall → Prop
  | .bootstrap => ∀ stats ∈ s.getAgentStats, s.history.getD 0 = stats
  | .flushAll | .disconnect => True
  | call => s.state.isSome ∧ ∀ c, Fits64 (s.recorded.getD 0 c + call.counts c)

/-- What a flush would write is what was recorded. -/
structure Inv (s : PeerCounters) : Prop where
  flushed : s.flushed.getD 0 = s.recorded.getD 0
  fits : ∀ c, Fits64 (s.recorded.getD 0 c)
  live : s.state.isSome → s.recorded.isSome

variable {s : PeerCounters}

theorem Inv.record (h : s.Inv) {d : Counts} (hstate : s.state.isSome)
    (hfits : ∀ c, Fits64 (s.recorded.getD 0 c + d c)) : (s.record d).Inv := by
  obtain ⟨st, hst⟩ := isSome_iff_exists.mp hstate
  obtain ⟨r, hr⟩ := isSome_iff_exists.mp (h.live hstate)
  have htotals := h.flushed
  simp only [PeerCounters.flushed, getAgentStats, hst, hr, map_some, some_or,
    getD_some] at htotals hfits
  simp only [PeerCounters.record, hst, hr, getD_some, map_some]
  refine ⟨?_, hfits, fun _ => rfl⟩
  funext c
  have hc : wrap64 (st.base c + st.count c) = r c := congrFun htotals c
  show wrap64 (st.base c + wrap64 (st.count c + d c)) = r c + d c
  rw [← wrap64_of_fits (hfits c), ← hc]
  simp only [wrap64, Int.add_bmod_bmod, Int.bmod_add_bmod, add_assoc]

theorem Inv.bootstrap (h : s.Inv) (hflushed : s.Flushed .bootstrap) : (s.step .bootstrap).Inv := by
  have hhistory : s.history.getD 0 = s.recorded.getD 0 := by
    rw [← h.flushed, PeerCounters.flushed]
    cases hstats : s.getAgentStats with
    | none => rfl
    | some stats => exact hflushed stats hstats
  refine ⟨funext fun c => ?_, h.fits, fun _ => rfl⟩
  show wrap64 (s.history.getD 0 c + 0) = _
  rw [add_zero, hhistory]
  exact wrap64_of_fits (h.fits c)

theorem Inv.step (h : s.Inv) {a : CounterCall} (hflushed : s.Flushed a) : (s.step a).Inv := by
  cases a with
  | bootstrap => exact h.bootstrap hflushed
  | recordSuccess | recordFailure => exact h.record hflushed.1 hflushed.2
  | flushAll =>
    refine ⟨Eq.trans ?_ h.flushed, h.fits, h.live⟩
    show (s.getAgentStats.or (s.getAgentStats.or s.history)).getD 0 = _
    rw [← Option.or_assoc, Option.or_self]
    rfl
  | disconnect => exact ⟨h.flushed, h.fits, nofun⟩

end PeerCounters

def peerCounters : Machine PeerCounters CounterCall where
  Init s := s = ⟨none, none, none⟩
  step s a := some (s.step a)

/-- **Conservation**, where every registration finds the history up to date. -/
theorem conserved_of_flushed {s : PeerCounters} (h : peerCounters.ReachVia PeerCounters.Flushed s) :
    s.Conserved := by
  have hinv : s.Inv := by
    refine h.induction ?_ ?_
    · rintro _ rfl
      exact ⟨rfl, fun _ => (by decide : Fits64 0), nofun⟩
    · rintro s a _ hs ha ⟨⟩
      exact hs.step ha
  intro r hr stats hstats
  have hflushed := hinv.flushed
  rwa [PeerCounters.flushed, hstats, hr] at hflushed

def flushedCalls : List CounterCall :=
  [.bootstrap, .recordSuccess 3 4, .flushAll, .bootstrap, .recordFailure]

theorem conserved_flushedCalls : ∃ s ∈ peerCounters.run ⟨none, none, none⟩ flushedCalls,
    (∃ stats ∈ s.getAgentStats, stats .inputTokens = 3 ∧ stats .failedRequests = 1) ∧
      s.Conserved := by
  refine Machine.exists_mem_and (by decide +kernel) fun s hrun _ => conserved_of_flushed ?_
  refine ⟨_, flushedCalls, rfl, ⟨nofun, ⟨rfl, ?_⟩, trivial, ?_, ⟨rfl, ?_⟩, trivial⟩, hrun⟩
  · rintro (_ | _ | _ | _) <;> decide
  · rintro _ ⟨⟩
    rfl
  · rintro (_ | _ | _ | _) <;> decide

/-- **A request is lost** when the peer registers again before the next flush. -/
theorem not_conserved_reregistered : ∃ s ∈ peerCounters.run ⟨none, none, none⟩
      [.bootstrap, .recordSuccess 3 4, .bootstrap],
    (∃ stats ∈ s.getAgentStats, stats .successfulRequests = 0) ∧ ¬s.Conserved := by
  refine ⟨_, rfl, ⟨_, rfl, by decide⟩, fun h => ?_⟩
  have hzero := congrFun (h _ rfl _ rfl) .successfulRequests
  revert hzero
  decide

end HivenetRouter.Metrics
