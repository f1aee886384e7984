import HivenetRouter.Domain.Types

/-!
# The capacity wait queue

`policy.WaitQueue` holds the goroutines that wait for a concurrency slot, ordered by
ticket. A goroutine is identified by the channel it parks on; here that is a value
of the type `κ`. The operations are the locked sections of the source, as functions
on the queue that also return what the section does to goroutines:

* `waitInLine` — the insertion of `WaitInLine`, with the ticket it hands out;
* `leave` — the removal on a finished context, and whether the entry was found;
* `signal` — the head goroutine, to which the section sends;
* `broadcast` — every goroutine of the queue.

`sort.Search` returns the first index whose ticket exceeds the given one *provided*
the tickets are ordered, so the order is a field of the structure: a queue in which
the binary search would be wrong cannot be built.

The lemmas read each operation on `parked`, the list of goroutines in the queue.
-/

namespace HivenetRouter.Policy

open List

section

variable {κ : Type*}

/-- `waiter`: one parked goroutine and its place in line. -/
structure Waiter (κ : Type*) where
  ch : κ
  ticket : ℕ

structure WaitQueue (κ : Type*) where
  waiters : List (Waiter κ)
  next : ℕ
  bound : ℕ
  /-- First come, first served: the waiters are ordered by ticket. -/
  ordered : waiters.Pairwise fun v w => v.ticket ≤ w.ticket

namespace WaitQueue

/-- `newWaitQueue`. -/
def new (bound : ℕ) : WaitQueue κ := ⟨[], 0, bound, List.Pairwise.nil⟩

def depth (q : WaitQueue κ) : ℕ := q.waiters.length

def parked (q : WaitQueue κ) : List κ := q.waiters.map (·.ch)

/-! ### Insertion by ticket -/

/-- `slices.Insert` at the index `sort.Search` finds: before the first waiter whose
ticket is larger. -/
def insertWaiter (w : Waiter κ) : List (Waiter κ) → List (Waiter κ)
  | [] => [w]
  | v :: vs => if v.ticket > w.ticket then w :: v :: vs else v :: insertWaiter w vs

theorem insertWaiter_perm (w : Waiter κ) (vs : List (Waiter κ)) :
    (insertWaiter w vs).Perm (w :: vs) := by
  induction vs with
  | nil => exact List.Perm.refl _
  | cons v vs ih =>
    unfold insertWaiter
    split
    · exact List.Perm.refl _
    · exact (ih.cons v).trans (List.Perm.swap w v vs)

theorem insertWaiter_ordered {w : Waiter κ} {vs : List (Waiter κ)}
    (h : vs.Pairwise fun v w => v.ticket ≤ w.ticket) :
    (insertWaiter w vs).Pairwise fun v w => v.ticket ≤ w.ticket := by
  induction vs with
  | nil => exact pairwise_singleton _ _
  | cons v vs ih =>
    obtain ⟨hv, hvs⟩ := pairwise_cons.mp h
    unfold insertWaiter
    split
    · next hlt =>
      -- `w` goes to the front: every later ticket is at least `v`'s
      refine pairwise_cons.mpr ⟨fun u hu => ?_, h⟩
      rcases mem_cons.mp hu with rfl | hu
      · exact Nat.le_of_lt hlt
      · exact Nat.le_trans (Nat.le_of_lt hlt) (hv u hu)
    · next hle =>
      refine pairwise_cons.mpr ⟨fun u hu => ?_, ih hvs⟩
      rcases mem_cons.mp ((insertWaiter_perm w vs).mem_iff.mp hu) with rfl | hu
      · exact Nat.le_of_not_lt hle
      · exact hv u hu

/-! ### The locked sections -/

/-- The locked section of `WaitInLine`: the queue with `ch` in line and the ticket it
holds, `none` for `ErrQueueFull`. A ticket `0` is a first parking; a goroutine that
parks again keeps its place and is not subject to the bound. -/
def waitInLine (q : WaitQueue κ) (releasedFromHold : Bool) (ch : κ) (ticket : ℕ) :
    Option (WaitQueue κ × ℕ) :=
  let place (q : WaitQueue κ) (ticket : ℕ) : WaitQueue κ :=
    { q with
      waiters := insertWaiter ⟨ch, ticket⟩ q.waiters
      ordered := insertWaiter_ordered q.ordered }
  if ticket = 0 then
    if q.depth ≥ q.bound ∧ !releasedFromHold then none
    else some (place { q with next := q.next + 1 } (q.next + 1), q.next + 1)
  else some (place q ticket, ticket)

/-- The locked section of `WaitInLine` after `ctx.Done()`: take `ch` out of the queue,
and whether it was still there. -/
def leave [DecidableEq κ] (q : WaitQueue κ) (ch : κ) : WaitQueue κ × Bool :=
  ({ q with
      waiters := q.waiters.eraseP (fun w => w.ch = ch)
      ordered := q.ordered.sublist eraseP_sublist },
    q.waiters.any (fun w => w.ch = ch))

/-- `Signal`: the head goroutine leaves the queue and is sent to. -/
def signal (q : WaitQueue κ) : WaitQueue κ × Option κ :=
  ({ q with waiters := q.waiters.tail, ordered := q.ordered.sublist (tail_sublist _) },
    q.waiters.head?.map (·.ch))

/-- `Broadcast`: every goroutine leaves the queue and is sent to. -/
def broadcast (q : WaitQueue κ) : WaitQueue κ × List κ :=
  ({ q with waiters := [], ordered := List.Pairwise.nil }, q.parked)

/-! ### The operations on `parked` -/

theorem depth_eq_length_parked (q : WaitQueue κ) : q.depth = q.parked.length := by
  simp [depth, parked]

theorem parked_waitInLine {q q' : WaitQueue κ} {released : Bool} {ch : κ} {ticket ticket' : ℕ}
    (h : q.waitInLine released ch ticket = some (q', ticket')) :
    q'.parked.Perm (ch :: q.parked) := by
  unfold waitInLine at h
  split_ifs at h <;> cases h <;> exact (insertWaiter_perm _ _).map _

variable (q : WaitQueue κ)

@[simp] theorem parked_signal : q.signal.1.parked = q.parked.tail := by
  simp [signal, parked]

@[simp] theorem signal_snd : q.signal.2 = q.parked.head? := by
  simp [signal, parked]

@[simp] theorem parked_broadcast : q.broadcast.1.parked = [] := rfl

theorem parked_leave [DecidableEq κ] (ch : κ) : (q.leave ch).1.parked = q.parked.erase ch := by
  simp only [leave, parked]
  induction q.waiters with
  | nil => rfl
  | cons w ws ih =>
    by_cases hw : w.ch = ch
    · simp [hw]
    · simp [hw, ih]

theorem leave_snd [DecidableEq κ] (ch : κ) : (q.leave ch).2 = decide (ch ∈ q.parked) := by
  rw [Bool.eq_iff_iff]
  simp [leave, parked]

end WaitQueue

end

/-!
## The policy evaluator

The three layers of one policy step are two predicates and a ranking. This module
is the predicates: the static `match` filter (`matchesFilter`) and the dynamic
`exclude_if` gates (`passesGates`), the latter read on a snapshot that
`Evaluator.snapshot` assembles from the agent and the metric stores. A metric that
is absent is `none` and passes every gate.

Metric values are rationals. A gate list is the `map[string]ThresholdRule` of the
source as an association list; `passesGates` is a conjunction, so its order does
not matter.

The one metric that moves with the agent's load is `capacity_utilization`.
`passesGates_congr_load` says so: a step with no gate on it accepts or refuses an
agent whatever its load.
-/

open Domain (Agent)

/-- `MatchFilter`: an empty field matches every agent. -/
structure MatchFilter where
  region : String := ""
  engine : String := ""
  tags : List String := []
  organization : String := ""
  machine : String := ""
  gpuModel : String := ""
  deriving DecidableEq

/-- `ThresholdRule`: at most one operator is set in a validated rule. -/
structure ThresholdRule where
  gt : Option ℚ := none
  lt : Option ℚ := none
  gte : Option ℚ := none
  lte : Option ℚ := none
  deriving DecidableEq

/-- `AgentSnapshot`: the live metric view of one agent; `none` is an unavailable
metric. -/
structure AgentSnapshot where
  capacityUtilization : Option ℚ := none
  successRate : Option ℚ := none
  srtt : Option ℚ := none
  consecutiveFailures : Option ℚ := none
  consecutiveTimeouts : Option ℚ := none
  kvCacheUtilization : Option ℚ := none
  runningRequests : Option ℚ := none
  waitingRequests : Option ℚ := none
  avgTTFTSeconds : Option ℚ := none
  p90TTFTSeconds : Option ℚ := none
  avgITLSeconds : Option ℚ := none
  p90ITLSeconds : Option ℚ := none
  gpuTemperatureC : Option ℚ := none
  gpuUtilPercent : Option ℚ := none
  gpuVRAMUsedPercent : Option ℚ := none
  memoryUsedPercent : Option ℚ := none
  cpuUsagePercent : Option ℚ := none

/-! ### The metric stores -/

/-- `UniversalCounterStore.LiveSnapshot`, when the agent has a request history. -/
structure LiveSnapshot where
  successRate : ℚ
  srtt : ℚ
  consecutiveFailures : ℕ

/-- `GetEnginePunctual`: what an inference engine reports. -/
structure EnginePunctual where
  kvCacheUtilization : Option ℚ
  runningRequests : Option ℚ
  waitingRequests : Option ℚ
  avgTTFTSeconds : Option ℚ
  p90TTFTSeconds : Option ℚ
  avgITLSeconds : Option ℚ
  p90ITLSeconds : Option ℚ

structure GPUMetric where
  temperatureC : ℚ
  utilPercent : ℚ
  vramUsedBytes : ℕ
  vramTotalBytes : ℕ

/-- `GetHardwareSnapshot`: the last hardware reading of the agent. -/
structure HardwareSnapshot where
  gpus : List GPUMetric
  cpuUsagePercent : ℚ
  memoryUsedPercent : ℚ

/-- What the counter store and the routing storage hold for one agent. -/
structure MetricStores where
  liveSnapshot : Option LiveSnapshot := none
  consecutiveTimeouts : Option ℕ := none
  enginePunctual : Option EnginePunctual := none
  hardwareSnapshot : Option HardwareSnapshot := none

def gpuVRAMUsedPercent (g : GPUMetric) : ℚ :=
  if g.vramTotalBytes = 0 then 0 else (g.vramUsedBytes : ℚ) / g.vramTotalBytes

/-- The largest reading over the agent's GPUs, `none` for a CPU-only agent. -/
def maxOverGPUs (f : GPUMetric → ℚ) : List GPUMetric → Option ℚ
  | [] => none
  | g :: gs => some (gs.foldl (fun m g => if f g > m then f g else m) (f g))

def snapshot (stores : MetricStores) (agent : Agent) : AgentSnapshot where
  capacityUtilization :=
    if agent.metadata.capacity > 0 then
      some ((agent.activeRequests : ℚ) / agent.metadata.capacity)
    else none
  successRate := stores.liveSnapshot.map (·.successRate)
  srtt := stores.liveSnapshot.bind fun l => if l.srtt > 0 then some l.srtt else none
  consecutiveFailures := stores.liveSnapshot.map (·.consecutiveFailures)
  consecutiveTimeouts := stores.consecutiveTimeouts.map (↑)
  kvCacheUtilization := stores.enginePunctual.bind (·.kvCacheUtilization)
  runningRequests := stores.enginePunctual.bind (·.runningRequests)
  waitingRequests := stores.enginePunctual.bind (·.waitingRequests)
  avgTTFTSeconds := stores.enginePunctual.bind (·.avgTTFTSeconds)
  p90TTFTSeconds := stores.enginePunctual.bind (·.p90TTFTSeconds)
  avgITLSeconds := stores.enginePunctual.bind (·.avgITLSeconds)
  p90ITLSeconds := stores.enginePunctual.bind (·.p90ITLSeconds)
  -- hardware percentages are normalised to fractions, temperatures are not
  gpuTemperatureC := stores.hardwareSnapshot.bind fun hw => maxOverGPUs (·.temperatureC) hw.gpus
  gpuUtilPercent :=
    stores.hardwareSnapshot.bind fun hw => maxOverGPUs (fun g => g.utilPercent / 100) hw.gpus
  gpuVRAMUsedPercent :=
    stores.hardwareSnapshot.bind fun hw => maxOverGPUs gpuVRAMUsedPercent hw.gpus
  memoryUsedPercent := stores.hardwareSnapshot.map (·.memoryUsedPercent / 100)
  cpuUsagePercent := stores.hardwareSnapshot.map (·.cpuUsagePercent / 100)

/-! ### The two predicates -/

/-- `AgentSnapshot.getValue`: an unrecognised field name has no value. -/
def AgentSnapshot.getValue (snap : AgentSnapshot) (field : String) : Option ℚ :=
  match field with
  | "capacity_utilization" => snap.capacityUtilization
  | "success_rate" => snap.successRate
  | "srtt" => snap.srtt
  | "consecutive_failures" => snap.consecutiveFailures
  | "consecutive_timeouts" => snap.consecutiveTimeouts
  | "kv_cache_utilization" => snap.kvCacheUtilization
  | "running_requests" => snap.runningRequests
  | "waiting_requests" => snap.waitingRequests
  | "avg_ttft_seconds" => snap.avgTTFTSeconds
  | "p90_ttft_seconds" => snap.p90TTFTSeconds
  | "avg_itl_seconds" => snap.avgITLSeconds
  | "p90_itl_seconds" => snap.p90ITLSeconds
  | "gpu_temperature_c" => snap.gpuTemperatureC
  | "gpu_util_percent" => snap.gpuUtilPercent
  | "gpu_vram_used_percent" => snap.gpuVRAMUsedPercent
  | "memory_used_percent" => snap.memoryUsedPercent
  | "cpu_usage_percent" => snap.cpuUsagePercent
  | _ => none

def matchesFilter (agent : Agent) (f : MatchFilter) : Bool :=
  let m := agent.metadata
  (f.region == "" || m.region == f.region) &&
  (f.engine == "" || m.engine == f.engine) &&
  (f.organization == "" || m.organization == f.organization) &&
  (f.machine == "" || m.machine == f.machine) &&
  f.tags.all (fun required => m.tags.contains required) &&
  (f.gpuModel == "" || m.gpuModel == f.gpuModel)

def violates (value : ℚ) (rule : ThresholdRule) : Bool :=
  rule.gt.any (fun t => value > t) || rule.lt.any (fun t => value < t) ||
  rule.gte.any (fun t => value ≥ t) || rule.lte.any (fun t => value ≤ t)

/-- `PassesGates`: no present metric breaches its rule. -/
def passesGates (snap : AgentSnapshot) (gates : List (String × ThresholdRule)) : Bool :=
  gates.all fun g => !(snap.getValue g.1).any (fun v => violates v g.2)

/-! ### What depends on the load -/

theorem AgentSnapshot.getValue_capacityUtilization {field : String}
    (h : field ≠ "capacity_utilization") (snap : AgentSnapshot) (v : Option ℚ) :
    { snap with capacityUtilization := v }.getValue field = snap.getValue field := by
  unfold getValue
  split <;> first | rfl | contradiction

/-- **Gates without `capacity_utilization` do not see the load.** -/
theorem passesGates_congr_load {gates : List (String × ThresholdRule)}
    (h : ∀ g ∈ gates, g.1 ≠ "capacity_utilization") (stores : MetricStores) (agent : Agent)
    (load : Int) :
    passesGates (snapshot stores { agent with activeRequests := load }) gates =
      passesGates (snapshot stores agent) gates := by
  unfold passesGates
  rw [Bool.eq_iff_iff, List.all_eq_true, List.all_eq_true]
  refine forall₂_congr fun g hg => ?_
  rw [← AgentSnapshot.getValue_capacityUtilization (h g hg) (snapshot stores agent)
    (snapshot stores { agent with activeRequests := load }).capacityUtilization]
  rfl

theorem matchesFilter_load (agent : Agent) (load : Int) (f : MatchFilter) :
    matchesFilter { agent with activeRequests := load } f = matchesFilter agent f := rfl

/-!
## Policy sessions

`policy.Session` is the cursor of one request over the steps of its policy. This
module has its sequential part: the candidate scan `buildCandidates` with the reason
it records, and the two moves of the cursor, `recordFailure` and `advanceStep`. What
`Select` does between them — claiming a slot, parking, being woken — is concurrent
and is in `HivenetRouter.Policy.CapacityWait`.

The scan gives every listed agent one `Verdict`, the branch of the loop in which the
agent ends; the counters of the source are counts of verdicts. Of the per-reason
tables `filterMiss` and `gateMiss` only emptiness matters to routing, so each is one
verdict here. The gate funnel kept for the logs is left out.

`verdict_eq_candidate_iff` separates the two halves of being a candidate: the
session *accepts* the agent (`Session.Accepts`: health, capability, match filter, not
failed in this step, gates), and the agent has a free slot.
-/

open List

/-- `PolicyStep`: one routing attempt. -/
structure PolicyStep where
  matchFilter : MatchFilter := {}
  excludeIf : List (String × ThresholdRule) := []
  strategy : String := ""
  /-- `0` stands for the global default. -/
  maxTries : Int := 0
  deriving DecidableEq

/-- `resolvedStep`: a policy step with its effective number of tries. -/
structure ResolvedStep extends PolicyStep where
  name : String
  effectiveMaxTries : Int

def resolve (globalMaxTries : Int) (name : String) (step : PolicyStep) : ResolvedStep :=
  { step with
    name := name
    effectiveMaxTries := if step.maxTries ≤ 0 then globalMaxTries else step.maxTries }

/-- Why a scan left no candidate: the error values `Select` returns. -/
inductive SelectError where
  /-- `ErrAllStepsExhausted`: "all policy steps exhausted: no eligible agents". -/
  | allStepsExhausted
  /-- `ErrModelNotFound`: "no agents registered for model". -/
  | modelNotFound
  /-- `ErrNoAgentsAvailable`: "agents exist but all are offline or unhealthy". -/
  | noAgentsAvailable
  /-- `ErrNoCapacity`: "all agents are at maximum capacity". -/
  | noCapacity
  deriving DecidableEq

/-- One agent of `ListByModel`: its peer id, its record, and what the metric stores
hold for it. -/
structure Listed (ι : Type*) where
  id : ι
  agent : Agent
  stores : MetricStores

structure Session (ι : Type*) where
  /-- `""` accepts every capability. -/
  capability : String
  steps : List ResolvedStep
  stepIdx : ℕ
  stepTries : ℕ
  /-- The agents that failed a forward in the current step. -/
  stepFailed : List ι
  lastReason : SelectError

variable {ι : Type*}

namespace Session

/-- `NewSession`, on steps that are already resolved. -/
def new (capability : String) (steps : List ResolvedStep) : Session ι where
  capability := capability
  steps := steps
  stepIdx := 0
  stepTries := 0
  stepFailed := []
  lastReason := .allStepsExhausted

/-- The current step, `none` when the chain is exhausted. -/
def step? (s : Session ι) : Option ResolvedStep := s.steps[s.stepIdx]?

/-- `advanceStep`: the next step, with the per-step state reset. -/
def advanceStep (s : Session ι) : Session ι :=
  { s with stepIdx := s.stepIdx + 1, stepTries := 0, stepFailed := [] }

/-- `RecordFailure`: one more failed try of `id`; the step is left when its budget is
used up. -/
def recordFailure (s : Session ι) (id : ι) : Session ι :=
  let s' := { s with stepFailed := id :: s.stepFailed, stepTries := s.stepTries + 1 }
  match s.step? with
  | some step => if (s'.stepTries : Int) ≥ step.effectiveMaxTries then s'.advanceStep else s'
  | none => s'

/-! ### The candidate scan -/

/-- The branch of `buildCandidates`'s loop in which an agent ends. -/
inductive Verdict where
  | unhealthy
  | filterMiss
  | prevFailed
  | atCapacity
  | gateMiss
  | candidate
  deriving DecidableEq

variable [DecidableEq ι] {s : Session ι} {step : PolicyStep}

/-- One iteration of `buildCandidates`'s loop. -/
def verdict (s : Session ι) (step : PolicyStep) (x : Listed ι) : Verdict :=
  if !x.agent.healthy || !x.agent.backendHealthy then .unhealthy
  else if s.capability ≠ "" ∧ x.agent.metadata.capability ≠ s.capability then .filterMiss
  else if !matchesFilter x.agent step.matchFilter then .filterMiss
  else if x.id ∈ s.stepFailed then .prevFailed
  else if x.agent.activeRequests ≥ x.agent.metadata.capacity then .atCapacity
  else if !passesGates (snapshot x.stores x.agent) step.excludeIf then .gateMiss
  else .candidate

/-- The agents that survive the three filter layers. -/
def candidates (s : Session ι) (step : PolicyStep) (all : List (Listed ι)) : List ι :=
  (all.filter fun x => s.verdict step x = .candidate).map (·.id)

/-- The reason recorded when the scan leaves no candidate. -/
def emptyScanReason (s : Session ι) (step : PolicyStep) (all : List (Listed ι)) : SelectError :=
  let n (v : Verdict) := (all.map (s.verdict step)).count v
  if all.length = 0 then .modelNotFound
  else if n .unhealthy = all.length then .noAgentsAvailable
  -- every agent that passes the filters is full or was already tried in this step
  else if n .filterMiss = 0 ∧ n .atCapacity > 0 ∧
      n .unhealthy + n .atCapacity + n .prevFailed = all.length then .noCapacity
  -- a reason left by an earlier wait is dropped when no slot can be waited for
  else if n .atCapacity = 0 ∧ n .gateMiss = 0 ∧ s.lastReason = .noCapacity then .noAgentsAvailable
  else s.lastReason

/-- `buildCandidates`: the candidates, and the session with the reason when there are
none. -/
def buildCandidates (s : Session ι) (step : PolicyStep) (all : List (Listed ι)) :
    Session ι × List ι :=
  let cands := s.candidates step all
  (if cands = [] then { s with lastReason := s.emptyScanReason step all } else s, cands)

/-! ### Acceptance -/

/-- The session accepts the agent in this step: it is healthy, has the capability,
passes the match filter and the gates, and has not failed in the step. Whether it has
a free slot is not asked. -/
def Accepts (s : Session ι) (step : PolicyStep) (x : Listed ι) : Prop :=
  (x.agent.healthy = true ∧ x.agent.backendHealthy = true) ∧
  (s.capability = "" ∨ x.agent.metadata.capability = s.capability) ∧
  matchesFilter x.agent step.matchFilter = true ∧
  x.id ∉ s.stepFailed ∧
  passesGates (snapshot x.stores x.agent) step.excludeIf = true

instance (s : Session ι) (step : PolicyStep) (x : Listed ι) : Decidable (s.Accepts step x) :=
  inferInstanceAs (Decidable (_ ∧ _))

/-- **A candidate is an accepted agent with a free slot.** -/
theorem verdict_eq_candidate_iff (s : Session ι) (step : PolicyStep) (x : Listed ι) :
    s.verdict step x = .candidate ↔
      s.Accepts step x ∧ x.agent.activeRequests < x.agent.metadata.capacity := by
  unfold verdict Accepts
  split_ifs <;> grind

theorem mem_candidates {all : List (Listed ι)} {id : ι} : id ∈ s.candidates step all ↔
      ∃ x ∈ all, (s.Accepts step x ∧ x.agent.activeRequests < x.agent.metadata.capacity) ∧
        x.id = id := by
  simp only [candidates, mem_map, mem_filter, decide_eq_true_eq,
    verdict_eq_candidate_iff, and_assoc]

omit [DecidableEq ι] in
theorem accepts_congr_load (h : ∀ g ∈ step.excludeIf, g.1 ≠ "capacity_utilization")
    (s : Session ι) (x : Listed ι) (load : Int) :
    s.Accepts step { x with agent := { x.agent with activeRequests := load } } ↔
      s.Accepts step x := by
  unfold Accepts
  rw [passesGates_congr_load h, matchesFilter_load]

/-- The scan changes the recorded reason only, so neither the current step nor what the
session accepts. -/
@[simp] theorem buildCandidates_step? (s : Session ι) (step : PolicyStep)
    (all : List (Listed ι)) : (s.buildCandidates step all).1.step? = s.step? := by
  unfold buildCandidates
  dsimp only
  split <;> rfl

theorem buildCandidates_accepts (s : Session ι) (step step' : PolicyStep)
    (all : List (Listed ι)) (x : Listed ι) :
    (s.buildCandidates step all).1.Accepts step' x ↔ s.Accepts step' x := by
  unfold buildCandidates
  dsimp only
  split <;> rfl

/-! ### When a request waits -/

/-- The branch of `Select` on a scan: the request is to be parked. -/
def Parks (s : Session ι) (defaultQueueDepth : ℕ) (step : PolicyStep) (all : List (Listed ι)) :
    Prop :=
  (s.buildCandidates step all).1.lastReason = .noCapacity ∧ defaultQueueDepth > 0

/-- The agent would serve the request if it had a slot: it is healthy, passes the filters, and did
not fail in this step. -/
def Serves (s : Session ι) (step : PolicyStep) (x : Listed ι) : Prop :=
  (x.agent.healthy = true ∧ x.agent.backendHealthy = true) ∧
  (s.capability = "" ∨ x.agent.metadata.capability = s.capability) ∧
  matchesFilter x.agent step.matchFilter = true ∧ x.id ∉ s.stepFailed

instance (s : Session ι) (step : PolicyStep) (x : Listed ι) : Decidable (s.Serves step x) :=
  inferInstanceAs (Decidable (_ ∧ _))

theorem verdict_eq_atCapacity_iff (s : Session ι) (step : PolicyStep) (x : Listed ι) :
    s.verdict step x = .atCapacity ↔
      s.Serves step x ∧ x.agent.metadata.capacity ≤ x.agent.activeRequests := by
  unfold verdict Serves
  split_ifs <;> grind

/-- In such a scan an agent that would serve the request is full. -/
theorem serves_iff_atCapacity {x : Listed ι} (hcand : s.verdict step x ≠ .candidate)
    (hgate : s.verdict step x ≠ .gateMiss) :
    s.Serves step x ↔ s.verdict step x = .atCapacity := by
  revert hcand hgate
  unfold verdict Serves
  split_ifs <;> grind

theorem count_verdicts (l : List Verdict) :
    l.count .unhealthy + l.count .filterMiss + l.count .prevFailed + l.count .atCapacity +
      l.count .gateMiss + l.count .candidate = l.length := by
  induction l with
  | nil => rfl
  | cons v => cases v <;> simp <;> omega

/-- A scan without a candidate that excludes no agent by a gate, with the queue enabled. -/
structure EmptyScan (ι : Type*) [DecidableEq ι] where
  session : Session ι
  step : PolicyStep
  all : List (Listed ι)
  defaultQueueDepth : ℕ
  enabled : defaultQueueDepth > 0
  noCandidate : ∀ x ∈ all, session.verdict step x ≠ .candidate
  noGateMiss : ∀ x ∈ all, session.verdict step x ≠ .gateMiss

namespace EmptyScan

variable (e : EmptyScan ι)

/-- **The request waits exactly if a slot can be waited for**: some agent would serve it, and all
that would are full. -/
def WaitsRightly : Prop :=
  e.session.Parks e.defaultQueueDepth e.step e.all ↔
    (∃ x ∈ e.all, e.session.Serves e.step x) ∧
      ∀ x ∈ e.all, e.session.Serves e.step x → x.agent.metadata.capacity ≤ x.agent.activeRequests

/-- No agent is excluded by a filter beside one that would serve the request, unless the scan before
has left `ErrNoCapacity`. -/
def FiltersApart : Prop :=
  (∃ x ∈ e.all, e.session.Serves e.step x) →
    (∃ x ∈ e.all, e.session.verdict e.step x = .filterMiss) → e.session.lastReason = .noCapacity

theorem exists_verdict_iff (v : Verdict) :
    (∃ x ∈ e.all, e.session.verdict e.step x = v) ↔
      0 < (e.all.map (e.session.verdict e.step)).count v := by
  rw [count_pos_iff, mem_map]

theorem count_eq_zero {v : Verdict} (h : ∀ x ∈ e.all, e.session.verdict e.step x ≠ v) :
    (e.all.map (e.session.verdict e.step)).count v = 0 := by
  refine List.count_eq_zero.mpr fun hmem => ?_
  obtain ⟨x, hx, hv⟩ := mem_map.mp hmem
  exact h x hx hv

theorem exists_serves_iff : (∃ x ∈ e.all, e.session.Serves e.step x) ↔
    0 < (e.all.map (e.session.verdict e.step)).count .atCapacity := by
  rw [← exists_verdict_iff]
  refine exists_congr fun x => and_congr_right fun hx => ?_
  exact serves_iff_atCapacity (e.noCandidate x hx) (e.noGateMiss x hx)

/-- The reason that is left: with a filter miss, the one before stands. -/
theorem parks_iff : e.session.Parks e.defaultQueueDepth e.step e.all ↔
    (∃ x ∈ e.all, e.session.Serves e.step x) ∧
      ((∃ x ∈ e.all, e.session.verdict e.step x = .filterMiss) → e.session.lastReason =
        .noCapacity) := by
  have hempty : e.session.candidates e.step e.all = [] := by
    rw [candidates, map_eq_nil_iff, filter_eq_nil_iff]
    exact fun x hx h => e.noCandidate x hx (of_decide_eq_true h)
  have hcounts := count_verdicts (e.all.map (e.session.verdict e.step))
  have hcand := e.count_eq_zero e.noCandidate
  have hgate := e.count_eq_zero e.noGateMiss
  rw [exists_serves_iff, exists_verdict_iff]
  unfold Parks buildCandidates
  rw [hempty, and_iff_left e.enabled]
  dsimp only
  rw [if_pos rfl, emptyScanReason]
  split_ifs <;> grind

/-- **A request waits rightly exactly if no filter miss hides a full agent.** -/
theorem waitsRightly_iff (e : EmptyScan ι) : e.WaitsRightly ↔ e.FiltersApart := by
  have hfull : ∀ x ∈ e.all, e.session.Serves e.step x →
      x.agent.metadata.capacity ≤ x.agent.activeRequests := by
    intro x hx hserves
    rw [serves_iff_atCapacity (e.noCandidate x hx) (e.noGateMiss x hx),
      verdict_eq_atCapacity_iff] at hserves
    exact hserves.2
  rw [WaitsRightly, FiltersApart, parks_iff, and_iff_left hfull]
  exact and_iff_left_iff_imp

end EmptyScan

def fullAgent (capability : String) : Agent :=
  ⟨⟨1, "", [], "", "", "", capability, ""⟩, true, true, 1⟩

/-- A new session finds a full agent of its capability beside one of another, and does not wait. -/
theorem not_waitsRightly_otherCapability : ¬ ∀ e : EmptyScan ℕ, e.WaitsRightly := by
  intro h
  have hfirst := h ⟨Session.new "llm" [], {},
    [⟨0, fullAgent "llm", {}⟩, ⟨1, fullAgent "embedding", {}⟩], 30, by decide, by decide, by decide⟩
  have hparks := hfirst.mpr ⟨⟨_, mem_cons_self, by decide⟩, by decide⟩
  exact absurd hparks.1 (by decide)

end Session

end HivenetRouter.Policy
