import HivenetRouter.Policy.Directory
import HivenetRouter.Router.AgentRegistry
import HivenetRouter.Router.Handoff
import Mathlib.Algebra.Order.BigOperators.Group.Finset

/-!
# Dispatching a request

`dispatchWithPolicy` selects an agent, forwards the request to it, and goes on over the steps of the
policy until a forward succeeds. When all steps are exhausted, an LLM request goes to the
fallback provider of its policy, if there is one.

A `Fleet` is the registry with the agents it points to. It changes at any time: between two
steps of a dispatch agents come, go, fail and recover. `Dispatch.step` is one operation of the
loop on the fleet as it is: a scan of the candidates, the acquisition of a slot, the return of
a forward. What the network and the clock decide is in the action.
-/

namespace HivenetRouter.Router

open Domain (Agent)
open Policy (FallbackProvider Listed MetricStores PolicyStep ResolvedStep SelectError
  Session)
open Function

/-! ### The fleet -/

/-- A `*domain.Agent`: the two fields that never change, and the object. -/
structure AgentRef (Peer : Type) where
  id : Peer
  model : String
  obj : ℕ
  deriving DecidableEq

def agentRefFields (Peer : Type) : AgentFields Peer (AgentRef Peer) := ⟨AgentRef.id, AgentRef.model⟩

/-- The agents, and what the metric stores hold for them. -/
structure Fleet (Peer : Type) where
  registry : AgentRegistry Peer (AgentRef Peer)
  objects : ℕ → Agent
  stores : ℕ → MetricStores

inductive FleetAct (Peer : Type)
  | register (a : AgentRef Peer)
  | unregister (id : Peer)
  /-- The health, the load or the metadata of an agent changes. -/
  | agent (obj : ℕ) (agent : Agent)
  | metrics (obj : ℕ) (stores : MetricStores)

variable {Peer : Type} [LinearOrder Peer]

namespace Fleet

/-- `ListByModel`, with what the scan reads of each agent. -/
def listed (f : Fleet Peer) (model : String) : List (Listed Peer) :=
  (f.registry.listByModel model).map fun a => ⟨a.id, f.objects a.obj, f.stores a.obj⟩

def countHealthyByModel (f : Fleet Peer) (model : String) : ℕ :=
  f.registry.countHealthyByModel (fun a => (f.objects a.obj).healthy) model

def setObject (f : Fleet Peer) (obj : ℕ) (agent : Agent) : Fleet Peer :=
  { f with objects := update f.objects obj agent }

def change (f : Fleet Peer) : FleetAct Peer → Fleet Peer
  | .register a => { f with registry := f.registry.register (agentRefFields Peer) a }
  | .unregister id => { f with registry := f.registry.unregister (agentRefFields Peer) id }
  | .agent obj agent => f.setObject obj agent
  | .metrics obj stores => { f with stores := update f.stores obj stores }

end Fleet

/-! ### The loop -/

inductive Server (Peer : Type)
  | agent (id : Peer)
  | provider (provider : FallbackProvider)
  deriving DecidableEq

inductive DispatchError
  /-- `ErrCodeRequestTimeout`. -/
  | timeout
  /-- `mapSelectorError`. -/
  | selector (reason : SelectError)
  /-- A code of `isNonRetryable`. -/
  | nonRetryable
  /-- `ErrCodeBackendError`, from the provider. -/
  | provider

/-- What `forwardToAgent` returns. -/
inductive ForwardResult
  | ok
  | nonRetryable
  /-- The deadline of the request has passed. -/
  | deadline
  /-- `isConnectionLevelError`. -/
  | disconnected
  | failure
  deriving DecidableEq

inductive DispatchStage (Peer : Type)
  /-- In `Select`, at the head of its loop. -/
  | selecting
  /-- The strategy has chosen the agent; `TryAcquireSlot` is next. -/
  | chosen (a : AgentRef Peer)
  /-- `Select` has returned the agent. -/
  | forwarding (a : AgentRef Peer)
  | fallingBack (provider : FallbackProvider)
  | served (server : Server Peer)
  | failed (err : DispatchError)

/-- A call of `dispatchWithPolicy`. -/
structure Dispatch (Peer : Type) where
  model : String
  capability : String
  session : Session Peer
  fallbackProvider : Option FallbackProvider
  reconnects : Peer → ℕ
  stage : DispatchStage Peer

inductive DispatchAct (Peer : Type)
  /-- A scan, and the agent that the strategy chooses; `none` where there is no candidate. -/
  | select (pick : Option (AgentRef Peer))
  /-- A wait for capacity that ends with a wake-up. -/
  | wait
  | acquire
  | forwarded (result : ForwardResult)
  | expire
  | provider (ok : Bool)

def maxReconnectsPerAgent : ℕ := 1

def capabilityLLM : String := "llm"

namespace Dispatch

/-- `NewSession` with the policy of the model. -/
def new (model capability : String) (steps : List ResolvedStep)
    (fallbackProvider : Option FallbackProvider) : Dispatch Peer where
  model := model
  capability := capability
  session := Session.new (if capability = "" then capabilityLLM else capability) steps
  fallbackProvider := fallbackProvider
  reconnects := fun _ => 0
  stage := .selecting

def exhausted (d : Dispatch Peer) : DispatchStage Peer :=
  match d.fallbackProvider with
  | some fp =>
    if d.capability = capabilityLLM then .fallingBack fp
    else .failed (.selector d.session.lastReason)
  | none => .failed (.selector d.session.lastReason)

/-- An iteration of the loop of `Select`. -/
def select (f : Fleet Peer) (d : Dispatch Peer) (pick : Option (AgentRef Peer)) :
    Option (Dispatch Peer) :=
  match d.session.step? with
  | none => some { d with stage := d.exhausted }
  | some step =>
    let (session, candidates) := d.session.buildCandidates step.toPolicyStep (f.listed d.model)
    match pick with
    | none => if candidates = [] then some { d with session := session.advanceStep } else none
    | some a =>
      if a ∈ f.registry.listByModel d.model ∧ a.id ∈ candidates then
        some { d with session := session, stage := .chosen a }
      else none

/-- All agents that could be chosen are full, and the request waits for one of them. -/
def wait (f : Fleet Peer) (d : Dispatch Peer) : Option (Dispatch Peer) :=
  match d.session.step? with
  | none => none
  | some step =>
    let (session, candidates) := d.session.buildCandidates step.toPolicyStep (f.listed d.model)
    if candidates = [] ∧ session.lastReason = .noCapacity then some { d with session := session }
    else none

/-- `TryAcquireSlot`; where the slot has gone to another request, the scan is repeated. -/
def acquire (f : Fleet Peer) (d : Dispatch Peer) (a : AgentRef Peer) : Fleet Peer × Dispatch Peer :=
  match (f.objects a.obj).tryAcquireSlot with
  | some agent => (f.setObject a.obj agent, { d with stage := .forwarding a })
  | none => (f, { d with stage := .selecting })

/-- The failed forward is charged to the budget of the step. -/
def recordFailure (d : Dispatch Peer) (id : Peer) : Dispatch Peer :=
  { d with session := d.session.recordFailure id, stage := .selecting }

/-- `forwardToAgent` returns. -/
def forwarded (d : Dispatch Peer) (a : AgentRef Peer) : ForwardResult → Dispatch Peer
  | .ok => { d with stage := .served (.agent a.id) }
  | .nonRetryable => { d with stage := .failed .nonRetryable }
  | .deadline => { d with stage := .failed .timeout }
  | .disconnected =>
    -- A first broken connection to an agent is not charged.
    if d.reconnects a.id < maxReconnectsPerAgent then
      { d with reconnects := update d.reconnects a.id (d.reconnects a.id + 1), stage := .selecting }
    else d.recordFailure a.id
  | .failure => d.recordFailure a.id

/-- The slot of a forward that has failed is free again; that of one that has succeeded is
freed at the end of its stream. -/
def releaseSlot (f : Fleet Peer) (a : AgentRef Peer) : ForwardResult → Fleet Peer
  | .ok => f
  | _ => f.setObject a.obj (f.objects a.obj).decrementLoad

def step (f : Fleet Peer) (d : Dispatch Peer) :
    DispatchAct Peer → Option (Fleet Peer × Dispatch Peer)
  | .select pick =>
    match d.stage with
    | .selecting => (d.select f pick).map fun d => (f, d)
    | _ => none
  | .wait =>
    match d.stage with
    | .selecting => (d.wait f).map fun d => (f, d)
    | _ => none
  | .acquire =>
    match d.stage with
    | .chosen a => some (d.acquire f a)
    | _ => none
  | .forwarded result =>
    match d.stage with
    | .forwarding a => some (releaseSlot f a result, d.forwarded a result)
    | _ => none
  | .expire =>
    match d.stage with
    | .selecting => some (f, { d with stage := .failed .timeout })
    | .forwarding a => some (releaseSlot f a .deadline, { d with stage := .failed .timeout })
    | .fallingBack _ => some (f, { d with stage := .failed .timeout })
    | _ => none
  | .provider ok =>
    match d.stage with
    | .fallingBack fp =>
      some (f, { d with stage := if ok then .served (.provider fp) else .failed .provider })
    | _ => none

def servedBy (d : Dispatch Peer) : Option (Server Peer) :=
  match d.stage with
  | .served server => some server
  | _ => none

end Dispatch

/-!
## The protocol of a dispatch

A dispatch owes three things whatever its `Select` calls find and its forwards return: one message
to the handler, one release for every slot that it took, and no more forwards than the policy
allows.

`Exchange` is the loop of `dispatchWithPolicy` together with the hand-over of the response, and with
a record of what has happened: the messages that were sent, the slots that were acquired with the
calls of `DecrementLoad` for each of them, and the forwards. A scan may find any fleet.

The slot of a streaming response passes to the goroutine that drains it; `forwardToAgent` frees all
others before it returns.
-/

open Option

/-- A slot: whether the `sync.Once` of its release has run, and how often the load of the agent was
decremented for it. -/
structure Slot where
  fired : Bool
  freed : ℕ
  deriving DecidableEq

namespace Slot

def taken : Slot := ⟨false, 0⟩

def free : Slot := ⟨true, 1⟩

/-- The function that `slotRelease` returns. -/
def release (slot : Slot) : Slot := if slot.fired then slot else ⟨true, slot.freed + 1⟩

theorem release_taken : taken.release = free := rfl

end Slot

/-- What a forward costs. -/
inductive Charge where
  /-- It ends the loop. -/
  | final
  /-- A broken connection that is not charged. -/
  | reconnect
  /-- A failure that is charged to the step. -/
  | charged
  deriving DecidableEq

/-- A forward: the step in which it was made, the agent, and its cost. -/
structure ForwardRecord (Peer : Type) where
  stepIdx : ℕ
  agent : Peer
  charge : Charge

structure Exchange (Peer : Type) where
  loop : Dispatch Peer
  handoff : Handoff
  sent : List Message
  /-- The slots that were acquired, the last one first. -/
  slots : List Slot
  /-- The forwards, the last one first. -/
  forwards : List (ForwardRecord Peer)

inductive ExchangeAct (Peer : Type)
  /-- An operation of the loop, on the fleet as it is then. -/
  | loop (f : Fleet Peer) (a : DispatchAct Peer)
  /-- A forward returns a streaming response. -/
  | stream (u : Upstream)
  /-- The send of the message, or a step of the handler or of the goroutine. -/
  | goroutine (a : HandoffAct)

/-- What the loop sends at its end. -/
def DispatchStage.message : DispatchStage Peer → Option Message
  | .served _ => some .response
  | .failed _ => some .error
  | _ => none

/-- What a forward costs that returns `result`. -/
def Dispatch.charge (d : Dispatch Peer) (a : AgentRef Peer) : ForwardResult → Charge
  | .ok | .nonRetryable | .deadline => .final
  | .disconnected => if d.reconnects a.id < maxReconnectsPerAgent then .reconnect else .charged
  | .failure => .charged

/-- The step of the hand-over is not one of the loop. -/
def HandoffAct.outside : HandoffAct → Bool
  | .stream _ | .finish _ => false
  | _ => true

namespace Exchange

def start (model capability : String) (steps : List ResolvedStep)
    (fallbackProvider : Option FallbackProvider) : Exchange Peer :=
  ⟨.new model capability steps fallbackProvider, .start, [], [], []⟩

/-- The calls of the release function of the current slot when `forwardToAgent` returns: a response
that was read to its end is followed by a call of its own, before the deferred one. -/
def returned (result : ForwardResult) (slot : Slot) : Slot :=
  if result = .ok then slot.release.release else slot.release

/-- The slots after an operation that has led to `d`. -/
def slotsAfter (s : Exchange Peer) (d : Dispatch Peer) : DispatchAct Peer → List Slot
  | .acquire =>
    match d.stage with
    | .forwarding _ => .taken :: s.slots
    | _ => s.slots
  | .forwarded result => s.slots.modifyHead (returned result)
  | .expire =>
    match s.loop.stage with
    | .forwarding _ => s.slots.modifyHead Slot.release
    | _ => s.slots
  | _ => s.slots

def forward (s : Exchange Peer) (result : ForwardResult) : List (ForwardRecord Peer) :=
  match s.loop.stage with
  | .forwarding a => ⟨s.loop.session.stepIdx, a.id, s.loop.charge a result⟩ :: s.forwards
  | _ => s.forwards

def forwardsAfter (s : Exchange Peer) : DispatchAct Peer → List (ForwardRecord Peer)
  | .forwarded result => s.forward result
  | _ => s.forwards

/-- An operation of the loop has led to `d`. -/
def after (s : Exchange Peer) (a : DispatchAct Peer) (d : Dispatch Peer) : Option (Exchange Peer) :=
  let s' := { s with loop := d, slots := s.slotsAfter d a, forwards := s.forwardsAfter a }
  match d.stage.message with
  | none => some s'
  | some m => (s.handoff.step (.finish m)).map fun handoff => { s' with handoff }

/-- The release function is in the hands of the goroutine. -/
def slotsOf (s : Exchange Peer) : HandoffAct → List Slot
  | .release => s.slots.modifyHead Slot.release
  | _ => s.slots

def sentAfter (s : Exchange Peer) : HandoffAct → List Message
  | .send =>
    match s.handoff.dispatcher with
    | .sending m => m :: s.sent
    | _ => s.sent
  | _ => s.sent

def step (s : Exchange Peer) : ExchangeAct Peer → Option (Exchange Peer)
  | .loop f a =>
    if s.handoff.dispatcher = .running then
      match s.loop.step f a with
      | some (_, d) => s.after a d
      | none => none
    else none
  | .stream u =>
    match s.loop.stage with
    | .forwarding a =>
      (s.handoff.step (.stream u)).map fun handoff =>
        { s with loop := s.loop.forwarded a .ok, handoff, forwards := s.forward .ok }
    | _ => none
  | .goroutine a =>
    if a.outside then
      (s.handoff.step a).map fun handoff =>
        { s with handoff, sent := s.sentAfter a, slots := s.slotsOf a }
    else none

end Exchange

def dispatchProtocol (Peer : Type) [LinearOrder Peer] (model capability : String)
    (steps : List ResolvedStep) (fallbackProvider : Option FallbackProvider) :
    Machine (Exchange Peer) (ExchangeAct Peer) where
  Init s := s = .start model capability steps fallbackProvider
  step := Exchange.step

/-! ### What an operation of the loop does -/

/-- The scan changes the recorded reason only. -/
theorem exists_buildCandidates {ι : Type} [DecidableEq ι] (session : Session ι) (step : PolicyStep)
    (all : List (Listed ι)) :
    ∃ reason, (session.buildCandidates step all).1 = { session with lastReason := reason } := by
  unfold Session.buildCandidates
  dsimp only
  split_ifs
  · exact ⟨_, rfl⟩
  · exact ⟨session.lastReason, rfl⟩

/-- The inversion of `Dispatch.step`, without the fleet. -/
inductive Dispatch.Moved (d : Dispatch Peer) : DispatchAct Peer → Dispatch Peer → Prop
  | exhausted (pick : Option (AgentRef Peer)) (hstage : d.stage = .selecting)
      (hstep : d.session.step? = none) : Moved d (.select pick) { d with stage := d.exhausted }
  | advanced (reason : SelectError) (step : ResolvedStep) (hstage : d.stage = .selecting)
      (hstep : d.session.step? = some step) :
    Moved d (.select none) { d with session := { d.session with lastReason := reason }.advanceStep }
  | chosen (a : AgentRef Peer) (reason : SelectError) (step : ResolvedStep)
      (hstage : d.stage = .selecting) (hstep : d.session.step? = some step)
      (hfresh : a.id ∉ d.session.stepFailed) :
    Moved d (.select (some a))
      { d with session := { d.session with lastReason := reason }, stage := .chosen a }
  | waited (reason : SelectError) (hstage : d.stage = .selecting) :
    Moved d .wait { d with session := { d.session with lastReason := reason } }
  | acquired (a : AgentRef Peer) (hstage : d.stage = .chosen a) :
    Moved d .acquire { d with stage := .forwarding a }
  | lost (a : AgentRef Peer) (hstage : d.stage = .chosen a) :
    Moved d .acquire { d with stage := .selecting }
  | forwarded (a : AgentRef Peer) (result : ForwardResult) (hstage : d.stage = .forwarding a) :
    Moved d (.forwarded result) (d.forwarded a result)
  | expired (hstage : d.stage.message = none) (hheld : ∀ a, d.stage ≠ .forwarding a) :
    Moved d .expire { d with stage := .failed .timeout }
  | expiredHeld (a : AgentRef Peer) (hstage : d.stage = .forwarding a) :
    Moved d .expire { d with stage := .failed .timeout }
  | provider (fp : FallbackProvider) (ok : Bool) (hstage : d.stage = .fallingBack fp) :
    Moved d (.provider ok)
      { d with stage := if ok then .served (.provider fp) else .failed .provider }

namespace Dispatch

variable {f f' : Fleet Peer} {d d' : Dispatch Peer}

theorem moved_select {pick : Option (AgentRef Peer)} (hstage : d.stage = .selecting)
    (h : d.select f pick = some d') : d.Moved (.select pick) d' := by
  unfold select at h
  split at h
  · cases h
    exact .exhausted pick hstage ‹_›
  · rename_i step hstep
    obtain ⟨reason, hreason⟩ :=
      exists_buildCandidates d.session step.toPolicyStep (f.listed d.model)
    dsimp only at h
    rw [hreason] at h
    split at h
    · obtain ⟨-, h⟩ := ite_none_right_eq_some.mp h
      cases h
      exact .advanced reason step hstage hstep
    · rename_i a
      obtain ⟨⟨-, hmem⟩, h⟩ := ite_none_right_eq_some.mp h
      cases h
      refine .chosen a reason step hstage hstep ?_
      -- a candidate has not failed in this step
      obtain ⟨x, -, ⟨haccepts, -⟩, hid⟩ := Session.mem_candidates.mp hmem
      rw [← hid]
      exact haccepts.2.2.2.1

theorem moved_wait (hstage : d.stage = .selecting) (h : d.wait f = some d') : d.Moved .wait d' := by
  unfold wait at h
  split at h
  · cases h
  · rename_i step hstep
    obtain ⟨reason, hreason⟩ :=
      exists_buildCandidates d.session step.toPolicyStep (f.listed d.model)
    dsimp only at h
    rw [hreason] at h
    obtain ⟨-, h⟩ := ite_none_right_eq_some.mp h
    cases h
    exact .waited reason hstage

theorem moved_of_step {a : DispatchAct Peer} (h : d.step f a = some (f', d')) : d.Moved a d' := by
  cases a with
  | select =>
    dsimp only [step] at h
    split at h
    · obtain ⟨d'', hselect, heq⟩ := map_eq_some_iff.mp h
      cases heq
      exact moved_select ‹_› hselect
    · cases h
  | wait =>
    dsimp only [step] at h
    split at h
    · obtain ⟨d'', hwait, heq⟩ := map_eq_some_iff.mp h
      cases heq
      exact moved_wait ‹_› hwait
    · cases h
  | acquire =>
    dsimp only [step] at h
    split at h
    · rename_i a hstage
      unfold acquire at h
      split at h
      · cases h
        exact .acquired a hstage
      · cases h
        exact .lost a hstage
    · cases h
  | forwarded result =>
    dsimp only [step] at h
    split at h
    · cases h
      exact .forwarded _ result ‹_›
    · cases h
  | expire =>
    dsimp only [step] at h
    split at h
    · rename_i hstage
      cases h
      exact .expired (by rw [hstage]; rfl) (by rw [hstage]; nofun)
    · cases h
      exact .expiredHeld _ ‹_›
    · rename_i hstage
      cases h
      exact .expired (by rw [hstage]; rfl) (by rw [hstage]; nofun)
    · cases h
  | provider ok =>
    dsimp only [step] at h
    split at h
    · cases h
      exact .provider _ ok ‹_›
    · cases h

end Dispatch

/-!
## How often a request is forwarded

The tries of a step are charged in `Session.recordFailure`. A forward that ends the loop needs a try
that is left, and a broken connection is free once for every agent. So the forwards are bounded by
the tries of all steps and one more for every agent (`Tally.bound`, `ForwardRecord.length_le`).

`stepFailed` forgets the agents of a step when the step is left. Within the step it holds all
those whose failure was charged, and the scan leaves them out (`Tally.ordered`).
-/

open List Nat ForwardRecord

/-! ### The forwards -/

def triesOf (step : ResolvedStep) : ℕ := (max 1 step.effectiveMaxTries).toNat

def budget (steps : List ResolvedStep) : ℕ := (steps.map triesOf).sum

theorem triesOf_pos (step : ResolvedStep) : 0 < triesOf step := by
  unfold triesOf
  omega

theorem budget_take_succ {steps : List ResolvedStep} {i : ℕ} {step : ResolvedStep}
    (h : steps[i]? = some step) :
    budget (steps.take (i + 1)) = budget (steps.take i) + triesOf step := by
  unfold budget
  rw [take_add_one, h, map_append, List.sum_append]
  rfl

theorem budget_take_le (steps : List ResolvedStep) (i : ℕ) :
    budget (steps.take i) ≤ budget steps := by
  have hsum : budget (steps.take i) + budget (steps.drop i) = budget steps := by
    unfold budget
    rw [← List.sum_append, ← map_append, take_append_drop]
  omega

/-- The forward was charged to a step, or has ended the loop. -/
def ForwardRecord.counted (r : ForwardRecord Peer) : Bool := r.charge ≠ .reconnect

def ForwardRecord.reconnects (p : Peer) (r : ForwardRecord Peer) : Bool :=
  r.charge = .reconnect ∧ r.agent = p

/-- What the loop knows about the forwards that it has made. -/
structure Tally (steps : List ResolvedStep) (d : Dispatch Peer)
    (log : List (ForwardRecord Peer)) : Prop where
  steps_eq : d.session.steps = steps
  idx : ∀ r ∈ log, r.stepIdx ≤ d.session.stepIdx
  failed : ∀ r ∈ log, r.charge = .charged → r.stepIdx = d.session.stepIdx →
    r.agent ∈ d.session.stepFailed
  ordered : log.Pairwise fun later earlier =>
    earlier.charge = .charged → earlier.stepIdx = later.stepIdx → earlier.agent ≠ later.agent
  fresh : ∀ a, d.stage = .chosen a ∨ d.stage = .forwarding a →
    a.id ∉ d.session.stepFailed ∧ ∃ step, d.session.step? = some step
  reconnects : ∀ p, log.countP (reconnects p) = d.reconnects p
  reconnects_le : ∀ p, d.reconnects p ≤ maxReconnectsPerAgent
  tries : ∀ step, d.session.step? = some step → d.session.stepTries < triesOf step
  spent : d.stage.message = none →
    log.countP counted ≤ budget (steps.take d.session.stepIdx) + d.session.stepTries
  bound : log.countP counted ≤ budget steps

namespace Tally

variable {steps : List ResolvedStep} {d : Dispatch Peer} {log : List (ForwardRecord Peer)}

omit [LinearOrder Peer] in
theorem step_getElem (hsteps : d.session.steps = steps) {step : ResolvedStep}
    (hstep : d.session.step? = some step) : steps[d.session.stepIdx]? = some step := by
  rw [← hsteps]
  exact hstep

theorem new (model capability : String) (steps : List ResolvedStep)
    (fallbackProvider : Option FallbackProvider) :
    Tally steps (.new model capability steps fallbackProvider : Dispatch Peer) [] where
  steps_eq := rfl
  idx := nofun
  failed := nofun
  ordered := .nil
  fresh a := by rintro (h | h) <;> cases h
  reconnects _ := rfl
  reconnects_le _ := zero_le _
  tries step _ := triesOf_pos step
  spent _ := zero_le _
  bound := zero_le _

/-- Where the loop goes on with another stage, or ends. -/
theorem stage (h : Tally steps d log) (hrunning : d.stage.message = none)
    {stage : DispatchStage Peer} (reason : SelectError)
    (hfresh : ∀ a, stage = .chosen a ∨ stage = .forwarding a →
      a.id ∉ d.session.stepFailed ∧ ∃ step, d.session.step? = some step) :
    Tally steps { d with session := { d.session with lastReason := reason }, stage := stage } log :=
  { h with
    fresh := hfresh
    spent := fun _ => h.spent hrunning }

theorem advance (h : Tally steps d log) (hrunning : d.stage.message = none) {step : ResolvedStep}
    (hstep : d.session.step? = some step) {session : Session Peer} {stage : DispatchStage Peer}
    (hsession : session = { d.session with
      stepIdx := d.session.stepIdx + 1, stepTries := 0, stepFailed := [],
      lastReason := session.lastReason })
    (hstage : ∀ a, ¬(stage = .chosen a ∨ stage = .forwarding a)) :
    Tally steps { d with session := session, stage := stage } log := by
  have hspent := h.spent hrunning
  have htries := h.tries step hstep
  have hbudget := budget_take_succ (step_getElem h.steps_eq hstep)
  rw [hsession]
  refine { h with
    idx := fun r hr => le_succ_of_le (h.idx r hr)
    failed := fun r hr _ heq => ?_
    fresh := fun a ha => absurd ha (hstage a)
    tries := fun step _ => triesOf_pos step
    spent := fun _ => ?_ }
  · -- nothing of the next step is in the log yet
    have hle := h.idx r hr
    have heq' : r.stepIdx = d.session.stepIdx + 1 := heq
    omega
  · show log.countP counted ≤ budget (steps.take (d.session.stepIdx + 1)) + 0
    omega

/-! A forward to the agent `a`. -/

section Forwarding

variable {a : AgentRef Peer} (h : Tally steps d log) (hstage : d.stage = .forwarding a)

omit hstage in
include h in
theorem idx_cons (charge : Charge) :
    ∀ r ∈ (⟨d.session.stepIdx, a.id, charge⟩ :: log : List (ForwardRecord Peer)),
      r.stepIdx ≤ d.session.stepIdx :=
  forall_mem_cons.mpr ⟨Nat.le_refl _, h.idx⟩

omit hstage in
include h in
theorem reconnects_cons {charge : Charge} (hcharge : charge ≠ .reconnect) (p : Peer) :
    (⟨d.session.stepIdx, a.id, charge⟩ :: log : List (ForwardRecord Peer)).countP
      (ForwardRecord.reconnects p) = d.reconnects p := by
  rw [countP_cons_of_neg, h.reconnects]
  simp [ForwardRecord.reconnects, hcharge]

include h hstage

theorem ordered_cons (charge : Charge) :
    (⟨d.session.stepIdx, a.id, charge⟩ :: log : List (ForwardRecord Peer)).Pairwise
      fun later earlier => earlier.charge = .charged → earlier.stepIdx = later.stepIdx →
        earlier.agent ≠ later.agent := by
  refine pairwise_cons.mpr ⟨fun r hr hcharged hidx hagent => ?_, h.ordered⟩
  have hmem := h.failed r hr hcharged hidx
  rw [hagent] at hmem
  exact (h.fresh a (.inr hstage)).1 hmem

theorem bound_cons (charge : Charge) :
    (⟨d.session.stepIdx, a.id, charge⟩ :: log : List (ForwardRecord Peer)).countP
      counted ≤ budget steps := by
  obtain ⟨step, hstep⟩ := (h.fresh a (.inr hstage)).2
  have hspent := h.spent (by rw [hstage]; rfl)
  have htries := h.tries step hstep
  have hbudget := budget_take_succ (step_getElem h.steps_eq hstep)
  have hle := budget_take_le steps (d.session.stepIdx + 1)
  rw [countP_cons]
  split_ifs <;> omega

theorem final {server : DispatchStage Peer} (hserver : server.message ≠ none) :
    Tally steps { d with stage := server } (⟨d.session.stepIdx, a.id, .final⟩ :: log) where
  __ := h
  idx := h.idx_cons _
  failed := forall_mem_cons.mpr ⟨nofun, h.failed⟩
  ordered := h.ordered_cons hstage _
  fresh b := by
    rintro (hb | hb)
    all_goals exact absurd (by rw [show server = _ from hb]; rfl) hserver
  reconnects := h.reconnects_cons nofun
  spent hnone := absurd hnone hserver
  bound := h.bound_cons hstage _

/-- A broken connection that is free. -/
theorem reconnect (hfree : d.reconnects a.id < maxReconnectsPerAgent) : Tally steps
      { d with reconnects := update d.reconnects a.id (d.reconnects a.id + 1), stage := .selecting }
      (⟨d.session.stepIdx, a.id, .reconnect⟩ :: log) where
  __ := h
  idx := h.idx_cons _
  failed := forall_mem_cons.mpr ⟨nofun, h.failed⟩
  ordered := h.ordered_cons hstage _
  fresh b := by rintro (hb | hb) <;> cases hb
  reconnects p := by
    -- only the agent's own counter goes up, with the record that is added
    have hcount := h.reconnects p
    show _ = update d.reconnects a.id (d.reconnects a.id + 1) p
    by_cases hp : p = a.id
    · subst hp
      rw [update_self, countP_cons_of_pos (by simp [ForwardRecord.reconnects]), hcount]
    · rw [update_of_ne hp, countP_cons_of_neg, hcount]
      simp [ForwardRecord.reconnects, Ne.symm hp]
  reconnects_le p := by
    show update d.reconnects a.id (d.reconnects a.id + 1) p ≤ _
    by_cases hp : p = a.id
    · subst hp
      rw [update_self]
      exact hfree
    · rw [update_of_ne hp]
      exact h.reconnects_le p
  spent _ := by
    exact h.spent (by rw [hstage]; rfl)
  bound := h.bound_cons hstage _

/-- A failure that is charged to the step. -/
theorem charged :
    Tally steps (d.recordFailure a.id) (⟨d.session.stepIdx, a.id, .charged⟩ :: log) := by
  obtain ⟨step, hstep⟩ := (h.fresh a (.inr hstage)).2
  have htries := h.tries step hstep
  have hspent : (⟨d.session.stepIdx, a.id, .charged⟩ :: log : List (ForwardRecord Peer)).countP
      counted ≤ budget (steps.take d.session.stepIdx) + (d.session.stepTries + 1) := by
    rw [countP_cons_of_pos (by simp [counted])]
    have := h.spent (by rw [hstage]; rfl)
    omega
  have hnotChosen : ∀ b : AgentRef Peer,
      ¬(DispatchStage.selecting = .chosen b ∨ DispatchStage.selecting = .forwarding b) := by
    rintro b (hb | hb) <;> cases hb
  unfold Dispatch.recordFailure Session.recordFailure
  rw [hstep]
  dsimp only
  split_ifs with hlast
  · -- the budget of the step is used up
    have hbudget := budget_take_succ (step_getElem h.steps_eq hstep)
    refine ⟨h.steps_eq, fun r hr => le_succ_of_le (h.idx_cons _ r hr), fun r hr _ heq => ?_,
      h.ordered_cons hstage _, fun b hb => absurd hb (hnotChosen b), h.reconnects_cons nofun,
      h.reconnects_le, fun step _ => triesOf_pos step, fun _ => ?_, h.bound_cons hstage _⟩
    · have hle := h.idx_cons _ r hr
      have heq' : r.stepIdx = d.session.stepIdx + 1 := heq
      omega
    · show _ ≤ budget (steps.take (d.session.stepIdx + 1)) + 0
      omega
  · refine ⟨h.steps_eq, h.idx_cons _, ?_, h.ordered_cons hstage _,
      fun b hb => absurd hb (hnotChosen b), h.reconnects_cons nofun, h.reconnects_le,
      fun step' hstep' => ?_, fun _ => hspent, h.bound_cons hstage _⟩
    · refine forall_mem_cons.mpr ⟨fun _ _ => .head _, fun r hr hcharged heq => ?_⟩
      exact .tail _ (h.failed r hr hcharged heq)
    · obtain rfl := Option.mem_unique hstep hstep'
      show d.session.stepTries + 1 < triesOf step
      unfold triesOf
      push_cast at hlast
      omega

end Forwarding

/-- **An operation of the loop keeps the tally.** -/
theorem step {d' : Dispatch Peer} {a : DispatchAct Peer} (h : Tally steps d log)
    (hmoved : d.Moved a d') (hnot : ∀ result, a ≠ .forwarded result) : Tally steps d' log := by
  cases hmoved with
  | exhausted pick hstage =>
    refine h.stage (by rw [hstage]; rfl) d.session.lastReason fun b hb => ?_
    -- the fallback or the error is next, not an agent
    have hexhausted : ∀ b, ¬(d.exhausted = .chosen b ∨ d.exhausted = .forwarding b) := by
      intro b
      unfold Dispatch.exhausted
      split
      · split_ifs <;> rintro (hb | hb) <;> cases hb
      · rintro (hb | hb) <;> cases hb
    exact absurd hb (hexhausted b)
  | advanced reason step hstage hstep =>
    refine h.advance (by rw [hstage]; rfl) hstep rfl fun b => ?_
    rw [hstage]
    rintro (hb | hb) <;> cases hb
  | chosen b reason step hstage hstep hfresh =>
    refine h.stage (by rw [hstage]; rfl) reason fun c hc => ?_
    -- `Select` returns no agent that has failed in the step
    rcases hc with hc | hc
    · cases hc
      exact ⟨hfresh, step, hstep⟩
    · cases hc
  | waited reason hstage =>
    refine h.stage (by rw [hstage]; rfl) reason fun c hc => ?_
    rw [hstage] at hc
    rcases hc with hc | hc <;> cases hc
  | acquired b hstage =>
    refine h.stage (by rw [hstage]; rfl) d.session.lastReason fun c hc => ?_
    rcases hc with hc | hc
    · cases hc
    · cases hc
      exact h.fresh b (.inl hstage)
  | lost b hstage | expiredHeld b hstage =>
    refine h.stage (by rw [hstage]; rfl) d.session.lastReason fun c hc => ?_
    rcases hc with hc | hc <;> cases hc
  | forwarded b result => exact absurd rfl (hnot result)
  | expired hstage =>
    refine h.stage hstage d.session.lastReason fun c hc => ?_
    rcases hc with hc | hc <;> cases hc
  | provider fp ok hstage =>
    refine h.stage (by rw [hstage]; rfl) d.session.lastReason fun c hc => ?_
    cases ok <;> rcases hc with hc | hc <;> cases hc

/-- The return of a forward, which is recorded with its cost. -/
theorem forwarded {a : AgentRef Peer} (h : Tally steps d log) (hstage : d.stage = .forwarding a)
    (result : ForwardResult) :
    Tally steps (d.forwarded a result) (⟨d.session.stepIdx, a.id, d.charge a result⟩ :: log) := by
  cases result with
  | ok | nonRetryable | deadline => exact h.final hstage nofun
  | disconnected =>
    unfold Dispatch.forwarded Dispatch.charge
    split_ifs with hfree
    · exact h.reconnect hstage hfree
    · exact h.charged hstage
  | failure => exact h.charged hstage

end Tally

namespace ForwardRecord

/-- The forwards, by their agents: those that are free are counted for every agent. -/
theorem length_le {log : List (ForwardRecord Peer)} {k : ℕ}
    (h : ∀ p, log.countP (reconnects p) ≤ k) :
    log.length ≤ log.countP counted + (log.map agent).toFinset.card * k := by
  -- the records that the budgets do not count, by their agents
  let free := (log.filter fun r => r.charge = .reconnect).map agent
  have hcount : ∀ p, free.count p = log.countP (reconnects p) := by
    intro p
    rw [List.count, countP_map, countP_filter]
    refine countP_congr fun r _ => ?_
    simp [reconnects, and_comm]
  have hsubset : free.toFinset ⊆ (log.map agent).toFinset := by
    intro p hp
    obtain ⟨r, hr, rfl⟩ := mem_map.mp (mem_toFinset.mp hp)
    exact mem_toFinset.mpr (mem_map_of_mem (mem_of_mem_filter hr))
  have hfree : free.length ≤ (log.map agent).toFinset.card * k := by
    calc free.length = ∑ p ∈ free.toFinset, free.count p :=
          (sum_toFinset_count_eq_length free).symm
      _ ≤ free.toFinset.card • k :=
          Finset.sum_le_card_nsmul _ _ _ fun p _ => (hcount p).trans_le (h p)
      _ ≤ (log.map agent).toFinset.card * k := mul_le_mul_right k (Finset.card_le_card hsubset)
  have hlength : free.length = log.countP fun r => ¬r.counted = true := by
    rw [length_map, ← countP_eq_length_filter]
    refine countP_congr fun r _ => ?_
    simp [counted]
  have hsplit := length_eq_countP_add_countP counted (l := log)
  omega

end ForwardRecord

end HivenetRouter.Router
