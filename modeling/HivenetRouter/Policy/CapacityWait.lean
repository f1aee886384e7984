import HivenetRouter.Framework.Machine
import HivenetRouter.Policy.Session

/-!
# Waiting for capacity: the interleavings of `Select`, the wait queue and slot releases

Any number `m` of sessions for one model run against `n` agents and the model's wait
queue. The machine `capacityWait` has one action for each atomic section of the
source, and its state keeps, for each goroutine, where it stands between two of them.

* A session (`Phase`) goes through `Select`'s loop — `scan` (`buildCandidates` and the
  branch on its result), `tryAcquire` (`TryAcquireSlot`), `park` (the insertion of
  `WaitInLine`), `wake` (the receive on its channel), `leave` (the removal after
  `ctx.Done()`) and `forwardSignal` (the `Signal` that passes a lost wake-up on) — and,
  with a slot in hand, through `dispatchWithPolicy`: `fail` (`RecordFailure`), `retry` (a
  re-dial that is not charged to the step) and `finish`.
* A slot release (`Release`) is created with the slot and runs `slotRelease`: `decrement`
  (`DecrementLoad`), `testDepth` (the depth test of `SignalCapacity`) and `signal`
  (`Signal`), each its own step. It may outlive its session: a stream releases the slot
  when it ends.
* `broadcast` is `BroadcastCapacity`, `ctxEnd` the end of a session's context.

The agents are fixed: their health, their metadata and the stored metrics do not change,
only their load does. What the ranking strategy picks among the candidates is part of
the `scan` action. `SignalCapacity` treats a model without a queue like one with an
empty queue, so the queue is there from the start.

`Moved` is the inversion of the step function: one constructor for each thing a step
can do, with the guards it was taken under.
-/

namespace HivenetRouter.Policy.CapacityWait

open Function

open Domain (Agent)

variable {n m : ℕ}

/-- What stays fixed along a run: the agents but for their load, the metric stores,
which requests were released from a hold, and the queue bound. -/
structure Setup (n m : ℕ) where
  agents : Fin n → Agent
  stores : Fin n → MetricStores
  releasedFromHold : Fin m → Bool
  defaultQueueDepth : ℕ

/-- Where a session's goroutine stands. `woken` is set from the moment the session
receives a wake-up until it acquires a slot, parks again or leaves the step. -/
inductive Phase (n : ℕ) where
  /-- At the head of `Select`'s loop, about to scan. -/
  | scanning (ticket : ℕ) (woken : Bool)
  /-- The strategy picked `a`; `TryAcquireSlot` is next. -/
  | chosen (a : Fin n) (ticket : ℕ) (woken : Bool)
  /-- The scan found every accepted agent full; the insertion is next. -/
  | parking (ticket : ℕ)
  /-- In the `select` of `WaitInLine`; `token` is set once its channel was sent to. -/
  | waiting (ticket : ℕ) (token : Bool)
  /-- The context ended after the channel was sent to; the forwarding `Signal` is next. -/
  | forwarding
  /-- `Select` returned agent `a`; `r` is the release of its slot. -/
  | holding (a : Fin n) (r : ℕ)
  /-- The request is over, with the error of an exhausted chain if any. -/
  | done (err : Option SelectError)

/-- One session, its place in the code, and whether its context has ended. -/
structure Proc (n : ℕ) where
  session : Session (Fin n)
  phase : Phase n
  ctxDone : Bool

/-- How far a slot release has run. -/
inductive ReleasePhase where
  | held
  /-- After `DecrementLoad`, before the depth test. -/
  | decremented
  /-- The depth test saw a waiter; `Signal` is next. -/
  | signalling
  | finished
  deriving DecidableEq

structure Release (n : ℕ) where
  agent : Fin n
  phase : ReleasePhase

structure State (n m : ℕ) where
  load : Fin n → Int
  procs : Fin m → Proc n
  queue : WaitQueue (Fin m)
  releases : List (Release n)

inductive Act (n m : ℕ) where
  | scan (i : Fin m) (pick : Option (Fin n))
  | tryAcquire (i : Fin m)
  | park (i : Fin m)
  | wake (i : Fin m)
  | ctxEnd (i : Fin m)
  | leave (i : Fin m)
  | forwardSignal (i : Fin m)
  | decrement (r : ℕ)
  | testDepth (r : ℕ)
  | signal (r : ℕ)
  | broadcast
  | fail (i : Fin m)
  | retry (i : Fin m)
  | finish (i : Fin m)

namespace Setup

variable (P : Setup n m)

/-- The agent's record at a given load. -/
def agentAt (load : Fin n → Int) (a : Fin n) : Agent := { P.agents a with activeRequests := load a }

def listed (load : Fin n → Int) (a : Fin n) : Listed (Fin n) := ⟨a, P.agentAt load a, P.stores a⟩

def listByModel (load : Fin n → Int) : List (Listed (Fin n)) :=
  (List.finRange n).map (P.listed load)

end Setup

namespace State

/-- Replace session `i`'s cursor and put it in phase `p`. -/
def setSession (s : State n m) (i : Fin m) (c : Session (Fin n)) (p : Phase n) : State n m :=
  { s with procs := update s.procs i { s.procs i with session := c, phase := p } }

def setPhase (s : State n m) (i : Fin m) (p : Phase n) : State n m :=
  s.setSession i (s.procs i).session p

def setRelease (s : State n m) (r : ℕ) (p : ReleasePhase) : State n m :=
  { s with releases := s.releases.modify r fun x => { x with phase := p } }

/-- The send of `Signal` and `Broadcast`: the channel of a waiting session holds a
token from now on. -/
def send (s : State n m) (i : Fin m) : State n m :=
  match (s.procs i).phase with
  | .waiting ticket _ => s.setPhase i (.waiting ticket true)
  | _ => s

/-- `WaitQueue.Signal`. -/
def signalQueue (s : State n m) : State n m :=
  match s.queue.signal with
  | (q, some i) => { s with queue := q }.send i
  | (q, none) => { s with queue := q }

/-- The session gives up the step it is in and goes back to the head of the loop, with
no place in line. -/
def escalate (s : State n m) (i : Fin m) (c : Session (Fin n)) : State n m :=
  s.setSession i c.advanceStep (.scanning 0 false)

end State

/-! ### The atomic sections -/

namespace State

/-- The receive on the session's channel: retry the selection, keeping the ticket. -/
def wake (s : State n m) (i : Fin m) : Option (State n m) :=
  match (s.procs i).phase with
  | .waiting ticket true => some (s.setPhase i (.scanning ticket true))
  | _ => none

/-- The end of the session's context. -/
def ctxEnd (s : State n m) (i : Fin m) : Option (State n m) :=
  some { s with procs := update s.procs i { s.procs i with ctxDone := true } }

/-- The `ctx.Done()` branch of `WaitInLine`. An entry that is gone was already sent to,
and its wake-up is passed on. -/
def leave (s : State n m) (i : Fin m) : Option (State n m) :=
  match (s.procs i).phase with
  | .waiting _ _ =>
    if (s.procs i).ctxDone then
      match s.queue.leave i with
      | (q, true) => some { s.escalate i (s.procs i).session with queue := q }
      | (q, false) => some { s.setPhase i .forwarding with queue := q }
    else none
  | _ => none

/-- The `Signal` of the `ctx.Done()` branch, after which the session escalates. -/
def forwardSignal (s : State n m) (i : Fin m) : Option (State n m) :=
  match (s.procs i).phase with
  | .forwarding => some (s.signalQueue.escalate i (s.procs i).session)
  | _ => none

/-- The `Signal` of `SignalCapacity`. -/
def signal (s : State n m) (r : ℕ) : Option (State n m) :=
  match s.releases[r]? with
  | some ⟨_, .signalling⟩ => some (s.signalQueue.setRelease r .finished)
  | _ => none

/-- What a session with a slot does once the forward is over: `next` is its cursor for the
next `Select`. A failed forward has released its slot before it returns. -/
def again (s : State n m) (i : Fin m) (next : Session (Fin n) → Fin n → Session (Fin n)) :
    Option (State n m) :=
  match (s.procs i).phase with
  | .holding a r =>
    if s.releases[r]?.map (·.phase) = some .finished then
      some (s.setSession i (next (s.procs i).session a) (.scanning 0 false))
    else none
  | _ => none

/-- The answer of the agent ends the request. -/
def finish (s : State n m) (i : Fin m) : Option (State n m) :=
  match (s.procs i).phase with
  | .holding _ _ => some (s.setPhase i (.done none))
  | _ => none

end State

namespace Setup

variable (P : Setup n m)

/-- `buildCandidates` and the branch of `Select` on its result. -/
def scan (s : State n m) (i : Fin m) (pick : Option (Fin n)) : Option (State n m) :=
  match (s.procs i).phase with
  | .scanning ticket woken =>
    match (s.procs i).session.step? with
    | none =>
      if pick = none then some (s.setPhase i (.done (some (s.procs i).session.lastReason)))
      else none
    | some step =>
      let r := (s.procs i).session.buildCandidates step.toPolicyStep (P.listByModel s.load)
      match pick with
      | some a => if a ∈ r.2 then some (s.setSession i r.1 (.chosen a ticket woken)) else none
      | none =>
        if r.2 ≠ [] then none
        else if r.1.lastReason = .noCapacity ∧ P.defaultQueueDepth > 0 then
          some (s.setSession i r.1 (.parking ticket))
        else some (s.escalate i r.1)
  | _ => none

/-- `TryAcquireSlot`: a lost race goes back to the scan, within the same step. -/
def tryAcquire (s : State n m) (i : Fin m) : Option (State n m) :=
  match (s.procs i).phase with
  | .chosen a ticket woken =>
    match (P.agentAt s.load a).tryAcquireSlot with
    | some agent =>
      some { s.setPhase i (.holding a s.releases.length) with
        load := update s.load a agent.activeRequests
        releases := s.releases ++ [⟨a, .held⟩] }
    | none => some (s.setPhase i (.scanning ticket woken))
  | _ => none

/-- The insertion of `WaitInLine`; a full queue escalates. -/
def park (s : State n m) (i : Fin m) : Option (State n m) :=
  match (s.procs i).phase with
  | .parking ticket =>
    match s.queue.waitInLine (P.releasedFromHold i) i ticket with
    | some (q, ticket') => some { s.setPhase i (.waiting ticket' false) with queue := q }
    | none => some (s.escalate i (s.procs i).session)
  | _ => none

/-- `DecrementLoad`. -/
def decrement (s : State n m) (r : ℕ) : Option (State n m) :=
  match s.releases[r]? with
  | some ⟨a, .held⟩ =>
    some { s.setRelease r .decremented with
      load := update s.load a (P.agentAt s.load a).decrementLoad.activeRequests }
  | _ => none

/-- The depth test of `SignalCapacity`. -/
def testDepth (s : State n m) (r : ℕ) : Option (State n m) :=
  match s.releases[r]? with
  | some ⟨_, .decremented⟩ =>
    if P.defaultQueueDepth = 0 ∨ s.queue.depth = 0 then some (s.setRelease r .finished)
    else some (s.setRelease r .signalling)
  | _ => none

/-- `BroadcastCapacity`. -/
def broadcast (s : State n m) : Option (State n m) :=
  if P.defaultQueueDepth = 0 then some s
  else
    some (s.queue.broadcast.2.foldl State.send { s with queue := s.queue.broadcast.1 })

def step (s : State n m) : Act n m → Option (State n m)
  | .scan i pick => P.scan s i pick
  | .tryAcquire i => P.tryAcquire s i
  | .park i => P.park s i
  | .wake i => s.wake i
  | .ctxEnd i => s.ctxEnd i
  | .leave i => s.leave i
  | .forwardSignal i => s.forwardSignal i
  | .decrement r => P.decrement s r
  | .testDepth r => P.testDepth s r
  | .signal r => s.signal r
  | .broadcast => P.broadcast s
  | .fail i => s.again i Session.recordFailure
  | .retry i => s.again i fun c _ => c
  | .finish i => s.finish i

/-- Every agent idle, every session at the start of its first `Select` with any steps,
and an empty queue. -/
structure Initial (s : State n m) : Prop where
  load : s.load = fun _ => 0
  queue : s.queue = WaitQueue.new P.defaultQueueDepth
  releases : s.releases = []
  procs : ∀ i, ∃ capability steps,
    s.procs i = ⟨Session.new capability steps, .scanning 0 false, false⟩

/-- **The machine**: all interleavings of the atomic sections. -/
def capacityWait : Machine (State n m) (Act n m) where
  Init := P.Initial
  step := P.step

/-! ### Inversion -/

def scanOf (s : State n m) (i : Fin m) (step : ResolvedStep) : Session (Fin n) × List (Fin n) :=
  (s.procs i).session.buildCandidates step.toPolicyStep (P.listByModel s.load)

/-- **What a step can do**: one constructor for each branch of the atomic sections, with
the guards under which it is taken. -/
inductive Moved (s : State n m) : Act n m → State n m → Prop where
  | exhausted {i ticket woken} (hphase : (s.procs i).phase = .scanning ticket woken)
      (hstep : (s.procs i).session.step? = none) :
      Moved s (.scan i none) (s.setPhase i (.done (some (s.procs i).session.lastReason)))
  | picked {i ticket woken step a} (hphase : (s.procs i).phase = .scanning ticket woken)
      (hstep : (s.procs i).session.step? = some step) (hmem : a ∈ (P.scanOf s i step).2) :
      Moved s (.scan i (some a)) (s.setSession i (P.scanOf s i step).1 (.chosen a ticket woken))
  | sawFull {i ticket woken step} (hphase : (s.procs i).phase = .scanning ticket woken)
      (hstep : (s.procs i).session.step? = some step) (hnone : (P.scanOf s i step).2 = [])
      (hreason : (P.scanOf s i step).1.lastReason = .noCapacity) :
      Moved s (.scan i none) (s.setSession i (P.scanOf s i step).1 (.parking ticket))
  | sawNone {i ticket woken step} (hphase : (s.procs i).phase = .scanning ticket woken)
      (hstep : (s.procs i).session.step? = some step) (hnone : (P.scanOf s i step).2 = []) :
      Moved s (.scan i none) (s.escalate i (P.scanOf s i step).1)
  | acquired {i a ticket woken agent} (hphase : (s.procs i).phase = .chosen a ticket woken)
      (hslot : (P.agentAt s.load a).tryAcquireSlot = some agent) :
      Moved s (.tryAcquire i)
        { s.setPhase i (.holding a s.releases.length) with
          load := update s.load a agent.activeRequests
          releases := s.releases ++ [⟨a, .held⟩] }
  | lostRace {i a ticket woken} (hphase : (s.procs i).phase = .chosen a ticket woken) :
      Moved s (.tryAcquire i) (s.setPhase i (.scanning ticket woken))
  | parked {i ticket q ticket'} (hphase : (s.procs i).phase = .parking ticket)
      (hq : s.queue.waitInLine (P.releasedFromHold i) i ticket = some (q, ticket')) :
      Moved s (.park i) { s.setPhase i (.waiting ticket' false) with queue := q }
  | queueFull {i ticket} (hphase : (s.procs i).phase = .parking ticket) :
      Moved s (.park i) (s.escalate i (s.procs i).session)
  | woke {i ticket} (hphase : (s.procs i).phase = .waiting ticket true) :
      Moved s (.wake i) (s.setPhase i (.scanning ticket true))
  | ctxEnded {i} :
      Moved s (.ctxEnd i) { s with procs := update s.procs i { s.procs i with ctxDone := true } }
  | left {i ticket token} (hphase : (s.procs i).phase = .waiting ticket token)
      (hmem : i ∈ s.queue.parked) :
      Moved s (.leave i) { s.escalate i (s.procs i).session with queue := (s.queue.leave i).1 }
  | leftSent {i ticket token} (hphase : (s.procs i).phase = .waiting ticket token)
      (hmem : i ∉ s.queue.parked) :
      Moved s (.leave i) { s.setPhase i .forwarding with queue := (s.queue.leave i).1 }
  | forwarded {i} (hphase : (s.procs i).phase = .forwarding) :
      Moved s (.forwardSignal i) (s.signalQueue.escalate i (s.procs i).session)
  | decremented {r a} (hr : s.releases[r]? = some ⟨a, .held⟩) :
      Moved s (.decrement r)
        { s.setRelease r .decremented with
          load := update s.load a (P.agentAt s.load a).decrementLoad.activeRequests }
  | sawEmpty {r a} (hr : s.releases[r]? = some ⟨a, .decremented⟩)
      (hempty : P.defaultQueueDepth = 0 ∨ s.queue.parked = []) :
      Moved s (.testDepth r) (s.setRelease r .finished)
  | sawWaiter {r a} (hr : s.releases[r]? = some ⟨a, .decremented⟩) :
      Moved s (.testDepth r) (s.setRelease r .signalling)
  | signalled {r a} (hr : s.releases[r]? = some ⟨a, .signalling⟩) :
      Moved s (.signal r) (s.signalQueue.setRelease r .finished)
  | broadcastOff : Moved s .broadcast s
  | broadcast :
      Moved s .broadcast (s.queue.parked.foldl State.send { s with queue := s.queue.broadcast.1 })
  | selectAgain {i a r c act} (hact : act = .fail i ∨ act = .retry i)
      (hphase : (s.procs i).phase = .holding a r) :
      Moved s act (s.setSession i c (.scanning 0 false))
  | finished {i a r} (hphase : (s.procs i).phase = .holding a r) :
      Moved s (.finish i) (s.setPhase i (.done none))

variable {P} {s t : State n m}

theorem again_moved {i : Fin m} {f : Session (Fin n) → Fin n → Session (Fin n)}
    {act : Act n m} (hact : act = .fail i ∨ act = .retry i) (h : s.again i f = some t) :
    P.Moved s act t := by
  unfold State.again at h
  split at h
  · next a r hphase =>
    split_ifs at h
    cases h
    exact .selectAgain hact hphase
  · cases h

theorem scan_moved {i : Fin m} {pick : Option (Fin n)} (h : P.scan s i pick = some t) :
    P.Moved s (.scan i pick) t := by
  unfold Setup.scan at h
  split at h
  · next ticket woken hphase =>
    -- the chain is exhausted, or there is a step to scan for
    split at h
    · next hstep =>
      split_ifs at h with hpick
      cases h
      subst hpick
      exact .exhausted hphase hstep
    · next step hstep =>
      dsimp only at h
      split at h
      · split_ifs at h with hmem
        cases h
        exact .picked hphase hstep hmem
      · split at h
        · cases h
        · next hnone =>
          have hnone : (P.scanOf s i step).2 = [] := not_not.mp hnone
          split at h
          · next hreason =>
            cases h
            exact .sawFull hphase hstep hnone hreason.1
          · cases h
            exact .sawNone hphase hstep hnone
  · cases h

theorem leave_moved {i : Fin m} (h : s.leave i = some t) : P.Moved s (.leave i) t := by
  unfold State.leave at h
  split at h
  · next ticket token hphase =>
    split_ifs at h
    -- the second component tells whether the entry was still there
    have hq : s.queue.leave i = ((s.queue.leave i).1, decide (i ∈ s.queue.parked)) := by
      rw [← WaitQueue.leave_snd]
    rw [hq] at h
    by_cases hmem : i ∈ s.queue.parked
    · rw [decide_eq_true hmem] at h
      cases h
      exact .left hphase hmem
    · rw [decide_eq_false hmem] at h
      cases h
      exact .leftSent hphase hmem
  · cases h

/-- **Inversion of a step.** -/
theorem step_moved {a : Act n m} (h : P.step s a = some t) : P.Moved s a t := by
  cases a with
  | scan => exact scan_moved h
  | tryAcquire =>
    simp only [Setup.step, Setup.tryAcquire] at h
    split at h
    · next a ticket woken hphase =>
      split at h
      · next agent hslot =>
        cases h
        exact .acquired hphase hslot
      · cases h
        exact .lostRace hphase
    · cases h
  | park =>
    simp only [Setup.step, Setup.park] at h
    split at h
    · next ticket hphase =>
      split at h
      · next q ticket' hq =>
        cases h
        exact .parked hphase hq
      · cases h
        exact .queueFull hphase
    · cases h
  | wake =>
    simp only [Setup.step, State.wake] at h
    split at h
    · next ticket hphase =>
      cases h
      exact .woke hphase
    · cases h
  | ctxEnd =>
    cases h
    exact .ctxEnded
  | leave => exact leave_moved h
  | forwardSignal =>
    simp only [Setup.step, State.forwardSignal] at h
    split at h
    · next hphase =>
      cases h
      exact .forwarded hphase
    · cases h
  | decrement =>
    simp only [Setup.step, Setup.decrement] at h
    split at h
    · next a hr =>
      cases h
      exact .decremented hr
    · cases h
  | testDepth =>
    simp only [Setup.step, Setup.testDepth] at h
    split at h
    · next a hr =>
      split at h
      · next hempty =>
        cases h
        refine .sawEmpty hr (hempty.imp_right fun hdepth => ?_)
        rw [WaitQueue.depth_eq_length_parked] at hdepth
        exact List.length_eq_zero_iff.mp hdepth
      · cases h
        exact .sawWaiter hr
    · cases h
  | signal =>
    simp only [Setup.step, State.signal] at h
    split at h
    · next a hr =>
      cases h
      exact .signalled hr
    · cases h
  | broadcast =>
    simp only [Setup.step, Setup.broadcast] at h
    split at h
    · cases h
      exact .broadcastOff
    · cases h
      exact .broadcast
  | fail => exact again_moved (Or.inl rfl) h
  | retry => exact again_moved (f := fun c _ => c) (Or.inr rfl) h
  | finish =>
    simp only [Setup.step, State.finish] at h
    split at h
    · next a r hphase =>
      cases h
      exact .finished hphase
    · cases h

end Setup

end HivenetRouter.Policy.CapacityWait
