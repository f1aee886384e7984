import HivenetRouter.Framework.Go
import HivenetRouter.Framework.Machine

/-!
# The wake holder

`Holder` holds requests for a model that is scaled to zero. The machine `holder` runs any number
of `Hold` calls, of calls of the functions that they return, of `Wake` calls and of health polls,
in any order of their locked sections and of the steps between them:

* `enter` — the locked section in which a hold begins or is refused;
* `check`, then one of `receive`, `keepAlive`, `budget` and `cancel` — a pass of the loop of
  `wait`; `wakeChan` is the locked section that reads the channel again after a receive;
* `leave` and, unless the model woke, `leaveDemand` — the two locked sections at the end;
* `release` — a call of the function that was returned, any number of times;
* `wake` — `Wake`, and `pollTick`, `pollWake` and `pollStop` the health poll of a model.

What `healthy` answers, and which timer or context is ready, is part of the action. A channel is a
number. Where the code would panic — on a model without an entry, or on closing a channel that is
nil or closed — the state is marked as `crashed`.
-/

namespace HivenetRouter.Wake

inductive Outcome where
  | woken
  | expired
  | full
  | gone
  deriving DecidableEq

structure Limits where
  perModel : ℤ
  perCaller : ℤ
  total : ℤ

structure ModelHold where
  holds : ℤ
  callers : GoMap String ℤ
  /-- By caller and request id. -/
  demand : GoMap (String × String) ℤ
  wake : ℕ
  /-- `none` is the nil channel. -/
  stop : Option ℕ

inductive Phase where
  | arrived
  /-- In the loop, about to ask for the health, with the channel that it will wait on. -/
  | checking (wake : ℕ)
  | blocked (wake : ℕ)
  /-- The channel was closed; about to read the new one. -/
  | woke
  | leaving (outcome : Outcome)
  /-- It has left the hold, and not yet the demand. -/
  | leavingDemand (outcome : Outcome)
  /-- It returned `Woken`; `answered` once `release` was called. -/
  | released (answered : Bool)
  /-- It returned another outcome, with a `release` that does nothing. -/
  | returned (outcome : Outcome)
  deriving DecidableEq

namespace Phase

/-- The request counts against the limits. -/
def held : Phase → Bool
  | .checking _ | .blocked _ | .woke | .leaving _ => true
  | _ => false

/-- The request was released as `Woken` and is not yet answered. -/
def unanswered : Phase → Bool
  | .released answered => !answered
  | _ => false

/-- The hold ended otherwise, and the request is about to leave the demand. -/
def departing : Phase → Bool
  | .leavingDemand _ => true
  | _ => false

/-- The request is in the pending demand. -/
def pending (p : Phase) : Bool := p.held || p.unanswered || p.departing

end Phase

structure Request where
  model : String
  caller : String
  requestID : String
  phase : Phase

def Request.key (r : Request) : String × String := (r.caller, r.requestID)

inductive PollPhase where
  | ticking
  /-- The model is healthy; about to call `Wake`. -/
  | waking
  | stopped
  deriving DecidableEq

structure Poll where
  model : String
  stop : ℕ
  phase : PollPhase

structure State where
  total : ℤ
  models : GoMap String ModelHold
  requests : List Request
  polls : List Poll
  nextCh : ℕ
  closed : List ℕ
  crashed : Bool

inductive Act where
  | hold (model caller requestID : String)
  | enter (i : ℕ)
  | check (i : ℕ) (healthy : Bool)
  | receive (i : ℕ)
  | wakeChan (i : ℕ)
  | keepAlive (i : ℕ) (ok : Bool)
  | budget (i : ℕ) (healthy : Bool)
  | cancel (i : ℕ)
  | leave (i : ℕ)
  | leaveDemand (i : ℕ)
  | release (i : ℕ)
  | wake (model : String)
  | pollTick (k : ℕ) (healthy : Bool)
  | pollWake (k : ℕ)
  | pollStop (k : ℕ)

namespace State

def setPhase (s : State) (i : ℕ) (phase : Phase) : State :=
  { s with requests := s.requests.modify i fun r => { r with phase } }

def setPoll (s : State) (k : ℕ) (phase : PollPhase) : State :=
  { s with polls := s.polls.modify k fun p => { p with phase } }

def crash (s : State) : State := { s with crashed := true }

/-- `close(ch)`. -/
def close (s : State) (ch : ℕ) : State :=
  if ch ∈ s.closed then s.crash else { s with closed := ch :: s.closed }

/-- `h.models[model] = m`. -/
def setModel (s : State) (model : String) (m : ModelHold) : State :=
  { s with models := s.models.insert model m }

def removeIfIdle (s : State) (model : String) (m : ModelHold) : State :=
  if m.holds = 0 ∧ m.demand.keys.card = 0 then { s with models := s.models.erase model } else s

def full (limits : Limits) (s : State) (r : Request) : Bool :=
  limits.total ≤ s.total || (s.models.lookup r.model).any fun m =>
    limits.perModel ≤ m.holds || (r.caller ≠ "" && limits.perCaller ≤ m.callers.count r.caller)

/-- The entry of the model, which `enter` makes if there is none. -/
def entry (s : State) (model : String) : ModelHold × State :=
  match s.models.lookup model with
  | some m => (m, s)
  | none => (⟨0, ∅, ∅, s.nextCh, none⟩, { s with nextCh := s.nextCh + 1 })

def startPoll (s : State) (model : String) (m : ModelHold) : ModelHold × State :=
  match m.stop with
  | some _ => (m, s)
  | none => ({ m with stop := some s.nextCh },
      { s with nextCh := s.nextCh + 1, polls := s.polls ++ [⟨model, s.nextCh, .ticking⟩] })

/-- `enter`, for request `i`. -/
def enter (limits : Limits) (s : State) (i : ℕ) (r : Request) : State :=
  if s.full limits r then s.setPhase i (.returned .full) else
  let (m, s) := s.entry r.model
  let (m, s) := s.startPoll r.model m
  let m := { m with
    holds := m.holds + 1, callers := m.callers.inc r.caller, demand := m.demand.inc r.key }
  { s with total := s.total + 1 }.setModel r.model m |>.setPhase i (.checking m.wake)

/-- `leave`, for request `i`. -/
def leave (s : State) (i : ℕ) (r : Request) (outcome : Outcome) : State :=
  match s.models.lookup r.model with
  | none => s.crash
  | some m =>
    let next : Phase := if outcome = .woken then .released false else .leavingDemand outcome
    let m : ModelHold := { m with holds := m.holds - 1, callers := m.callers.dec r.caller }
    let s := { s with total := s.total - 1 }.setPhase i next
    if m.holds = 0 then
      match m.stop with
      | none => s.crash
      | some ch =>
        let m := { m with stop := none }
        ((s.close ch).setModel r.model m).removeIfIdle r.model m
    else (s.setModel r.model m).removeIfIdle r.model m

/-- `leaveDemand`, for request `i`, which then goes to `next`. -/
def leaveDemand (s : State) (i : ℕ) (r : Request) (next : Phase) : State :=
  match s.models.lookup r.model with
  | none => s.crash
  | some m =>
    let m : ModelHold := { m with demand := m.demand.dec r.key }
    ((s.setPhase i next).setModel r.model m).removeIfIdle r.model m

def wake (s : State) (model : String) : State :=
  match s.models.lookup model with
  | none => s
  | some m =>
    let s := s.close m.wake
    { s with nextCh := s.nextCh + 1 }.setModel model { m with wake := s.nextCh }

/-- `wakeChan`, for request `i`. -/
def wakeChan (s : State) (i : ℕ) (r : Request) : State :=
  match s.models.lookup r.model with
  | none => s.crash
  | some m => s.setPhase i (.checking m.wake)

/-- `Demand`: zero for a model that is not in the map. -/
def demand (s : State) (model : String) : ℕ :=
  ((s.models.lookup model).map fun m => m.demand.keys.card).getD 0

/-- The steps of one `Hold` call and of its `release`. -/
def stepRequest (limits : Limits) (s : State) (i : ℕ) (r : Request) : Act → Option State
  | .enter _ => if r.phase = .arrived then some (s.enter limits i r) else none
  | .check _ healthy =>
    match r.phase with
    | .checking w => some (s.setPhase i (if healthy then .leaving .woken else .blocked w))
    | _ => none
  | .receive _ =>
    match r.phase with
    | .blocked w => if w ∈ s.closed then some (s.setPhase i .woke) else none
    | _ => none
  | .wakeChan _ => if r.phase = .woke then some (s.wakeChan i r) else none
  | .keepAlive _ ok =>
    match r.phase with
    | .blocked w => some (s.setPhase i (if ok then .checking w else .leaving .gone))
    | _ => none
  | .budget _ healthy =>
    match r.phase with
    | .blocked _ => some (s.setPhase i (.leaving (if healthy then .woken else .expired)))
    | _ => none
  | .cancel _ =>
    match r.phase with
    | .blocked _ => some (s.setPhase i (.leaving .gone))
    | _ => none
  | .leave _ =>
    match r.phase with
    | .leaving outcome => some (s.leave i r outcome)
    | _ => none
  | .leaveDemand _ =>
    match r.phase with
    | .leavingDemand outcome => some (s.leaveDemand i r (.returned outcome))
    | _ => none
  | .release _ =>
    match r.phase with
    | .released false => some (s.leaveDemand i r (.released true))
    | .released true | .returned _ => some s
    | _ => none
  | _ => none

def stepPoll (s : State) (k : ℕ) (p : Poll) : Act → Option State
  | .pollTick _ healthy =>
    if p.phase = .ticking then some (if healthy then s.setPoll k .waking else s) else none
  | .pollWake _ => if p.phase = .waking then some ((s.wake p.model).setPoll k .ticking) else none
  | .pollStop _ =>
    if p.phase = .ticking ∧ p.stop ∈ s.closed then some (s.setPoll k .stopped) else none
  | _ => none

end State

/-- The call or the poll whose step the action is. -/
def Act.actor : Act → Option (ℕ ⊕ ℕ)
  | .hold _ _ _ | .wake _ => none
  | .enter i | .check i _ | .receive i | .wakeChan i | .keepAlive i _ | .budget i _ | .cancel i
  | .leave i | .leaveDemand i | .release i => some (.inl i)
  | .pollTick k _ | .pollWake k | .pollStop k => some (.inr k)

/-- One step; after a crash there is none. -/
def State.step (limits : Limits) (s : State) (a : Act) : Option State :=
  if s.crashed then none else
  match a.actor with
  | some (.inl i) => s.requests[i]?.bind fun r => s.stepRequest limits i r a
  | some (.inr k) => s.polls[k]?.bind fun p => s.stepPoll k p a
  | none =>
    match a with
    | .hold model caller requestID =>
      some { s with requests := s.requests ++ [⟨model, caller, requestID, .arrived⟩] }
    | .wake model => some (s.wake model)
    | _ => none

/-- The holder of `NewHolder(limits, …)` and all calls on it. -/
def holder (limits : Limits) : Machine State Act where
  Init s := s = ⟨0, ∅, [], [], 0, [], false⟩
  step := State.step limits

end HivenetRouter.Wake
