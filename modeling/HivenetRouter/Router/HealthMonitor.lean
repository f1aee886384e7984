import HivenetRouter.Router.Registration

/-!
# The health monitor

`healthMonitor` removes the agents whose last heartbeat is too old. It first collects their
ids under the lock of the registry; then, for each of them, it looks the agent up, reads
`LastSeen` again, and removes the agent in several calls: the session by the token of the
agent that it looked up, the registry entry and the counter state by the peer id.
Registrations and heartbeats of the same peer go on meanwhile.

`Lifecycle` puts the monitor beside the handlers of `Registration`. It has two ghosts, the
latest agent of each peer and the agents whose registration has been answered, and a removal
notes whether a registration or a heartbeat of the peer has completed since the second reading
of `LastSeen`.

A removal takes with it whatever the peer has registered in the meantime
(`removed_while_registering`). It spares the peer (`Lifecycle.Spared`) where the registration
has gone after it, call by call: where it has installed its agent after `Unregister`, and
created its counters after `DeleteState` (`spared_of_ordered`).
-/

namespace HivenetRouter.Router

open Function Option List Agents Handler

/-- The calls that the monitor has made for an agent. -/
inductive RemovalStage
  /-- `Get` has returned the agent. -/
  | looked
  /-- `LastSeen` is still too old. -/
  | rechecked
  /-- `RecordDisconnect` -/
  | recorded
  /-- `ClosePeer` -/
  | closed
  /-- `DeleteSession` -/
  | sessionDeleted
  /-- `Unregister` -/
  | unregistered
  /-- `DeleteState` -/
  | stateDeleted
  deriving DecidableEq

/-- `Unregister` has been called. -/
def RemovalStage.isUnregistered : RemovalStage → Bool
  | .unregistered | .stateDeleted => true
  | _ => false

/-- An iteration of the loop over the agents to remove. -/
structure Removal (Peer Token : Type) where
  id : Peer
  agent : AgentObj Peer Token
  stage : RemovalStage
  /-- The agents from this object on have been made since the lookup. -/
  firstNew : ℕ
  /-- A registration or a heartbeat of the peer has completed since the second reading. -/
  revived : Bool

inductive Monitor (Peer Token : Type)
  | idle
  | pass (toRemove : List Peer)
  | removing (removal : Removal Peer Token) (toRemove : List Peer)

def Monitor.removal {Peer Token : Type} : Monitor Peer Token → Option (Removal Peer Token)
  | .removing r _ => some r
  | _ => none

structure MonitorConfig where
  unhealthyAfter : ℕ
  removeAfter : ℕ

structure Lifecycle (Peer Token : Type) where
  agents : Agents Peer Token
  monitor : Monitor Peer Token
  /-- The agent that was installed last. -/
  latest : Peer → Option (AgentObj Peer Token)
  /-- The agents whose registration has been answered. -/
  answered : List (AgentObj Peer Token)

inductive LifecycleAct (Peer Token : Type)
  | agent (act : AgentAct Peer Token)
  /-- The ticker fires, and the monitor reads the registry in the given order. -/
  | scan (order : List Peer)
  | monitor

variable {Peer Token : Type} [LinearOrder Peer] [DecidableEq Token]

/-! ### What an action of the handlers does -/

namespace Handler

def installs (nextRef : ℕ) : Handler Peer Token → Option (AgentObj Peer Token)
  | .register peer token (.captured session _) => some ⟨nextRef, peer, token, session⟩
  | _ => none

/-- The peer whose counter state it creates. -/
def bootstraps : Handler Peer Token → Option Peer
  | .register peer _ (.installed _ _) => some peer
  | _ => none

/-- The agent whose registration it answers. -/
def answers : Handler Peer Token → Option (AgentObj Peer Token)
  | .register _ _ (.bootstrapped _ a) => some a
  | _ => none

/-- The agent whose heartbeat it accepts. -/
def refreshes (connected : Peer → Bool) : Handler Peer Token → Option (AgentObj Peer Token)
  | .heartbeat _ (.found a) => if connected a.peer then some a else none
  | _ => none

end Handler

namespace Agents

/-- The handler that makes a call. -/
def caller (s : Agents Peer Token) : AgentAct Peer Token → Option (Handler Peer Token)
  | .advance pid => s.handlers pid
  | _ => none

def installs (s : Agents Peer Token) (act : AgentAct Peer Token) : Option (AgentObj Peer Token) :=
  (s.caller act).bind (Handler.installs s.nextRef)

def bootstraps (s : Agents Peer Token) (act : AgentAct Peer Token) : Option Peer :=
  (s.caller act).bind Handler.bootstraps

def answers (s : Agents Peer Token) (act : AgentAct Peer Token) : Option (AgentObj Peer Token) :=
  (s.caller act).bind Handler.answers

def refreshes (s : Agents Peer Token) (act : AgentAct Peer Token) : Option (AgentObj Peer Token) :=
  (s.caller act).bind (Handler.refreshes s.connected)

end Agents

def Handler.agent : Handler Peer Token → Option (AgentObj Peer Token)
  | .register _ _ (.installed _ a) => some a
  | .register _ _ (.bootstrapped _ a) => some a
  | _ => none

/-- What a handler can be after the action, if it was not so before. -/
inductive Follows (s : Agents Peer Token) (act : AgentAct Peer Token) : Handler Peer Token → Prop
  | other {h : Handler Peer Token} (none : h.agent = none) : Follows s act h
  | installed {peer : Peer} {token : Token} {oldToken : Option Token} {a : AgentObj Peer Token}
      (installs : s.installs act = some a) (peer_eq : a.peer = peer) :
      Follows s act (.register peer token (.installed oldToken a))
  | bootstrapped {pid : ℕ} {peer : Peer} {token : Token} {oldToken : Option Token}
      {a : AgentObj Peer Token}
      (before : s.handlers pid = some (.register peer token (.installed oldToken a)))
      (bootstraps : s.bootstraps act = some peer) :
      Follows s act (.register peer token (.bootstrapped oldToken a))

/-- **All that an action of the handlers does** to the registry, the counters and the handlers. -/
structure Effects (s : Agents Peer Token) (act : AgentAct Peer Token) (t : Agents Peer Token) :
    Prop where
  registry : ∀ id, t.registry.get id =
    match s.installs act with
    | some a => if id = a.peer then some a else s.registry.get id
    | none => s.registry.get id
  nextRef_le : s.nextRef ≤ t.nextRef
  installs_ref : ∀ a ∈ s.installs act, a.ref = s.nextRef ∧ a.ref < t.nextRef
  counters : ∀ id, t.counters id = true ↔ s.counters id = true ∨ s.bootstraps act = some id
  handlers : ∀ pid h, t.handlers pid = some h → s.handlers pid = some h ∨ Follows s act h

section Effects

variable {s t : Agents Peer Token} {act : AgentAct Peer Token} {ttl pid : ℕ} {token : Token}

omit [DecidableEq Token] in
/-- An action that installs nothing and creates no counters. -/
theorem Effects.of_same (hinstalls : s.installs act = none) (hbootstraps : s.bootstraps act = none)
    (hregistry : t.registry = s.registry) (hcounters : t.counters = s.counters)
    (hnextRef : t.nextRef = s.nextRef)
    (hhandlers : ∀ pid h, t.handlers pid = some h → s.handlers pid = some h ∨ h.agent = none) :
    Effects s act t where
  registry id := by
    rw [hinstalls, hregistry]
  nextRef_le := hnextRef.ge
  installs_ref a ha := by
    rw [hinstalls] at ha
    cases ha
  counters id := by
    rw [hbootstraps, hcounters]
    exact (or_iff_left nofun).symm
  handlers pid h hh := (hhandlers pid h hh).imp_right .other

omit [DecidableEq Token] in
/-- Such an action of one handler, which is then without an agent. -/
theorem Effects.of_move {h : Option (Handler Peer Token)} (hinstalls : s.installs act = none)
    (hbootstraps : s.bootstraps act = none) (hregistry : t.registry = s.registry)
    (hcounters : t.counters = s.counters) (hnextRef : t.nextRef = s.nextRef)
    (hhandlers : t.handlers = (s.setHandler pid h).handlers)
    (hh : ∀ k, h = some k → k.agent = none) : Effects s act t := by
  refine .of_same hinstalls hbootstraps hregistry hcounters hnextRef fun q k hk => ?_
  rw [hhandlers] at hk
  exact (Agents.handlers_setHandler hk).imp_right (hh k)

theorem effects_advanceRegister {peer : Peer} {stage : RegisterStage Peer Token}
    (hh : s.handlers pid = some (.register peer token stage)) :
    Effects s (.advance pid) (s.advanceRegister pid peer token stage) := by
  -- the call is that of this handler
  have hinstalls : s.installs (.advance pid) =
      installs s.nextRef (.register peer token stage) := by
    change (s.handlers pid).bind _ = _
    rw [hh]
    rfl
  have hbootstraps : s.bootstraps (.advance pid) =
      bootstraps (.register peer token stage) := by
    change (s.handlers pid).bind _ = _
    rw [hh]
    rfl
  cases stage with
  | received =>
    refine .of_move hinstalls hbootstraps rfl rfl rfl rfl fun k hk => ?_
    obtain ⟨session, -, rfl⟩ := map_eq_some_iff.mp hk
    rfl
  | validated =>
    unfold advanceRegister
    cases s.sessions.linkPeerID s.clock token peer with
    | none => exact .of_move hinstalls hbootstraps rfl rfl rfl rfl nofun
    | some =>
      refine .of_move hinstalls hbootstraps rfl rfl rfl rfl fun k hk => ?_
      cases hk
      rfl
  | linked =>
    refine .of_move hinstalls hbootstraps rfl rfl rfl rfl fun k hk => ?_
    cases hk
    rfl
  | captured =>
    -- `Register` writes the entry of the peer, with a fresh reference
    refine ⟨fun id => ?_, Nat.le_succ _, fun a ha => ?_, fun id => ?_, fun q k hk => ?_⟩
    · rw [hinstalls]
      exact lookup_register_byID (agentFields Peer Token) s.registry _ id
    · rw [hinstalls] at ha
      cases ha
      exact ⟨rfl, Nat.lt_succ_self _⟩
    · rw [hbootstraps]
      exact (or_iff_left nofun).symm
    · refine (handlers_setHandler (s := s.installAgent _) hk).imp_right fun hk => ?_
      cases hk
      exact .installed hinstalls rfl
  | installed oldToken a =>
    -- `Bootstrap` writes the counters of the peer only
    refine ⟨fun id => ?_, le_rfl, fun a ha => ?_, fun id => ?_, fun q k hk => ?_⟩
    · rw [hinstalls]
      rfl
    · rw [hinstalls] at ha
      cases ha
    · rw [hbootstraps]
      change update s.counters peer true id = true ↔ s.counters id = true ∨ some peer = some id
      rw [update_apply, some_inj]
      split_ifs with hid
      · exact iff_of_true rfl (.inr hid.symm)
      · exact (or_iff_left fun h => hid h.symm).symm
    · refine (handlers_setHandler hk).imp_right fun hk => ?_
      cases hk
      exact .bootstrapped hh hbootstraps
  | bootstrapped => exact .of_move hinstalls hbootstraps rfl rfl rfl rfl nofun

theorem effects_advanceHeartbeat {stage : HeartbeatStage Peer Token}
    (hh : s.handlers pid = some (.heartbeat token stage)) :
    Effects s (.advance pid) (s.advanceHeartbeat pid token stage) := by
  -- a heartbeat neither installs an agent nor creates counters
  have hinstalls : s.installs (.advance pid) = none := by
    change (s.handlers pid).bind _ = _
    rw [hh]
    rfl
  have hbootstraps : s.bootstraps (.advance pid) = none := by
    change (s.handlers pid).bind _ = _
    rw [hh]
    rfl
  cases stage with
  | received =>
    refine .of_move hinstalls hbootstraps rfl rfl rfl rfl fun k hk => ?_
    obtain ⟨session, -, rfl⟩ := map_eq_some_iff.mp hk
    rfl
  | validated =>
    refine .of_move hinstalls hbootstraps rfl rfl rfl rfl fun k hk => ?_
    obtain ⟨a, -, rfl⟩ := map_eq_some_iff.mp hk
    rfl
  | found =>
    unfold advanceHeartbeat
    dsimp only
    split_ifs
    all_goals exact .of_move hinstalls hbootstraps rfl rfl rfl rfl nofun

theorem effects_step (hstep : s.step ttl act = some t) : Effects s act t := by
  cases step_moved hstep with
  | registerReceived | heartbeatReceived =>
    refine .of_move rfl rfl rfl rfl rfl rfl fun k hk => ?_
    cases hk
    rfl
  | registerAdvanced hh => exact effects_advanceRegister hh
  | heartbeatAdvanced hh => exact effects_advanceHeartbeat hh
  -- the sessions, the timers, the connections and the clock are not read here
  | sessionCreated _ | fired _ | cleaned | connectionSet
  | ticked => exact .of_same rfl rfl rfl rfl rfl fun _ _ h => .inl h

end Effects

/-! ### The monitor beside the handlers -/

/-- The removal notes that a registration or a heartbeat of its peer is completed. -/
def Monitor.note (completed : Option (AgentObj Peer Token)) :
    Monitor Peer Token → Monitor Peer Token
  | .removing r toRemove =>
    .removing { r with
      revived :=
        r.revived || (r.stage != .looked && completed.any fun a => a.peer = r.id) } toRemove
  | m => m

namespace Lifecycle

/-- The ghosts after an action of the handlers. -/
def afterAct (s : Lifecycle Peer Token) (act : AgentAct Peer Token) (t : Agents Peer Token) :
    Lifecycle Peer Token where
  agents := t
  monitor := s.monitor.note ((s.agents.answers act).or (s.agents.refreshes act))
  latest :=
    match s.agents.installs act with
    | some a => update s.latest a.peer (some a)
    | none => s.latest
  answered := (s.agents.answers act).toList ++ s.answered

/-- The ids that the first pass of the monitor collects. -/
def toRemove (cfg : MonitorConfig) (s : Agents Peer Token) (order : List Peer) : List Peer :=
  order.filter fun id =>
    match s.registry.get id with
    | none => false
    | some a =>
      let since := s.clock - s.lastSeen a.ref
      decide (cfg.unhealthyAfter < since) && decide (cfg.removeAfter < since)

def remove (cfg : MonitorConfig) (s : Lifecycle Peer Token) (r : Removal Peer Token)
    (toRemove : List Peer) : Lifecycle Peer Token :=
  match r.stage with
  | .looked =>
    if s.agents.clock - s.agents.lastSeen r.agent.ref ≤ cfg.removeAfter then
      { s with monitor := .pass toRemove }
    else { s with monitor := .removing { r with stage := .rechecked } toRemove }
  | .rechecked => { s with monitor := .removing { r with stage := .recorded } toRemove }
  | .recorded =>
    { s with
      agents := { s.agents with connected := update s.agents.connected r.id false }
      monitor := .removing { r with stage := .closed } toRemove }
  | .closed =>
    { s with
      agents := { s.agents with sessions := s.agents.sessions.deleteSession r.agent.token }
      monitor := .removing { r with stage := .sessionDeleted } toRemove }
  | .sessionDeleted =>
    { s with
      agents := { s.agents with
        registry := s.agents.registry.unregister (agentFields Peer Token) r.id }
      monitor := .removing { r with stage := .unregistered } toRemove }
  | .unregistered =>
    { s with
      agents := { s.agents with counters := update s.agents.counters r.id false }
      monitor := .removing { r with stage := .stateDeleted } toRemove }
  | .stateDeleted => { s with monitor := .pass toRemove }

def monitorStep (cfg : MonitorConfig) (s : Lifecycle Peer Token) : Option (Lifecycle Peer Token) :=
  match s.monitor with
  | .idle => none
  | .pass [] => some { s with monitor := .idle }
  | .pass (id :: toRemove) =>
    match s.agents.registry.get id with
    | none => some { s with monitor := .pass toRemove }
    | some agent =>
      some { s with
        monitor := .removing ⟨id, agent, .looked, s.agents.nextRef, false⟩ toRemove }
  | .removing r toRemove => some (s.remove cfg r toRemove)

def step (ttl : ℕ) (cfg : MonitorConfig) (s : Lifecycle Peer Token) :
    LifecycleAct Peer Token → Option (Lifecycle Peer Token)
  | .agent act => (s.agents.step ttl act).map (s.afterAct act)
  | .scan order =>
    match s.monitor with
    | .idle =>
      if RangeOrder s.agents.registry.byID order then
        some { s with monitor := .pass (toRemove cfg s.agents order) }
      else none
    | _ => none
  | .monitor => s.monitorStep cfg

structure Start (s : Lifecycle Peer Token) : Prop where
  agents : s.agents.Start
  monitor : s.monitor = .idle
  answered : s.answered = []

/-- The latest agent of the peer is in the registry with its session, unless that has expired,
and the counter state is there. -/
def Alive (s : Lifecycle Peer Token) (id : Peer) : Prop :=
  ∃ a, s.latest id = some a ∧ s.agents.registry.get id = some a ∧
    s.agents.sessions.Held s.agents.clock a.token a.session ∧ s.agents.counters id = true

/-- **At the end of a removal** the peer is alive if it has registered, or sent a heartbeat, since
the second reading of `LastSeen`. -/
def Spared (s : Lifecycle Peer Token) : Prop :=
  ∀ r ∈ s.monitor.removal, r.stage = .stateDeleted → r.revived = true → s.Alive r.id

end Lifecycle

/-- The handlers of the router and its health monitor. -/
def lifecycle (Peer Token : Type) [LinearOrder Peer] [DecidableEq Token] (ttl : ℕ)
    (cfg : MonitorConfig) : Machine (Lifecycle Peer Token) (LifecycleAct Peer Token) where
  Init := Lifecycle.Start
  step := Lifecycle.step ttl cfg

/-- The order of the calls of a removal and those of the handlers of the same peer. A registration
installs its agent after `Unregister`, and creates the counters after `DeleteState`; what completes
since the second reading of `LastSeen` is such a registration, or a heartbeat after it. -/
def Removal.Allows (r : Removal Peer Token) (s : Lifecycle Peer Token) (act : AgentAct Peer Token) :
    Prop :=
  (∀ a ∈ s.agents.installs act, a.peer = r.id → r.stage.isUnregistered = true) ∧
  (∀ peer ∈ s.agents.bootstraps act, peer = r.id → r.stage = .stateDeleted) ∧
  (r.stage ≠ .looked → (∀ a ∈ s.agents.answers act, a.peer = r.id → r.firstNew ≤ a.ref) ∧
    (∀ a ∈ s.agents.refreshes act, a.peer = r.id → r.firstNew ≤ a.ref ∧ a ∈ s.answered))

instance (r : Removal Peer Token) (s : Lifecycle Peer Token) (act : AgentAct Peer Token) :
    Decidable (r.Allows s act) :=
  inferInstanceAs (Decidable (_ ∧ _ ∧ _))

/-- The actions that come in this order, with sessions that are linked once. -/
def Ordered (s : Lifecycle Peer Token) : LifecycleAct Peer Token → Prop
  | .agent act =>
    OwnSession s.agents act ∧
      match s.monitor with
      | .removing r _ => r.Allows s act
      | _ => True
  | _ => True

instance (s : Lifecycle Peer Token) (act : LifecycleAct Peer Token) :
    Decidable (Ordered s act) := by
  unfold Ordered
  split
  · split <;> infer_instance
  · infer_instance

/-! ### The invariant -/

/-- The monitor has made all its calls, and the peer is registered again. -/
def Removal.Back (r : Removal Peer Token) (s : Agents Peer Token) : Prop :=
  r.stage = .stateDeleted ∧ (s.registry.get r.id).isSome ∧ s.counters r.id = true

/-- A registration of the peer that has installed its agent since the lookup has done so after
`Unregister`, and once it has created the counters the peer is back. -/
def Handler.Timely (r : Removal Peer Token) (s : Agents Peer Token) : Handler Peer Token → Prop
  | .register peer _ (.installed _ a) =>
    peer = r.id → r.firstNew ≤ a.ref → r.stage.isUnregistered = true ∧ (s.registry.get r.id).isSome
  | .register peer _ (.bootstrapped _ a) => peer = r.id → r.firstNew ≤ a.ref → r.Back s
  | _ => True

structure Removal.Timely (r : Removal Peer Token) (s : Lifecycle Peer Token) : Prop where
  registered : r.stage.isUnregistered = false → s.agents.registry.get r.id = some r.agent
  handlers : ∀ {pid h}, s.agents.handlers pid = some h → h.Timely r s.agents
  answered : ∀ a ∈ s.answered, a.peer = r.id → r.firstNew ≤ a.ref → r.Back s.agents
  revived : r.revived = true → r.Back s.agents

/-- The agent that a registration has installed is one of its peer. -/
def Handler.Sound (s : Agents Peer Token) : Handler Peer Token → Prop
  | .register peer _ (.installed _ a) => a.peer = peer ∧ a.ref < s.nextRef
  | .register peer _ (.bootstrapped _ a) => a.peer = peer ∧ a.ref < s.nextRef
  | _ => True

/-- The peer whose session the monitor has deleted, and not yet the agent. -/
def Monitor.cleared : Monitor Peer Token → Set Peer
  | .removing r _ => if r.stage = .sessionDeleted then {r.id} else ∅
  | _ => ∅

structure Lifecycle.Watched (s : Lifecycle Peer Token) : Prop where
  orderly : s.agents.view.Orderly
  kept : s.agents.Kept s.monitor.cleared
  latest : ∀ {id a}, s.agents.registry.get id = some a → s.latest id = some a
  sound : ∀ {pid h}, s.agents.handlers pid = some h → h.Sound s.agents
  answered : ∀ a ∈ s.answered, a.ref < s.agents.nextRef
  timely : ∀ {r toRemove}, s.monitor = .removing r toRemove → r.Timely s

section Watched

variable {s t : Lifecycle Peer Token} {ttl : ℕ} {cfg : MonitorConfig} {act : AgentAct Peer Token}

variable {h : Handler Peer Token} {u v : Agents Peer Token} {r : Removal Peer Token}
  {toRemove : List Peer} {id : Peer} {m : Monitor Peer Token} {stage : RemovalStage}

section

omit [DecidableEq Token]

theorem Handler.sound_of_agent (hagent : h.agent = none) (u : Agents Peer Token) :
    h.Sound u ∧ ∀ r, h.Timely r u := by
  cases h with
  | heartbeat => exact ⟨trivial, fun _ => trivial⟩
  | register peer token stage =>
    cases stage with
    | installed | bootstrapped => cases hagent
    | _ => exact ⟨trivial, fun _ => trivial⟩

theorem Removal.Back.mono (hback : r.Back u)
    (hregistry : (u.registry.get r.id).isSome → (v.registry.get r.id).isSome)
    (hcounters : u.counters r.id = true → v.counters r.id = true) : r.Back v :=
  ⟨hback.1, hregistry hback.2.1, hcounters hback.2.2⟩

theorem Handler.Timely.mono (htimely : h.Timely r u)
    (hregistry : (u.registry.get r.id).isSome → (v.registry.get r.id).isSome)
    (hcounters : u.counters r.id = true → v.counters r.id = true) : h.Timely r v := by
  cases h with
  | heartbeat => trivial
  | register peer token stage =>
    cases stage with
    | installed =>
      intro hpeer hnew
      exact (htimely hpeer hnew).imp_right hregistry
    | bootstrapped =>
      intro hpeer hnew
      exact (htimely hpeer hnew).mono hregistry hcounters
    | _ => trivial

theorem Effects.isSome_get (heffects : Effects u act v) (h : (u.registry.get id).isSome) :
    (v.registry.get id).isSome := by
  rw [heffects.registry]
  split
  · split_ifs
    · rfl
    · exact h
  · exact h

theorem cleared_note (m : Monitor Peer Token) (completed : Option (AgentObj Peer Token)) :
    (m.note completed).cleared = m.cleared := by
  cases m <;> rfl

omit [LinearOrder Peer]

theorem Handler.Sound.mono (hsound : h.Sound u) (hle : u.nextRef ≤ v.nextRef) : h.Sound v := by
  cases h with
  | heartbeat => trivial
  | register peer token stage =>
    cases stage with
    | installed | bootstrapped => exact ⟨hsound.1, lt_of_lt_of_le hsound.2 hle⟩
    | _ => trivial

theorem handlers_of_answers {a : AgentObj Peer Token} (h : u.answers act = some a) :
    ∃ pid peer token oldToken,
      u.handlers pid = some (.register peer token (.bootstrapped oldToken a)) := by
  cases act with
  | advance pid =>
    obtain ⟨k, hk, ha⟩ := bind_eq_some_iff.mp h
    cases k with
    | heartbeat => cases ha
    | register peer token stage =>
      cases stage with
      | bootstrapped oldToken =>
        cases ha
        exact ⟨pid, peer, token, oldToken, hk⟩
      | _ => cases ha
  | _ => cases h

theorem Monitor.eq_removing (h : r ∈ m.removal) : ∃ toRemove, m = .removing r toRemove := by
  cases m with
  | removing r' toRemove =>
    cases h
    exact ⟨toRemove, rfl⟩
  | _ => cases h

end

/-! ### Actions of the handlers -/

theorem sound_agent (hs : s.Watched) (heffects : Effects s.agents act u) {pid : ℕ}
    (hh : u.handlers pid = some h) : h.Sound u := by
  rcases heffects.handlers pid h hh with hold | hnew
  · exact (hs.sound hold).mono heffects.nextRef_le
  · cases hnew with
    | other hnone => exact (sound_of_agent hnone u).1
    | installed hinstalls hpeer => exact ⟨hpeer, (heffects.installs_ref _ hinstalls).2⟩
    | bootstrapped hbefore => exact (hs.sound hbefore).mono heffects.nextRef_le

/-- **A removal under way**, and an action of the handlers that it allows. -/
theorem timely_agent (hs : s.Watched) (heffects : Effects s.agents act u) (hr : r.Timely s)
    (hallows : r.Allows s act) {revived : Bool}
    (hrevived : revived = true → r.revived = true ∨ r.stage ≠ .looked ∧
      ∃ a, (s.agents.answers act).or (s.agents.refreshes act) = some a ∧ a.peer = r.id) :
    Removal.Timely { r with revived := revived } (s.afterAct act u) := by
  obtain ⟨hinstalls, hbootstraps, hcompletes⟩ := hallows
  have hcounters : s.agents.counters r.id = true → u.counters r.id = true :=
    fun h => (heffects.counters r.id).mpr (.inl h)
  have hback : r.Back s.agents → r.Back u := fun h => h.mono heffects.isSome_get hcounters
  -- an answer is given by a handler that has created the counters
  have hanswers : ∀ {a}, s.agents.answers act = some a → a.peer = r.id → r.firstNew ≤ a.ref →
      r.Back s.agents := by
    intro a ha hpeer hnew
    obtain ⟨pid, peer, token, oldToken, hh⟩ := handlers_of_answers ha
    exact hr.handlers hh ((hs.sound hh).1 ▸ hpeer) hnew
  constructor
  · intro hstage
    -- Before `Unregister` no agent of this peer is installed.
    refine (heffects.registry r.id).trans ?_
    cases ha : s.agents.installs act with
    | none => exact hr.registered hstage
    | some a =>
      have hne : r.id ≠ a.peer := by
        intro hpeer
        have hpast := hinstalls a ha hpeer.symm
        rw [show r.stage.isUnregistered = false from hstage] at hpast
        cases hpast
      exact (if_neg hne).trans (hr.registered hstage)
  · intro pid h hh
    -- a handler that was there before relies on entries that the handlers never remove
    rcases heffects.handlers pid h hh with hold | hnew
    · exact (hr.handlers hold).mono heffects.isSome_get hcounters
    · cases hnew with
      | other hnone => exact (sound_of_agent hnone u).2 _
      | @installed peer token oldToken a ha hpeer =>
        intro hid _
        refine ⟨hinstalls a ha (hpeer.trans hid), ?_⟩
        change (u.registry.get r.id).isSome
        rw [heffects.registry, ha]
        dsimp only
        rw [if_pos (hpeer.trans hid).symm]
        rfl
      | @bootstrapped pid' peer token oldToken a hbefore hboot =>
        intro hid hnew
        have hpast := hr.handlers hbefore hid hnew
        refine ⟨hbootstraps peer hboot hid, heffects.isSome_get hpast.2, ?_⟩
        exact (heffects.counters r.id).mpr (.inr (hid ▸ hboot))
  · intro a ha hpeer hnew
    -- an answer now, or an earlier one
    rcases mem_append.mp ha with ha | ha
    · exact hback (hanswers (mem_toList.mp ha) hpeer hnew)
    · exact hback (hr.answered a ha hpeer hnew)
  · intro htrue
    rcases hrevived htrue with hold | ⟨hstage, a, ha, hpeer⟩
    · exact hback (hr.revived hold)
    · -- what completes now is a new registration, or the heartbeat of one that is answered
      obtain ⟨hanswered, hrefreshed⟩ := hcompletes hstage
      rcases or_eq_some_iff.mp ha with ha | ⟨-, ha⟩
      · exact hback (hanswers ha hpeer (hanswered a ha hpeer))
      · obtain ⟨hnew, hmem⟩ := hrefreshed a ha hpeer
        exact hback (hr.answered a hmem hpeer hnew)

theorem watched_agent (hs : s.Watched) (hordered : Ordered s (.agent act))
    (hstep : s.agents.step ttl act = some u) : (s.afterAct act u).Watched := by
  have heffects : Effects s.agents act u := effects_step hstep
  constructor
  · exact orderly_step hs.orderly hordered.1 hstep
  · change u.Kept (Monitor.cleared (s.monitor.note _))
    rw [cleared_note]
    exact kept_step hs.kept hs.orderly hordered.1 hstep
  · intro id a ha
    -- both the registry and the ghost take the agent that is installed
    rw [show (s.afterAct act u).agents.registry.get id = _ from heffects.registry id] at ha
    change (match s.agents.installs act with
      | some a => update s.latest a.peer (some a)
      | none => s.latest) id = some a
    cases hinstalls : s.agents.installs act with
    | none =>
      rw [hinstalls] at ha
      exact hs.latest ha
    | some =>
      rw [hinstalls] at ha
      dsimp only at ha ⊢
      rw [update_apply]
      split_ifs at ha ⊢
      · exact ha
      · exact hs.latest ha
  · exact fun hh => sound_agent hs heffects hh
  · intro a ha
    refine lt_of_lt_of_le ?_ heffects.nextRef_le
    rcases mem_append.mp ha with ha | ha
    · obtain ⟨pid, peer, token, oldToken, hh⟩ := handlers_of_answers (mem_toList.mp ha)
      exact (hs.sound hh).2
    · exact hs.answered a ha
  · intro r toRemove hr
    -- only a removal under way has something to show
    have hallows := hordered.2
    cases hmonitor : s.monitor with
    | idle | pass =>
      rw [show (s.afterAct act u).monitor = s.monitor.note _ from rfl, hmonitor] at hr
      cases hr
    | removing =>
      rw [show (s.afterAct act u).monitor = s.monitor.note _ from rfl, hmonitor] at hr
      rw [hmonitor] at hallows
      cases hr
      refine timely_agent hs heffects (hs.timely hmonitor) hallows fun hrevived => ?_
      rcases Bool.or_eq_true_iff.mp hrevived with hold | hnew
      · exact .inl hold
      · obtain ⟨hstage, hany⟩ := Bool.and_eq_true_iff.mp hnew
        obtain ⟨a, ha, hpeer⟩ := (any_eq_true _ _).mp hany
        exact .inr ⟨bne_iff_ne.mp hstage, a, ha, of_decide_eq_true hpeer⟩

/-! ### Calls of the monitor -/

/-- A call after which no removal is under way. -/
theorem watched_monitor (hs : s.Watched) (hcleared : s.monitor.cleared = ∅)
    (hm : ∀ r toRemove, m ≠ .removing r toRemove) :
    Lifecycle.Watched { s with monitor := m } where
  __ := hs
  kept := by
    have hkept := hs.kept
    rw [hcleared] at hkept
    exact ⟨hkept.handlers, fun _ => hkept.registry (Set.notMem_empty _)⟩
  timely h := absurd h (hm _ _)

/-- The lookup: what has been installed so far is not new. -/
theorem watched_lookup (hs : s.Watched) (hcleared : s.monitor.cleared = ∅)
    {agent : AgentObj Peer Token} (hget : s.agents.registry.get id = some agent)
    (toRemove : List Peer) :
    Lifecycle.Watched { s with
      monitor := .removing ⟨id, agent, .looked, s.agents.nextRef, false⟩ toRemove } where
  __ := hs
  kept := by
    have hkept := hs.kept
    rw [hcleared] at hkept
    exact hkept
  timely := by
    intro r todo hr
    cases hr
    refine ⟨fun _ => hget, fun {pid h} hh => ?_, fun a ha _ hnew => ?_, nofun⟩
    · have hsound := hs.sound hh
      -- every agent so far has a reference below the counter
      cases h with
      | heartbeat => trivial
      | register peer token stage =>
        cases stage with
        | installed | bootstrapped => exact fun _ hnew => absurd hnew (Nat.not_le_of_lt hsound.2)
        | _ => trivial
    · exact absurd hnew (Nat.not_le_of_lt (hs.answered a ha))

omit [DecidableEq Token] in
theorem Removal.Timely.advance (hr : r.Timely s) (hstage : r.stage ≠ .stateDeleted)
    (hpast : r.stage.isUnregistered = true → stage.isUnregistered = true)
    (hregistered : stage.isUnregistered = false → t.agents.registry.get r.id = some r.agent)
    (hregistry : r.stage.isUnregistered = true → t.agents.registry = s.agents.registry)
    (hhandlers : t.agents.handlers = s.agents.handlers) (hanswered : t.answered = s.answered) :
    Removal.Timely { r with stage := stage } t where
  registered := hregistered
  handlers := by
    intro pid h hh
    rw [hhandlers] at hh
    have htimely := hr.handlers hh
    cases h with
    | heartbeat => trivial
    | register peer token stage =>
      cases stage with
      | installed =>
        intro hpeer hnew
        -- an agent installed after `Unregister`: the later calls leave the registry alone
        obtain ⟨hunregistered, hsome⟩ := htimely hpeer hnew
        refine ⟨hpast hunregistered, ?_⟩
        change (t.agents.registry.get r.id).isSome
        rw [hregistry hunregistered]
        exact hsome
      | bootstrapped => exact fun hpeer hnew => absurd (htimely hpeer hnew).1 hstage
      | _ => trivial
  answered := by
    intro a ha hpeer hnew
    rw [hanswered] at ha
    exact absurd (hr.answered a ha hpeer hnew).1 hstage
  revived := fun h => absurd (hr.revived h).1 hstage

omit [DecidableEq Token] in
/-- Up to `Unregister` no registration has come after the removal. -/
theorem Removal.Timely.advance_before (hr : r.Timely s) (hold : r.stage.isUnregistered = false)
    (hregistered : stage.isUnregistered = false → t.agents.registry.get r.id = some r.agent)
    (hhandlers : t.agents.handlers = s.agents.handlers) (hanswered : t.answered = s.answered) :
    Removal.Timely { r with stage := stage } t := by
  have hnot : r.stage.isUnregistered ≠ true := Bool.eq_false_iff.mp hold
  refine hr.advance (fun h => ?_) (fun h => absurd h hnot) hregistered (fun h => absurd h hnot)
    hhandlers hanswered
  rw [h] at hold
  cases hold

omit [DecidableEq Token] in
theorem get_unregister (s : Agents Peer Token) (id id' : Peer) :
    (s.registry.unregister (agentFields Peer Token) id).get id' =
      if id' = id then none else s.registry.get id' :=
  lookup_unregister_byID (agentFields Peer Token) s.registry id id'

theorem current_unregister (s : Agents Peer Token) (id : Peer) :
    view { s with registry := s.registry.unregister (agentFields Peer Token) id } =
      { s.view with current := update s.view.current id none } := by
  have hcurrent : (fun id' => ((s.registry.unregister (agentFields Peer Token) id).get id').map
      AgentObj.token) = update s.view.current id none := by
    funext id'
    rw [get_unregister, update_apply]
    split_ifs <;> rfl
  exact congrArg (fun current => { s.view with current := current }) hcurrent

section

variable (hs : s.Watched)

include hs

section

variable (hmonitor : s.monitor = .removing r toRemove)

include hmonitor

/-- What the sessions are kept for during a removal: from `DeleteSession` to `Unregister` the
session of the peer is missing. -/
theorem kept_removing : s.agents.Kept (if r.stage = .sessionDeleted then {r.id} else ∅) := by
  have hkept := hs.kept
  rw [hmonitor] at hkept
  exact hkept

/-- The calls that change nothing of what the invariant reads. -/
theorem watched_advance (old new : RemovalStage) (hstage : r.stage = old)
    (hbefore : old.isUnregistered = false ∧ new.isUnregistered = false)
    (hsession : old ≠ .sessionDeleted ∧ new ≠ .sessionDeleted) (connected : Peer → Bool) :
    Lifecycle.Watched { s with
      agents := { s.agents with connected := connected }
      monitor := .removing { r with stage := new } toRemove } where
  __ := hs
  kept := by
    -- neither of the stages is the one that `Kept` makes an exception for
    have hkept := kept_removing hs hmonitor
    rw [hstage, if_neg hsession.1] at hkept
    change Agents.Kept { s.agents with connected := connected }
      (if new = .sessionDeleted then {r.id} else ∅)
    rw [if_neg hsession.2]
    exact hkept.frame subset_rfl (fun _ _ h => .inl h) (fun _ _ h => h) (fun _ _ h => .inl h)
      (fun _ _ h => .inl h)
  sound hh := (hs.sound hh).mono le_rfl
  timely := by
    intro r' todo hr'
    cases hr'
    have hr := hs.timely hmonitor
    have hold : r.stage.isUnregistered = false := by
      rw [hstage]
      exact hbefore.1
    exact hr.advance_before hold (fun _ => hr.registered hold) rfl rfl

/-- `DeleteSession`: the token is that of the agent in the registry, and of no other one. -/
theorem watched_deleteSession (hstage : r.stage = .closed) :
    Lifecycle.Watched { s with
      agents := { s.agents with sessions := s.agents.sessions.deleteSession r.agent.token }
      monitor := .removing { r with stage := .sessionDeleted } toRemove } where
  __ := hs
  kept := by
    have hr := hs.timely hmonitor
    have hget : s.agents.registry.get r.id = some r.agent := hr.registered (by rw [hstage]; rfl)
    -- the agent is current, so that no other one has its token
    have hspare : s.agents.view.Spare {r.id} r.agent.token :=
      hs.orderly.spare_of_current (current_of_get hget)
    have hkept : s.agents.Kept ∅ := by
      have hkept := kept_removing hs hmonitor
      rw [hstage] at hkept
      exact hkept
    -- from here on the peer is left out of what is kept
    refine hkept.frame (Set.empty_subset _) ?_ (fun _ _ h => h) (fun _ _ h => .inl h)
      (fun _ _ h => .inl h)
    intro token session hheld
    by_cases htoken : token = r.agent.token
    · exact .inr (htoken ▸ hspare)
    · exact .inl (hheld.deleteSession htoken)
  sound hh := (hs.sound hh).mono le_rfl
  timely := by
    intro r' todo hr'
    cases hr'
    have hr := hs.timely hmonitor
    have hold : r.stage.isUnregistered = false := by rw [hstage]; rfl
    exact hr.advance_before hold (fun _ => hr.registered hold) rfl rfl

/-- `Unregister`: the agent without a session is gone. -/
theorem watched_unregister (hstage : r.stage = .sessionDeleted) :
    Lifecycle.Watched { s with
      agents := { s.agents with
        registry := s.agents.registry.unregister (agentFields Peer Token) r.id }
      monitor := .removing { r with stage := .unregistered } toRemove } where
  orderly := by
    have hvacate := hs.orderly.vacate r.id
    rw [← current_unregister] at hvacate
    exact hvacate
  kept := by
    have hkept := kept_removing hs hmonitor
    rw [if_pos hstage] at hkept
    -- without the agent there is no peer left out any more
    constructor
    · intro pid h hh
      exact (hkept.handlers hh).frame ∅ hh (fun _ _ h => .inl h) (fun _ _ h => h)
    · intro id a _ ha
      rw [get_unregister] at ha
      split_ifs at ha with hid
      exact hkept.registry hid ha
  latest := by
    intro id a ha
    rw [get_unregister] at ha
    split_ifs at ha
    exact hs.latest ha
  sound hh := (hs.sound hh).mono le_rfl
  answered := hs.answered
  timely := by
    intro r' todo hr'
    cases hr'
    have hold : r.stage.isUnregistered = false := by rw [hstage]; rfl
    exact (hs.timely hmonitor).advance_before hold nofun rfl rfl

theorem watched_deleteState (hstage : r.stage = .unregistered) :
    Lifecycle.Watched { s with
      agents := { s.agents with counters := update s.agents.counters r.id false }
      monitor := .removing { r with stage := .stateDeleted } toRemove } where
  __ := hs
  kept := by
    have hkept := kept_removing hs hmonitor
    rw [hstage] at hkept
    exact hkept.frame subset_rfl (fun _ _ h => .inl h) (fun _ _ h => h) (fun _ _ h => .inl h)
      (fun _ _ h => .inl h)
  sound hh := (hs.sound hh).mono le_rfl
  timely := by
    intro r' todo hr'
    cases hr'
    refine (hs.timely hmonitor).advance ?_ (fun _ => rfl) nofun (fun _ => rfl) rfl rfl
    rw [hstage]
    exact nofun

theorem watched_remove : (s.remove cfg r toRemove).Watched := by
  -- Between the calls, a session is missing only from `DeleteSession` to `Unregister`.
  have hcleared : r.stage ≠ .sessionDeleted → s.monitor.cleared = ∅ := by
    intro hne
    rw [hmonitor]
    exact if_neg hne
  unfold Lifecycle.remove
  cases hstage : r.stage with
  | looked =>
    -- the second reading may find a heartbeat, and the removal is dropped
    split_ifs
    · exact watched_monitor hs (hcleared (by rw [hstage]; exact nofun)) nofun
    · exact watched_advance hs hmonitor .looked .rechecked hstage (by decide) (by decide) _
  | rechecked =>
    exact watched_advance hs hmonitor .rechecked .recorded hstage (by decide) (by decide) _
  | recorded => exact watched_advance hs hmonitor .recorded .closed hstage (by decide) (by decide) _
  | closed => exact watched_deleteSession hs hmonitor hstage
  | sessionDeleted => exact watched_unregister hs hmonitor hstage
  | unregistered => exact watched_deleteState hs hmonitor hstage
  | stateDeleted => exact watched_monitor hs (hcleared (by rw [hstage]; exact nofun)) nofun

end

theorem watched_monitorStep (hstep : s.monitorStep cfg = some t) : t.Watched := by
  unfold Lifecycle.monitorStep at hstep
  cases hmonitor : s.monitor with
  | idle =>
    rw [hmonitor] at hstep
    cases hstep
  | pass todo =>
    have hcleared : s.monitor.cleared = ∅ := by
      rw [hmonitor]
      rfl
    rw [hmonitor] at hstep
    cases todo with
    | nil =>
      cases hstep
      exact watched_monitor hs hcleared nofun
    | cons id toRemove =>
      -- the agent may have gone since the first pass
      dsimp only at hstep
      split at hstep
      · cases hstep
        exact watched_monitor hs hcleared nofun
      · next agent hget =>
        cases hstep
        exact watched_lookup hs hcleared hget toRemove
  | removing =>
    rw [hmonitor] at hstep
    cases hstep
    exact watched_remove hs hmonitor

theorem watched_step {a : LifecycleAct Peer Token} (hordered : Ordered s a)
    (hstep : s.step ttl cfg a = some t) : t.Watched := by
  cases a with
  | agent =>
    obtain ⟨u, hu, rfl⟩ := map_eq_some_iff.mp hstep
    exact watched_agent hs hordered hu
  | scan =>
    dsimp only [Lifecycle.step] at hstep
    split at hstep
    · next hmonitor =>
      split_ifs at hstep
      cases hstep
      refine watched_monitor hs ?_ (by simp)
      rw [hmonitor]
      rfl
    · cases hstep
  | monitor => exact watched_monitorStep hs hstep

end

theorem watched_start (h : s.Start) : s.Watched where
  orderly := orderly_start h.agents
  kept := kept_start h.agents
  latest ha := by
    rw [h.agents.registry] at ha
    cases ha
  sound hh := by
    rw [h.agents.handlers] at hh
    cases hh
  answered a ha := by
    rw [h.answered] at ha
    cases ha
  timely hr := by
    rw [h.monitor] at hr
    cases hr

/-- **A removal spares the peers whose registration comes after it**, call by call, and the
heartbeats of those. -/
theorem spared_of_ordered (hreach : (lifecycle Peer Token ttl cfg).ReachVia Ordered s) :
    s.Spared := by
  have hs : s.Watched := by
    refine hreach.induction (I := Lifecycle.Watched) (fun s hstart => watched_start hstart) ?_
    intro s a t hs hordered hstep
    exact watched_step hs hordered hstep
  intro r hr hstage hrevived
  obtain ⟨toRemove, hmonitor⟩ := Monitor.eq_removing hr
  -- who is revived is back
  obtain ⟨-, hsome, hcounters⟩ := (hs.timely hmonitor).revived hrevived
  obtain ⟨a, ha⟩ := isSome_iff_exists.mp hsome
  -- and its session is not the one that the monitor has deleted
  have hcleared : r.id ∉ s.monitor.cleared := by
    rw [hmonitor]
    change r.id ∉ if r.stage = .sessionDeleted then {r.id} else ∅
    rw [hstage]
    exact Set.notMem_empty _
  exact ⟨a, hs.latest ha, ha, (hs.kept.registry hcleared ha).2.1, hcounters⟩

end Watched

/-! ### A registration during a removal -/

def demoLifecycle : Lifecycle ℕ ℕ := ⟨demoAgents, .idle, fun _ => none, []⟩

def demoConfig : MonitorConfig := ⟨30, 60⟩

def agentActs (acts : List (AgentAct ℕ ℕ)) : List (LifecycleAct ℕ ℕ) := acts.map .agent

/-- Peer 1 registers with session 7 and then sends nothing, until the monitor has read its
`LastSeen` for the second time. -/
def silentActs : List (LifecycleAct ℕ ℕ) :=
  agentActs ([.createSession 7 "m", .createSession 8 "m"] ++ registerActs 0 7 ++ [.tick 100]) ++
    [.scan [1], .monitor, .monitor]

/-- The other calls of the removal up to `Unregister`; then the peer connects again and
registers with session 8, and `DeleteState` comes before its counters; and a heartbeat. -/
def returnActs : List (LifecycleAct ℕ ℕ) :=
  replicate 4 .monitor ++
    agentActs ([.setConnected 1 true, .receiveRegister 1 1 8] ++ replicate 4 (.advance 1)) ++
    [.monitor] ++ agentActs (replicate 2 (.advance 1) ++ heartbeatActs 2 8)

theorem spared_return :
    ∃ t ∈ (lifecycle ℕ ℕ 1000 demoConfig).run demoLifecycle (silentActs ++ returnActs),
      (∃ r ∈ t.monitor.removal, r.id = 1 ∧ r.stage = .stateDeleted ∧ r.revived = true) ∧
        t.Spared := by
  refine Machine.exists_mem_and (by decide +kernel) fun t hrun _ => ?_
  have hreach : (lifecycle ℕ ℕ 1000 demoConfig).ReachVia Ordered t :=
    ⟨demoLifecycle, silentActs ++ returnActs, ⟨start_demoAgents, rfl, rfl⟩, by decide +kernel, hrun⟩
  exact spared_of_ordered hreach

/-- **A live agent is removed**: the peer registers again, with its other session, right after
the second reading of `LastSeen`. Its registration is answered; then the removal takes the new
agent out of the registry and deletes its counter state. -/
theorem removed_while_registering : ∃ t ∈ (lifecycle ℕ ℕ 1000 demoConfig).run demoLifecycle
        (silentActs ++ agentActs (registerActs 1 8) ++ replicate 5 .monitor),
      t.agents.registry.get 1 = none ∧ t.agents.counters 1 = false ∧
        (∃ a ∈ t.latest 1, a.token = 8 ∧ a ∈ t.answered) ∧ ¬t.Spared := by
  refine Machine.exists_mem_imp (fun t => t.agents.registry.get 1 = none ∧
    t.agents.counters 1 = false ∧ (∃ a ∈ t.latest 1, a.token = 8 ∧ a ∈ t.answered) ∧
      ∃ r ∈ t.monitor.removal, r.id = 1 ∧ r.stage = .stateDeleted ∧ r.revived = true)
    (by decide +kernel) ?_
  rintro t - ⟨hget, hcounters, hlatest, r, hr, hid, hstage, hrevived⟩
  refine ⟨hget, hcounters, hlatest, fun hspared => ?_⟩
  obtain ⟨a, -, ha, -⟩ := hspared r hr hstage hrevived
  rw [hid, hget] at ha
  cases ha

end HivenetRouter.Router
