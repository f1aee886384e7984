import HivenetRouter.Auth.Session
import HivenetRouter.Framework.Succession
import HivenetRouter.Router.AgentRegistry

/-!
# Registrations and heartbeats

`handleAgentRegister` and `handleAgentHeartbeat` are sequences of calls on the session manager, the
registry and the counters, each of which takes its own lock. A handler is therefore a process with a
stage, and an action lets one handler make its next call; the requests of all peers, the expiry of
sessions and the timers that delete old sessions come in between in any order.

A registration reads the token of the agent that it replaces before it installs its own, and a
timer deletes that token later. Seen as a `Succession` (sites are peers, a process takes a
token when it links the session), a step of this machine is one of `Succession.Step` or
changes nothing (`succession_step`), where every registration comes with a session that no
peer has been linked to. Then no timer deletes the token of a registered agent, and such an
agent can heartbeat until its session expires (`continuity_of_own_sessions`). A peer that
registers twice with the same session loses it (`same_token_twice`).
-/

namespace HivenetRouter.Router

open Auth Function Finmap Option Machine SessionManager

/-- `Agent`: an object of its own for every registration, with the session it registered with. -/
structure AgentObj (Peer Token : Type) where
  ref : ℕ
  peer : Peer
  token : Token
  session : Session
  deriving DecidableEq

/-- What the registry reads of an agent. -/
def agentFields (Peer Token : Type) : AgentFields Peer (AgentObj Peer Token) where
  id := AgentObj.peer
  model := fun a => a.session.model

/-- The calls that `handleAgentRegister` has made. -/
inductive RegisterStage (Peer Token : Type)
  /-- The body is decoded, and the peer is that of the connection. -/
  | received
  /-- `ValidateSession` has returned the session. -/
  | validated (session : Session)
  /-- `LinkPeerID` has returned true. -/
  | linked (session : Session)
  /-- The token of the agent that was registered, if there was one. -/
  | captured (session : Session) (oldToken : Option Token)
  /-- `installAgent` has registered the new agent. -/
  | installed (oldToken : Option Token) (agent : AgentObj Peer Token)
  /-- `Bootstrap` has created the counters. -/
  | bootstrapped (oldToken : Option Token) (agent : AgentObj Peer Token)

/-- The calls that `handleAgentHeartbeat` has made. -/
inductive HeartbeatStage (Peer Token : Type)
  | received
  /-- `ValidateSession` has returned a session. -/
  | validated
  /-- `Get` has returned the agent. -/
  | found (agent : AgentObj Peer Token)

inductive Handler (Peer Token : Type)
  | register (peer : Peer) (token : Token) (stage : RegisterStage Peer Token)
  | heartbeat (token : Token) (stage : HeartbeatStage Peer Token)

/-- The part of the router that the two handlers read and write. -/
structure Agents (Peer Token : Type) where
  registry : AgentRegistry Peer (AgentObj Peer Token)
  sessions : SessionManager Token Peer
  /-- The peers that have a counter state. -/
  counters : Peer → Bool
  connected : Peer → Bool
  /-- `LastSeen` of the agents, by object. -/
  lastSeen : ℕ → ℕ
  clock : ℕ
  /-- The tokens whose `DeleteSession` is scheduled. -/
  timers : List Token
  handlers : ℕ → Option (Handler Peer Token)
  nextRef : ℕ

inductive AgentAct (Peer Token : Type)
  /-- An agent authenticates and gets a session. -/
  | createSession (token : Token) (model : String)
  | receiveRegister (pid : ℕ) (peer : Peer) (token : Token)
  | receiveHeartbeat (pid : ℕ) (token : Token)
  /-- A handler makes its next call. -/
  | advance (pid : ℕ)
  /-- A scheduled `DeleteSession` runs. -/
  | fire (token : Token)
  | cleanupExpired (order : List Token)
  | setConnected (peer : Peer) (connected : Bool)
  | tick (d : ℕ)

variable {Peer Token : Type} [LinearOrder Peer] [DecidableEq Token]

namespace Agents

/-- The handler goes on with a stage, or returns. -/
def setHandler (s : Agents Peer Token) (pid : ℕ) (h : Option (Handler Peer Token)) :
    Agents Peer Token :=
  { s with handlers := update s.handlers pid h }

/-- `NewAgent` and `installAgent`. -/
def installAgent (s : Agents Peer Token) (a : AgentObj Peer Token) : Agents Peer Token :=
  { s with
    registry := s.registry.register (agentFields Peer Token) a
    lastSeen := update s.lastSeen a.ref s.clock
    nextRef := s.nextRef + 1 }

/-- The next call of `handleAgentRegister`. -/
def advanceRegister (s : Agents Peer Token) (pid : ℕ) (peer : Peer) (token : Token) :
    RegisterStage Peer Token → Agents Peer Token
  | .received =>
    let result := s.sessions.validateSession s.clock token
    { s with sessions := result.2 }.setHandler pid
      (result.1.map fun session => .register peer token (.validated session))
  | .validated session =>
    match s.sessions.linkPeerID s.clock token peer with
    | none => s.setHandler pid none
    | some m =>
      { s with sessions := m }.setHandler pid (some (.register peer token (.linked session)))
  | .linked session =>
    s.setHandler pid
      (some (.register peer token (.captured session ((s.registry.get peer).map AgentObj.token))))
  | .captured session oldToken =>
    let agent : AgentObj Peer Token := ⟨s.nextRef, peer, token, session⟩
    (s.installAgent agent).setHandler pid (some (.register peer token (.installed oldToken agent)))
  | .installed oldToken agent =>
    { s with counters := update s.counters peer true }.setHandler pid
      (some (.register peer token (.bootstrapped oldToken agent)))
  | .bootstrapped oldToken _ => { s with timers := oldToken.toList ++ s.timers }.setHandler pid none

/-- The next call of `handleAgentHeartbeat`. -/
def advanceHeartbeat (s : Agents Peer Token) (pid : ℕ) (token : Token) :
    HeartbeatStage Peer Token → Agents Peer Token
  | .received =>
    let result := s.sessions.validateSession s.clock token
    { s with sessions := result.2 }.setHandler pid
      (result.1.map fun _ => .heartbeat token .validated)
  | .validated =>
    s.setHandler pid (((s.sessions.peerIDs.lookup token).bind s.registry.get).map fun a =>
      .heartbeat token (.found a))
  | .found a =>
    -- The section under `connHealthMu`: a heartbeat without a connection changes nothing.
    (if s.connected a.peer then { s with lastSeen := update s.lastSeen a.ref s.clock }
      else s).setHandler pid none

/-- The next call of the handler. -/
def advance (s : Agents Peer Token) (pid : ℕ) : Option (Agents Peer Token) :=
  (s.handlers pid).map fun
    | .register peer token stage => s.advanceRegister pid peer token stage
    | .heartbeat token stage => s.advanceHeartbeat pid token stage

def receive (s : Agents Peer Token) (pid : ℕ) (h : Handler Peer Token) :
    Option (Agents Peer Token) :=
  match s.handlers pid with
  | none => some (s.setHandler pid (some h))
  | some _ => none

/-- One action. A token is random, and so a new one has not been that of a session before. -/
def step (ttl : ℕ) (s : Agents Peer Token) : AgentAct Peer Token → Option (Agents Peer Token)
  | .createSession token model =>
    if s.sessions.sessions.lookup token = none ∧ s.sessions.peerIDs.lookup token = none then
      some { s with sessions := s.sessions.createSession s.clock ttl token model }
    else none
  | .receiveRegister pid peer token => s.receive pid (.register peer token .received)
  | .receiveHeartbeat pid token => s.receive pid (.heartbeat token .received)
  | .advance pid => s.advance pid
  | .fire token =>
    if token ∈ s.timers then
      some { s with
        timers := s.timers.erase token
        sessions := s.sessions.deleteSession token }
    else none
  | .cleanupExpired order =>
    if RangeOrder s.sessions.sessions order then
      some { s with sessions := s.sessions.cleanupExpired s.clock order }
    else none
  | .setConnected peer connected => some { s with connected := update s.connected peer connected }
  | .tick d => some { s with clock := s.clock + d }

/-- **What a step can do.** -/
inductive Moved (ttl : ℕ) (s : Agents Peer Token) :
    AgentAct Peer Token → Agents Peer Token → Prop where
  | sessionCreated {token model} (hnew : s.sessions.sessions.lookup token = none) :
      Moved ttl s (.createSession token model)
        { s with sessions := s.sessions.createSession s.clock ttl token model }
  | registerReceived {pid peer token} (hfree : s.handlers pid = none) :
      Moved ttl s (.receiveRegister pid peer token)
        (s.setHandler pid (some (.register peer token .received)))
  | heartbeatReceived {pid token} (hfree : s.handlers pid = none) :
      Moved ttl s (.receiveHeartbeat pid token)
        (s.setHandler pid (some (.heartbeat token .received)))
  | registerAdvanced {pid peer token stage}
      (hh : s.handlers pid = some (.register peer token stage)) :
      Moved ttl s (.advance pid) (s.advanceRegister pid peer token stage)
  | heartbeatAdvanced {pid token stage} (hh : s.handlers pid = some (.heartbeat token stage)) :
      Moved ttl s (.advance pid) (s.advanceHeartbeat pid token stage)
  | fired {token} (hmem : token ∈ s.timers) :
      Moved ttl s (.fire token)
        { s with
          timers := s.timers.erase token
          sessions := s.sessions.deleteSession token }
  | cleaned {order} :
      Moved ttl s (.cleanupExpired order)
        { s with sessions := s.sessions.cleanupExpired s.clock order }
  | connectionSet {peer connected} :
      Moved ttl s (.setConnected peer connected)
        { s with connected := update s.connected peer connected }
  | ticked {d} : Moved ttl s (.tick d) { s with clock := s.clock + d }

theorem step_moved {ttl : ℕ} {s t : Agents Peer Token} {a : AgentAct Peer Token}
    (h : s.step ttl a = some t) : Moved ttl s a t := by
  cases a with
  | createSession =>
    dsimp only [step] at h
    split_ifs at h with hnew
    cases h
    exact .sessionCreated hnew.1
  | receiveRegister =>
    dsimp only [step, receive] at h
    split at h
    · next hfree =>
      cases h
      exact .registerReceived hfree
    · cases h
  | receiveHeartbeat =>
    dsimp only [step, receive] at h
    split at h
    · next hfree =>
      cases h
      exact .heartbeatReceived hfree
    · cases h
  | advance =>
    obtain ⟨handler, hh, rfl⟩ := map_eq_some_iff.mp h
    cases handler with
    | register => exact .registerAdvanced hh
    | heartbeat => exact .heartbeatAdvanced hh
  | fire =>
    dsimp only [step] at h
    split_ifs at h with hmem
    cases h
    exact .fired hmem
  | cleanupExpired =>
    dsimp only [step] at h
    split_ifs at h
    cases h
    exact .cleaned
  | setConnected =>
    cases h
    exact .connectionSet
  | tick =>
    cases h
    exact .ticked

structure Start (s : Agents Peer Token) : Prop where
  registry : s.registry = AgentRegistry.new
  sessions : s.sessions = SessionManager.new
  timers : s.timers = []
  handlers : s.handlers = fun _ => none

end Agents

def registrations (Peer Token : Type) [LinearOrder Peer] [DecidableEq Token] (ttl : ℕ) :
    Machine (Agents Peer Token) (AgentAct Peer Token) where
  Init := Agents.Start
  step := Agents.step ttl

/-- A registration links a session that no peer has been linked to. -/
def OwnSession (s : Agents Peer Token) : AgentAct Peer Token → Prop
  | .advance pid =>
    match s.handlers pid with
    | some (.register _ token (.validated _)) => s.sessions.peerIDs.lookup token = none
    | _ => True
  | _ => True

instance (s : Agents Peer Token) (a : AgentAct Peer Token) : Decidable (OwnSession s a) := by
  unfold OwnSession
  split
  · split <;> infer_instance
  · infer_instance

/-! ### The succession of tokens -/

namespace Handler

/-- The token of a registration that has linked its session and not installed its agent. -/
def pending : Handler Peer Token → Option Token
  | .register _ token (.linked _) => some token
  | .register _ token (.captured _ _) => some token
  | _ => none

/-- The token that it has captured, until then. -/
def seen : Handler Peer Token → Option (Peer × Token)
  | .register peer _ (.captured _ oldToken) => oldToken.map fun o => (peer, o)
  | _ => none

/-- The token that it has captured, from then on. -/
def replaced : Handler Peer Token → Option Token
  | .register _ _ (.installed oldToken _) => oldToken
  | .register _ _ (.bootstrapped oldToken _) => oldToken
  | _ => none

end Handler

def Agents.view (s : Agents Peer Token) : Succession ℕ Peer Token where
  taken := {token | (s.sessions.peerIDs.lookup token).isSome}
  pending := fun pid => (s.handlers pid).bind Handler.pending
  seen := fun pid => (s.handlers pid).bind Handler.seen
  replaced := fun pid => (s.handlers pid).bind Handler.replaced
  current := fun id => (s.registry.get id).map AgentObj.token
  retired := {token | token ∈ s.timers}

section Succession

variable {s t : Agents Peer Token} {pid : ℕ} {peer : Peer} {token : Token} {ι β γ : Type*} {ttl : ℕ}

theorem bind_update [DecidableEq ι] (f : ι → Option β) (i : ι) (v : Option β) (g : β → Option γ) :
    (fun j => (update f i v j).bind g) = update (fun j => (f j).bind g) i (v.bind g) := by
  funext j
  rw [update_apply, update_apply]
  split_ifs <;> rfl

theorem update_bind_eq_self [DecidableEq ι] {f : ι → Option β} {i : ι} {b : β} (hf : f i = some b)
    (g : β → Option γ) :
    update (fun j => (f j).bind g) i (g b) = fun j => (f j).bind g := by
  refine update_eq_self_iff.mpr ?_
  rw [hf]
  rfl

theorem succession_setHandler (s : Agents Peer Token) (pid : ℕ) (h : Option (Handler Peer Token)) :
    (s.setHandler pid h).view =
      { s.view with
        pending := update s.view.pending pid (h.bind Handler.pending)
        seen := update s.view.seen pid (h.bind Handler.seen)
        replaced := update s.view.replaced pid (h.bind Handler.replaced) } := by
  unfold Agents.setHandler Agents.view
  rw [bind_update, bind_update, bind_update]

theorem succession_setHandler_of_eq {h h' : Option (Handler Peer Token)}
    (hh : s.handlers pid = h') (hpending : h.bind Handler.pending = h'.bind Handler.pending)
    (hseen : h.bind Handler.seen = h'.bind Handler.seen)
    (hreplaced : h.bind Handler.replaced = h'.bind Handler.replaced) :
    (s.setHandler pid h).view = s.view := by
  subst hh
  rw [succession_setHandler, hpending, hseen, hreplaced]
  change { s.view with
    pending := update s.view.pending pid (s.view.pending pid)
    seen := update s.view.seen pid (s.view.seen pid)
    replaced := update s.view.replaced pid (s.view.replaced pid) } = s.view
  rw [update_eq_self, update_eq_self, update_eq_self]

variable {m : SessionManager Token Peer} {session : Session} {oldToken : Option Token}
  {a : AgentObj Peer Token}

theorem succession_sessions (hpeers : m.peerIDs = s.sessions.peerIDs) :
    Agents.view { s with sessions := m } = s.view := by
  unfold Agents.view
  rw [hpeers]

theorem succession_link (hh : s.handlers pid = some (.register peer token (.validated session)))
    (hm : m.peerIDs = s.sessions.peerIDs.insert token peer) :
    (Agents.setHandler { s with sessions := m } pid
        (some (.register peer token (.linked session)))).view =
      { s.view with
        taken := insert token s.view.taken
        pending := update s.view.pending pid (some token) } := by
  have hseen : update s.view.seen pid none = s.view.seen :=
    update_bind_eq_self hh Handler.seen
  have hreplaced : update s.view.replaced pid none = s.view.replaced :=
    update_bind_eq_self hh Handler.replaced
  have htaken : {t | (m.peerIDs.lookup t).isSome} = insert token s.view.taken := by
    -- the linked tokens are those that were linked before, and this one
    ext t
    show (m.peerIDs.lookup t).isSome ↔ t = token ∨ (s.sessions.peerIDs.lookup t).isSome
    rw [hm]
    by_cases ht : t = token
    · rw [ht, lookup_insert]
      exact iff_of_true rfl (.inl rfl)
    · rw [lookup_insert_of_ne _ ht, or_iff_right ht]
  rw [succession_setHandler]
  change (⟨{t | (m.peerIDs.lookup t).isSome}, update s.view.pending pid (some token),
    update s.view.seen pid none, update s.view.replaced pid none, s.view.current,
    s.view.retired⟩ : Succession ℕ Peer Token) = _
  rw [htaken, hseen, hreplaced]

theorem succession_capture (hh : s.handlers pid = some (.register peer token (.linked session))) :
    (s.setHandler pid (some (.register peer token
        (.captured session ((s.registry.get peer).map AgentObj.token))))).view =
      { s.view with
        seen :=
          update s.view.seen pid ((s.view.current peer).map fun o => (peer, o)) } := by
  have hpending : update s.view.pending pid (some token) = s.view.pending :=
    update_bind_eq_self hh Handler.pending
  have hreplaced : update s.view.replaced pid none = s.view.replaced :=
    update_bind_eq_self hh Handler.replaced
  rw [succession_setHandler]
  change (⟨s.view.taken, update s.view.pending pid (some token),
    update s.view.seen pid ((s.view.current peer).map fun o => (peer, o)),
    update s.view.replaced pid none, s.view.current, s.view.retired⟩ :
      Succession ℕ Peer Token) = _
  rw [hpending, hreplaced]

theorem current_installAgent (s : Agents Peer Token) (a : AgentObj Peer Token) :
    (s.installAgent a).view.current = update s.view.current a.peer (some a.token) := by
  funext id
  change ((s.registry.register (agentFields Peer Token) a).byID.lookup id).map AgentObj.token = _
  rw [lookup_register_byID, update_apply]
  change (if id = a.peer then some a else s.registry.byID.lookup id).map AgentObj.token = _
  split_ifs <;> rfl

/-- What the handler has captured is, from here on, what it has replaced. -/
theorem succession_install
    (hh : s.handlers pid = some (.register peer token (.captured session oldToken)))
    (hpeer : a.peer = peer) (htoken : a.token = token) :
    ((s.installAgent a).setHandler pid
        (some (.register peer token (.installed oldToken a)))).view =
      { s.view with
        pending := update s.view.pending pid none
        seen := update s.view.seen pid none
        replaced := update s.view.replaced pid ((s.view.seen pid).map Prod.snd)
        current := update s.view.current peer (some token) } := by
  have hseen : (s.view.seen pid).map Prod.snd = oldToken := by
    -- the handler has captured the old token under its own peer
    change ((s.handlers pid).bind Handler.seen).map Prod.snd = oldToken
    rw [hh]
    change (oldToken.map fun o => (peer, o)).map Prod.snd = oldToken
    rw [map_map]
    exact map_id'
  rw [succession_setHandler, hseen]
  change (⟨s.view.taken, update s.view.pending pid none,
    update s.view.seen pid none, update s.view.replaced pid oldToken,
    (s.installAgent a).view.current, s.view.retired⟩ : Succession ℕ Peer Token) = _
  rw [current_installAgent, hpeer, htoken]

theorem succession_schedule
    (hh : s.handlers pid = some (.register peer token (.bootstrapped oldToken a))) :
    (Agents.setHandler { s with timers := oldToken.toList ++ s.timers } pid none).view =
      { s.view with
        retired := s.view.retired ∪ {o | s.view.replaced pid = some o}
        replaced := update s.view.replaced pid none } := by
  have hpending : update s.view.pending pid none = s.view.pending :=
    update_bind_eq_self hh Handler.pending
  have hseen : update s.view.seen pid none = s.view.seen :=
    update_bind_eq_self hh Handler.seen
  have hretired : {t | t ∈ oldToken.toList ++ s.timers} =
      s.view.retired ∪ {o | s.view.replaced pid = some o} := by
    -- the old token joins the tokens that the timers will delete
    have hreplaced : s.view.replaced pid = oldToken := by
      change (s.handlers pid).bind Handler.replaced = oldToken
      rw [hh]
      rfl
    ext t
    show t ∈ oldToken.toList ++ s.timers ↔ t ∈ s.timers ∨ s.view.replaced pid = some t
    rw [List.mem_append, mem_toList, or_comm, hreplaced]
  rw [succession_setHandler]
  change (⟨s.view.taken, update s.view.pending pid none,
    update s.view.seen pid none, update s.view.replaced pid none, s.view.current,
    {t | t ∈ oldToken.toList ++ s.timers}⟩ : Succession ℕ Peer Token) = _
  rw [hretired, hpending, hseen]

theorem succession_advanceRegister {stage : RegisterStage Peer Token}
    (hh : s.handlers pid = some (.register peer token stage)) (hown : OwnSession s (.advance pid)) :
    (s.advanceRegister pid peer token stage).view = s.view ∨
      Succession.Step s.view (s.advanceRegister pid peer token stage).view := by
  cases stage with
  | received =>
    left
    refine (succession_setHandler_of_eq
      (s := { s with sessions := (s.sessions.validateSession s.clock token).2 }) hh ?_ ?_ ?_).trans
      (succession_sessions (peerIDs_validateSession ..))
    -- refused or not, the handler holds no token yet
    all_goals cases (s.sessions.validateSession s.clock token).1 <;> rfl
  | validated session =>
    unfold Agents.advanceRegister
    cases hlink : s.sessions.linkPeerID s.clock token peer with
    | none => exact .inl (succession_setHandler_of_eq hh rfl rfl rfl)
    | some =>
      -- The session is not linked yet, and so its token is new.
      have hfree : s.sessions.peerIDs.lookup token = none := by
        dsimp only [OwnSession] at hown
        rw [hh] at hown
        exact hown
      obtain ⟨-, -, ⟨-, hm⟩ | ⟨hbound, -⟩⟩ := linkPeerID_eq_some hlink
      · right
        rw [succession_link hh hm]
        refine .take pid fun htaken => ?_
        change (s.sessions.peerIDs.lookup token).isSome at htaken
        rw [hfree] at htaken
        cases htaken
      · rw [hfree] at hbound
        cases hbound
  | linked =>
    right
    unfold Agents.advanceRegister
    rw [succession_capture hh]
    exact .see pid peer
  | captured =>
    right
    unfold Agents.advanceRegister
    rw [succession_install hh rfl rfl]
    refine .install peer ?_ ?_
    · change (s.handlers pid).bind Handler.pending = some token
      rw [hh]
      rfl
    · -- what it has seen is the entry of its own peer
      intro id o hseen
      change (s.handlers pid).bind Handler.seen = some (id, o) at hseen
      rw [hh] at hseen
      obtain ⟨o', -, heq⟩ := map_eq_some_iff.mp hseen
      cases heq
      rfl
  | installed =>
    -- `Bootstrap` writes the counters, which the succession does not read
    exact .inl (succession_setHandler_of_eq hh rfl rfl rfl)
  | bootstrapped =>
    right
    unfold Agents.advanceRegister
    rw [succession_schedule hh]
    exact .retire pid

theorem succession_advanceHeartbeat {stage : HeartbeatStage Peer Token}
    (hh : s.handlers pid = some (.heartbeat token stage)) :
    (s.advanceHeartbeat pid token stage).view = s.view := by
  cases stage with
  | received =>
    refine (succession_setHandler_of_eq
      (s := { s with sessions := (s.sessions.validateSession s.clock token).2 }) hh ?_ ?_ ?_).trans
      (succession_sessions (peerIDs_validateSession ..))
    all_goals cases (s.sessions.validateSession s.clock token).1 <;> rfl
  | validated =>
    refine succession_setHandler_of_eq hh ?_ ?_ ?_
    all_goals cases (s.sessions.peerIDs.lookup token).bind s.registry.get <;> rfl
  | found =>
    unfold Agents.advanceHeartbeat
    dsimp only
    split_ifs
    all_goals exact succession_setHandler_of_eq hh rfl rfl rfl

/-- **A step of the router is a step of the succession**, or none, where a registration links a
session of its own. -/
theorem succession_step {a : AgentAct Peer Token} (hown : OwnSession s a)
    (hstep : s.step ttl a = some t) :
    t.view = s.view ∨ Succession.Step s.view t.view := by
  cases Agents.step_moved hstep with
  | registerReceived hfree
  | heartbeatReceived hfree => exact .inl (succession_setHandler_of_eq hfree rfl rfl rfl)
  | registerAdvanced hh => exact succession_advanceRegister hh hown
  | heartbeatAdvanced hh => exact .inl (succession_advanceHeartbeat hh)
  | fired => exact .inr (.dispose fun o ho => List.mem_of_mem_erase ho)
  | cleaned => exact .inl (succession_sessions (peerIDs_cleanupExpired ..))
  -- a new session is linked to no peer
  | sessionCreated | connectionSet | ticked => exact .inl rfl

theorem orderly_start (h : s.Start) : s.view.Orderly := by
  refine .of_empty ?_ ?_ ?_
  · -- no handler is running, no agent is registered and no timer is set
    intro pid
    change (s.handlers pid).bind _ = none
    rw [h.handlers]
    rfl
  · intro id
    change (s.registry.byID.lookup id).map _ = none
    rw [h.registry]
    rfl
  · rintro o (⟨pid, x, hseen⟩ | ⟨pid, hreplaced⟩ | hretired)
    · change (s.handlers pid).bind _ = _ at hseen
      rw [h.handlers] at hseen
      cases hseen
    · change (s.handlers pid).bind _ = _ at hreplaced
      rw [h.handlers] at hreplaced
      cases hreplaced
    · change o ∈ s.timers at hretired
      rw [h.timers] at hretired
      cases hretired

theorem orderly_step {a : AgentAct Peer Token} (h : s.view.Orderly) (hown : OwnSession s a)
    (hstep : s.step ttl a = some t) : t.view.Orderly := by
  rcases succession_step hown hstep with heq | hstep
  · rw [heq]
    exact h
  · exact hstep.orderly h

end Succession

/-! ### The sessions of the agents -/

/-- What a handler can rely on. Between its validation and its link the session may be deleted, but
then it has been linked by another registration. -/
def Handler.Kept (s : Agents Peer Token) : Handler Peer Token → Prop
  | .register _ token (.validated session) =>
    s.sessions.Held s.clock token session ∨ (s.sessions.peerIDs.lookup token).isSome
  | .register peer token (.linked session) =>
    s.sessions.Held s.clock token session ∧ s.sessions.peerIDs.lookup token = some peer
  | .register peer token (.captured session _) =>
    s.sessions.Held s.clock token session ∧ s.sessions.peerIDs.lookup token = some peer
  | _ => True

/-- The session of a registered agent is there, or has expired, and it is linked to the peer. -/
def AgentObj.Kept (s : Agents Peer Token) (id : Peer) (a : AgentObj Peer Token) : Prop :=
  a.peer = id ∧ s.sessions.Held s.clock a.token a.session ∧
    s.sessions.peerIDs.lookup a.token = some id

/-- This holds of all handlers, and of all agents except those of the given peers. -/
structure Agents.Kept (s : Agents Peer Token) (except : Set Peer) : Prop where
  handlers : ∀ {pid h}, s.handlers pid = some h → h.Kept s
  registry : ∀ {id a}, id ∉ except → s.registry.get id = some a → a.Kept s id

section Kept

variable {s t : Agents Peer Token} {except : Set Peer} {pid : ℕ} {h : Option (Handler Peer Token)}

theorem current_of_get {id : Peer} {a : AgentObj Peer Token} (ha : s.registry.get id = some a) :
    s.view.current id = some a.token := by
  change (s.registry.get id).map AgentObj.token = some a.token
  rw [ha]
  rfl

/-- A handler that makes no call keeps what it relies on: only a spare token is deleted. -/
theorem Handler.Kept.frame (peers : Set Peer) {h : Handler Peer Token} (hkept : h.Kept s)
    (hh : s.handlers pid = some h)
    (hheld : ∀ token session, s.sessions.Held s.clock token session →
      t.sessions.Held t.clock token session ∨ s.view.Spare peers token)
    (hpeers : ∀ token peer, s.sessions.peerIDs.lookup token = some peer →
      t.sessions.peerIDs.lookup token = some peer) :
    h.Kept t := by
  -- a registration that is under way still needs its token, which is then not spare
  have hpending : ∀ {token}, h.pending = some token → ¬s.view.Spare peers token := by
    intro token htoken hspare
    refine hspare.pending pid ?_
    change (s.handlers pid).bind Handler.pending = some token
    rw [hh]
    exact htoken
  have hlinked : ∀ {token}, (s.sessions.peerIDs.lookup token).isSome →
      (t.sessions.peerIDs.lookup token).isSome := by
    intro token hsome
    obtain ⟨peer, hpeer⟩ := isSome_iff_exists.mp hsome
    rw [hpeers token peer hpeer]
    rfl
  cases h with
  | heartbeat => trivial
  | register peer token stage =>
    cases stage with
    | validated session =>
      -- if the session is deleted here, the token was spare, and so linked by someone
      rcases hkept with hkept | hkept
      · exact (hheld token session hkept).imp_right fun hspare => hlinked hspare.taken
      · exact .inr (hlinked hkept)
    | linked session | captured session oldToken =>
      exact ⟨(hheld token session hkept.1).resolve_right (hpending rfl), hpeers token peer hkept.2⟩
    | received | installed | bootstrapped => trivial

/-- **The frame of a step**: what it must show is what it writes itself. -/
theorem Agents.Kept.frame {except' : Set Peer} (hkept : s.Kept except) (hsub : except ⊆ except')
    (hheld : ∀ token session, s.sessions.Held s.clock token session →
      t.sessions.Held t.clock token session ∨ s.view.Spare except' token)
    (hpeers : ∀ token peer, s.sessions.peerIDs.lookup token = some peer →
      t.sessions.peerIDs.lookup token = some peer)
    (hhandlers : ∀ pid h, t.handlers pid = some h → s.handlers pid = some h ∨ h.Kept t)
    (hregistry : ∀ id a, t.registry.get id = some a → s.registry.get id = some a ∨ a.Kept t id) :
    t.Kept except' where
  handlers := by
    intro pid h hh
    rcases hhandlers pid h hh with hold | hnew
    · exact (hkept.handlers hold).frame except' hold hheld hpeers
    · exact hnew
  registry := by
    intro id a hid ha
    rcases hregistry id a ha with hold | hnew
    · obtain ⟨hpeer, hsession, hlinked⟩ := hkept.registry (fun h => hid (hsub h)) hold
      refine ⟨hpeer, (hheld a.token a.session hsession).resolve_right fun hspare => ?_,
        hpeers a.token id hlinked⟩
      -- the token of a registered agent is spare for no one but the peers left out
      exact hspare.current id hid (current_of_get hold)
    · exact hnew

omit [LinearOrder Peer] [DecidableEq Token] in
theorem Agents.handlers_setHandler {q : ℕ} {k : Handler Peer Token}
    (hk : (s.setHandler pid h).handlers q = some k) :
    s.handlers q = some k ∨ h = some k := by
  rcases Succession.of_update_eq_some hk with ⟨-, hk⟩ | ⟨-, hk⟩
  · exact .inr hk
  · exact .inl hk

/-- One handler goes on, and what the others rely on stays. -/
theorem Agents.Kept.move (hkept : s.Kept except) (hsessions : t.sessions = s.sessions)
    (hclock : t.clock = s.clock) (hregistry : t.registry = s.registry)
    (hhandlers : t.handlers = (s.setHandler pid h).handlers) (hh : ∀ k, h = some k → k.Kept t) :
    t.Kept except := by
  refine hkept.frame subset_rfl (fun _ _ hheld => .inl ?_) (fun _ _ hpeer => ?_)
    (fun q k hk => ?_) fun _ _ ha => .inl ?_
  · rw [hsessions, hclock]
    exact hheld
  · rw [hsessions]
    exact hpeer
  · rw [hhandlers] at hk
    exact (Agents.handlers_setHandler hk).imp_right (hh k)
  · rw [← hregistry]
    exact ha

variable {token : Token}

theorem kept_advanceRegister (hkept : s.Kept except) {peer : Peer}
    {stage : RegisterStage Peer Token} (hh : s.handlers pid = some (.register peer token stage))
    (hown : OwnSession s (.advance pid)) :
    (s.advanceRegister pid peer token stage).Kept except := by
  have hhandler : Handler.Kept s (.register peer token stage) := hkept.handlers hh
  cases stage with
  | received =>
    refine hkept.frame subset_rfl (fun _ _ h => .inl (h.validateSession token)) ?_ ?_
      (fun _ _ h => .inl h)
    · intro token' peer' hpeer
      exact (congrArg _ (peerIDs_validateSession ..)).trans hpeer
    · intro q k hk
      refine (Agents.handlers_setHandler hk).imp_right fun hk => ?_
      -- what `ValidateSession` returns is what it has read
      obtain ⟨session, hvalid, rfl⟩ := map_eq_some_iff.mp hk
      obtain ⟨hlookup, hsame⟩ := validateSession_eq_some hvalid
      refine .inl (.inl ?_)
      change (s.sessions.validateSession s.clock token).2.sessions.lookup token = some session
      rw [hsame]
      exact hlookup
  | validated session =>
    -- the session is linked here for the first time
    have hfree : s.sessions.peerIDs.lookup token = none := by
      dsimp only [OwnSession] at hown
      rw [hh] at hown
      exact hown
    unfold Agents.advanceRegister
    cases hlink : s.sessions.linkPeerID s.clock token peer with
    | none => exact hkept.move rfl rfl rfl rfl nofun
    | some m =>
      obtain ⟨-, hsessions, ⟨-, hm⟩ | ⟨hbound, -⟩⟩ := linkPeerID_eq_some hlink
      · have hheld : ∀ token' session', s.sessions.Held s.clock token' session' →
            m.Held s.clock token' session' := by
          intro token' session' h
          exact h.imp_left fun hlookup => (congrArg _ hsessions).trans hlookup
        refine hkept.frame subset_rfl (fun _ _ h => .inl (hheld _ _ h)) ?_ ?_ (fun _ _ h => .inl h)
        · -- no other link is overwritten
          intro token' peer' hpeer
          change m.peerIDs.lookup token' = some peer'
          rw [hm, lookup_insert_of_ne _ ?_]
          · exact hpeer
          · rintro rfl
            rw [hfree] at hpeer
            cases hpeer
        · intro q k hk
          refine (Agents.handlers_setHandler hk).imp_right fun hk => ?_
          cases hk
          refine ⟨hheld _ _ (hhandler.resolve_right ?_), ?_⟩
          · rw [hfree]
            exact Bool.false_ne_true
          · change m.peerIDs.lookup token = some peer
            rw [hm]
            exact lookup_insert _
      · rw [hfree] at hbound
        cases hbound
  | linked =>
    refine hkept.move rfl rfl rfl rfl fun k hk => ?_
    cases hk
    exact hhandler
  | captured =>
    refine hkept.frame subset_rfl (fun _ _ h => .inl h) (fun _ _ h => h) ?_ ?_
    · intro q k hk
      refine (Agents.handlers_setHandler (s := s.installAgent _) hk).imp_right fun hk => ?_
      cases hk
      trivial
    · intro id a ha
      -- the agent takes over what the handler has relied on
      change (s.registry.register (agentFields Peer Token) _).byID.lookup id = some a at ha
      rw [lookup_register_byID] at ha
      split at ha
      · next hid =>
        cases ha
        exact .inr ⟨hid.symm, hhandler.1, hid ▸ hhandler.2⟩
      · exact .inl ha
  | installed =>
    refine hkept.move rfl rfl rfl rfl fun k hk => ?_
    cases hk
    trivial
  | bootstrapped => exact hkept.move rfl rfl rfl rfl nofun

theorem kept_advanceHeartbeat (hkept : s.Kept except) {stage : HeartbeatStage Peer Token} :
    (s.advanceHeartbeat pid token stage).Kept except := by
  cases stage with
  | received =>
    refine hkept.frame subset_rfl (fun _ _ h => .inl (h.validateSession token)) ?_ ?_
      (fun _ _ h => .inl h)
    · intro token' peer' hpeer
      exact (congrArg _ (peerIDs_validateSession ..)).trans hpeer
    · intro q k hk
      refine (Agents.handlers_setHandler hk).imp_right fun hk => ?_
      obtain ⟨session, -, rfl⟩ := map_eq_some_iff.mp hk
      trivial
  | validated =>
    refine hkept.move rfl rfl rfl rfl fun k hk => ?_
    obtain ⟨a, -, rfl⟩ := map_eq_some_iff.mp hk
    trivial
  | found =>
    unfold Agents.advanceHeartbeat
    dsimp only
    split_ifs
    all_goals exact hkept.move rfl rfl rfl rfl nofun

theorem kept_step {ttl : ℕ} (hkept : s.Kept except) (hord : s.view.Orderly)
    {a : AgentAct Peer Token}
    (hown : OwnSession s a) (hstep : s.step ttl a = some t) : t.Kept except := by
  cases Agents.step_moved hstep with
  | @sessionCreated token model hnew =>
    exact hkept.frame subset_rfl (fun _ _ h => .inl (h.createSession hnew ttl model))
      (fun _ _ h => h) (fun _ _ h => .inl h) (fun _ _ h => .inl h)
  | registerReceived | heartbeatReceived =>
    refine hkept.move rfl rfl rfl rfl fun k hk => ?_
    cases hk
    trivial
  | registerAdvanced hh => exact kept_advanceRegister hkept hh hown
  | heartbeatAdvanced => exact kept_advanceHeartbeat hkept
  | @fired token hmem =>
    -- a timer deletes a retired token, which is nobody's
    refine hkept.frame subset_rfl ?_ (fun _ _ h => h) (fun _ _ h => .inl h) (fun _ _ h => .inl h)
    intro token' session h
    by_cases hne : token' = token
    · exact .inr (hord.spare_of_retired except (hne ▸ hmem))
    · exact .inl (h.deleteSession hne)
  | @cleaned order =>
    refine hkept.frame subset_rfl (fun _ _ h => .inl (h.cleanupExpired order)) ?_
      (fun _ _ h => .inl h) (fun _ _ h => .inl h)
    intro token peer hpeer
    exact (congrArg _ (peerIDs_cleanupExpired ..)).trans hpeer
  | connectionSet =>
    exact hkept.frame subset_rfl (fun _ _ h => .inl h) (fun _ _ h => h) (fun _ _ h => .inl h)
      (fun _ _ h => .inl h)
  | @ticked d =>
    exact hkept.frame subset_rfl (fun _ _ h => .inl (h.later (Nat.le_add_right _ d)))
      (fun _ _ h => h) (fun _ _ h => .inl h) (fun _ _ h => .inl h)

theorem kept_start (h : s.Start) : s.Kept except where
  handlers hh := by
    rw [h.handlers] at hh
    cases hh
  registry _ ha := by
    rw [h.registry] at ha
    cases ha

end Kept

/-! ### Continuity -/

section Continuity

variable {s t : Agents Peer Token} {ttl : ℕ}

def heartbeatActs (pid : ℕ) (token : Token) : List (AgentAct Peer Token) :=
  [.receiveHeartbeat pid token, .advance pid, .advance pid, .advance pid]

theorem advance_setHandler (s : Agents Peer Token) (pid : ℕ) (token : Token)
    (stage : HeartbeatStage Peer Token) :
    (s.setHandler pid (some (.heartbeat token stage))).advance pid =
      some ((s.setHandler pid (some (.heartbeat token stage))).advanceHeartbeat pid token
        stage) := by
  unfold Agents.advance
  rw [show (s.setHandler pid (some (.heartbeat token stage))).handlers pid = _ from update_self ..]
  rfl

omit [LinearOrder Peer] [DecidableEq Token] in
theorem setHandler_setHandler (s : Agents Peer Token) (pid : ℕ)
    (h h' : Option (Handler Peer Token)) :
    (s.setHandler pid h).setHandler pid h' = s.setHandler pid h' := by
  unfold Agents.setHandler
  dsimp only
  rw [update_idem]

theorem run_heartbeatActs {id : Peer} {a : AgentObj Peer Token} {pid : ℕ}
    (ha : s.registry.get id = some a) (hkept : a.Kept s id)
    (hvalid : a.session.isExpired s.clock = false) (hconnected : s.connected id = true)
    (hfree : s.handlers pid = none) :
    ∃ t, (registrations Peer Token ttl).run s (heartbeatActs pid a.token) = some t ∧
      t.lastSeen a.ref = s.clock := by
  obtain ⟨hpeer, hheld, hlinked⟩ := hkept
  have hlookup : s.sessions.sessions.lookup a.token = some a.session :=
    hheld.resolve_right (of_decide_eq_false hvalid)
  have hreceive : s.step ttl (.receiveHeartbeat pid a.token) =
      some (s.setHandler pid (some (.heartbeat a.token .received))) := by
    dsimp only [Agents.step, Agents.receive]
    rw [hfree]
  -- The session is valid, and so the call changes the stage only.
  have hvalidate :
      (s.setHandler pid (some (.heartbeat a.token .received))).step ttl (.advance pid) =
      some (s.setHandler pid (some (.heartbeat a.token .validated))) := by
    refine (advance_setHandler s pid a.token .received).trans (congrArg some ?_)
    change Agents.setHandler { s.setHandler pid _ with
      sessions := (s.sessions.validateSession s.clock a.token).2 } pid
        ((s.sessions.validateSession s.clock a.token).1.map fun _ =>
          .heartbeat a.token .validated) = _
    rw [validateSession_of_valid hlookup hvalid]
    exact setHandler_setHandler s pid _ (some (.heartbeat a.token .validated))
  have hget : (s.setHandler pid (some (.heartbeat a.token .validated))).step ttl (.advance pid) =
      some (s.setHandler pid (some (.heartbeat a.token (.found a)))) := by
    refine (advance_setHandler s pid a.token .validated).trans (congrArg some ?_)
    change (s.setHandler pid _).setHandler pid
      (((s.sessions.peerIDs.lookup a.token).bind s.registry.get).map fun a' =>
        .heartbeat a.token (.found a')) = _
    rw [hlinked, bind_some, ha]
    exact setHandler_setHandler ..
  have hrefresh : ∃ t, (s.setHandler pid (some (.heartbeat a.token (.found a)))).step ttl
      (.advance pid) = some t ∧ t.lastSeen a.ref = s.clock := by
    refine ⟨_, advance_setHandler s pid a.token (.found a), ?_⟩
    change ((if s.connected a.peer then { s.setHandler pid _ with
      lastSeen := update s.lastSeen a.ref s.clock } else s.setHandler pid _).setHandler pid
        none).lastSeen a.ref = s.clock
    rw [hpeer, hconnected, if_pos rfl]
    exact update_self ..
  obtain ⟨t, hlast, hseen⟩ := hrefresh
  refine ⟨t, ?_, hseen⟩
  calc (registrations Peer Token ttl).run s (heartbeatActs pid a.token)
      = (registrations Peer Token ttl).run (s.setHandler pid (some (.heartbeat a.token .received)))
          [.advance pid, .advance pid, .advance pid] := run_cons_of_step hreceive _
    _ = (registrations Peer Token ttl).run (s.setHandler pid (some (.heartbeat a.token .validated)))
          [.advance pid, .advance pid] := run_cons_of_step hvalidate _
    _ = (registrations Peer Token ttl).run (s.setHandler pid (some (.heartbeat a.token (.found a))))
          [.advance pid] := run_cons_of_step hget _
    _ = some t := run_cons_of_step hlast _

/-- No scheduled deletion is that of the token of a registered agent, and a registered agent with a
connection can heartbeat until its session expires. -/
structure Continuity (ttl : ℕ) (s : Agents Peer Token) : Prop where
  scheduled : ∀ token ∈ s.timers, ∀ id a, s.registry.get id = some a → a.token ≠ token
  heartbeat : ∀ id a, s.registry.get id = some a → a.session.isExpired s.clock = false →
    s.connected id = true → ∀ pid, s.handlers pid = none →
      ∃ t, (registrations Peer Token ttl).run s (heartbeatActs pid a.token) = some t ∧
        t.lastSeen a.ref = s.clock

/-- **Agents that register with a session of their own each time keep their session**, whatever the
order of the calls. -/
theorem continuity_of_own_sessions
    (hreach : (registrations Peer Token ttl).ReachVia OwnSession s) : Continuity ttl s := by
  have hinv : s.view.Orderly ∧ s.Kept ∅ := by
    refine hreach.induction (I := fun s => s.view.Orderly ∧ s.Kept ∅) ?_ ?_
    · intro s hstart
      exact ⟨orderly_start hstart, kept_start hstart⟩
    · rintro s a t ⟨hord, hkept⟩ hown hstep
      exact ⟨orderly_step hord hown hstep, kept_step hkept hord hown hstep⟩
  obtain ⟨hord, hkept⟩ := hinv
  constructor
  · rintro token hmem id a ha rfl
    exact hord.retired_current hmem (current_of_get ha)
  · intro id a ha hvalid hconnected pid hfree
    exact run_heartbeatActs ha (hkept.registry (Set.notMem_empty id) ha) hvalid hconnected hfree

def demoAgents : Agents ℕ ℕ :=
  ⟨AgentRegistry.new, new, fun _ => false, fun _ => true, fun _ => 0, 0, [], fun _ => none, 0⟩

theorem start_demoAgents : demoAgents.Start := ⟨rfl, rfl, rfl, rfl⟩

def registerActs (pid token : ℕ) : List (AgentAct ℕ ℕ) :=
  .receiveRegister pid 1 token :: List.replicate 6 (.advance pid)

/-- Two registrations with sessions 7 and 8, of which the second reads the first one's token, and
then the deletion of session 7. -/
def reauthenticateActs : List (AgentAct ℕ ℕ) :=
  [.createSession 7 "m", .createSession 8 "m"] ++ registerActs 0 7 ++ registerActs 1 8 ++ [.fire 7]

theorem continuity_reauthenticated :
    ∃ t ∈ (registrations ℕ ℕ 100).run demoAgents reauthenticateActs,
      (t.registry.get 1).map AgentObj.token = some 8 ∧ Continuity 100 t := by
  refine exists_mem_and (by decide +kernel) fun t hrun _ => continuity_of_own_sessions ?_
  exact ⟨demoAgents, reauthenticateActs, start_demoAgents, by decide +kernel, hrun⟩

/-- **The same session twice**: the second registration schedules the deletion of the token
that it has itself. The agent stays registered, its session has not expired, and it is gone.
-/
theorem same_token_twice : ∃ t ∈ (registrations ℕ ℕ 100).run demoAgents
        ([.createSession 7 "m"] ++ registerActs 0 7 ++ registerActs 1 7),
      (∃ a, t.registry.get 1 = some a ∧ a.token = 7 ∧ a.session.isExpired t.clock = false) ∧
        7 ∈ t.timers ∧ ¬Continuity 100 t ∧
        ∃ u ∈ (registrations ℕ ℕ 100).step t (.fire 7), u.registry = t.registry ∧
          (u.sessions.validateSession u.clock 7).1 = none := by
  -- the registry after the timer is not decidable as a whole, and is read off the step below
  refine exists_mem_imp (fun t =>
    (∃ a ∈ t.registry.get 1, a.token = 7 ∧ a.session.isExpired t.clock = false) ∧ 7 ∈ t.timers ∧
      ∃ u ∈ (registrations ℕ ℕ 100).step t (.fire 7),
        (u.sessions.validateSession u.clock 7).1 = none) (by decide +kernel) ?_
  rintro t - ⟨⟨a, hget, htoken, hvalid⟩, hmem, u, hstep, hgone⟩
  refine ⟨⟨a, hget, htoken, hvalid⟩, hmem, ?_, u, hstep, ?_, hgone⟩
  · intro hcontinuity
    exact hcontinuity.scheduled 7 hmem 1 a hget htoken
  · change (if 7 ∈ t.timers then some _ else none) = some u at hstep
    rw [if_pos hmem] at hstep
    cases hstep
    rfl

end Continuity

end HivenetRouter.Router
