import HivenetRouter.Auth.Loader
import HivenetRouter.Router.Dispatch

/-!
# The per-model request quota

`QuotaMiddleware` lets a request through when `AllowRequest` allows it. For a key with
per-model quotas the rate is the one of its model times the number of healthy replicas; with
no replica the quota is skipped, since the request is expected to fail in routing.

The machine `inference` has requests from the middleware up to the answer: the count of the
replicas, the call of the limiter, what lets the request through or refuses it afterwards, and
the dispatch. The fleet changes in between. What the rate limiter says is in the action.

A request that was let through without replicas is served all the same if an agent registers
before the dispatch, or if its policy has a fallback provider: neither has been counted
against the rate (`served_without_quota`). Where a replica is healthy whenever the middleware
counts, every request that is served has been allowed by the limiter (`metered_of_live`).
-/

namespace HivenetRouter.Api

open List Option

open Auth (AuthResult PerModelQuotaLimits QuotaLimits)
open Policy (FallbackProvider ResolvedStep resolve)
open Router (AgentRef Dispatch DispatchAct Fleet FleetAct Server)
open Function

/-! ### The middleware -/

def resolvePerModel (q : QuotaLimits) (model : String) : Option PerModelQuotaLimits :=
  q.perModel.bind fun perModel => perModel.lookup model

/-- `effectivePerModelRPM`: the rate, and whether the quota is skipped. -/
def effectivePerModelRPM (entry : PerModelQuotaLimits) (replicas : Option ℕ) : ℤ × Bool :=
  match replicas with
  | none => (entry.requestsPerMinutePerReplica, false)
  | some 0 => (0, true)
  | some n => (wrap64 (entry.requestsPerMinutePerReplica * n), false)

/-- `QuotaReplicas`: at least one replica for a request that may be held while its model wakes. -/
def quotaReplicas (healthy : ℕ) (wakeable : Bool) : ℕ :=
  if 0 < healthy then healthy else if wakeable then 1 else 0

/-- `resolveCaller`. -/
def resolveTenant (tenantID : String) : String := if tenantID = "" then "anonymous" else tenantID

/-- A call of `AllowRequest`, and what it has returned. -/
structure AllowRequest where
  tenantID : String
  model : String
  rpm : ℤ
  allowed : Bool

/-- `AllowRequest`: without a rate there is no bucket; `tokens` is what the bucket says. -/
def allowRequest (tenantID model : String) (rpm : ℤ) (tokens : Bool) : AllowRequest :=
  ⟨tenantID, model, rpm, decide (rpm ≤ 0) || tokens⟩

/-! ### Requests -/

inductive InferenceStage (Peer : Type)
  /-- Before `QuotaMiddleware`. -/
  | arrived
  /-- The rate is known; `AllowRequest` with the model is next. -/
  | rated (model : String) (rpm : ℤ)
  /-- Past the quota, in `WakeHold` or the handler. -/
  | passed
  | queued
  | dispatched (d : Dispatch Peer)
  | refused

/-- A request on the model that aliases have been resolved to. -/
structure Inference (Peer : Type) where
  caller : AuthResult
  model : String
  capability : String
  calls : List AllowRequest
  stage : InferenceStage Peer

structure InferenceState (Peer : Type) where
  fleet : Fleet Peer
  requests : ℕ → Option (Inference Peer)

inductive RequestAct (Peer : Type)
  /-- The middleware finds the quota and counts the replicas. -/
  | count (wakeable : Bool)
  | allowRequest (tokens : Bool)
  | enqueue
  /-- The request is refused by what comes after the quota, or expires in the queue. -/
  | refuse
  /-- The dispatch starts, with the policy that is in force. -/
  | start (steps : List ResolvedStep) (fallbackProvider : Option FallbackProvider)
  | dispatch (a : DispatchAct Peer)

inductive InferenceAct (Peer : Type)
  | arrive (i : ℕ) (caller : AuthResult) (model capability : String)
  | request (i : ℕ) (a : RequestAct Peer)
  | fleet (a : FleetAct Peer)

variable {Peer : Type} [LinearOrder Peer]

/-- `QuotaMiddleware` up to the call of the limiter. -/
def rate (caller : AuthResult) (model : String) (replicas : ℕ) : InferenceStage Peer :=
  match caller.quotaLimits.perModel with
  | none => .rated "" caller.quotaLimits.requestsPerMinute
  | some _ =>
    match resolvePerModel caller.quotaLimits model with
    | none => .refused
    | some entry =>
      match effectivePerModelRPM entry (some replicas) with
      | (_, true) => .passed
      | (rpm, false) => .rated model rpm

namespace Inference

def tenantID (r : Inference Peer) : String := resolveTenant r.caller.tenantID

def call (r : Inference Peer) (model : String) (rpm : ℤ) (tokens : Bool) : Inference Peer :=
  let c := allowRequest r.tenantID model rpm tokens
  { r with calls := c :: r.calls, stage := if c.allowed then .passed else .refused }

def step (f : Fleet Peer) (r : Inference Peer) :
    RequestAct Peer → Option (Fleet Peer × Inference Peer)
  | .count wakeable =>
    match r.stage with
    | .arrived =>
      let replicas := quotaReplicas (f.countHealthyByModel r.model) wakeable
      some (f, { r with stage := rate r.caller r.model replicas })
    | _ => none
  | .allowRequest tokens =>
    match r.stage with
    | .rated model rpm => some (f, r.call model rpm tokens)
    | _ => none
  | .enqueue =>
    match r.stage with
    | .passed => some (f, { r with stage := .queued })
    | _ => none
  | .refuse =>
    match r.stage with
    | .passed => some (f, { r with stage := .refused })
    | .queued => some (f, { r with stage := .refused })
    | _ => none
  | .start steps fallbackProvider =>
    match r.stage with
    | .queued =>
      some (f, { r with
        stage := .dispatched (Dispatch.new r.model r.capability steps fallbackProvider) })
    | _ => none
  | .dispatch a =>
    match r.stage with
    | .dispatched d => (d.step f a).map fun (f, d) => (f, { r with stage := .dispatched d })
    | _ => none

/-- **What a step can do**, with the stage in which it is taken. -/
inductive Moved (f : Fleet Peer) (r : Inference Peer) :
    RequestAct Peer → Fleet Peer → Inference Peer → Prop where
  | counted {wakeable} (hstage : r.stage = .arrived) :
      Moved f r (.count wakeable) f { r with
        stage := rate r.caller r.model (quotaReplicas (f.countHealthyByModel r.model) wakeable) }
  | called {tokens model rpm} (hstage : r.stage = .rated model rpm) :
      Moved f r (.allowRequest tokens) f (r.call model rpm tokens)
  | enqueued (hstage : r.stage = .passed) : Moved f r .enqueue f { r with stage := .queued }
  | refused : Moved f r .refuse f { r with stage := .refused }
  | started {steps fallbackProvider} (hstage : r.stage = .queued) :
      Moved f r (.start steps fallbackProvider) f { r with
        stage := .dispatched (Dispatch.new r.model r.capability steps fallbackProvider) }
  | dispatching {a d f' d'} (hstage : r.stage = .dispatched d) (hd : d.step f a = some (f', d')) :
      Moved f r (.dispatch a) f' { r with stage := .dispatched d' }

theorem step_moved {f f' : Fleet Peer} {r r' : Inference Peer} {a : RequestAct Peer}
    (h : r.step f a = some (f', r')) : Moved f r a f' r' := by
  cases a with
  | count =>
    dsimp only [step] at h
    split at h
    · next hstage =>
      cases h
      exact .counted hstage
    · cases h
  | allowRequest =>
    dsimp only [step] at h
    split at h
    · next hstage =>
      cases h
      exact .called hstage
    · cases h
  | enqueue =>
    dsimp only [step] at h
    split at h
    · next hstage =>
      cases h
      exact .enqueued hstage
    · cases h
  | refuse =>
    dsimp only [step] at h
    split at h
    · cases h
      exact .refused
    · cases h
      exact .refused
    · cases h
  | start =>
    dsimp only [step] at h
    split at h
    · next hstage =>
      cases h
      exact .started hstage
    · cases h
  | dispatch =>
    dsimp only [step] at h
    split at h
    · next d hstage =>
      obtain ⟨⟨f₁, d₁⟩, hd, heq⟩ := map_eq_some_iff.mp h
      cases heq
      exact .dispatching hstage hd
    · cases h

/-- Who has answered the request. -/
def servedBy (r : Inference Peer) : Option (Server Peer) :=
  match r.stage with
  | .dispatched d => d.servedBy
  | _ => none

end Inference

def InferenceState.step (s : InferenceState Peer) : InferenceAct Peer → Option (InferenceState Peer)
  | .arrive i caller model capability =>
    match s.requests i with
    | none =>
      some { s with
        requests := update s.requests i (some ⟨caller, model, capability, [], .arrived⟩) }
    | some _ => none
  | .request i a =>
    (s.requests i).bind fun r =>
      (r.step s.fleet a).map fun (f, r) => ⟨f, update s.requests i (some r)⟩
  | .fleet a => some { s with fleet := s.fleet.change a }

def inference : Machine (InferenceState Peer) (InferenceAct Peer) where
  Init s := s.requests = fun _ => none
  step := InferenceState.step

/-! ### What is counted -/

namespace Inference

def Limited (r : Inference Peer) : Prop :=
  ∃ entry ∈ resolvePerModel r.caller.quotaLimits r.model, 0 < entry.requestsPerMinutePerReplica

/-- `AllowRequest` has allowed the request, on the bucket of its tenant and model. -/
def Admitted (r : Inference Peer) : Prop :=
  ∃ c ∈ r.calls, c.tenantID = r.tenantID ∧ c.model = r.model ∧ c.allowed = true

end Inference

/-- **Every request that is served has been admitted**, if its key has a rate for its model. -/
def Metered (s : InferenceState Peer) : Prop :=
  ∀ i r, s.requests i = some r → r.servedBy.isSome → r.Limited → r.Admitted

/-- When the middleware counts the replicas of a model that has a rate, there is one, or the
request may be held while the model wakes. -/
def Live (s : InferenceState Peer) : InferenceAct Peer → Prop
  | .request i (.count wakeable) =>
    ∀ r ∈ s.requests i, r.Limited →
      (∃ x ∈ s.fleet.listed r.model, x.agent.healthy = true) ∨ wakeable = true
  | _ => True

namespace InferenceStage

/-- The stages after the quota. -/
def past : InferenceStage Peer → Bool
  | .passed => true
  | .queued => true
  | .dispatched _ => true
  | _ => false

end InferenceStage

/-- A request that has a rate is past the quota only if it has been admitted. -/
structure Inference.OK (r : Inference Peer) : Prop where
  rated : ∀ model rpm, r.stage = .rated model rpm → r.Limited → model = r.model
  past : r.stage.past = true → r.Limited → r.Admitted

section Invariant

variable {f f' : Fleet Peer} {r r' : Inference Peer} {wakeable : Bool}

theorem quotaReplicas_ne_zero {model : String}
    (h : (∃ x ∈ f.listed model, x.agent.healthy = true) ∨ wakeable = true) :
    quotaReplicas (f.countHealthyByModel model) wakeable ≠ 0 := by
  unfold quotaReplicas
  split_ifs with hpos hwake
  · exact Nat.ne_of_gt hpos
  · exact Nat.one_ne_zero
  · obtain ⟨x, hx, hhealthy⟩ := h.resolve_right hwake
    obtain ⟨a, ha, rfl⟩ := mem_map.mp hx
    exact absurd (countP_pos_iff.mpr ⟨a, ha, hhealthy⟩) hpos

omit [LinearOrder Peer] in
/-- With a replica the quota is not skipped. -/
theorem rate_of_ne_zero {replicas : ℕ} (hreplicas : replicas ≠ 0) (hlimited : r.Limited) :
    ∃ rpm, rate r.caller r.model replicas = (.rated r.model rpm : InferenceStage Peer) := by
  obtain ⟨entry, hentry, -⟩ := hlimited
  obtain ⟨perModel, hperModel, hlookup⟩ := bind_eq_some_iff.mp hentry
  obtain ⟨n, rfl⟩ := Nat.exists_eq_succ_of_ne_zero hreplicas
  refine ⟨(effectivePerModelRPM entry (some n.succ)).1, ?_⟩
  unfold rate
  rw [hperModel]
  dsimp only
  rw [hentry]
  rfl

namespace Inference.OK

omit [LinearOrder Peer] in
/-- A step with no call, from a stage past the quota if it leads to one. -/
theorem move (h : r.OK) {stage : InferenceStage Peer}
    (hrated : ∀ model rpm, stage ≠ .rated model rpm)
    (hpast : stage.past = true → r.stage.past = true) :
    ({ r with stage := stage } : Inference Peer).OK where
  rated model rpm heq := absurd heq (hrated model rpm)
  past hstage hlimited := h.past (hpast hstage) hlimited

omit [LinearOrder Peer] in
/-- The limiter is asked for the bucket of the request. -/
theorem call (h : r.OK) {model : String} {rpm : ℤ} (hstage : r.stage = .rated model rpm)
    (tokens : Bool) : (r.call model rpm tokens).OK := by
  by_cases hallowed : (allowRequest r.tenantID model rpm tokens).allowed = true
  · refine ⟨fun model' rpm' heq => ?_, fun _ hlimited => ?_⟩
    · change (if _ then _ else _) = InferenceStage.rated model' rpm' at heq
      rw [if_pos hallowed] at heq
      cases heq
    · exact ⟨_, mem_cons_self, rfl, h.rated model rpm hstage hlimited, hallowed⟩
  · refine ⟨fun model' rpm' heq => ?_, fun hpast => ?_⟩
    · change (if _ then _ else _) = InferenceStage.rated model' rpm' at heq
      rw [if_neg hallowed] at heq
      cases heq
    · change InferenceStage.past (if _ then _ else _) = true at hpast
      rw [if_neg hallowed] at hpast
      cases hpast

theorem count (hlive : r.Limited → quotaReplicas (f.countHealthyByModel r.model) wakeable ≠ 0) :
    ({ r with
      stage := rate r.caller r.model (quotaReplicas (f.countHealthyByModel r.model) wakeable) } :
      Inference Peer).OK := by
  refine ⟨fun model rpm heq hlimited => ?_, fun hpast hlimited => ?_⟩
  · obtain ⟨rpm', hrate⟩ := rate_of_ne_zero (hlive hlimited) hlimited
    cases hrate.symm.trans heq
    rfl
  · obtain ⟨rpm', hrate⟩ := rate_of_ne_zero (hlive hlimited) hlimited
    rw [show rate r.caller r.model _ = _ from hrate] at hpast
    cases hpast

/-- **A step of a request**: it gets past the middleware with a call of the limiter that allowed
it. -/
theorem step (h : r.OK) {a : RequestAct Peer} (hlive : ∀ wakeable, a = .count wakeable → r.Limited →
      quotaReplicas (f.countHealthyByModel r.model) wakeable ≠ 0)
    (hstep : r.step f a = some (f', r')) : r'.OK := by
  cases Inference.step_moved hstep with
  | @counted wakeable _ => exact count (hlive wakeable rfl)
  | called hstage => exact h.call hstage _
  | refused => exact h.move nofun nofun
  -- past the limiter, the calls stay as they are
  | enqueued hstage | started hstage
  | dispatching hstage _ => exact h.move nofun fun _ => congrArg InferenceStage.past hstage

end Inference.OK

variable {s t : InferenceState Peer} {a : InferenceAct Peer}

theorem forall_requests_step {P : Inference Peer → Prop} (h : ∀ i r, s.requests i = some r → P r)
    (harrive : ∀ caller model capability, P ⟨caller, model, capability, [], .arrived⟩)
    (hrequest : ∀ i r b f' r', a = .request i b → s.requests i = some r → P r → r.step s.fleet b =
      some (f', r') → P r')
    (hstep : s.step a = some t) : ∀ i r, t.requests i = some r → P r := by
  -- One request has changed, and has the property.
  have hupdate : ∀ j r', P r' → ∀ i r, update s.requests j (some r') i = some r → P r := by
    intro j r' hr' i r hr
    by_cases hi : i = j
    · rw [hi, update_self] at hr
      cases hr
      exact hr'
    · rw [update_of_ne hi] at hr
      exact h i r hr
  cases a with
  | arrive j caller model capability =>
    dsimp only [InferenceState.step] at hstep
    split at hstep
    · cases hstep
      exact hupdate j _ (harrive caller model capability)
    · cases hstep
  | request j b =>
    obtain ⟨r, hr, hmap⟩ := bind_eq_some_iff.mp hstep
    obtain ⟨⟨f, r'⟩, hr', heq⟩ := map_eq_some_iff.mp hmap
    cases heq
    exact hupdate j r' (hrequest j r b f r' rfl hr (h j r hr) hr')
  | fleet =>
    cases hstep
    exact h

def AllOK (s : InferenceState Peer) : Prop := ∀ i r, s.requests i = some r → r.OK

theorem allOK_step (h : AllOK s) (hlive : Live s a) (hstep : s.step a = some t) : AllOK t := by
  refine forall_requests_step h (fun _ _ _ => ⟨nofun, nofun⟩) ?_ hstep
  rintro i r b f' r' rfl hr hok hr'
  refine hok.step (fun wakeable hb hlimited => ?_) hr'
  subst hb
  exact quotaReplicas_ne_zero (hlive r hr hlimited)

/-- **Every request that is served has been counted**, where a replica is healthy whenever the
middleware counts the replicas of a model that has a rate. -/
theorem metered_of_live (hreach : inference.ReachVia Live s) : Metered s := by
  have hok : AllOK s := by
    refine hreach.induction (I := AllOK) (fun s hinit i r hr => ?_)
      (fun s a t h hlive hstep => allOK_step h hlive hstep)
    rw [show s.requests = _ from hinit] at hr
    cases hr
  intro i r hr hserved hlimited
  refine (hok i r hr).past ?_ hlimited
  unfold Inference.servedBy at hserved
  split at hserved
  · next d hstage => exact congrArg InferenceStage.past hstage
  · cases hserved

end Invariant

instance (r : Inference Peer) : Decidable r.Limited :=
  inferInstanceAs (Decidable (∃ entry ∈ resolvePerModel _ _, _))

instance (s : InferenceState Peer) (a : InferenceAct Peer) : Decidable (Live s a) := by
  unfold Live
  split <;> infer_instance

/-! ### Two requests -/

/-- A key with a rate of one request a minute and replica for its model. -/
def demoCaller : AuthResult :=
  ⟨"tenant", [], ⟨0, 0, 0, 0, 0, some ((∅ : GoMap String PerModelQuotaLimits).insert "m" ⟨1, 0⟩)⟩⟩

def demoInference : InferenceState ℕ where
  fleet := ⟨.new, fun _ => ⟨⟨4, "", [], "", "", "", "llm", ""⟩, true, true, 0⟩, fun _ => {}⟩
  requests := fun _ => none

def demoRef : AgentRef ℕ := ⟨7, "m", 0⟩

def demoProvider : FallbackProvider := ⟨"openai", "gpt"⟩

def countActs (i : ℕ) : List (InferenceAct ℕ) :=
  [.arrive i demoCaller "m" "llm", .request i (.count false)]

/-- Request `i` is dispatched, with a policy of one step and a provider. -/
def startActs (i : ℕ) : List (InferenceAct ℕ) :=
  [.request i .enqueue,
    .request i (.start [resolve 3 "routing_policy" { strategy := "least-loaded" }] demoProvider)]

def forwardActs (i : ℕ) : List (InferenceAct ℕ) :=
  [.request i (.dispatch (.select demoRef)), .request i (.dispatch .acquire),
    .request i (.dispatch (.forwarded .ok))]

/-- Request `i` finds no agent, and goes to the provider. -/
def providerActs (i : ℕ) : List (InferenceAct ℕ) :=
  [.request i (.dispatch (.select none)), .request i (.dispatch (.select none)),
    .request i (.dispatch (.provider true))]

/-- An agent registers; request 0 is allowed and served, request 1 is over the rate. -/
def meteredActs : List (InferenceAct ℕ) :=
  [.fleet (.register demoRef)] ++ countActs 0 ++ [.request 0 (.allowRequest true)] ++ startActs 0 ++
    forwardActs 0 ++ countActs 1 ++ [.request 1 (.allowRequest false)]

theorem metered_requests : ∃ t ∈ inference.run demoInference meteredActs,
      (∃ r ∈ t.requests 0, r.servedBy = some (.agent 7)) ∧ Metered t := by
  refine Machine.exists_mem_and (by decide +kernel) fun t hrun _ => metered_of_live ?_
  exact ⟨demoInference, meteredActs, rfl, by decide +kernel, hrun⟩

/-- **The quota is skipped**: no replica is there when the middleware counts. The provider
serves request 0, and an agent that registers before the dispatch serves request 1; the
limiter was never asked. -/
theorem served_without_quota : ∃ t ∈ inference.run demoInference
        (countActs 0 ++ startActs 0 ++ providerActs 0 ++ countActs 1 ++
          [.fleet (.register demoRef)] ++ startActs 1 ++ forwardActs 1),
      (∃ r ∈ t.requests 0, r.servedBy = some (.provider demoProvider) ∧ r.calls = []) ∧
      (∃ r ∈ t.requests 1, r.servedBy = some (.agent 7) ∧ r.calls = []) ∧ ¬Metered t := by
  refine Machine.exists_mem_imp (fun t =>
    (∃ r ∈ t.requests 0, r.servedBy = some (.provider demoProvider) ∧ r.calls = []) ∧
      ∃ r ∈ t.requests 1, r.servedBy = some (.agent 7) ∧ r.calls = [] ∧ r.Limited)
    (by decide +kernel) ?_
  rintro t - ⟨hprovider, r, hr, hserved, hcalls, hlimited⟩
  refine ⟨hprovider, ⟨r, hr, hserved, hcalls⟩, fun hmetered => ?_⟩
  obtain ⟨c, hc, -⟩ := hmetered 1 r hr (isSome_of_mem hserved) hlimited
  rw [hcalls] at hc
  cases hc

end HivenetRouter.Api
