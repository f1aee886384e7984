import Mathlib.Algebra.Order.BigOperators.Group.Finset
import HivenetRouter.Policy.CapacityWait

/-!
# Lost wake-ups in the capacity wait queue

The property (`Setup.NoLostWakeup`): a session parked in the queue, with an agent that
it accepts and that has a free slot, means that a wake-up is on its way
(`State.WakePending`) — a release between `DecrementLoad` and its `Signal`, a `Signal`
being forwarded, a token in some waiter's channel, or a woken session that has not yet
retried.

It fails (`wakeup_lost`): the scan and the insertion are two steps, and a release that
runs between them tests the depth of a queue in which the session is not yet.

It holds in every run whose insertions are sound (`Setup.SoundStep`,
`noLostWakeup_of_soundSteps`): each session that inserts itself into the queue

* still finds every agent it accepts full (`ParksSoundly.full`), so that no release was
  missed between the scan and the insertion;
* has no gate on `capacity_utilization` in its step (`ParksSoundly.gates`), the one gate
  that a release can open without a free slot being counted for it;
* accepts the agents that the sessions in line accept (`ParksSoundly.sameAgents`), so that
  whoever `Signal` wakes can use the slot.

The invariant is an account. While sessions are in line they accept one set `A` of agents
(`LineShape`), and while the queue is not empty the free slots on `A` are at most the
wake-ups on their way (`LineInv.budget`). A release adds a slot and a wake-up together; a
woken session that acquires a slot uses up one of each; a woken session that finds nothing
proves that no slot on `A` is free. A wake-up is dropped only where the queue is seen
empty, and there the account asks for nothing.
-/

namespace HivenetRouter.Policy.CapacityWait

open Accounting List Bool Function Or Session Setup State WaitQueue

variable {n m : ℕ} {s : State n m}

/-! ### The property -/

/-- A session on which a wake-up is under way. -/
def Phase.carriesWake : Phase n → Bool
  | .scanning _ woken => woken
  | .chosen _ _ woken => woken
  | .waiting _ token => token
  | .forwarding => true
  | _ => false

/-- A release that has freed its slot and not yet signalled. -/
def ReleasePhase.carriesWake : ReleasePhase → Bool
  | .decremented | .signalling => true
  | .held | .finished => false

/-- A wake-up already sent, or a release or signal still in progress. -/
def State.WakePending (s : State n m) : Prop :=
  (∃ i, (s.procs i).phase.carriesWake = true) ∨ ∃ r ∈ s.releases, r.phase.carriesWake = true

instance (s : State n m) : Decidable s.WakePending := inferInstanceAs (Decidable (_ ∨ _))

/-- Agent `a` is healthy, passes the filters and gates of the session's current step and
is not in its failed set. -/
def Setup.AcceptsAgent (P : Setup n m) (load : Fin n → Int) (c : Session (Fin n)) (a : Fin n) :
    Prop :=
  ∃ step ∈ c.step?, c.Accepts step.toPolicyStep (P.listed load a)

instance (P : Setup n m) (load : Fin n → Int) (c : Session (Fin n)) (a : Fin n) :
    Decidable (P.AcceptsAgent load c a) :=
  inferInstanceAs (Decidable (∃ step ∈ c.step?, _))

/-- **No lost wake-up.** -/
def Setup.NoLostWakeup (P : Setup n m) (s : State n m) : Prop :=
  ∀ i ∈ s.queue.parked, ∀ a, P.AcceptsAgent s.load (s.procs i).session a →
    0 < (P.agentAt s.load a).freeSlots → s.WakePending

instance (P : Setup n m) (s : State n m) : Decidable (P.NoLostWakeup s) :=
  inferInstanceAs (Decidable (∀ i ∈ s.queue.parked, _))

/-! ### The lost wake-up -/

def raceSetup : Setup 1 2 where
  agents := fun _ =>
    { metadata :=
        { capacity := 1, region := "", tags := [], engine := "", organization := "",
          machine := "", capability := "llm", gpuModel := "" }
      healthy := true
      backendHealthy := true
      activeRequests := 0 }
  stores := fun _ => {}
  releasedFromHold := fun _ => false
  defaultQueueDepth := 1

/-- Both sessions start, with one step that accepts the agent. -/
def raceStart : State 1 2 where
  load := fun _ => 0
  procs := fun _ => ⟨Session.new "llm" [resolve 1 "routing_policy" {}], .scanning 0 false, false⟩
  queue := new 1
  releases := []

theorem raceStart_initial : raceSetup.Initial raceStart :=
  ⟨rfl, rfl, rfl, fun _ => ⟨"llm", [resolve 1 "routing_policy" {}], rfl⟩⟩

/-- **A wake-up is lost.** Session `0` takes the slot; session `1` scans and finds the agent
full; the slot is released, and the depth test sees an empty queue; session `1` inserts
itself. It is parked, the agent is free, and nothing will wake it. -/
theorem wakeup_lost : raceSetup.defaultQueueDepth > 0 ∧
      ∃ t, raceSetup.capacityWait.Reachable t ∧ ¬ raceSetup.NoLostWakeup t := by
  have hrun : ∃ t ∈ raceSetup.capacityWait.run raceStart
      [.scan 0 (some 0), .tryAcquire 0, .scan 1 none, .decrement 0, .testDepth 0, .park 1],
      ¬ raceSetup.NoLostWakeup t := by decide
  obtain ⟨t, ht, hlost⟩ := hrun
  exact ⟨by decide, t, ⟨raceStart, _, raceStart_initial, ht⟩, hlost⟩

/-! ### Sound insertions -/

/-- The session is in the queue, or was woken from it and has not yet retried. -/
def Phase.InLine : Phase n → Prop
  | .scanning _ woken => woken = true
  | .chosen _ _ woken => woken = true
  | .waiting _ _ => True
  | _ => False

instance (p : Phase n) : Decidable p.InLine := by
  unfold Phase.InLine
  split <;> infer_instance

/-- The current step has no `exclude_if` rule on `capacity_utilization`. -/
def NoUtilizationGate (c : Session (Fin n)) : Prop :=
  ∀ step ∈ c.step?, ∀ g ∈ step.excludeIf, g.1 ≠ "capacity_utilization"

instance (c : Session (Fin n)) : Decidable (NoUtilizationGate c) :=
  inferInstanceAs (Decidable (∀ step ∈ c.step?, _))

/-- Session `i` may insert itself into the queue. -/
structure Setup.ParksSoundly (P : Setup n m) (s : State n m) (i : Fin m) : Prop where
  /-- No agent that the session accepts has a free slot. -/
  full : ∀ a, P.AcceptsAgent s.load (s.procs i).session a → (P.agentAt s.load a).freeSlots = 0
  gates : NoUtilizationGate (s.procs i).session
  /-- Every session in line accepts the same agents. -/
  sameAgents : ∀ j, (s.procs j).phase.InLine → ∀ a,
    P.AcceptsAgent s.load (s.procs i).session a ↔ P.AcceptsAgent s.load (s.procs j).session a

/-- The condition on a step: an insertion that goes through is sound. -/
def Setup.SoundStep (P : Setup n m) (s : State n m) : Act n m → Prop
  | .park i => ∀ ticket, (s.procs i).phase = .parking ticket →
      (s.queue.waitInLine (P.releasedFromHold i) i ticket).isSome → P.ParksSoundly s i
  | _ => True

/-! ### What a session accepts does not move with the load -/

namespace Setup

variable {P : Setup n m} {i : Fin m} {step : ResolvedStep} {a : Fin n}

theorem acceptsAgent_congr_load {c : Session (Fin n)} (hc : NoUtilizationGate c)
    (load load' : Fin n → Int) (a : Fin n) :
    P.AcceptsAgent load c a ↔ P.AcceptsAgent load' c a := by
  refine exists_congr fun step => and_congr_right fun hstep => ?_
  exact accepts_congr_load (hc step hstep) c (P.listed load' a) (load a)

/-- A candidate of the scan is an accepted agent with a free slot. -/
theorem mem_scanOf (hstep : (s.procs i).session.step? = some step) : a ∈ (P.scanOf s i step).2 ↔
      P.AcceptsAgent s.load (s.procs i).session a ∧ 0 < (P.agentAt s.load a).freeSlots := by
  change a ∈ (s.procs i).session.candidates step.toPolicyStep (P.listByModel s.load) ↔ _
  rw [mem_candidates, HivenetRouter.Domain.Agent.freeSlots_pos_iff]
  constructor
  · rintro ⟨x, hx, ⟨hacc, hfree⟩, rfl⟩
    obtain ⟨b, -, rfl⟩ := mem_map.mp hx
    exact ⟨⟨step, hstep, hacc⟩, hfree⟩
  · rintro ⟨⟨step', hstep', hacc⟩, hfree⟩
    obtain rfl : step = step' := Option.mem_unique hstep hstep'
    exact ⟨P.listed s.load a, mem_map.mpr ⟨a, mem_finRange a, rfl⟩, ⟨hacc, hfree⟩, rfl⟩

/-- A scan without candidates: no accepted agent has a free slot. -/
theorem noneFree (P : Setup n m) (hstep : (s.procs i).session.step? = some step)
    (hnone : (P.scanOf s i step).2 = []) (hacc : P.AcceptsAgent s.load (s.procs i).session a) :
    (P.agentAt s.load a).freeSlots = 0 := by
  by_contra hfree
  have hmem := (mem_scanOf hstep).mpr ⟨hacc, Nat.pos_of_ne_zero hfree⟩
  rw [hnone] at hmem
  cases hmem

theorem scanOf_accepts (s : State n m) (i : Fin m) (step : ResolvedStep) (load : Fin n → Int)
    (a : Fin n) :
    P.AcceptsAgent load (P.scanOf s i step).1 a ↔ P.AcceptsAgent load (s.procs i).session a := by
  unfold AcceptsAgent scanOf
  rw [buildCandidates_step?]
  refine exists_congr fun step' => and_congr_right fun _ => ?_
  exact buildCandidates_accepts _ _ _ _ _

theorem scanOf_gates (h : NoUtilizationGate (s.procs i).session) :
    NoUtilizationGate (P.scanOf s i step).1 := by
  unfold NoUtilizationGate scanOf
  rw [buildCandidates_step?]
  exact h

end Setup

/-! ### The two sides of the account -/

def State.wakes (s : State n m) : ℕ :=
  ∑ i, (s.procs i).phase.carriesWake.toNat + (s.releases.map fun r => r.phase.carriesWake.toNat).sum

def Setup.slots (P : Setup n m) (a : Fin n) (l : Int) : ℕ :=
  ({ P.agents a with activeRequests := l } : Domain.Agent).freeSlots

def Setup.freeOn (P : Setup n m) (A : Finset (Fin n)) (load : Fin n → Int) : ℕ :=
  ∑ a ∈ A, P.slots a (load a)

theorem State.wakePending_of_wakes_pos (h : 0 < s.wakes) : s.WakePending := by
  -- one of the two sums has a summand that is not 0
  rcases Nat.add_pos_iff_pos_or_pos.mp h with hproc | hrel
  · obtain ⟨i, -, hi⟩ := Finset.exists_ne_zero_of_sum_ne_zero hproc.ne'
    exact inl ⟨i, by simpa using hi⟩
  · obtain ⟨x, hx, hpos⟩ := exists_mem_ne_zero_of_sum_ne_zero hrel.ne'
    obtain ⟨r, hr, rfl⟩ := mem_map.mp hx
    exact inr ⟨r, hr, by simpa using hpos⟩

/-- A session that moves takes its wake-up out of the count and puts its new one in. -/
theorem State.wakes_setSession (s : State n m) (i : Fin m) (c : Session (Fin n)) (p : Phase n) :
    (s.setSession i c p).wakes + (s.procs i).phase.carriesWake.toNat =
      s.wakes + p.carriesWake.toNat := by
  have h := total_update Finset.univ (fun _ (x : Proc n) => x.phase.carriesWake.toNat) s.procs
    (Finset.mem_univ i) { s.procs i with session := c, phase := p }
  dsimp only at h
  unfold wakes setSession
  dsimp only
  omega

theorem State.wakes_setRelease {r : ℕ} {x : Release n} (hr : s.releases[r]? = some x)
    (p : ReleasePhase) :
    (s.setRelease r p).wakes + x.phase.carriesWake.toNat = s.wakes + p.carriesWake.toNat := by
  have h := total_modify (fun x : Release n => x.phase.carriesWake.toNat)
    (fun x => { x with phase := p }) s.releases r hr
  dsimp only at h
  unfold wakes setRelease
  dsimp only
  omega

namespace Setup

variable (P : Setup n m) (A : Finset (Fin n))

theorem freeOn_decrement_le (load : Fin n → Int) (a : Fin n) :
    P.freeOn A (update load a (P.agentAt load a).decrementLoad.activeRequests) ≤
      P.freeOn A load + 1 := by
  change P.freeOn A (update load a (load a - 1)) ≤ _
  have hone : P.slots a (load a - 1) ≤ P.slots a (load a) + 1 :=
    (P.agentAt load a).freeSlots_decrementLoad_le
  unfold freeOn
  -- only the summand of the agent changes, if it has one
  by_cases ha : a ∈ A
  · have htotal := total_update A P.slots load ha (load a - 1)
    omega
  · rw [total_update_of_notMem A P.slots load ha]
    exact Nat.le_succ _

theorem freeOn_acquire {load : Fin n → Int} {a : Fin n} {agent : Domain.Agent}
    (h : (P.agentAt load a).tryAcquireSlot = some agent) :
    P.freeOn A (update load a agent.activeRequests) + (if a ∈ A then 1 else 0) =
      P.freeOn A load := by
  obtain ⟨rfl, hslot⟩ := Domain.Agent.tryAcquireSlot_eq_some h
  change P.freeOn A (update load a (load a + 1)) + _ = _
  have hone : P.slots a (load a + 1) + 1 = P.slots a (load a) := hslot
  unfold freeOn
  by_cases ha : a ∈ A
  · have htotal := total_update A P.slots load ha (load a + 1)
    rw [if_pos ha]
    omega
  · rw [total_update_of_notMem A P.slots load ha, if_neg ha, Nat.add_zero]

end Setup

/-! ### The line -/

/-- A session that is in line accepts the agents of `A`, whatever the load. -/
structure Fits (P : Setup n m) (A : Finset (Fin n)) (x : Proc n) : Prop where
  gates : x.phase.InLine → NoUtilizationGate x.session
  agents : x.phase.InLine → ∀ a, a ∈ A ↔ P.AcceptsAgent (fun _ => 0) x.session a
  /-- A woken session that picked an agent picked it in `A`. -/
  chosen : ∀ a ticket, x.phase = .chosen a ticket true → a ∈ A

/-- **The shape of the line**, over the sessions and the goroutines in the queue: the
queue holds exactly the sessions that wait without a token, and every session in line
fits the set `A`. -/
structure LineShape (P : Setup n m) (A : Finset (Fin n)) (procs : Fin m → Proc n)
    (parked : List (Fin m)) : Prop where
  nodup : parked.Nodup
  parked_iff : ∀ i, i ∈ parked ↔ ∃ ticket, (procs i).phase = .waiting ticket false
  fits : ∀ i, Fits P A (procs i)

section Line

variable {P : Setup n m} {A : Finset (Fin n)} {procs : Fin m → Proc n} {parked : List (Fin m)}
  {i : Fin m} {x : Proc n}

/-- Nothing is asked of a session that is not in line. -/
theorem Fits.of_out (hout : ¬ x.phase.InLine) : Fits P A x := by
  refine ⟨fun hin => absurd hin hout, fun hin => absurd hin hout, fun a ticket hx => ?_⟩
  rw [hx] at hout
  exact absurd rfl hout

theorem Fits.move (h : Fits P A x) (hin : x.phase.InLine) {p : Phase n}
    (hchosen : ∀ a ticket, p = .chosen a ticket true → a ∈ A) :
    Fits P A { x with phase := p } :=
  ⟨fun _ => h.gates hin, fun _ => h.agents hin, hchosen⟩

theorem Fits.mem_iff (h : Fits P A x) (hin : x.phase.InLine) (load : Fin n → Int) (a : Fin n) :
    a ∈ A ↔ P.AcceptsAgent load x.session a := by
  rw [h.agents hin a]
  exact acceptsAgent_congr_load (h.gates hin) _ _ a

namespace LineShape

section

variable (h : LineShape P A procs parked)

include h

/-- A session that is not waiting without a token is not in the queue. -/
theorem notMem_parked
    (hphase : ∀ ticket, (procs i).phase ≠ .waiting ticket false) : i ∉ parked := by
  intro hi
  obtain ⟨ticket, hticket⟩ := (h.parked_iff i).mp hi
  exact hphase ticket hticket

theorem notMem_of_phase {p : Phase n} (hp : (procs i).phase = p)
    (hwait : ∀ ticket, p ≠ .waiting ticket false) : i ∉ parked :=
  h.notMem_parked fun ticket => hp ▸ hwait ticket

/-- **One session moves, and the queue follows it.** -/
theorem replace {parked' : List (Fin m)}
    (hnodup : parked'.Nodup) (hother : ∀ j, j ≠ i → (j ∈ parked' ↔ j ∈ parked))
    (hself : i ∈ parked' ↔ ∃ ticket, x.phase = .waiting ticket false) (hfits : Fits P A x) :
    LineShape P A (update procs i x) parked' := by
  refine ⟨hnodup, fun j => ?_, fun j => ?_⟩
  all_goals by_cases hji : j = i
  · subst hji
    rw [update_self]
    exact hself
  · rw [update_of_ne hji, hother j hji]
    exact h.parked_iff j
  · subst hji
    rw [update_self]
    exact hfits
  · rw [update_of_ne hji]
    exact h.fits j

/-- A session outside the queue moves and does not enter it. -/
theorem update (hi : i ∉ parked)
    (hwait : ∀ ticket, x.phase ≠ .waiting ticket false) (hfits : Fits P A x) :
    LineShape P A (update procs i x) parked := by
  refine h.replace h.nodup (fun j _ => Iff.rfl) ?_ hfits
  exact ⟨fun hmem => absurd hmem hi, fun ⟨ticket, ht⟩ => absurd ht (hwait ticket)⟩

end

/-- The session at the head of the queue is sent to: it stays in line, with a token. -/
theorem send {s : State n m} (h : LineShape P A s.procs (i :: parked)) :
    LineShape P A (s.send i).procs parked := by
  obtain ⟨hi, hnodup⟩ := nodup_cons.mp h.nodup
  obtain ⟨ticket, hphase⟩ := (h.parked_iff i).mp mem_cons_self
  have hin : (s.procs i).phase.InLine := by
    rw [hphase]
    trivial
  -- the session waits without a token, being in the queue
  have hsend : (s.send i).procs =
      Function.update s.procs i { s.procs i with phase := .waiting ticket true } := by
    unfold State.send
    rw [hphase]
    rfl
  rw [hsend]
  refine h.replace hnodup (fun j hj => ?_) ?_ ((h.fits i).move hin fun a t ht => by cases ht)
  · rw [mem_cons, or_iff_right hj]
  · exact ⟨fun hmem => absurd hmem hi, fun ⟨_, ht⟩ => by cases ht⟩

/-- `Broadcast` sends to the queue from its head to its tail. -/
theorem foldl_send : ∀ (parked : List (Fin m)) (s : State n m),
    LineShape P A s.procs parked → LineShape P A (parked.foldl State.send s).procs []
  | [], _, h => h
  | _ :: parked, _, h => foldl_send parked _ h.send

/-- The line may be read with another set when nobody is in it. -/
theorem of_empty (h : LineShape P A procs parked) (hempty : ∀ j, ¬ (procs j).phase.InLine)
    (B : Finset (Fin n)) : LineShape P B procs parked :=
  ⟨h.nodup, h.parked_iff, fun j => Fits.of_out (hempty j)⟩

end LineShape

end Line

/-! ### Signals -/

namespace State

variable {i : Fin m}

@[simp] theorem send_queue (s : State n m) (i : Fin m) : (s.send i).queue = s.queue := by
  unfold send
  split <;> rfl

@[simp] theorem send_load (s : State n m) (i : Fin m) : (s.send i).load = s.load := by
  unfold send
  split <;> rfl

@[simp] theorem send_releases (s : State n m) (i : Fin m) : (s.send i).releases = s.releases := by
  unfold send
  split <;> rfl

theorem foldl_send_queue : ∀ (l : List (Fin m)) (s : State n m), (l.foldl send s).queue = s.queue
  | [], _ => rfl
  | i :: l, s => (foldl_send_queue l (s.send i)).trans (s.send_queue i)

theorem signalQueue_of_nil (h : s.queue.parked = []) :
    s.signalQueue = { s with queue := s.queue.signal.1 } := by
  have hsnd : s.queue.signal = (s.queue.signal.1, none) := Prod.ext rfl (by rw [signal_snd, h]; rfl)
  unfold signalQueue
  rw [hsnd]

theorem signalQueue_of_cons {rest : List (Fin m)} (h : s.queue.parked = i :: rest) :
    s.signalQueue = { s with queue := s.queue.signal.1 }.send i := by
  have hsnd : s.queue.signal = (s.queue.signal.1, some i) :=
    Prod.ext rfl (by rw [signal_snd, h]; rfl)
  unfold signalQueue
  rw [hsnd]

theorem signalQueue_frame (s : State n m) :
    s.signalQueue.queue.parked = s.queue.parked.tail ∧ s.signalQueue.load = s.load ∧
      s.signalQueue.releases = s.releases := by
  cases hparked : s.queue.parked with
  | nil =>
    rw [signalQueue_of_nil hparked]
    refine ⟨?_, rfl, rfl⟩
    rw [parked_signal, hparked]
  | cons =>
    rw [signalQueue_of_cons hparked]
    refine ⟨?_, send_load _ _, send_releases _ _⟩
    rw [send_queue]
    rw [parked_signal, hparked]

/-- A session that is not at the head keeps its place in the code. -/
theorem signalQueue_procs_of_notMem (hi : i ∉ s.queue.parked) :
    s.signalQueue.procs i = s.procs i := by
  cases hparked : s.queue.parked with
  | nil => rw [signalQueue_of_nil hparked]
  | cons j =>
    rw [signalQueue_of_cons hparked]
    have hij : i ≠ j := fun h => hi (by rw [hparked, h]; exact mem_cons_self)
    unfold send
    split
    · exact update_of_ne hij _ _
    · rfl

end State

section Signal

variable {P : Setup n m} {A : Finset (Fin n)}

variable (h : LineShape P A s.procs s.queue.parked)

include h

theorem LineShape.signalQueue : LineShape P A s.signalQueue.procs s.signalQueue.queue.parked := by
  rw [s.signalQueue_frame.1]
  cases hparked : s.queue.parked with
  | nil =>
    rw [signalQueue_of_nil hparked]
    rwa [hparked] at h
  | cons =>
    rw [signalQueue_of_cons hparked]
    rw [hparked] at h
    exact LineShape.send (s := { s with queue := s.queue.signal.1 }) h

theorem LineShape.wakes_signalQueue
    (hne : s.queue.parked ≠ []) : s.signalQueue.wakes = s.wakes + 1 := by
  obtain ⟨i, rest, hparked⟩ := exists_cons_of_ne_nil hne
  have hi : i ∈ s.queue.parked := by
    rw [hparked]
    exact mem_cons_self
  obtain ⟨ticket, hphase⟩ := (h.parked_iff i).mp hi
  rw [signalQueue_of_cons hparked]
  have hsend : State.send { s with queue := s.queue.signal.1 } i =
      setSession { s with queue := s.queue.signal.1 } i (s.procs i).session
        (.waiting ticket true) := by
    unfold State.send
    rw [hphase]
    rfl
  have hwakes := wakes_setSession { s with queue := s.queue.signal.1 } i
    (s.procs i).session (.waiting ticket true)
  rw [hsend]
  rw [hphase] at hwakes
  exact hwakes

end Signal

/-! ### The invariant -/

/-- **The account of the line**: while the queue is not empty, the free slots on `A` are at
most the wake-ups on their way. -/
structure LineInv (P : Setup n m) (A : Finset (Fin n)) (s : State n m) : Prop where
  shape : LineShape P A s.procs s.queue.parked
  budget : s.queue.parked ≠ [] → P.freeOn A s.load ≤ s.wakes

namespace LineInv

variable {P : Setup n m} {A : Finset (Fin n)} {i : Fin m} {c : Session (Fin n)}

theorem initial (h : P.Initial s) : LineInv P ∅ s := by
  have hparked : s.queue.parked = [] := by
    rw [h.queue]
    rfl
  refine ⟨?_, fun hne => absurd hparked hne⟩
  rw [hparked]
  refine ⟨nodup_nil, fun i => ?_, fun i => Fits.of_out ?_⟩
  all_goals obtain ⟨capability, steps, hi⟩ := h.procs i
  all_goals rw [hi]
  · simp
  · exact false_ne_true

/-- The account gives the property: a parked session with a free slot in what it accepts
leaves at least one wake-up to be on its way. -/
theorem noLostWakeup (h : LineInv P A s) : P.NoLostWakeup s := by
  intro i hi a hacc hfree
  obtain ⟨ticket, hphase⟩ := (h.shape.parked_iff i).mp hi
  have hin : (s.procs i).phase.InLine := by
    rw [hphase]
    trivial
  -- what the session accepts does not move with the load, so it is `A`
  have ha : a ∈ A := ((h.shape.fits i).mem_iff hin s.load a).mpr hacc
  -- the free slot is counted
  have hle : P.slots a (s.load a) ≤ P.freeOn A s.load :=
    Finset.single_le_sum (f := fun b => P.slots b (s.load b)) (fun _ _ => Nat.zero_le _) ha
  have hbudget := h.budget (ne_nil_of_mem hi)
  exact wakePending_of_wakes_pos (lt_of_lt_of_le hfree (hle.trans hbudget))

variable {p : Phase n} {ticket : ℕ} {woken : Bool} {a : Fin n} {t : State n m}

variable (h : LineInv P A s)

include h

/-- A session outside the queue moves, and the load stays: the account needs the new phase
to carry the wake-up that the old one carried, or no slot to be free. -/
theorem setSession (hi : i ∉ s.queue.parked)
    (hwait : ∀ ticket, p ≠ .waiting ticket false)
    (hfits : Fits P A { s.procs i with session := c, phase := p })
    (hwake : (s.procs i).phase.carriesWake = p.carriesWake ∨ (s.procs i).phase.carriesWake = false ∨
      P.freeOn A s.load = 0) :
    LineInv P A (s.setSession i c p) := by
  refine ⟨h.shape.update hi hwait hfits, fun hne => ?_⟩
  have hbudget := h.budget hne
  have hwakes := s.wakes_setSession i c p
  change P.freeOn A s.load ≤ _
  rcases hwake with hsame | hnone | hzero
  · rw [hsame] at hwakes
    omega
  · rw [hnone, toNat_false] at hwakes
    omega
  · omega

/-- A woken session that accepts no agent with a free slot proves that none is free on
`A`. -/
theorem freeOn_eq_zero (hin : (s.procs i).phase.InLine)
    (hnone : ∀ a, P.AcceptsAgent s.load (s.procs i).session a →
      (P.agentAt s.load a).freeSlots = 0) : P.freeOn A s.load = 0 := by
  refine Finset.sum_eq_zero fun a ha => ?_
  exact hnone a (((h.shape.fits i).mem_iff hin s.load a).mp ha)

section

variable (hphase : (s.procs i).phase = .scanning ticket woken)

include hphase

/-- The session leaves its scan and the line, because nothing it accepts is free. -/
theorem leaveScan
    (hnone : ∀ a, P.AcceptsAgent s.load (s.procs i).session a → (P.agentAt s.load a).freeSlots = 0)
    (hout : ¬ p.InLine) :
    LineInv P A (s.setSession i c p) := by
  have hi : i ∉ s.queue.parked := h.shape.notMem_of_phase hphase nofun
  refine h.setSession hi (fun t ht => ?_) (Fits.of_out hout) ?_
  · rw [ht] at hout
    exact hout trivial
  · rw [hphase]
    -- a session that was not woken takes no wake-up away; a woken one has seen that no slot on
    -- `A` is free
    cases woken with
    | false => exact inr (inl rfl)
    | true =>
      refine inr (inr (h.freeOn_eq_zero (i := i) ?_ hnone))
      rw [hphase]
      exact rfl

/-- The scan picks an agent: a woken session stays in line with an agent of `A`. -/
theorem pick {step : ResolvedStep}
    (hstep : (s.procs i).session.step? = some step) (hmem : a ∈ (P.scanOf s i step).2) :
    LineInv P A (s.setSession i (P.scanOf s i step).1 (.chosen a ticket woken)) := by
  have hi : i ∉ s.queue.parked := h.shape.notMem_of_phase hphase nofun
  refine h.setSession hi nofun ?_ (inl (by rw [hphase]; rfl))
  cases woken with
  | false => exact Fits.of_out false_ne_true
  | true =>
    have hin : (s.procs i).phase.InLine := by
      rw [hphase]
      exact rfl
    -- what it has picked is accepted, and so in `A`
    have hacc := ((mem_scanOf hstep).mp hmem).1
    refine ⟨fun _ => scanOf_gates ((h.shape.fits i).gates hin), fun _ b => ?_, ?_⟩
    · rw [(h.shape.fits i).agents hin b]
      exact (scanOf_accepts s i step _ b).symm
    · intro b t hb
      cases hb
      exact ((h.shape.fits i).mem_iff hin s.load a).mpr hacc

end

/-- A slot is acquired: a woken session uses up its wake-up with a slot of `A`, any other
session can only take a slot away. -/
theorem acquire {agent : Domain.Agent}
    (hphase : (s.procs i).phase = .chosen a ticket woken)
    (hslot : (P.agentAt s.load a).tryAcquireSlot = some agent) :
    LineInv P A { s.setPhase i (.holding a s.releases.length) with
      load := update s.load a agent.activeRequests
      releases := s.releases ++ [⟨a, .held⟩] } := by
  have hi : i ∉ s.queue.parked := h.shape.notMem_of_phase hphase nofun
  refine ⟨h.shape.update hi nofun (Fits.of_out id), fun hne => ?_⟩
  have hbudget := h.budget hne
  have hfree := P.freeOn_acquire A hslot
  have hwakes := s.wakes_setSession i (s.procs i).session (.holding a s.releases.length)
  -- the new release carries no wake-up yet
  have hheld : wakes { s.setPhase i (.holding a s.releases.length) with
      load := update s.load a agent.activeRequests
      releases := s.releases ++ [⟨a, .held⟩] } =
        (s.setPhase i (.holding a s.releases.length)).wakes := by
    simp [wakes, setPhase, State.setSession, ReleasePhase.carriesWake]
  rw [hheld]
  change P.freeOn A (update s.load a agent.activeRequests) ≤
    (s.setSession i (s.procs i).session (.holding a s.releases.length)).wakes
  rw [hphase] at hwakes
  cases woken with
  | false =>
    simp only [Phase.carriesWake, toNat_false] at hwakes
    omega
  | true =>
    have ha : a ∈ A := (h.shape.fits i).chosen a ticket hphase
    rw [if_pos ha] at hfree
    simp only [Phase.carriesWake, toNat_true, toNat_false] at hwakes
    omega

/-- A sound insertion. If the line is empty the session brings its own set of agents, else
it accepts the line's; either way none of them has a free slot. -/
theorem park {ticket' : ℕ} {q : WaitQueue (Fin m)}
    (hphase : (s.procs i).phase = .parking ticket)
    (hq : s.queue.waitInLine (P.releasedFromHold i) i ticket = some (q, ticket'))
    (hsound : P.ParksSoundly s i) :
    ∃ B, LineInv P B { s.setPhase i (.waiting ticket' false) with queue := q } := by
  classical
  have hi : i ∉ s.queue.parked := h.shape.notMem_of_phase hphase nofun
  have hload := acceptsAgent_congr_load (P := P) hsound.gates s.load (fun _ => 0)
  obtain ⟨B, hshape, hB⟩ : ∃ B, LineShape P B s.procs s.queue.parked ∧
      ∀ a, a ∈ B ↔ P.AcceptsAgent (fun _ => 0) (s.procs i).session a := by
    -- the set of the line if there is one, and else the set of this session
    by_cases hline : ∃ j, (s.procs j).phase.InLine
    · obtain ⟨j, hj⟩ := hline
      refine ⟨A, h.shape, fun a => ?_⟩
      rw [(h.shape.fits j).mem_iff hj s.load a, ← hsound.sameAgents j hj a, hload a]
    · refine ⟨Finset.univ.filter fun a => P.AcceptsAgent (fun _ => 0) (s.procs i).session a,
        h.shape.of_empty (not_exists.mp hline) _, fun a => ?_⟩
      rw [Finset.mem_filter, and_iff_right (Finset.mem_univ a)]
  have hperm := parked_waitInLine hq
  refine ⟨B, ?_, fun _ => ?_⟩
  · refine hshape.replace (hperm.nodup_iff.mpr (nodup_cons.mpr ⟨hi, hshape.nodup⟩))
      (fun j hj => ?_) ?_ ⟨fun _ => hsound.gates, fun _ => hB, nofun⟩
    · rw [hperm.mem_iff, mem_cons, or_iff_right hj]
    · exact ⟨fun _ => ⟨ticket', rfl⟩, fun _ => hperm.mem_iff.mpr mem_cons_self⟩
  · -- no slot is free at the insertion, and so none was missed
    have hzero : P.freeOn B s.load = 0 := by
      refine Finset.sum_eq_zero fun a ha => ?_
      exact hsound.full a ((hload a).mpr ((hB a).mp ha))
    change P.freeOn B s.load ≤ _
    rw [hzero]
    exact Nat.zero_le _

/-- A `Signal` whose sender held a wake-up: the wake-up goes to the head of the queue, or
nobody is left to wait for it. `t` is the state once the sender is done. -/
theorem signal (hprocs : LineShape P A t.procs t.queue.parked)
    (hparked : t.queue.parked = s.queue.parked.tail) (hload : t.load = s.load)
    (hwakes : s.queue.parked ≠ [] → t.wakes + 1 = s.signalQueue.wakes) : LineInv P A t := by
  refine ⟨hprocs, fun hne => ?_⟩
  have hne' : s.queue.parked ≠ [] := fun hnil => hne (by rw [hparked, hnil, tail_nil])
  -- the sender gives its wake-up away, and the head of the queue has it
  have hsent := h.shape.wakes_signalQueue hne'
  have hsender := hwakes hne'
  have hbudget := h.budget hne'
  rw [hload]
  omega

/-- The context of a waiting session ends while it is still in the queue. -/
theorem leave (hmem : i ∈ s.queue.parked) (c : Session (Fin n)) :
    LineInv P A { s.escalate i c with queue := (s.queue.leave i).1 } := by
  obtain ⟨ticket, hphase⟩ := (h.shape.parked_iff i).mp hmem
  have hparked := s.queue.parked_leave i
  refine ⟨?_, fun hne => ?_⟩
  · change LineShape P A (update s.procs i _) (s.queue.leave i).1.parked
    rw [hparked]
    refine h.shape.replace (h.shape.nodup.erase i) (fun j hj => ?_) ?_ (Fits.of_out false_ne_true)
    · exact mem_erase_of_ne hj
    · exact ⟨fun hi => absurd hi h.shape.nodup.not_mem_erase, fun ⟨_, ht⟩ => by cases ht⟩
  · -- it waited without a token, and takes no wake-up away
    have hwakes := s.wakes_setSession i c.advanceStep (.scanning 0 false)
    have hbudget := h.budget (ne_nil_of_mem hmem)
    rw [hphase] at hwakes
    exact hbudget.trans hwakes.ge

/-- The end of a context is seen at the next `leave` only. -/
theorem ctxEnd (i : Fin m) : LineInv P A
      { s with procs := update s.procs i { s.procs i with ctxDone := true } } := by
  have hsame : ∀ j, (update s.procs i { s.procs i with ctxDone := true } j).phase =
      (s.procs j).phase := by
    intro j
    by_cases hji : j = i
    · subst hji
      rw [update_self]
    · rw [update_of_ne hji]
  refine ⟨h.shape.replace h.shape.nodup (fun j _ => Iff.rfl) (h.shape.parked_iff i) ?_, ?_⟩
  · exact ⟨(h.shape.fits i).gates, (h.shape.fits i).agents, (h.shape.fits i).chosen⟩
  · unfold wakes
    simp only [hsame]
    exact h.budget

/-- `leave` after the channel was sent to: the entry is gone, and the wake-up stays with
the session until it is forwarded. -/
theorem leaveSent {token : Bool}
    (hphase : (s.procs i).phase = .waiting ticket token) (hi : i ∉ s.queue.parked) :
    LineInv P A { s.setPhase i .forwarding with queue := (s.queue.leave i).1 } := by
  -- out of the queue it can only be waiting with a token
  have htoken : token = true := by
    cases token with
    | true => rfl
    | false => exact absurd ((h.shape.parked_iff i).mpr ⟨ticket, hphase⟩) hi
  subst htoken
  have hparked : (s.queue.leave i).1.parked = s.queue.parked := by
    rw [parked_leave, erase_of_not_mem hi]
  have hmoved : LineInv P A (s.setPhase i .forwarding) :=
    h.setSession hi nofun (Fits.of_out id) (inl (by rw [hphase]; rfl))
  refine ⟨?_, fun hne => ?_⟩
  · change LineShape P A _ (s.queue.leave i).1.parked
    rw [hparked]
    exact hmoved.shape
  · exact hmoved.budget (hparked ▸ hne)

/-- The slot release: `DecrementLoad` frees a slot and starts a wake-up. -/
theorem decrement {r : ℕ} (hr : s.releases[r]? = some ⟨a, .held⟩) :
    LineInv P A { s.setRelease r .decremented with
      load := update s.load a (P.agentAt s.load a).decrementLoad.activeRequests } := by
  refine ⟨h.shape, fun hne => ?_⟩
  have hbudget := h.budget hne
  have hfree := P.freeOn_decrement_le A s.load a
  have hwakes := wakes_setRelease hr .decremented
  change _ ≤ (s.setRelease r .decremented).wakes
  simp only [ReleasePhase.carriesWake, toNat_true, toNat_false] at hwakes
  exact hfree.trans (by omega)

/-- A release that moves without dropping its wake-up, or with nobody to wait for it. -/
theorem setRelease {r : ℕ} {x : Release n} {p : ReleasePhase}
    (hr : s.releases[r]? = some x)
    (hwake : s.queue.parked = [] ∨ x.phase.carriesWake = p.carriesWake) :
    LineInv P A (s.setRelease r p) := by
  refine ⟨h.shape, fun hne => ?_⟩
  have hbudget := h.budget hne
  have hwakes := wakes_setRelease hr p
  rcases hwake with hnil | hsame
  · exact absurd hnil hne
  · rw [hsame] at hwakes
    exact hbudget.trans (by omega)

/-- **Every sound step keeps the account.** The set of agents changes only when a session
enters an empty line. -/
theorem step {act : Act n m} (hsound : P.SoundStep s act)
    (hmoved : P.Moved s act t) (hdepth : P.defaultQueueDepth > 0) : ∃ B, LineInv P B t := by
  cases hmoved with
  | exhausted hphase hstep =>
    refine ⟨A, h.leaveScan hphase (fun a hacc => ?_) id⟩
    -- without a step it accepts no agent
    obtain ⟨step, hstep', -⟩ := hacc
    rw [hstep] at hstep'
    cases hstep'
  | picked hphase hstep hmem => exact ⟨A, h.pick hphase hstep hmem⟩
  | sawFull hphase hstep hnone =>
    exact ⟨A, h.leaveScan hphase (fun a hacc => P.noneFree hstep hnone hacc) id⟩
  | sawNone hphase hstep hnone =>
    exact ⟨A, h.leaveScan hphase (fun a hacc => P.noneFree hstep hnone hacc) false_ne_true⟩
  | acquired hphase hslot => exact ⟨A, h.acquire hphase hslot⟩
  | @lostRace i a ticket woken hphase =>
    refine ⟨A, h.setSession ?_ nofun ?_ (inl (by rw [hphase]; rfl))⟩
    · exact h.shape.notMem_of_phase hphase nofun
    · cases woken with
      | false => exact Fits.of_out false_ne_true
      | true =>
        refine (h.shape.fits i).move ?_ nofun
        rw [hphase]
        exact rfl
  | @parked i ticket q ticket' hphase hq =>
    refine h.park hphase hq (hsound ticket hphase ?_)
    rw [hq]
    rfl
  | queueFull hphase | selectAgain _ hphase =>
    refine ⟨A, h.setSession ?_ nofun (Fits.of_out false_ne_true) (inr (inl (by rw [hphase]; rfl)))⟩
    exact h.shape.notMem_of_phase hphase nofun
  | @woke i ticket hphase =>
    -- the token leaves the channel and stays with the session
    refine ⟨A, h.setSession ?_ nofun ?_ (inl (by rw [hphase]; rfl))⟩
    · exact h.shape.notMem_of_phase hphase nofun
    · refine (h.shape.fits i).move ?_ nofun
      rw [hphase]
      trivial
  | @ctxEnded i => exact ⟨A, h.ctxEnd i⟩
  | left hphase hmem => exact ⟨A, h.leave hmem _⟩
  | leftSent hphase hmem => exact ⟨A, h.leaveSent hphase hmem⟩
  | @forwarded i hphase =>
    have hi : i ∉ s.queue.parked := h.shape.notMem_of_phase hphase nofun
    have hframe := s.signalQueue_frame
    refine ⟨A, h.signal ?_ hframe.1 hframe.2.1 fun _ => ?_⟩
    · refine h.shape.signalQueue.update ?_ nofun (Fits.of_out false_ne_true)
      rw [hframe.1]
      exact fun hmem => hi (mem_of_mem_tail hmem)
    · have hwakes := s.signalQueue.wakes_setSession i (s.procs i).session.advanceStep
        (.scanning 0 false)
      rw [signalQueue_procs_of_notMem hi, hphase] at hwakes
      exact hwakes
  | decremented hr => exact ⟨A, h.decrement hr⟩
  | sawEmpty hr hempty =>
    -- the wake-up is dropped, and nobody waits for it
    exact ⟨A, h.setRelease hr (inl (hempty.resolve_left hdepth.ne'))⟩
  | sawWaiter hr => exact ⟨A, h.setRelease hr (inr rfl)⟩
  | @signalled r a hr =>
    have hframe := s.signalQueue_frame
    refine ⟨A, h.signal h.shape.signalQueue hframe.1 hframe.2.1 fun _ => ?_⟩
    rw [← hframe.2.2] at hr
    exact wakes_setRelease hr .finished
  | broadcastOff => exact ⟨A, h⟩
  | broadcast =>
    -- the queue is empty after it
    refine ⟨A, ?_, fun hne => absurd ?_ hne⟩
    · rw [foldl_send_queue, parked_broadcast]
      exact LineShape.foldl_send _ _ h.shape
    · rw [foldl_send_queue, parked_broadcast]
  | finished hphase =>
    refine ⟨A, h.setSession ?_ nofun (Fits.of_out id) (inr (inl (by rw [hphase]; rfl)))⟩
    exact h.shape.notMem_of_phase hphase nofun

end LineInv

/-! ### The result -/

/-- **No wake-up is lost in a run whose insertions are sound.** -/
theorem noLostWakeup_of_soundSteps (P : Setup n m) (hdepth : P.defaultQueueDepth > 0)
    {t : State n m} (h : P.capacityWait.ReachVia P.SoundStep t) : P.NoLostWakeup t := by
  have hinv : ∃ A, LineInv P A t := by
    refine h.induction (I := fun s => ∃ A, LineInv P A s)
      (fun s hs => ⟨∅, LineInv.initial hs⟩) fun s a u hI hC hstep => ?_
    obtain ⟨A, hA⟩ := hI
    exact hA.step hC (step_moved hstep) hdepth
  obtain ⟨A, hA⟩ := hinv
  exact hA.noLostWakeup

/-- The two sessions of `raceSetup`, with the insertion before the release: the agent is free
while session `1` is parked, and the release that will wake it is in progress. -/
theorem noLostWakeup_race : ∃ t, raceSetup.capacityWait.ReachVia raceSetup.SoundStep t ∧
      (1 ∈ t.queue.parked ∧ 0 < (raceSetup.agentAt t.load 0).freeSlots) ∧
      raceSetup.NoLostWakeup t := by
  have hrun : ∃ t ∈ raceSetup.capacityWait.run raceStart
      [.scan 0 (some 0), .tryAcquire 0, .scan 1 none, .park 1, .decrement 0],
      1 ∈ t.queue.parked ∧ 0 < (raceSetup.agentAt t.load 0).freeSlots := by decide
  obtain ⟨t, ht, hparked⟩ := hrun
  have hvia : raceSetup.capacityWait.ReachVia raceSetup.SoundStep t := by
    refine ⟨raceStart, _, raceStart_initial, ?_, ht⟩
    refine ⟨trivial, trivial, trivial, fun _ _ _ => ?_, trivial, trivial⟩
    exact ⟨by decide, by decide, by decide⟩
  exact ⟨t, hvia, hparked, noLostWakeup_of_soundSteps raceSetup (by decide) hvia⟩

end HivenetRouter.Policy.CapacityWait
