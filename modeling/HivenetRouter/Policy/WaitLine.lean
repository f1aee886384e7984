import HivenetRouter.Framework.Machine
import HivenetRouter.Policy.Session

/-!
# Order and wake-ups of the wait queue

All interleavings of `WaitInLine`, `Signal`, `Broadcast` and the ends of contexts on one queue.
Every call of `WaitInLine` makes a channel of its own, and that names the call: `calls` has what
became of it. A session keeps its ticket between its calls, until it gives up its step (`reset`),
and has one call at a time. `joins` is the history of the sessions that got a new ticket; a ticket
is the place in it, and so the order of the tickets is that in which the sessions joined the line.

A call in the queue has not been sent to, and one that has been sent to is not in the queue
(`Inv.waiting`). So a channel is sent to once, and a send finds its buffer empty. A call that was
sent to receives, or finds at the end of its context that it is not in the queue and passes the
wake-up on.
-/

namespace HivenetRouter.Policy

open Function List Option WaitQueue

/-- Where a call of `WaitInLine` stands. -/
inductive CallPhase where
  /-- In the `select`. -/
  | waiting
  /-- It took the branch of the context and was not in the queue; `Signal` is next. -/
  | forwarding
  /-- `ErrQueueFull`. -/
  | refused
  /-- It returned `nil`. -/
  | woken
  /-- It took itself out of the queue, and returned the error of its context. -/
  | left
  /-- It passed its wake-up on, and returned the error of its context. -/
  | forwarded
  deriving DecidableEq

def CallPhase.active : CallPhase → Bool
  | .waiting | .forwarding => true
  | _ => false

/-- A call of `WaitInLine`. -/
structure Call (ι : Type*) where
  session : ι
  ctxDone : Bool
  /-- How often its channel was sent to. -/
  sent : ℕ
  phase : CallPhase

structure WaitLine (ι : Type*) where
  queue : WaitQueue ℕ
  /-- The calls by their channels. -/
  calls : ℕ → Option (Call ι)
  /-- The `ticket` of every session; `0` is none. -/
  tickets : ι → ℕ
  /-- The call that a session is in. -/
  current : ι → Option ℕ
  /-- The sessions that got a new ticket, in order. -/
  joins : List ι
  /-- The channels that a `Signal` has sent to, the last one first. -/
  signalled : List ℕ

inductive LineAct (ι : Type*) where
  /-- A session calls `WaitInLine`, which makes the channel `ch`. -/
  | park (i : ι) (releasedFromHold : Bool) (ch : ℕ)
  | receive (ch : ℕ)
  | ctxEnd (ch : ℕ)
  /-- The locked section of the branch of the context. -/
  | leave (ch : ℕ)
  /-- The `Signal` of that branch. -/
  | forward (ch : ℕ)
  | signal
  | broadcast
  /-- A session gives up its step. -/
  | reset (i : ι)

namespace WaitLine

variable {ι : Type*} [DecidableEq ι]

def modifyCall (s : WaitLine ι) (ch : ℕ) (f : Call ι → Call ι) : WaitLine ι :=
  { s with calls := update s.calls ch ((s.calls ch).map f) }

def send (s : WaitLine ι) (ch : ℕ) : WaitLine ι :=
  s.modifyCall ch fun c => { c with sent := c.sent + 1 }

def signal (s : WaitLine ι) : WaitLine ι :=
  match s.queue.signal with
  | (q, some ch) => { s with queue := q, signalled := ch :: s.signalled }.send ch
  | (q, none) => { s with queue := q }

def broadcast (s : WaitLine ι) : WaitLine ι :=
  s.queue.broadcast.2.foldl send { s with queue := s.queue.broadcast.1 }

def finish (s : WaitLine ι) (ch : ℕ) (c : Call ι) (phase : CallPhase) : WaitLine ι :=
  { s with
    calls := update s.calls ch (some { c with phase := phase })
    current := update s.current c.session none }

/-- The first locked section of `WaitInLine`. -/
def park (s : WaitLine ι) (i : ι) (releasedFromHold : Bool) (ch : ℕ) : Option (WaitLine ι) :=
  if s.current i = none ∧ (s.calls ch).isNone then
    match s.queue.waitInLine releasedFromHold ch (s.tickets i) with
    | none => some { s with calls := update s.calls ch (some ⟨i, false, 0, .refused⟩) }
    | some (q, ticket) =>
      some { s with
        queue := q
        calls := update s.calls ch (some ⟨i, false, 0, .waiting⟩)
        tickets := update s.tickets i ticket
        current := update s.current i (some ch)
        joins := if s.tickets i = 0 then s.joins ++ [i] else s.joins }
  else none

def receive (s : WaitLine ι) (ch : ℕ) (c : Call ι) : Option (WaitLine ι) :=
  if c.phase = .waiting ∧ c.sent ≠ 0 then some (s.finish ch c .woken) else none

/-- The locked section after `ctx.Done()`. -/
def leave (s : WaitLine ι) (ch : ℕ) (c : Call ι) : Option (WaitLine ι) :=
  if c.phase = .waiting ∧ c.ctxDone then
    match s.queue.leave ch with
    | (q, true) => some ({ s with queue := q }.finish ch c .left)
    | (q, false) =>
      some { s with queue := q, calls := update s.calls ch (some { c with phase := .forwarding }) }
  else none

/-- The `Signal` after `ctx.Done()`. -/
def forward (s : WaitLine ι) (ch : ℕ) (c : Call ι) : Option (WaitLine ι) :=
  if c.phase = .forwarding then some ((s.finish ch c .forwarded).signal) else none

def step (s : WaitLine ι) : LineAct ι → Option (WaitLine ι)
  | .park i releasedFromHold ch => s.park i releasedFromHold ch
  | .receive ch => (s.calls ch).bind (s.receive ch)
  | .ctxEnd ch => some (s.modifyCall ch fun c => { c with ctxDone := true })
  | .leave ch => (s.calls ch).bind (s.leave ch)
  | .forward ch => (s.calls ch).bind (s.forward ch)
  | .signal => some s.signal
  | .broadcast => some s.broadcast
  | .reset i => if s.current i = none then some { s with tickets := update s.tickets i 0 } else none

structure Start (s : WaitLine ι) : Prop where
  waiters : s.queue.waiters = []
  next : s.queue.next = 0
  calls : ∀ ch, s.calls ch = none
  tickets : ∀ i, s.tickets i = 0
  current : ∀ i, s.current i = none
  joins : s.joins = []
  signalled : s.signalled = []

end WaitLine

def waitLine (ι : Type*) [DecidableEq ι] : Machine (WaitLine ι) (LineAct ι) where
  Init := WaitLine.Start
  step := WaitLine.step

namespace WaitLine

variable {ι : Type*} {s t : WaitLine ι} {l : List ℕ} {ch : ℕ} {c : Call ι} {k : List ℕ}

/-! ### The invariant -/

/-- How often a call in this phase was sent to. -/
def Sent : CallPhase → ℕ → Prop
  | .waiting, n => n ≤ 1
  | .forwarding, n | .woken, n | .forwarded, n => n = 1
  | .refused, n | .left, n => n = 0

theorem Sent.le_one {phase : CallPhase} {n : ℕ} (h : Sent phase n) : n ≤ 1 := by
  cases phase <;> simp only [Sent] at h <;> omega

structure Inv (s : WaitLine ι) : Prop where
  next : s.queue.next = s.joins.length
  /-- A ticket is the place at which its session joined. -/
  ticket : ∀ i, s.tickets i ≠ 0 → s.joins[s.tickets i - 1]? = some i
  current : ∀ i ch, s.current i = some ch ↔
    ∃ c, s.calls ch = some c ∧ c.session = i ∧ c.phase.active = true
  waiter : ∀ w ∈ s.queue.waiters, ∃ c, s.calls w.ch = some c ∧ c.phase = .waiting ∧ c.sent = 0 ∧
    w.ticket = s.tickets c.session ∧ w.ticket ≠ 0
  waiting : ∀ ch c, s.calls ch = some c → c.phase = .waiting → c.sent = 0 → ch ∈ s.queue.parked
  nodup : s.queue.parked.Nodup
  sent : ∀ ch c, s.calls ch = some c → Sent c.phase c.sent
  ended : ∀ ch c, s.calls ch = some c → c.phase = .forwarding ∨ c.phase = .forwarded →
    c.ctxDone = true
  once : s.signalled.Nodup
  signalled : ∀ ch ∈ s.signalled, ∃ c, s.calls ch = some c ∧ c.sent = 1

theorem inv_start (h : s.Start) : s.Inv where
  next := by simp [h.next, h.joins]
  ticket i hi := absurd (h.tickets i) hi
  current i ch := by simp [h.current i, h.calls ch]
  waiter w hw := by simp [h.waiters] at hw
  waiting ch c hc := by simp [h.calls ch] at hc
  nodup := by simp [parked, h.waiters]
  sent ch c hc := by simp [h.calls ch] at hc
  ended ch c hc := by simp [h.calls ch] at hc
  once := by simp [h.signalled]
  signalled ch hch := by simp [h.signalled] at hch

namespace Inv

variable (h : s.Inv)

include h

theorem eq_of_ticket {i j : ι} (hi : s.tickets i ≠ 0) (hij : s.tickets i = s.tickets j) :
    i = j := by
  have hi' := h.ticket i hi
  have hj' := h.ticket j (hij ▸ hi)
  rw [hij] at hi'
  exact mem_unique hi' hj'

theorem eq_of_session {ch ch' : ℕ} {c c' : Call ι} (hc : s.calls ch = some c)
    (hc' : s.calls ch' = some c') (hactive : c.phase.active = true)
    (hactive' : c'.phase.active = true) (hsession : c.session = c'.session) : ch = ch' := by
  have hcur := (h.current c.session ch).mpr ⟨c, hc, rfl, hactive⟩
  have hcur' := (h.current c.session ch').mpr ⟨c', hc', hsession.symm, hactive'⟩
  exact mem_unique hcur hcur'

theorem ch_of_ticket {v w : Waiter ℕ} (hv : v ∈ s.queue.waiters)
    (hw : w ∈ s.queue.waiters) (hticket : v.ticket = w.ticket) : v.ch = w.ch := by
  obtain ⟨c, hc, hphase, -, hvt, hne⟩ := h.waiter v hv
  obtain ⟨c', hc', hphase', -, hwt, -⟩ := h.waiter w hw
  have hsession := h.eq_of_ticket (hvt ▸ hne) (hvt.symm.trans (hticket.trans hwt))
  exact h.eq_of_session hc hc' (by rw [hphase]; rfl) (by rw [hphase']; rfl) hsession

/-- **The waiters are strictly ordered by ticket.** -/
theorem strict : s.queue.waiters.Pairwise fun v w => v.ticket < w.ticket := by
  have hch : s.queue.waiters.Pairwise fun v w => v.ch ≠ w.ch := pairwise_map.mp h.nodup
  refine (s.queue.ordered.and hch).imp_of_mem fun hv hw hvw => ?_
  exact Nat.lt_of_le_of_ne hvw.1 fun hticket => hvw.2 (h.ch_of_ticket hv hw hticket)

theorem call_of_parked {ch : ℕ} (hch : ch ∈ s.queue.parked) :
    ∃ c, s.calls ch = some c ∧ c.phase = .waiting ∧ c.sent = 0 := by
  obtain ⟨w, hw, rfl⟩ := mem_map.mp hch
  obtain ⟨c, hc, hphase, hsent, -⟩ := h.waiter w hw
  exact ⟨c, hc, hphase, hsent⟩

end Inv

/-- **What a step keeps**: the invariant, and the result of every call that has returned. -/
structure Keeps (s t : WaitLine ι) : Prop where
  inv : t.Inv
  phase : ∀ {ch c}, s.calls ch = some c → c.phase.active = false →
    ∃ c', t.calls ch = some c' ∧ c'.phase = c.phase

theorem Keeps.trans {u : WaitLine ι} (h : Keeps s t) (h' : Keeps t u) : Keeps s u where
  inv := h'.inv
  phase hc hover := by
    obtain ⟨c', hc', hphase⟩ := h.phase hc hover
    obtain ⟨c'', hc'', hphase'⟩ := h'.phase hc' (by rw [hphase]; exact hover)
    exact ⟨c'', hc'', hphase'.trans hphase⟩

/-! ### Wake-ups -/

/-- The calls of `l`, at the head of the queue, leave it and are sent to; a `Signal` notes them in
`k`. -/
structure Woke (s t : WaitLine ι) (l k : List ℕ) : Prop where
  waiters : ∃ ws, s.queue.waiters = ws ++ t.queue.waiters ∧ ws.map (·.ch) = l
  next : t.queue.next = s.queue.next
  calls : ∀ ch, t.calls ch =
    if ch ∈ l then (s.calls ch).map fun c => { c with sent := c.sent + 1 } else s.calls ch
  tickets : t.tickets = s.tickets
  current : t.current = s.current
  joins : t.joins = s.joins
  signalled : t.signalled = k ++ s.signalled

/-- A call after the wake-up: the same but for what was sent to it. -/
theorem Woke.call_cases (hw : Woke s t l k) (hc : t.calls ch = some c) :
    ∃ c₀, s.calls ch = some c₀ ∧ c.session = c₀.session ∧ c.phase = c₀.phase ∧
      c.ctxDone = c₀.ctxDone ∧ c.sent = if ch ∈ l then c₀.sent + 1 else c₀.sent := by
  rw [hw.calls ch] at hc
  split at hc
  · next hl =>
    obtain ⟨c₀, hc₀, rfl⟩ := map_eq_some_iff.mp hc
    exact ⟨c₀, hc₀, rfl, rfl, rfl, (if_pos hl).symm⟩
  · next hl => exact ⟨c, hc, rfl, rfl, rfl, (if_neg hl).symm⟩

theorem Woke.exists_call (hw : Woke s t l k) (hc : s.calls ch = some c) :
    ∃ c', t.calls ch = some c' ∧ c'.session = c.session ∧ c'.phase = c.phase ∧
      c'.sent = if ch ∈ l then c.sent + 1 else c.sent := by
  rw [hw.calls ch, hc]
  split
  · exact ⟨_, rfl, rfl, rfl, rfl⟩
  · exact ⟨c, rfl, rfl, rfl, rfl⟩

/-- **A wake-up keeps the invariant**: the calls had not been sent to, and are out of the queue. -/
theorem Inv.woke (h : s.Inv) (hw : Woke s t l k) (hk : k.Nodup) (hkl : k ⊆ l) : Keeps s t := by
  refine ⟨?_, fun hc _ => (hw.exists_call hc).imp fun _ hc' => ⟨hc'.1, hc'.2.2.1⟩⟩
  obtain ⟨ws, hws, hl⟩ := hw.waiters
  have hparked : s.queue.parked = l ++ t.queue.parked := by
    rw [parked, hws, map_append, hl, parked]
  have hnodup := h.nodup
  rw [hparked] at hnodup
  have hdisjoint := disjoint_of_nodup_append hnodup
  have hin : ∀ ch ∈ l, ch ∈ s.queue.parked := fun ch hch => by
    rw [hparked]
    exact mem_append_left _ hch
  refine ⟨?_, ?_, ?_, ?_, ?_, hnodup.of_append_right, ?_, ?_, ?_, ?_⟩
  · rw [hw.next, hw.joins, h.next]
  · rw [hw.tickets, hw.joins]
    exact h.ticket
  · intro i ch
    rw [hw.current, h.current i ch]
    constructor
    · rintro ⟨c, hc, hsession, hactive⟩
      obtain ⟨c', hc', hsession', hphase', -⟩ := hw.exists_call hc
      exact ⟨c', hc', hsession'.trans hsession, by rw [hphase']; exact hactive⟩
    · rintro ⟨c, hc, hsession, hactive⟩
      obtain ⟨c₀, hc₀, hsession₀, hphase₀, -⟩ := hw.call_cases hc
      exact ⟨c₀, hc₀, hsession₀.symm.trans hsession, by rw [← hphase₀]; exact hactive⟩
  · intro w hmem
    have hmem' : w ∈ s.queue.waiters := by
      rw [hws]
      exact mem_append_right _ hmem
    obtain ⟨c, hc, hphase, hsent, hticket, hne⟩ := h.waiter w hmem'
    obtain ⟨c', hc', hsession', hphase', hsent'⟩ := hw.exists_call hc
    -- the call is still in the queue, and so none of `l`
    have hnot : w.ch ∉ l := fun hl' => hdisjoint hl' (mem_map_of_mem hmem)
    rw [if_neg hnot] at hsent'
    refine ⟨c', hc', hphase'.trans hphase, hsent'.trans hsent, ?_, hne⟩
    rw [hw.tickets, hsession', hticket]
  · intro ch c hc hphase hsent
    obtain ⟨c₀, hc₀, -, hphase₀, -, hsent₀⟩ := hw.call_cases hc
    have hnot : ch ∉ l := by
      intro hl'
      rw [if_pos hl'] at hsent₀
      omega
    rw [if_neg hnot] at hsent₀
    have hbefore := h.waiting ch c₀ hc₀ (hphase₀.symm.trans hphase) (hsent₀.symm.trans hsent)
    rw [hparked] at hbefore
    exact (mem_append.mp hbefore).resolve_left hnot
  · intro ch c hc
    obtain ⟨c₀, hc₀, -, hphase₀, -, hsent₀⟩ := hw.call_cases hc
    rw [hphase₀, hsent₀]
    split
    · next hl' =>
      obtain ⟨c₁, hc₁, hwaiting, hzero⟩ := h.call_of_parked (hin ch hl')
      obtain rfl : c₁ = c₀ := mem_unique hc₁ hc₀
      rw [hwaiting, hzero]
      exact Nat.le_refl 1
    · exact h.sent ch c₀ hc₀
  · intro ch c hc hphase
    obtain ⟨c₀, hc₀, -, hphase₀, hctx₀, -⟩ := hw.call_cases hc
    rw [hctx₀]
    exact h.ended ch c₀ hc₀ (by rwa [hphase₀] at hphase)
  · rw [hw.signalled]
    refine nodup_append.mpr ⟨hk, h.once, ?_⟩
    -- a channel that was signalled before is not in the queue
    rintro ch hch _ hsig rfl
    obtain ⟨c, hc, hone⟩ := h.signalled ch hsig
    obtain ⟨c₁, hc₁, -, hzero⟩ := h.call_of_parked (hin ch (hkl hch))
    obtain rfl : c₁ = c := mem_unique hc₁ hc
    omega
  · intro ch hch
    rw [hw.signalled] at hch
    rcases mem_append.mp hch with hnew | hold
    · obtain ⟨c, hc, -, hzero⟩ := h.call_of_parked (hin ch (hkl hnew))
      obtain ⟨c', hc', -, -, hsent'⟩ := hw.exists_call hc
      rw [if_pos (hkl hnew), hzero] at hsent'
      exact ⟨c', hc', hsent'⟩
    · obtain ⟨c, hc, hone⟩ := h.signalled ch hold
      have hnot : ch ∉ l := by
        intro hl'
        obtain ⟨c₁, hc₁, -, hzero⟩ := h.call_of_parked (hin ch hl')
        obtain rfl : c₁ = c := mem_unique hc₁ hc
        omega
      obtain ⟨c', hc', -, -, hsent'⟩ := hw.exists_call hc
      rw [if_neg hnot] at hsent'
      exact ⟨c', hc', hsent'.trans hone⟩

theorem foldl_send (hl : l.Nodup) (s : WaitLine ι) :
    l.foldl send s = { s with calls := fun ch =>
      if ch ∈ l then (s.calls ch).map fun c => { c with sent := c.sent + 1 } else s.calls ch } := by
  induction l generalizing s with
  | nil => simp
  | cons x l ih =>
    obtain ⟨hx, hl⟩ := nodup_cons.mp hl
    rw [foldl_cons, ih hl]
    unfold send modifyCall
    congr 1
    funext ch
    by_cases hch : ch = x
    · subst hch
      simp [hx]
    · simp [hch]

theorem woke_signal (s : WaitLine ι) :
    Woke s s.signal s.queue.parked.head?.toList s.queue.parked.head?.toList := by
  unfold signal
  cases hq : s.queue.waiters with
  | nil =>
    have hsignal : s.queue.signal.2 = none := by simp [parked, hq]
    have hwaiters : s.queue.signal.1.waiters = [] := by simp [WaitQueue.signal, hq]
    rw [show s.queue.signal = (s.queue.signal.1, none) from Prod.ext rfl hsignal]
    have hnone : s.queue.parked.head? = none := by simp [parked, hq]
    rw [hnone]
    refine ⟨⟨[], ?_, rfl⟩, rfl, fun ch => by simp, rfl, rfl, rfl, rfl⟩
    rw [hq, hwaiters]
    rfl
  | cons w ws =>
    have hsignal : s.queue.signal.2 = some w.ch := by simp [parked, hq]
    have hwaiters : s.queue.signal.1.waiters = ws := by simp [WaitQueue.signal, hq]
    rw [show s.queue.signal = (s.queue.signal.1, some w.ch) from Prod.ext rfl hsignal]
    have hsome : s.queue.parked.head? = some w.ch := by simp [parked, hq]
    rw [hsome]
    refine ⟨⟨[w], ?_, rfl⟩, rfl, fun ch => ?_, rfl, rfl, rfl, rfl⟩
    · rw [hq]
      exact congrArg (w :: ·) hwaiters.symm
    · -- the channel is buffered, so that the send does not wait
      by_cases hch : ch = w.ch
      · subst hch
        simp [send, modifyCall]
      · simp [send, modifyCall, hch]

theorem Inv.signal (h : s.Inv) : Keeps s s.signal := by
  refine h.woke (woke_signal s) ?_ (List.Subset.refl _)
  cases s.queue.parked.head? <;> simp

theorem Inv.broadcast (h : s.Inv) : Keeps s s.broadcast := by
  unfold WaitLine.broadcast
  rw [foldl_send (show s.queue.broadcast.2.Nodup from h.nodup)]
  refine h.woke (l := s.queue.parked) (k := []) ?_ nodup_nil (nil_subset _)
  exact ⟨⟨s.queue.waiters, (append_nil _).symm, rfl⟩, rfl, fun _ => rfl, rfl, rfl, rfl, rfl⟩

/-! ### The steps of a call -/

/-- One call goes on, and at most it leaves the queue. -/
structure Moved (s t : WaitLine ι) (ch : ℕ) (c c' : Call ι) : Prop where
  call : s.calls ch = some c
  calls : t.calls = update s.calls ch (some c')
  session : c'.session = c.session
  sent : c'.sent = c.sent
  next : t.queue.next = s.queue.next
  waiters : t.queue.waiters.Sublist s.queue.waiters
  others : ∀ ch' ∈ s.queue.parked, ch' ≠ ch → ch' ∈ t.queue.parked
  parked : ch ∈ t.queue.parked ↔ c'.phase = .waiting ∧ c'.sent = 0
  current : ∀ i ch', t.current i = some ch' ↔
    if ch' = ch then i = c.session ∧ c'.phase.active = true else s.current i = some ch'
  tickets : t.tickets = s.tickets
  joins : t.joins = s.joins
  signalled : t.signalled = s.signalled

/-- **A call that goes on keeps the invariant.** -/
theorem Inv.moved (h : s.Inv) {c' : Call ι} (hm : Moved s t ch c c')
    (hsent : Sent c'.phase c'.sent)
    (hended : c'.phase = .forwarding ∨ c'.phase = .forwarded → c'.ctxDone = true)
    (hover : c.phase.active = true ∨ c'.phase = c.phase) : Keeps s t := by
  have hself : t.calls ch = some c' := by rw [hm.calls, update_self]
  have hother : ∀ {ch'}, ch' ≠ ch → t.calls ch' = s.calls ch' := fun hne => by
    rw [hm.calls, update_of_ne hne]
  refine ⟨?_, fun {ch' c₀} hc₀ hret => ?_⟩
  rotate_left
  · by_cases hch : ch' = ch
    · subst hch
      obtain rfl : c = c₀ := mem_unique hm.call hc₀
      exact ⟨c', hself, hover.resolve_left (Bool.not_eq_true _ ▸ hret)⟩
    · exact ⟨c₀, (hother hch).trans hc₀, rfl⟩
  refine ⟨?_, ?_, ?_, ?_, ?_, h.nodup.sublist (hm.waiters.map _), ?_, ?_, ?_, ?_⟩
  · rw [hm.next, hm.joins, h.next]
  · rw [hm.tickets, hm.joins]
    exact h.ticket
  · intro i ch'
    rw [hm.current i ch']
    by_cases hch : ch' = ch
    · subst hch
      rw [if_pos rfl, hself]
      constructor
      · rintro ⟨rfl, hactive⟩
        exact ⟨c', rfl, hm.session, hactive⟩
      · rintro ⟨_, hcall, hsession, hactive⟩
        cases hcall
        exact ⟨hsession.symm.trans hm.session, hactive⟩
    · rw [if_neg hch, hother hch]
      exact h.current i ch'
  · intro w hw
    obtain ⟨c₀, hc₀, hphase, hzero, hticket, hne⟩ := h.waiter w (hm.waiters.subset hw)
    rw [hm.tickets]
    by_cases hch : w.ch = ch
    · -- the call that goes on is in the queue as long as it waits unsent
      obtain ⟨hphase', hzero'⟩ := hm.parked.mp (hch ▸ mem_map_of_mem hw)
      rw [hch] at hc₀ ⊢
      obtain rfl : c = c₀ := mem_unique hm.call hc₀
      exact ⟨c', hself, hphase', hzero', by rw [hm.session]; exact hticket, hne⟩
    · exact ⟨c₀, (hother hch).trans hc₀, hphase, hzero, hticket, hne⟩
  · intro ch' c₀ hc₀ hphase hzero
    by_cases hch : ch' = ch
    · subst hch
      obtain rfl : c' = c₀ := mem_unique hself hc₀
      exact hm.parked.mpr ⟨hphase, hzero⟩
    · rw [hother hch] at hc₀
      exact hm.others ch' (h.waiting ch' c₀ hc₀ hphase hzero) hch
  · intro ch' c₀ hc₀
    by_cases hch : ch' = ch
    · subst hch
      obtain rfl : c' = c₀ := mem_unique hself hc₀
      exact hsent
    · exact h.sent ch' c₀ ((hother hch).symm.trans hc₀)
  · intro ch' c₀ hc₀
    by_cases hch : ch' = ch
    · subst hch
      obtain rfl : c' = c₀ := mem_unique hself hc₀
      exact hended
    · exact h.ended ch' c₀ ((hother hch).symm.trans hc₀)
  · rw [hm.signalled]
    exact h.once
  · intro ch' hch'
    rw [hm.signalled] at hch'
    obtain ⟨c₀, hc₀, hone⟩ := h.signalled ch' hch'
    by_cases hch : ch' = ch
    · subst hch
      obtain rfl : c = c₀ := mem_unique hm.call hc₀
      exact ⟨c', hself, hm.sent.trans hone⟩
    · exact ⟨c₀, (hother hch).trans hc₀, hone⟩

/-- A call is in the queue if it waits and was not sent to. -/
theorem Inv.mem_parked_iff (h : s.Inv) (hc : s.calls ch = some c) :
    ch ∈ s.queue.parked ↔ c.phase = .waiting ∧ c.sent = 0 := by
  constructor
  · intro hch
    obtain ⟨c₀, hc₀, hphase, hzero⟩ := h.call_of_parked hch
    obtain rfl : c = c₀ := mem_unique hc hc₀
    exact ⟨hphase, hzero⟩
  · exact fun ⟨hphase, hzero⟩ => h.waiting ch c hc hphase hzero

theorem Inv.current_iff (h : s.Inv) (hc : s.calls ch = some c) {active : Bool}
    (hactive : active = c.phase.active) (i : ι) (ch' : ℕ) :
    s.current i = some ch' ↔
      if ch' = ch then i = c.session ∧ active = true else s.current i = some ch' := by
  by_cases hch : ch' = ch
  · subst hch
    rw [if_pos rfl, h.current i ch', hactive]
    constructor
    · rintro ⟨c₀, hc₀, rfl, hact⟩
      obtain rfl : c = c₀ := mem_unique hc hc₀
      exact ⟨rfl, hact⟩
    · rintro ⟨rfl, hact⟩
      exact ⟨c, hc, rfl, hact⟩
  · rw [if_neg hch]

section Steps

variable [DecidableEq ι] {i : ι} {q q' : WaitQueue ℕ} {released : Bool}

/-- The session of a call that returns is in no call. -/
theorem Inv.current_finish (h : s.Inv) (hc : s.calls ch = some c)
    (hactive : c.phase.active = true) (i : ι) (ch' : ℕ) :
    update s.current c.session none i = some ch' ↔
      if ch' = ch then i = c.session ∧ false = true else s.current i = some ch' := by
  have hcur : s.current c.session = some ch := (h.current _ ch).mpr ⟨c, hc, rfl, hactive⟩
  by_cases hi : i = c.session
  · subst hi
    rw [update_self, hcur]
    by_cases hch : ch' = ch
    · simp [hch]
    · simp [hch, Ne.symm hch]
  · rw [update_of_ne hi]
    by_cases hch : ch' = ch
    · subst hch
      simp only [hi, false_and, if_true, iff_false]
      intro hi'
      obtain ⟨c₀, hc₀, hsession, -⟩ := (h.current i ch').mp hi'
      obtain rfl : c = c₀ := mem_unique hc hc₀
      exact hi hsession.symm
    · rw [if_neg hch]

theorem Inv.moved_finish (h : s.Inv) (hc : s.calls ch = some c) (hactive : c.phase.active = true)
    (hout : ch ∉ s.queue.parked) {phase : CallPhase} (hphase : phase.active = false) :
    Moved s (s.finish ch c phase) ch c { c with phase := phase } where
  call := hc
  calls := rfl
  session := rfl
  sent := rfl
  next := rfl
  waiters := List.Sublist.refl _
  others _ hch' _ := hch'
  parked := by
    refine iff_of_false hout ?_
    rintro ⟨hwaiting, -⟩
    rw [show phase = .waiting from hwaiting] at hphase
    cases hphase
  current i ch' := by
    show update s.current c.session none i = some ch' ↔ _
    rw [h.current_finish hc hactive i ch']
    simp only [hphase]
  tickets := rfl
  joins := rfl
  signalled := rfl

theorem Inv.receive (h : s.Inv) (hc : s.calls ch = some c) (hstep : s.receive ch c = some t) :
    Keeps s t := by
  obtain ⟨⟨hphase, hsent⟩, hstep⟩ := ite_none_right_eq_some.mp hstep
  obtain rfl := some.inj hstep
  have hout : ch ∉ s.queue.parked := fun hin => hsent ((h.mem_parked_iff hc).mp hin).2
  have hone : c.sent = 1 := by
    have := (h.sent ch c hc).le_one
    omega
  have hactive : c.phase.active = true := by rw [hphase]; rfl
  exact h.moved (h.moved_finish hc hactive hout rfl) hone (by simp) (.inl hactive)

omit [DecidableEq ι] in
theorem Inv.ctxEnd (h : s.Inv) (ch : ℕ) :
    Keeps s (s.modifyCall ch fun c => { c with ctxDone := true }) := by
  unfold modifyCall
  cases hc : s.calls ch with
  | none =>
    rw [map_none, ← hc, update_eq_self]
    exact ⟨h, fun hc _ => ⟨_, hc, rfl⟩⟩
  | some c =>
    have hparked : ch ∈ s.queue.parked ↔ c.phase = .waiting ∧ c.sent = 0 := h.mem_parked_iff hc
    have hmoved : Moved s { s with calls := update s.calls ch (some { c with ctxDone := true }) } ch
        c { c with ctxDone := true } :=
      ⟨hc, rfl, rfl, rfl, rfl, List.Sublist.refl _, fun _ hch' _ => hch', hparked,
        h.current_iff hc rfl, rfl, rfl, rfl⟩
    exact h.moved hmoved (h.sent ch c hc) (fun _ => rfl) (.inr rfl)

/-- The waiters that stay when a call takes itself out. -/
theorem waiters_leave (q : WaitQueue ℕ) (ch : ℕ) : (q.leave ch).1.waiters.Sublist q.waiters :=
  eraseP_sublist

theorem Inv.leave (h : s.Inv) (hc : s.calls ch = some c) (hstep : s.leave ch c = some t) :
    Keeps s t := by
  obtain ⟨⟨hphase, hctx⟩, hstep⟩ := ite_none_right_eq_some.mp hstep
  have hactive : c.phase.active = true := by rw [hphase]; rfl
  have hparked := parked_leave s.queue ch
  have hnotin : ch ∉ (s.queue.leave ch).1.parked := by
    rw [hparked]
    exact h.nodup.not_mem_erase
  have hothers : ∀ ch' ∈ s.queue.parked, ch' ≠ ch → ch' ∈ (s.queue.leave ch).1.parked := by
    intro ch' hch' hne
    rw [hparked]
    exact (mem_erase_of_ne hne).mpr hch'
  have hfound := leave_snd s.queue ch
  split at hstep
  · next q hq =>
    -- it was in the queue, and was not sent to
    obtain rfl := some.inj hstep
    rw [hq] at hparked hnotin hothers hfound
    have hzero := ((h.mem_parked_iff hc).mp (of_decide_eq_true hfound.symm)).2
    have hmoved : Moved s ({ s with queue := q }.finish ch c .left) ch c
        { c with phase := .left } := by
      refine ⟨hc, rfl, rfl, rfl, ?_, ?_, hothers, iff_of_false hnotin (by simp),
        h.current_finish hc hactive, rfl, rfl, rfl⟩
      · exact (congrArg (fun x : WaitQueue ℕ × Bool => x.1.next) hq).symm
      · have hsub := waiters_leave s.queue ch
        rwa [hq] at hsub
    exact h.moved hmoved hzero (by simp) (.inl hactive)
  · next q hq =>
    -- it was sent to before
    obtain rfl := some.inj hstep
    rw [hq] at hparked hnotin hothers hfound
    have hone : c.sent = 1 := by
      have hle := (h.sent ch c hc).le_one
      have hne : c.sent ≠ 0 := fun hzero =>
        of_decide_eq_false hfound.symm (h.waiting ch c hc hphase hzero)
      omega
    have hmoved : Moved s
        { s with queue := q, calls := update s.calls ch (some { c with phase := .forwarding }) }
          ch c
        { c with phase := .forwarding } := by
      refine ⟨hc, rfl, rfl, rfl, ?_, ?_, hothers, iff_of_false hnotin (by simp),
        h.current_iff hc hactive.symm, rfl, rfl, rfl⟩
      · exact (congrArg (fun x : WaitQueue ℕ × Bool => x.1.next) hq).symm
      · have hsub := waiters_leave s.queue ch
        rwa [hq] at hsub
    exact h.moved hmoved hone (fun _ => hctx) (.inl hactive)

theorem Inv.forward (h : s.Inv) (hc : s.calls ch = some c) (hstep : s.forward ch c = some t) :
    Keeps s t := by
  obtain ⟨hphase, hstep⟩ := ite_none_right_eq_some.mp hstep
  obtain rfl := some.inj hstep
  have hsent := h.sent ch c hc
  rw [hphase] at hsent
  have hout : ch ∉ s.queue.parked := fun hin => by
    have := ((h.mem_parked_iff hc).mp hin).1
    rw [hphase] at this
    cases this
  have hactive : c.phase.active = true := by rw [hphase]; rfl
  have hfinished : Keeps s (s.finish ch c .forwarded) := h.moved
    (h.moved_finish hc hactive hout rfl) hsent (fun _ => h.ended ch c hc (.inl hphase))
      (.inl hactive)
  exact hfinished.trans hfinished.inv.signal

theorem Inv.reset (h : s.Inv) (hfree : s.current i = none) :
    Keeps s { s with tickets := update s.tickets i 0 } := by
  refine ⟨{ h with ticket := fun j hj => ?_, waiter := fun w hw => ?_ }, fun hc _ => ⟨_, hc, rfl⟩⟩
  · by_cases hji : j = i
    · subst hji
      exact absurd (update_self ..) hj
    · have hticket : update s.tickets i 0 j = s.tickets j := update_of_ne hji ..
      show s.joins[update s.tickets i 0 j - 1]? = some j
      rw [hticket]
      exact h.ticket j (hticket ▸ hj)
  · obtain ⟨c, hc, hphase, hzero, hticket, hne⟩ := h.waiter w hw
    refine ⟨c, hc, hphase, hzero, ?_, hne⟩
    -- the session of a waiter is in a call
    have hsession : c.session ≠ i := by
      rintro rfl
      have hcur := (h.current c.session w.ch).mpr ⟨c, hc, rfl, by rw [hphase]; rfl⟩
      cases hfree.symm.trans hcur
    exact hticket.trans (update_of_ne hsession ..).symm

/-! ### Parking -/

variable {ticket ticket' : ℕ} {act : LineAct ι}

theorem waitInLine_eq_some (h : q.waitInLine released ch ticket = some (q', ticket')) :
    q'.waiters = insertWaiter ⟨ch, ticket'⟩ q.waiters ∧
      if ticket = 0 then ticket' = q.next + 1 ∧ q'.next = q.next + 1
      else ticket' = ticket ∧ q'.next = q.next := by
  unfold waitInLine at h
  split_ifs at h with hzero hfull <;> cases h
  · exact ⟨rfl, by rw [if_pos hzero]; exact ⟨rfl, rfl⟩⟩
  · exact ⟨rfl, by rw [if_neg hzero]; exact ⟨rfl, rfl⟩⟩

/-- **Who is refused**: a session without a ticket that was not released from a hold, when the queue
holds its bound. -/
theorem waitInLine_eq_none_iff :
    q.waitInLine released ch ticket = none ↔ ticket = 0 ∧ released = false ∧ q.bound ≤ q.depth := by
  unfold waitInLine
  split_ifs with hzero hfull
  · simpa [hzero, and_comm] using hfull
  · simpa [hzero, and_comm] using hfull
  · simp [hzero]

/-- A session without a call begins one, on a new channel. -/
structure Began (s t : WaitLine ι) (ch : ℕ) (c : Call ι) : Prop where
  fresh : s.calls ch = none
  self : t.calls ch = some c
  other : ∀ ch' ≠ ch, t.calls ch' = s.calls ch'
  sent : c.sent = 0
  phase : c.phase = .waiting ∨ c.phase = .refused
  next : t.queue.next = t.joins.length
  ticket : ∀ i, t.tickets i ≠ 0 → t.joins[t.tickets i - 1]? = some i
  /-- Only the ticket of the session changes, which has no other call. -/
  tickets : ∀ i ≠ c.session, t.tickets i = s.tickets i
  idle : s.current c.session = none
  current : ∀ i ch', t.current i = some ch' ↔
    if ch' = ch then i = c.session ∧ c.phase.active = true else s.current i = some ch'
  waiters : ∀ w, w ∈ t.queue.waiters ↔
    w ∈ s.queue.waiters ∨ c.phase = .waiting ∧ w = ⟨ch, t.tickets c.session⟩
  nodup : t.queue.parked.Nodup
  ticket_ne : c.phase = .waiting → t.tickets c.session ≠ 0
  signalled : t.signalled = s.signalled

omit [DecidableEq ι] in
theorem Inv.began (h : s.Inv) (hb : Began s t ch c) : Keeps s t := by
  have hold : ∀ {ch' c'}, s.calls ch' = some c' → ch' ≠ ch := by
    rintro ch' c' hc' rfl
    cases hb.fresh.symm.trans hc'
  refine ⟨?_, fun hc' _ => ⟨_, (hb.other _ (hold hc')).trans hc', rfl⟩⟩
  -- a call afterwards is the new one, or one from before
  have hcases : ∀ {ch' c'}, t.calls ch' = some c' → ch' = ch ∧ c' = c ∨ s.calls ch' = some c' := by
    intro ch' c' hc'
    by_cases hch : ch' = ch
    · subst hch
      exact .inl ⟨rfl, mem_unique hc' hb.self⟩
    · exact .inr ((hb.other ch' hch).symm.trans hc')
  refine ⟨hb.next, hb.ticket, ?_, ?_, ?_, hb.nodup, ?_, ?_, ?_, ?_⟩
  · intro i ch'
    rw [hb.current i ch']
    by_cases hch : ch' = ch
    · subst hch
      rw [if_pos rfl, hb.self]
      constructor
      · rintro ⟨rfl, hactive⟩
        exact ⟨c, rfl, rfl, hactive⟩
      · rintro ⟨_, hc', rfl, hactive⟩
        cases hc'
        exact ⟨rfl, hactive⟩
    · rw [if_neg hch, hb.other ch' hch]
      exact h.current i ch'
  · intro w hw
    rcases (hb.waiters w).mp hw with hbefore | ⟨hphase, rfl⟩
    · obtain ⟨c', hc', hphase, hzero, hticket, hne⟩ := h.waiter w hbefore
      have hsession : c'.session ≠ c.session := by
        intro heq
        have hcur := (h.current c'.session w.ch).mpr ⟨c', hc', rfl, by rw [hphase]; rfl⟩
        rw [heq, hb.idle] at hcur
        cases hcur
      refine ⟨c', (hb.other _ (hold hc')).trans hc', hphase, hzero, ?_, hne⟩
      rw [hb.tickets _ hsession, hticket]
    · exact ⟨c, hb.self, hphase, hb.sent, rfl, hb.ticket_ne hphase⟩
  · intro ch' c' hc' hphase hzero
    rcases hcases hc' with ⟨rfl, rfl⟩ | hbefore
    · exact mem_map.mpr ⟨_, (hb.waiters _).mpr (.inr ⟨hphase, rfl⟩), rfl⟩
    · obtain ⟨w, hw, rfl⟩ := mem_map.mp (h.waiting ch' c' hbefore hphase hzero)
      exact mem_map.mpr ⟨w, (hb.waiters w).mpr (.inl hw), rfl⟩
  · intro ch' c' hc'
    rcases hcases hc' with ⟨rfl, rfl⟩ | hbefore
    · rcases hb.phase with hphase | hphase <;> rw [hphase, hb.sent] <;> simp [Sent]
    · exact h.sent ch' c' hbefore
  · intro ch' c' hc' hphase
    rcases hcases hc' with ⟨rfl, rfl⟩ | hbefore
    · rcases hb.phase with hphase' | hphase' <;> simp [hphase'] at hphase
    · exact h.ended ch' c' hbefore hphase
  · rw [hb.signalled]
    exact h.once
  · intro ch' hch'
    rw [hb.signalled] at hch'
    obtain ⟨c', hc', hone⟩ := h.signalled ch' hch'
    exact ⟨c', (hb.other ch' (hold hc')).trans hc', hone⟩

theorem Inv.current_began (h : s.Inv) (hfresh : s.calls ch = none) (hidle : s.current i = none)
    (j : ι) (ch' : ℕ) :
    update s.current i (some ch) j = some ch' ↔
      if ch' = ch then j = i ∧ true = true else s.current j = some ch' := by
  have hnone : ∀ j, s.current j ≠ some ch := by
    intro j hj
    obtain ⟨c, hc, -⟩ := (h.current j ch).mp hj
    cases hfresh.symm.trans hc
  by_cases hj : j = i
  · subst hj
    by_cases hch : ch' = ch
    · simp [hch]
    · simp [hch, hidle, Ne.symm hch]
  · rw [update_of_ne hj]
    by_cases hch : ch' = ch
    · subst hch
      simp [hj, hnone j]
    · simp [hch]

theorem Inv.ticket_parked (h : s.Inv)
    (hticket : if s.tickets i = 0 then ticket' = s.queue.next + 1 ∧ q'.next = s.queue.next + 1
      else ticket' = s.tickets i ∧ q'.next = s.queue.next) :
    q'.next = (if s.tickets i = 0 then s.joins ++ [i] else s.joins).length ∧ ticket' ≠ 0 ∧
      ∀ j, update s.tickets i ticket' j ≠ 0 →
        (if s.tickets i = 0 then s.joins ++ [i] else s.joins)[update s.tickets i ticket' j - 1]? =
          some j := by
  by_cases hzero : s.tickets i = 0
  · simp only [hzero, if_true] at hticket ⊢
    obtain ⟨rfl, hnext⟩ := hticket
    refine ⟨by rw [hnext, h.next]; simp, by omega, fun j hj => ?_⟩
    by_cases hji : j = i
    · subst hji
      rw [update_self, h.next]
      simp
    · rw [update_of_ne hji] at hj ⊢
      -- the tickets of the others are places in the history before
      have hbefore := h.ticket j hj
      have hlt := (List.getElem?_eq_some_iff.mp hbefore).1
      rw [getElem?_append_left hlt]
      exact hbefore
  · simp only [hzero, if_false] at hticket ⊢
    obtain ⟨rfl, hnext⟩ := hticket
    refine ⟨by rw [hnext, h.next], hzero, fun j hj => ?_⟩
    rw [update_eq_self] at hj ⊢
    exact h.ticket j hj

theorem Inv.park (h : s.Inv) (hstep : s.park i released ch = some t) : Keeps s t := by
  obtain ⟨⟨hidle, hfresh⟩, hstep⟩ := ite_none_right_eq_some.mp hstep
  rw [isNone_iff_eq_none] at hfresh
  split at hstep
  · -- the queue is full
    obtain rfl := some.inj hstep
    -- the queue is unchanged, and the call has returned at once
    refine h.began (c := ⟨i, false, 0, .refused⟩)
      ⟨hfresh, update_self .., fun ch' hne => update_of_ne hne .., rfl, .inr rfl, h.next, h.ticket,
        fun _ _ => rfl, hidle, fun j ch' => ?_, fun w => by simp, h.nodup, by simp, rfl⟩
    by_cases hch : ch' = ch
    · subst hch
      refine iff_of_false (fun hj => ?_) (by simp [CallPhase.active])
      obtain ⟨c, hc, -⟩ := (h.current j ch').mp hj
      cases hfresh.symm.trans hc
    · rw [if_neg hch]
  · next q' ticket' hq =>
    obtain rfl := some.inj hstep
    obtain ⟨hwaiters, hticket⟩ := waitInLine_eq_some hq
    obtain ⟨hnext, hne, htickets⟩ := h.ticket_parked hticket
    have hself : update s.tickets i ticket' i = ticket' := update_self ..
    have hperm := insertWaiter_perm ⟨ch, ticket'⟩ s.queue.waiters
    refine h.began (c := ⟨i, false, 0, .waiting⟩)
      ⟨hfresh, update_self .., fun ch' hne' => update_of_ne hne' .., rfl, .inl rfl, hnext, htickets,
        fun j hj => update_of_ne hj .., hidle, h.current_began hfresh hidle, fun w => ?_, ?_,
        fun _ => ?_, rfl⟩
    · show w ∈ q'.waiters ↔ _ ∨ _ ∧ w = ⟨ch, update s.tickets i ticket' i⟩
      rw [hself, hwaiters, hperm.mem_iff, mem_cons]
      simp [or_comm]
    · show q'.parked.Nodup
      -- the channel is new, so that no call waits on it
      refine (parked_waitInLine hq).nodup_iff.mpr (nodup_cons.mpr ⟨fun hin => ?_, h.nodup⟩)
      obtain ⟨c, hc, -⟩ := h.call_of_parked hin
      cases hfresh.symm.trans hc
    · show update s.tickets i ticket' i ≠ 0
      rwa [hself]

theorem Inv.step (h : s.Inv) (hstep : s.step act = some t) : Keeps s t := by
  cases act with
  | park => exact h.park hstep
  | receive =>
    obtain ⟨c, hc, hstep⟩ := bind_eq_some_iff.mp hstep
    exact h.receive hc hstep
  | ctxEnd ch =>
    obtain rfl := some.inj hstep
    exact h.ctxEnd ch
  | leave =>
    obtain ⟨c, hc, hstep⟩ := bind_eq_some_iff.mp hstep
    exact h.leave hc hstep
  | forward =>
    obtain ⟨c, hc, hstep⟩ := bind_eq_some_iff.mp hstep
    exact h.forward hc hstep
  | signal =>
    obtain rfl := some.inj hstep
    exact h.signal
  | broadcast =>
    obtain rfl := some.inj hstep
    exact h.broadcast
  | reset =>
    obtain ⟨hfree, hstep⟩ := ite_none_right_eq_some.mp hstep
    obtain rfl := some.inj hstep
    exact h.reset hfree

theorem inv_of_reachable (h : (waitLine ι).Reachable s) : s.Inv :=
  h.induction (fun _ hs => inv_start hs) fun _ _ _ hs hstep => (hs.step hstep).inv

/-- A call returns once: its phase is the same in every later state. -/
theorem Inv.phase_run (h : s.Inv) {acts : List (LineAct ι)}
    (hrun : (waitLine ι).run s acts = some t) (hc : s.calls ch = some c)
    (hover : c.phase.active = false) : ∃ c', t.calls ch = some c' ∧ c'.phase = c.phase := by
  have hkeeps : Keeps s t := Machine.run_preserves (M := waitLine ι) (I := Keeps s)
    (fun _ _ _ hu hstep => hu.trans (hu.inv.step hstep)) ⟨h, fun hc _ => ⟨_, hc, rfl⟩⟩ hrun
  exact hkeeps.phase hc hover

end Steps

/-! ### The line -/

/-- The call has the place `k` in the history: its session joined the line as the `k`-th. -/
def JoinedAt (s : WaitLine ι) (ch k : ℕ) : Prop :=
  ∃ c, s.calls ch = some c ∧ s.tickets c.session = k + 1 ∧ s.joins[k]? = some c.session

/-- What became of a call that a `Signal` has sent to. -/
inductive Handled [DecidableEq ι] (s : WaitLine ι) (ch : ℕ) (c : Call ι) : Prop where
  /-- It can receive. -/
  | pending : c.phase = .waiting → (s.step (.receive ch)).isSome → Handled s ch c
  | returned : c.phase = .woken → Handled s ch c
  /-- Its context has ended, and it is about to signal. -/
  | forwarding : c.phase = .forwarding → c.ctxDone = true → (s.step (.forward ch)).isSome →
    Handled s ch c
  /-- Its context had ended, and it has signalled. -/
  | forwarded : c.phase = .forwarded → c.ctxDone = true → Handled s ch c

/-- The order of the line, and where its wake-ups go. -/
structure Sound [DecidableEq ι] (s : WaitLine ι) : Prop where
  strict : s.queue.waiters.Pairwise fun v w => v.ticket < w.ticket
  /-- `Signal` wakes the session that joined first. -/
  first : ∀ ch, s.queue.signal.2 = some ch → ∃ k, s.JoinedAt ch k ∧
    ∀ ch' ∈ s.queue.parked, ch' ≠ ch → ∃ k', s.JoinedAt ch' k' ∧ k < k'
  refused : ∀ i released ch, s.current i = none → s.calls ch = none → ∃ t c,
    s.step (.park i released ch) = some t ∧ t.calls ch = some c ∧
      (c.phase = .refused ↔ s.tickets i = 0 ∧ released = false ∧ s.queue.bound ≤ s.queue.depth)
  /-- A send finds the buffer of its channel empty. -/
  unsent : ∀ ch ∈ s.queue.parked, ∃ c, s.calls ch = some c ∧ c.sent = 0
  once : ∀ ch c, s.calls ch = some c → c.sent ≤ 1
  /-- No two signals wake one call, and each is received or passed on. -/
  nodup : s.signalled.Nodup
  handled : ∀ ch ∈ s.signalled, ∃ c, s.calls ch = some c ∧ Handled s ch c
  /-- A call returns `nil` only if it was sent to. -/
  woken : ∀ ch c, s.calls ch = some c → c.phase = .woken → c.sent = 1
  /-- A call that passes its wake-up on signals the waiters that remain. -/
  forward : ∀ ch t, s.step (.forward ch) = some t →
    t.queue.parked = s.queue.parked.tail ∧ t.signalled = s.queue.signal.2.toList ++ s.signalled
  /-- A call that has returned stays so, with the result it has. -/
  final : ∀ acts t ch c, (waitLine ι).run s acts = some t → s.calls ch = some c →
    c.phase.active = false → ∃ c', t.calls ch = some c' ∧ c'.phase = c.phase

theorem Inv.joinedAt (h : s.Inv) {w : Waiter ℕ} (hw : w ∈ s.queue.waiters) :
    s.JoinedAt w.ch (w.ticket - 1) := by
  obtain ⟨c, hc, -, -, hticket, hne⟩ := h.waiter w hw
  refine ⟨c, hc, ?_, ?_⟩
  · omega
  · rw [hticket]
    exact h.ticket c.session (hticket ▸ hne)

theorem Inv.first (h : s.Inv) (hch : s.queue.signal.2 = some ch) :
    ∃ k, s.JoinedAt ch k ∧ ∀ ch' ∈ s.queue.parked, ch' ≠ ch → ∃ k', s.JoinedAt ch' k' ∧ k < k' := by
  have hstrict := h.strict
  cases hq : s.queue.waiters with
  | nil => simp [parked, hq] at hch
  | cons w =>
    obtain rfl : w.ch = ch := by simpa [parked, hq] using hch
    have hw : w ∈ s.queue.waiters := hq ▸ mem_cons_self
    refine ⟨w.ticket - 1, h.joinedAt hw, fun ch' hch' hne => ?_⟩
    obtain ⟨v, hv, rfl⟩ := mem_map.mp hch'
    refine ⟨v.ticket - 1, h.joinedAt hv, ?_⟩
    obtain ⟨-, -, -, -, -, hpos⟩ := h.waiter w hw
    rw [hq] at hv hstrict
    rcases mem_cons.mp hv with rfl | hv
    · exact absurd rfl hne
    · have := (pairwise_cons.mp hstrict).1 v hv
      omega

variable [DecidableEq ι]

theorem Inv.handled (h : s.Inv) (hch : ch ∈ s.signalled) :
    ∃ c, s.calls ch = some c ∧ Handled s ch c := by
  obtain ⟨c, hc, hone⟩ := h.signalled ch hch
  refine ⟨c, hc, ?_⟩
  have hsent := h.sent ch c hc
  cases hphase : c.phase with
  | waiting =>
    refine .pending hphase ?_
    simp [WaitLine.step, hc, WaitLine.receive, hphase, hone]
  | woken => exact .returned hphase
  | forwarding =>
    refine .forwarding hphase (h.ended ch c hc (.inl hphase)) ?_
    simp [WaitLine.step, hc, WaitLine.forward, hphase]
  | forwarded => exact .forwarded hphase (h.ended ch c hc (.inr hphase))
  | refused | left =>
    rw [hphase] at hsent
    exact absurd (hone.symm.trans hsent) (by decide)

theorem park_refused {i : ι} (released : Bool) (hidle : s.current i = none)
    (hfresh : s.calls ch = none) : ∃ t c, s.step (.park i released ch) = some t ∧
      t.calls ch = some c ∧ (c.phase = .refused ↔
        s.tickets i = 0 ∧ released = false ∧ s.queue.bound ≤ s.queue.depth) := by
  have hfull := @waitInLine_eq_none_iff ch s.queue released (s.tickets i)
  rw [← hfull]
  show ∃ t c, s.park i released ch = some t ∧ _
  unfold WaitLine.park
  rw [if_pos ⟨hidle, by rw [hfresh]; rfl⟩]
  cases hq : s.queue.waitInLine released ch (s.tickets i) with
  | none | some => exact ⟨_, _, rfl, update_self .., by simp⟩

theorem forward_signals (hstep : s.step (.forward ch) = some t) :
    t.queue.parked = s.queue.parked.tail ∧ t.signalled = s.queue.signal.2.toList ++
      s.signalled := by
  obtain ⟨c, hc, hstep⟩ := bind_eq_some_iff.mp hstep
  obtain ⟨-, hstep⟩ := ite_none_right_eq_some.mp hstep
  obtain rfl := some.inj hstep
  have hwoke := woke_signal (s.finish ch c .forwarded)
  refine ⟨?_, ?_⟩
  · obtain ⟨ws, hws, hl⟩ := hwoke.waiters
    -- `finish` does not touch the queue, whose head is signalled
    have hparked : s.queue.parked = s.queue.parked.head?.toList ++
        (s.finish ch c .forwarded).signal.queue.parked := by
      have := congrArg (map (·.ch)) hws
      rw [map_append, hl] at this
      exact this
    cases hp : s.queue.parked with
    | nil =>
      rw [hp] at hparked
      exact (append_eq_nil_iff.mp hparked.symm).2
    | cons =>
      rw [hp] at hparked
      exact (cons.inj hparked).2.symm
  · rw [hwoke.signalled, signal_snd]
    rfl

end WaitLine

/-- **Order and signal conservation of the wait queue**, in every state that the calls of the
sessions, `Signal`, `Broadcast` and the ends of contexts lead to. -/
theorem wait_line_sound {ι : Type*} [DecidableEq ι] {s : WaitLine ι}
    (h : (waitLine ι).Reachable s) : s.Sound := by
  have hinv := WaitLine.inv_of_reachable h
  exact {
    strict := hinv.strict
    first := fun ch hch => hinv.first hch
    refused := fun i released ch hidle hfresh => WaitLine.park_refused released hidle hfresh
    unsent := fun ch hch => by
      obtain ⟨c, hc, -, hzero⟩ := hinv.call_of_parked hch
      exact ⟨c, hc, hzero⟩
    once := fun ch c hc => (hinv.sent ch c hc).le_one
    nodup := hinv.once
    handled := fun ch hch => hinv.handled hch
    woken := fun ch c hc hphase => by
      have hsent := hinv.sent ch c hc
      rwa [hphase] at hsent
    forward := fun ch t hstep => WaitLine.forward_signals hstep
    final := fun acts t ch c hrun hc hover => hinv.phase_run hrun hc hover }

/-- Two sessions wait; the first is woken when its context ends, and passes the wake-up on. -/
def forwardedActs : List (LineAct ℕ) :=
  [.park 0 false 0, .park 1 false 1, .signal, .ctxEnd 0, .leave 0, .forward 0, .receive 1]

theorem wait_line_sound_forwarded :
    ∃ s, (waitLine ℕ).run ⟨.new 2, fun _ => none, fun _ => 0, fun _ => none, [], []⟩ forwardedActs =
        some s ∧ s.signalled = [1, 0] ∧ s.Sound := by
  have hrun : ∃ s, (waitLine ℕ).run
      ⟨.new 2, fun _ => none, fun _ => 0, fun _ => none, [], []⟩ forwardedActs = some s ∧
        s.signalled = [1, 0] := ⟨_, rfl, rfl⟩
  obtain ⟨s, hrun, hsignalled⟩ := hrun
  refine ⟨s, hrun, hsignalled, wait_line_sound ⟨_, forwardedActs, ?_, hrun⟩⟩
  exact ⟨rfl, rfl, fun _ => rfl, fun _ => rfl, fun _ => rfl, rfl, rfl⟩

end HivenetRouter.Policy
