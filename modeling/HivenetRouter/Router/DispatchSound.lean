import HivenetRouter.Router.Dispatch

/-!
# What a dispatch owes

All slots of a dispatch were freed once, but for one that is held: by the loop while it forwards, or
by the goroutine of a streaming response (`Exchange.held`). The dispatcher sends when it leaves its
loop, and the channels have room, so it sends once and returns.

The goroutine frees its slot when the stream has ended. If the handler gives up before it has taken
the response, nobody reads the stream and nobody closes it, and the slot is never freed
(`not_freed_abandoned`). `dispatch_protocol` has the exact condition: every stream keeps its reader
in a run exactly if its steps are timely, and then every slot is freed once.
-/

namespace HivenetRouter.Router

open List Option Machine Dispatch ForwardRecord Handoff

open Policy (FallbackProvider ResolvedStep)

variable {Peer : Type} [LinearOrder Peer]

/-! ### The slots -/

def DispatchStage.holds : DispatchStage Peer → Bool
  | .forwarding _ => true
  | _ => false

/-- The goroutine holds the slot of the streaming response. -/
def Drain.holds : Drain → Bool
  | .reading _ | .writing _ _ | .releasing => true
  | .absent | .closing | .done => false

theorem Drain.Going.holds {d : Drain} (h : d.Going) : d.holds = true := by
  cases d with
  | absent => exact absurd rfl h.absent
  | closing => exact absurd (.inl rfl) h.released
  | done => exact absurd (.inr rfl) h.released
  | reading | writing | releasing => rfl

/-- Every slot was freed once, but for the last one where it is held. -/
inductive Accounted : Bool → List Slot → Prop
  | held (rest : List Slot) (h : ∀ x ∈ rest, x = .free) : Accounted true (.taken :: rest)
  | free (slots : List Slot) (h : ∀ x ∈ slots, x = .free) : Accounted false slots

namespace Accounted

variable {held : Bool} {slots : List Slot}

theorem take (h : Accounted false slots) : Accounted true (.taken :: slots) := by
  cases h with
  | free _ hfree => exact .held _ hfree

theorem release (h : Accounted true slots) {f : Slot → Slot} (hf : f .taken = .free) :
    Accounted false (slots.modifyHead f) := by
  cases h with
  | held rest hrest =>
    refine .free _ ?_
    rw [modifyHead_cons, hf]
    exact forall_mem_cons.mpr ⟨rfl, hrest⟩

theorem freed_le (h : Accounted held slots) : ∀ x ∈ slots, x.freed ≤ 1 := by
  cases h with
  | held rest hrest =>
    refine forall_mem_cons.mpr ⟨Nat.zero_le 1, fun x hx => ?_⟩
    rw [hrest x hx]
    exact Nat.le_refl 1
  | free _ hfree =>
    intro x hx
    rw [hfree x hx]
    exact Nat.le_refl 1

theorem freed_eq (h : Accounted false slots) : ∀ x ∈ slots, x.freed = 1 := by
  cases h with
  | free _ hfree =>
    intro x hx
    rw [hfree x hx]
    rfl

theorem exists_unfreed (h : Accounted true slots) : ∃ x ∈ slots, x.freed = 0 := by
  cases h with
  | held rest _ => exact ⟨_, .head _, rfl⟩

end Accounted

theorem Exchange.returned_taken (result : ForwardResult) :
    Exchange.returned result .taken = .free := by
  cases result <;> rfl

/-! ### The invariant -/

namespace Exchange

/-- A slot is held, by the loop or by the goroutine. -/
def held (s : Exchange Peer) : Bool := s.loop.stage.holds || s.handoff.drain.holds

structure Inv (steps : List ResolvedStep) (s : Exchange Peer) : Prop where
  handoff : s.handoff.Inv
  running : s.handoff.dispatcher = .running ↔ s.loop.stage.message = none
  sent : s.sent.length = if s.handoff.dispatcher = .returned then 1 else 0
  slots : Accounted s.held s.slots
  tally : Tally steps s.loop s.forwards

variable {steps : List ResolvedStep} {s t : Exchange Peer} {handoff : Handoff} {d : Dispatch Peer}

theorem Inv.start (model capability : String) (steps : List ResolvedStep)
    (fallbackProvider : Option FallbackProvider) :
    Inv steps (.start model capability steps fallbackProvider : Exchange Peer) where
  handoff := .start
  running := iff_of_true rfl rfl
  sent := rfl
  slots := .free _ nofun
  tally := .new model capability steps fallbackProvider

/-- There is no goroutine while the loop runs. -/
theorem Inv.held_running (h : Inv steps s) (hrunning : s.handoff.dispatcher = .running) :
    s.held = s.loop.stage.holds := by
  unfold held
  rw [(h.handoff.running hrunning).1]
  exact Bool.or_false _

omit [LinearOrder Peer] in
theorem holds_of_message {stage : DispatchStage Peer} (h : stage.message ≠ none) :
    stage.holds = false := by
  cases stage with
  | forwarding => exact absurd rfl h
  | selecting | chosen | fallingBack | served | failed => rfl

omit [LinearOrder Peer] in
theorem holds_exhausted (d : Dispatch Peer) : d.exhausted.holds = false := by
  unfold Dispatch.exhausted
  split
  · split_ifs <;> rfl
  · rfl

theorem holds_forwarded (d : Dispatch Peer) (a : AgentRef Peer) (result : ForwardResult) :
    (d.forwarded a result).stage.holds = false := by
  cases result with
  | disconnected =>
    unfold forwarded
    split_ifs <;> rfl
  | ok | nonRetryable | deadline | failure => rfl

variable {a : DispatchAct Peer} {m : Message}

theorem accounted_loop (hslots : Accounted s.loop.stage.holds s.slots) (hmoved : s.loop.Moved a d) :
    Accounted d.stage.holds (s.slotsAfter d a) := by
  cases hmoved with
  | exhausted pick hstage =>
    rw [hstage] at hslots
    show Accounted s.loop.exhausted.holds s.slots
    rw [holds_exhausted]
    exact hslots
  | advanced | waited => exact hslots
  | chosen b reason step hstage hstep hfresh | lost b hstage =>
    rw [hstage] at hslots
    exact hslots
  | acquired b hstage =>
    rw [hstage] at hslots
    -- a slot is taken here, in every other case it is kept or freed
    exact hslots.take
  | forwarded b result hstage =>
    rw [hstage] at hslots
    rw [holds_forwarded]
    -- the slot passes to the goroutine, or is released before the loop goes on
    exact hslots.release (returned_taken result)
  | expired hstage hheld =>
    -- the loop holds no slot outside of a forward
    have hnot : s.loop.stage.holds = false := by
      cases hs : s.loop.stage with
      | forwarding b => exact absurd hs (hheld b)
      | selecting | chosen | fallingBack | served | failed => rfl
    rw [hnot] at hslots
    have hsame : s.slotsAfter { s.loop with stage := .failed .timeout } .expire = s.slots := by
      unfold slotsAfter
      dsimp only
      split
      · exact absurd ‹_› (hheld _)
      · rfl
    rw [hsame]
    exact hslots
  | expiredHeld b hstage =>
    rw [hstage] at hslots
    have hfreed : s.slotsAfter { s.loop with stage := .failed .timeout } .expire =
        s.slots.modifyHead Slot.release := by
      unfold slotsAfter
      rw [hstage]
    rw [hfreed]
    exact hslots.release Slot.release_taken
  | provider fp ok hstage =>
    rw [hstage] at hslots
    cases ok <;> exact hslots

theorem tally_loop (htally : Tally steps s.loop s.forwards) (hmoved : s.loop.Moved a d) :
    Tally steps d (s.forwardsAfter a) := by
  by_cases hforwarded : ∃ result, a = .forwarded result
  · obtain ⟨result, rfl⟩ := hforwarded
    cases hmoved with
    | forwarded b _ hstage =>
      unfold forwardsAfter forward
      rw [hstage]
      exact htally.forwarded hstage result
  · have hsame : s.forwardsAfter a = s.forwards := by
      cases a with
      | forwarded result => exact absurd ⟨result, rfl⟩ hforwarded
      | select | wait | acquire | expire | provider => rfl
    rw [hsame]
    exact htally.step hmoved fun result heq => hforwarded ⟨result, heq⟩

section

variable (h : Inv steps s)

include h

theorem Inv.loop (hrunning : s.handoff.dispatcher = .running)
    (hmoved : s.loop.Moved a d) (hafter : s.after a d = some t) : Inv steps t := by
  have hslots : Accounted d.stage.holds (s.slotsAfter d a) := by
    refine accounted_loop ?_ hmoved
    rw [← h.held_running hrunning]
    exact h.slots
  -- while the loop runs there is no goroutine
  have habsent := (h.handoff.running hrunning).1
  have hsent := h.sent
  rw [hrunning] at hsent
  unfold after at hafter
  split at hafter
  · -- the loop goes on, or it comes to its message
    rename_i hnone
    cases hafter
    refine ⟨h.handoff, iff_of_true hrunning hnone, ?_, ?_, tally_loop h.tally hmoved⟩
    · rw [hrunning]
      exact hsent
    · show Accounted (d.stage.holds || s.handoff.drain.holds) _
      rw [habsent, show Drain.holds .absent = false from rfl, Bool.or_false]
      exact hslots
  · rename_i m hm
    obtain ⟨handoff, hstep, rfl⟩ := map_eq_some_iff.mp hafter
    have hinv := h.handoff.step hstep
    cases moved_of_step hstep with
    | finish _ _ _ =>
      refine ⟨hinv, iff_of_false nofun ?_, hsent, ?_, tally_loop h.tally hmoved⟩
      · rw [hm]
        nofun
      · show Accounted (d.stage.holds || s.handoff.drain.holds) _
        rw [habsent, show Drain.holds .absent = false from rfl, Bool.or_false]
        exact hslots

/-- The slot passes to the goroutine. -/
theorem Inv.stream {u : Upstream} {a : AgentRef Peer}
    (hstage : s.loop.stage = .forwarding a) (hstep : s.handoff.step (.stream u) = some handoff) :
    Inv steps { s with
      loop := s.loop.forwarded a .ok, handoff, forwards := s.forward .ok } := by
  have hinv := h.handoff.step hstep
  cases moved_of_step hstep with
  | stream _ hrunning =>
    have hsent := h.sent
    rw [hrunning] at hsent
    have hslots := h.slots
    rw [h.held_running hrunning, hstage] at hslots
    refine ⟨hinv, iff_of_false nofun nofun, hsent, hslots, ?_⟩
    unfold forward
    rw [hstage]
    exact h.tally.forwarded hstage .ok

/-- A step of the handler or of the goroutine that the dispatch does not see. -/
theorem Inv.quiet (hinv : handoff.Inv)
    (hdispatcher : handoff.dispatcher = s.handoff.dispatcher)
    (hholds : handoff.drain.holds = s.handoff.drain.holds) : Inv steps { s with handoff } where
  handoff := hinv
  running := by
    rw [hdispatcher]
    exact h.running
  sent := by
    rw [hdispatcher]
    exact h.sent
  slots := by
    show Accounted (s.loop.stage.holds || handoff.drain.holds) s.slots
    rw [hholds]
    exact h.slots
  tally := h.tally

/-- The dispatcher has left its loop. -/
theorem Inv.holds_of_not_running (hnot : s.handoff.dispatcher ≠ .running) :
    s.loop.stage.holds = false :=
  holds_of_message fun hnone => hnot (h.running.mpr hnone)

theorem Inv.send (hsending : s.handoff.dispatcher = .sending m)
    (hinv : handoff.Inv) (hreturned : handoff.dispatcher = .returned)
    (hdrain : handoff.drain = s.handoff.drain) :
    Inv steps { s with handoff, sent := s.sentAfter .send } where
  handoff := hinv
  running := by
    refine iff_of_false (by rw [hreturned]; nofun) fun hnone => ?_
    have hrunning := h.running.mpr hnone
    rw [hsending] at hrunning
    cases hrunning
  sent := by
    have hsent := h.sent
    rw [hsending] at hsent
    unfold sentAfter
    rw [hsending, hreturned]
    exact congrArg (· + 1) hsent
  slots := by
    show Accounted (s.loop.stage.holds || handoff.drain.holds) s.slots
    rw [hdrain]
    exact h.slots
  tally := h.tally

theorem Inv.goroutine {a : HandoffAct} (houtside : a.outside = true)
    (hstep : s.handoff.step a = some handoff) :
    Inv steps { s with handoff, sent := s.sentAfter a, slots := s.slotsOf a } := by
  have hinv := h.handoff.step hstep
  cases moved_of_step hstep with
  | stream | finish => cases houtside
  | sendError hsending | sendResponse m hm hsending => exact h.send hsending hinv rfl rfl
  | receiveStream | receiveOther | receiveError | timeout | readEOF | deliver | close =>
    exact h.quiet hinv rfl rfl
  | read k n next hcopying hdrain =>
    refine h.quiet hinv rfl ?_
    rw [hdrain]
    exact (Drain.going_write _ _).holds
  | upstream u hdrain =>
    refine h.quiet hinv rfl ?_
    rw [hdrain]
    exact (Drain.going_read u).holds
  | writeFails n next hdrain | closePipe hdrain =>
    refine h.quiet hinv rfl ?_
    rw [hdrain]
    rfl
  | release hdrain =>
    -- a goroutine that drains has a dispatcher that has left the loop
    have hnot : s.handoff.dispatcher ≠ .running := by
      intro hrunning
      have habsent := (h.handoff.running hrunning).1
      rw [hdrain] at habsent
      cases habsent
    have hstage := h.holds_of_not_running hnot
    refine ⟨hinv, h.running, h.sent, ?_, h.tally⟩
    have hslots := h.slots
    unfold held at hslots ⊢
    rw [hstage, hdrain] at hslots
    show Accounted (s.loop.stage.holds || false) (s.slots.modifyHead Slot.release)
    rw [hstage]
    exact hslots.release Slot.release_taken

end

/-- The inversion of `step`. -/
inductive Moved (s : Exchange Peer) : ExchangeAct Peer → Exchange Peer → Prop
  | loop (f f' : Fleet Peer) (a : DispatchAct Peer) (d : Dispatch Peer) (t : Exchange Peer)
      (hrunning : s.handoff.dispatcher = .running) (hstep : s.loop.step f a = some (f', d))
      (hafter : s.after a d = some t) : Moved s (.loop f a) t
  | stream (u : Upstream) (a : AgentRef Peer) (handoff : Handoff)
      (hstage : s.loop.stage = .forwarding a) (hstep : s.handoff.step (.stream u) = some handoff) :
    Moved s (.stream u)
      { s with loop := s.loop.forwarded a .ok, handoff, forwards := s.forward .ok }
  | goroutine (a : HandoffAct) (handoff : Handoff) (houtside : a.outside = true)
      (hstep : s.handoff.step a = some handoff) :
    Moved s (.goroutine a) { s with handoff, sent := s.sentAfter a, slots := s.slotsOf a }

variable {a : ExchangeAct Peer}

theorem moved_of_step (h : s.step a = some t) : s.Moved a t := by
  cases a with
  | loop f a =>
    obtain ⟨hrunning, h⟩ := ite_none_right_eq_some.mp h
    split at h
    · exact .loop f _ a _ t hrunning ‹_› h
    · cases h
  | stream u =>
    dsimp only [step] at h
    split at h
    · obtain ⟨handoff, hstep, rfl⟩ := map_eq_some_iff.mp h
      exact .stream u _ handoff ‹_› hstep
    · cases h
  | goroutine a =>
    obtain ⟨houtside, h⟩ := ite_none_right_eq_some.mp h
    obtain ⟨handoff, hstep, rfl⟩ := map_eq_some_iff.mp h
    exact .goroutine a handoff houtside hstep

/-- **Every step keeps the invariant.** -/
theorem Inv.step (h : Inv steps s) (hstep : s.step a = some t) : Inv steps t := by
  cases moved_of_step hstep with
  | loop f f' a d _ hrunning hloop hafter =>
    exact h.loop hrunning (Dispatch.moved_of_step hloop) hafter
  | stream u a handoff hstage hhandoff => exact h.stream hstage hhandoff
  | goroutine a handoff houtside hhandoff => exact h.goroutine houtside hhandoff

theorem inv_of_reachable {model capability : String} {fallbackProvider : Option FallbackProvider}
    (h : (dispatchProtocol Peer model capability steps fallbackProvider).Reachable s) :
    Inv steps s := by
  refine h.induction (fun s hinit => ?_) fun s a t hinv hstep => hinv.step hstep
  rw [show s = _ from hinit]
  exact .start model capability steps fallbackProvider

/-! ### Streams that nobody reads -/

/-- The step of the hand-over is timely; the loop is not concerned. -/
def Timely (s : Exchange Peer) : ExchangeAct Peer → Prop
  | .loop _ _ => True
  | .stream u => s.handoff.Timely (.stream u)
  | .goroutine a => s.handoff.Timely a

instance (s : Exchange Peer) (a : ExchangeAct Peer) : Decidable (s.Timely a) := by
  unfold Timely
  split <;> infer_instance

/-- What a step means for the hand-over. -/
theorem handoff_of_step (h : s.step a = some t) : (t.handoff = s.handoff ∧ s.Timely a) ∨
      ∃ b, s.handoff.step b = some t.handoff ∧ (s.Timely a ↔ s.handoff.Timely b) := by
  cases moved_of_step h with
  | loop f f' a d _ hrunning hloop hafter =>
    unfold after at hafter
    split at hafter
    · cases hafter
      exact .inl ⟨rfl, trivial⟩
    · obtain ⟨handoff, hstep, rfl⟩ := map_eq_some_iff.mp hafter
      exact .inr ⟨_, hstep, Iff.rfl⟩
  | stream u a handoff hstage hstep
  | goroutine a handoff houtside hstep => exact .inr ⟨_, hstep, Iff.rfl⟩

theorem not_doomed_step_iff (h : Inv steps s) (hs : ¬s.handoff.Doomed) (hstep : s.step a = some t) :
    ¬t.handoff.Doomed ↔ s.Timely a := by
  rcases handoff_of_step hstep with ⟨hsame, htimely⟩ | ⟨b, hb, htimely⟩
  · rw [hsame]
    exact iff_of_true hs htimely
  · rw [htimely]
    exact Handoff.not_doomed_step_iff h.handoff hs hb

theorem doomed_step (h : Inv steps s) (hs : s.handoff.Doomed) (hstep : s.step a = some t) :
    t.handoff.Doomed := by
  rcases handoff_of_step hstep with ⟨hsame, -⟩ | ⟨b, hb, -⟩
  · rw [hsame]
    exact hs
  · exact hs.step h.handoff hb

omit [LinearOrder Peer] in
/-- A stream that has lost its reader keeps its slot. -/
theorem held_of_doomed (hs : s.handoff.Doomed) : s.held = true := by
  have hdrain : s.handoff.drain.holds = true := by
    have hbytes := hs.2.2
    cases hd : s.handoff.drain with
    | reading | writing | releasing => rfl
    | absent | closing | done =>
      rw [hd] at hbytes
      exact absurd hbytes (by decide)
  unfold held
  rw [hdrain]
  exact Bool.or_true _

/-! ### The end -/

/-- When the dispatcher has returned, only the handler and the goroutine go on. -/
theorem returned_step (hreturned : s.handoff.dispatcher = .returned) (hstep : s.step a = some t) :
    t.handoff.dispatcher = .returned ∧ ∃ b, s.handoff.step b = some t.handoff := by
  have hnot : s.handoff.dispatcher ≠ .running := by
    rw [hreturned]
    nofun
  cases moved_of_step hstep with
  | loop f f' a d _ hrunning => exact absurd hrunning hnot
  | stream u a handoff hstage hhandoff =>
    cases Handoff.moved_of_step hhandoff with
    | stream _ hrunning => exact absurd hrunning hnot
  | goroutine a handoff houtside hhandoff =>
    refine ⟨?_, a, hhandoff⟩
    cases Handoff.moved_of_step hhandoff with
    | stream | finish => cases houtside
    | sendError | sendResponse => rfl
    | receiveStream | receiveOther | receiveError | timeout | read | readEOF | deliver | close
    | upstream | writeFails | release | closePipe => exact hreturned

/-- Nothing can happen any more when all have come to their ends, or the goroutine is stuck. -/
theorem step_eq_none (hreturned : s.handoff.dispatcher = .returned)
    (hhandler : s.handoff.handler = .returned)
    (hdrain : s.handoff.drain = .done ∨ s.handoff.Stuck) (a : ExchangeAct Peer) :
    s.step a = none := by
  refine eq_none_iff_forall_ne_some.mpr fun t hstep => ?_
  obtain ⟨-, b, hb⟩ := returned_step hreturned hstep
  generalize t.handoff = handoff at hb
  rcases hdrain with hdone | ⟨-, hopen, n, next, hwriting⟩
  all_goals cases Handoff.moved_of_step hb <;> simp_all

/-- **A held slot can be freed**, if every stream has a reader. -/
theorem exists_step_of_held (h : Inv steps s) (hreturned : s.handoff.dispatcher = .returned)
    (hs : ¬s.handoff.Doomed) (hheld : s.held = true) : ∃ a, s.Timely a ∧ s.step a ≠ none := by
  have hnot : s.handoff.dispatcher ≠ .running := by
    rw [hreturned]
    nofun
  have hdrain : s.handoff.drain.holds = true := by
    unfold held at hheld
    rw [h.holds_of_not_running hnot] at hheld
    exact hheld
  have hne : s.handoff.drain ≠ .absent := by
    intro habsent
    rw [habsent] at hdrain
    cases hdrain
  have hreleased : s.handoff.released = false := by
    refine eq_false_of_ne_true fun hreleased => ?_
    rcases h.handoff.released.mp hreleased with hd | hd
    all_goals
      rw [hd] at hdrain
      cases hdrain
  obtain ⟨b, htimely, henabled⟩ := exists_step h.handoff hs hne hreleased
  obtain ⟨handoff, hstep⟩ := ne_none_iff_exists'.mp henabled
  -- the steps of the loop are over
  have houtside : b.outside = true := by
    cases Handoff.moved_of_step hstep with
    | stream _ hrunning => exact absurd hrunning hnot
    | finish _ hrunning => exact absurd hrunning hnot
    | sendError | sendResponse | receiveStream | receiveOther | receiveError | timeout | read
    | readEOF | deliver | close | upstream | writeFails | release | closePipe => rfl
  refine ⟨.goroutine b, htimely, ?_⟩
  unfold step
  dsimp only
  rw [if_pos houtside, hstep]
  nofun

theorem exists_send (h : Inv steps s) (hsending : s.handoff.dispatcher = .sending m) :
    ∃ t, s.step (.goroutine .send) = some t ∧ t.handoff.dispatcher = .returned := by
  obtain ⟨hresponse, herror⟩ := h.handoff.room (by rw [hsending]; nofun)
  have hput : ∃ handoff, s.handoff.put m = some handoff ∧ handoff.dispatcher = .returned := by
    cases m with
    | error => exact ⟨_, if_neg (by rw [herror]; nofun), rfl⟩
    | stream | response => exact ⟨_, if_neg (by rw [hresponse]; nofun), rfl⟩
  obtain ⟨handoff, hput, hreturned⟩ := hput
  have hstep : s.handoff.step .send = some handoff := by
    unfold Handoff.step
    rw [hsending]
    exact hput
  refine ⟨{ s with handoff, sent := s.sentAfter .send, slots := s.slotsOf .send }, ?_, hreturned⟩
  unfold step
  dsimp only
  rw [if_pos (show HandoffAct.outside .send = true from rfl), hstep]
  rfl

/-- The deadline passes, outside of `TryAcquireSlot`. -/
theorem exists_expire (f : Fleet Peer) (h : Inv steps s)
    (hrunning : s.handoff.dispatcher = .running) (hchosen : ∀ a, s.loop.stage ≠ .chosen a) :
    ∃ t, s.step (.loop f .expire) = some t ∧ t.handoff.dispatcher = .sending .error := by
  -- the context ends at each of the three waits
  have hloop : ∃ f', s.loop.step f .expire =
      some (f', { s.loop with stage := .failed .timeout }) := by
    have hnone := h.running.mp hrunning
    unfold Dispatch.step
    cases hstage : s.loop.stage with
    | selecting | forwarding | fallingBack => exact ⟨_, rfl⟩
    | chosen a => exact absurd hstage (hchosen a)
    | served | failed =>
      rw [hstage] at hnone
      cases hnone
  obtain ⟨f', hloop⟩ := hloop
  have hfinish : s.handoff.step (.finish .error) =
      some { s.handoff with dispatcher := .sending .error } := if_pos ⟨hrunning, nofun⟩
  have hafter : ∃ t, s.after .expire { s.loop with stage := .failed .timeout } = some t ∧
      t.handoff.dispatcher = .sending .error := by
    unfold after
    dsimp only [DispatchStage.message]
    rw [hfinish]
    exact ⟨_, rfl, rfl⟩
  obtain ⟨t, hafter, hsending⟩ := hafter
  refine ⟨t, ?_, hsending⟩
  unfold step
  dsimp only
  rw [if_pos hrunning, hloop]
  exact hafter

theorem exists_acquire (f : Fleet Peer) (hrunning : s.handoff.dispatcher = .running)
    {a : AgentRef Peer} (hstage : s.loop.stage = .chosen a) :
    ∃ t, s.step (.loop f .acquire) = some t ∧ t.handoff = s.handoff ∧
      ∀ b, t.loop.stage ≠ .chosen b := by
  have hloop : ∃ f' stage, s.loop.step f .acquire = some (f', { s.loop with stage }) ∧
      stage.message = none ∧ ∀ b, stage ≠ .chosen b := by
    unfold Dispatch.step
    rw [hstage]
    dsimp only
    unfold acquire
    split
    all_goals exact ⟨_, _, rfl, rfl, nofun⟩
  obtain ⟨f', stage, hloop, hmessage, hchosen⟩ := hloop
  refine ⟨{ s with
    loop := { s.loop with stage }, slots := s.slotsAfter { s.loop with stage } .acquire },
    ?_, rfl, hchosen⟩
  unfold step
  dsimp only
  rw [if_pos hrunning, hloop]
  dsimp only
  unfold after
  rw [hmessage]
  rfl

end Exchange

namespace Exchange

section Results

variable {model capability : String} {steps : List ResolvedStep}
  {fallbackProvider : Option FallbackProvider} {s t : Exchange Peer}

section

variable (h : Inv steps s)

include h

theorem Inv.forwards_length_le : s.forwards.length ≤ budget steps +
      (s.forwards.map agent).toFinset.card * maxReconnectsPerAgent := by
  have hreconnects : ∀ p, s.forwards.countP (reconnects p) ≤
      maxReconnectsPerAgent := by
    intro p
    rw [h.tally.reconnects p]
    exact h.tally.reconnects_le p
  have hlength := length_le hreconnects
  have hbound := h.tally.bound
  omega

theorem Inv.exists_returned_of_sending {m : Message}
    (hsending : s.handoff.dispatcher = .sending m) :
    ∃ acts t, (dispatchProtocol Peer model capability steps fallbackProvider).run s acts = some t ∧
      t.handoff.dispatcher = .returned := by
  obtain ⟨t, hstep, hreturned⟩ := exists_send h hsending
  exact exists_run_of_step (a := .goroutine .send) (t := t) hstep ⟨[], t, rfl, hreturned⟩

theorem Inv.exists_returned_of_running (f : Fleet Peer)
    (hrunning : s.handoff.dispatcher = .running) (hchosen : ∀ a, s.loop.stage ≠ .chosen a) :
    ∃ acts t, (dispatchProtocol Peer model capability steps fallbackProvider).run s acts = some t ∧
      t.handoff.dispatcher = .returned := by
  obtain ⟨t, hstep, hsending⟩ := exists_expire f h hrunning hchosen
  exact exists_run_of_step (a := .loop f .expire) (t := t) hstep
    ((h.step hstep).exists_returned_of_sending hsending)

/-- The dispatcher can always return: its deadline passes, and its send does not block. -/
theorem Inv.exists_returned (f : Fleet Peer) :
    ∃ acts t, (dispatchProtocol Peer model capability steps fallbackProvider).run s acts = some t ∧
      t.handoff.dispatcher = .returned := by
  cases hdispatcher : s.handoff.dispatcher with
  | returned => exact ⟨[], s, rfl, hdispatcher⟩
  | sending => exact h.exists_returned_of_sending hdispatcher
  | running =>
    by_cases hchosen : ∃ a, s.loop.stage = .chosen a
    · obtain ⟨a, hstage⟩ := hchosen
      obtain ⟨t, hstep, hhandoff, hchosen⟩ := exists_acquire f hdispatcher hstage
      exact exists_run_of_step (a := .loop f .acquire) (t := t) hstep
        ((h.step hstep).exists_returned_of_running f (by rw [hhandoff, hdispatcher]) hchosen)
    · exact h.exists_returned_of_running f hdispatcher fun a hstage => hchosen ⟨a, hstage⟩

end

theorem timely_step {a : ExchangeAct Peer} (h : Inv steps s ∧ ¬s.handoff.Doomed)
    (htimely : s.Timely a) (hstep : s.step a = some t) : Inv steps t ∧ ¬t.handoff.Doomed :=
  ⟨h.1.step hstep, (not_doomed_step_iff h.1 h.2 hstep).mpr htimely⟩

theorem inv_of_reachVia
    (h : (dispatchProtocol Peer model capability steps fallbackProvider).ReachVia Timely s) :
    Inv steps s ∧ ¬s.handoff.Doomed := by
  refine h.induction (I := fun s => Inv steps s ∧ ¬s.handoff.Doomed) (fun s hinit => ?_)
    fun s a t => timely_step
  rw [show s = _ from hinit]
  exact ⟨.start model capability steps fallbackProvider, show ¬Handoff.start.Doomed by decide⟩

theorem Inv.length_le_work (h : Inv steps s) (hreturned : s.handoff.dispatcher = .returned)
    (hne : s.handoff.drain ≠ .absent) {acts : List (ExchangeAct Peer)}
    (hrun : (dispatchProtocol Peer model capability steps fallbackProvider).run s acts = some t) :
    acts.length ≤ s.handoff.work := by
  have hlength := length_le_of_decreasing
    (I := fun s => Inv steps s ∧ s.handoff.dispatcher = .returned ∧ s.handoff.drain ≠ .absent)
    (fun s => s.handoff.work) (fun s a t ⟨hinv, hreturned, hne⟩ hstep => by
      obtain ⟨hreturned', b, hb⟩ := returned_step hreturned hstep
      obtain ⟨hne', hlt⟩ := work_step hinv.handoff hne hb
      exact ⟨⟨hinv.step hstep, hreturned', hne'⟩, hlt⟩)
    acts s t ⟨h, hreturned, hne⟩ hrun
  omega

/-- When nothing can happen any more, every slot was freed, if every stream has a reader. -/
theorem Inv.freed_of_ended (h : Inv steps s) (hreturned : s.handoff.dispatcher = .returned)
    (hs : ¬s.handoff.Doomed) (hend : ∀ a, s.Timely a → s.step a = none) :
    ∀ x ∈ s.slots, x.freed = 1 := by
  have hslots := h.slots
  cases hheld : s.held with
  | false =>
    rw [hheld] at hslots
    exact hslots.freed_eq
  | true =>
    obtain ⟨a, htimely, henabled⟩ := exists_step_of_held h hreturned hs hheld
    exact absurd (hend a htimely) henabled

end Results

end Exchange

open Exchange

/-- **The protocol of a dispatch.** Whatever the scans find and the forwards return, one message is
sent by the time the dispatcher returns, and it can always return; no slot is freed twice; the
forwards keep to the tries of the steps and the free ones of the agents; and no agent is tried again
in a step after a failure that was charged. Every stream has a reader all along exactly if all steps
are timely. Then every slot is freed: once the dispatcher has returned it takes a bounded number of
steps until nothing can happen any more, and every slot was freed once by then. The slot of a stream
that has lost its reader is never freed. -/
theorem dispatch_protocol (model capability : String) (steps : List ResolvedStep)
    (fallbackProvider : Option FallbackProvider) :
    (∀ s, (dispatchProtocol Peer model capability steps fallbackProvider).Reachable s →
      (s.sent.length ≤ 1 ∧ (s.handoff.dispatcher = .returned → s.sent.length = 1) ∧
        ∀ _ : Fleet Peer, ∃ acts t,
          (dispatchProtocol Peer model capability steps fallbackProvider).run s acts = some t ∧
            t.handoff.dispatcher = .returned) ∧
      (∀ x ∈ s.slots, x.freed ≤ 1) ∧
      s.forwards.length ≤ budget steps +
        (s.forwards.map agent).toFinset.card * maxReconnectsPerAgent ∧
      s.forwards.Pairwise fun later earlier =>
        earlier.charge = .charged → earlier.stepIdx = later.stepIdx → earlier.agent ≠ later.agent) ∧
    (∀ acts s, (dispatchProtocol Peer model capability steps fallbackProvider).run
        (.start model capability steps fallbackProvider) acts = some s →
      ((dispatchProtocol Peer model capability steps fallbackProvider).Throughout
          (fun s => ¬s.handoff.Doomed) (.start model capability steps fallbackProvider) acts ↔
        (dispatchProtocol Peer model capability steps fallbackProvider).Along Timely
          (.start model capability steps fallbackProvider) acts)) ∧
    (∀ s, (dispatchProtocol Peer model capability steps fallbackProvider).ReachVia Timely s →
      s.handoff.dispatcher = .returned → ∀ acts t,
        (dispatchProtocol Peer model capability steps fallbackProvider).Along Timely s acts →
        (dispatchProtocol Peer model capability steps fallbackProvider).run s acts = some t →
          (s.handoff.drain ≠ .absent → acts.length ≤ s.handoff.work) ∧
          ((∀ a, t.Timely a → t.step a = none) → ∀ x ∈ t.slots, x.freed = 1)) ∧
    ∀ s, (dispatchProtocol Peer model capability steps fallbackProvider).Reachable s →
      s.handoff.Doomed → ∀ acts t,
        (dispatchProtocol Peer model capability steps fallbackProvider).run s acts = some t →
          ∃ x ∈ t.slots, x.freed = 0 := by
  refine ⟨fun s hs => ?_, fun acts s hrun => ?_, fun s hs hreturned acts t halong hrun => ⟨?_, ?_⟩,
    fun s hs hdoomed acts t hrun => ?_⟩
  · -- what the invariant says of one state
    have hinv := inv_of_reachable hs
    have hsent := hinv.sent
    refine ⟨⟨?_, fun hreturned => ?_, hinv.exists_returned⟩, hinv.slots.freed_le,
      hinv.forwards_length_le, hinv.tally.ordered⟩
    · split_ifs at hsent <;> omega
    · rw [hsent, if_pos hreturned]
  · -- one step keeps the reader exactly if it is timely
    refine throughout_iff_along_of (I := fun s => Inv steps s ∧ ¬s.handoff.Doomed)
      (fun _ h => h.2) ?_ acts _ s
      ⟨.start model capability steps fallbackProvider, show ¬Handoff.start.Doomed by decide⟩ hrun
    rintro s a t ⟨hinv, hs⟩ hstep
    have hiff := not_doomed_step_iff hinv hs hstep
    exact ⟨hiff.mp, fun htimely => ⟨hinv.step hstep, hiff.mpr htimely⟩⟩
  · exact fun hne => (inv_of_reachVia hs).1.length_le_work hreturned hne hrun
  · -- where nothing can happen any more the goroutine has released its slot
    intro hend
    obtain ⟨hinv, hdoomed⟩ := run_induction
      (I := fun s => Inv steps s ∧ ¬s.handoff.Doomed) (fun s a t => timely_step)
      acts s t (inv_of_reachVia hs) halong hrun
    have hreturned' : t.handoff.dispatcher = .returned :=
      run_preserves (I := fun s => s.handoff.dispatcher = .returned)
        (fun s a t hreturned hstep => (returned_step hreturned hstep).1) hreturned hrun
    exact hinv.freed_of_ended hreturned' hdoomed hend
  · -- a stream without a reader stays without one, and so does its slot
    obtain ⟨hinv, hdoomed⟩ := run_preserves
      (I := fun s => Inv steps s ∧ s.handoff.Doomed)
      (fun s a t ⟨hinv, hs⟩ hstep => ⟨hinv.step hstep, doomed_step hinv hs hstep⟩)
      ⟨inv_of_reachable hs, hdoomed⟩ hrun
    have hslots := hinv.slots
    rw [held_of_doomed hdoomed] at hslots
    exact hslots.exists_unfreed

/-! ### One agent -/

namespace OneAgent

/-- A healthy agent with one slot. -/
def agent : HivenetRouter.Domain.Agent :=
  ⟨⟨1, "", [], "", "", "", capabilityLLM, ""⟩, true, true, 0⟩

def ref : AgentRef ℕ := ⟨7, "m", 0⟩

def fleet : Fleet ℕ where
  registry := AgentRegistry.new.register (agentRefFields ℕ) ref
  objects := fun _ => agent
  stores := fun _ => {}

def steps : List ResolvedStep := [{ name := "routing_policy", effectiveMaxTries := 1 }]

abbrev machine : Machine (Exchange ℕ) (ExchangeAct ℕ) :=
  dispatchProtocol ℕ "m" capabilityLLM steps none

def begin : Exchange ℕ := .start "m" capabilityLLM steps none

/-- The agent is chosen and answers with a stream of one line. -/
def answered : List (ExchangeAct ℕ) :=
  [.loop fleet (.select (some ref)), .loop fleet .acquire, .stream OneLine.body, .goroutine .send]

def delivered : List (ExchangeAct ℕ) :=
  [.goroutine .receive, .goroutine .upstream, .goroutine (.read 5), .goroutine (.deliver true),
    .goroutine .upstream, .goroutine .release, .goroutine .closePipe, .goroutine .readEOF,
    .goroutine .close]

/-- The handler gives up before it looks at the response. -/
def abandoned : List (ExchangeAct ℕ) := answered ++ [.goroutine .timeout, .goroutine .upstream]

end OneAgent

/-- The line is delivered, and the slot was freed once. -/
theorem dispatch_protocol_delivered :
    ∃ s t, OneAgent.machine.ReachVia Timely s ∧ s.sent.length = 1 ∧
      OneAgent.machine.run s OneAgent.delivered = some t ∧ t.slots.length = 1 ∧
        ∀ x ∈ t.slots, x.freed = 1 := by
  have hanswered : (OneAgent.machine.run OneAgent.begin OneAgent.answered).map
      (fun s => s.handoff.dispatcher) = some .returned := by decide +kernel
  obtain ⟨s, hs, hreturned⟩ := map_eq_some_iff.mp hanswered
  have hall : (OneAgent.machine.run OneAgent.begin (OneAgent.answered ++ OneAgent.delivered)).map
      (fun t => (t.handoff.dispatcher, t.handoff.handler, t.handoff.drain, t.slots.length)) =
        some (.returned, .returned, .done, 1) := by decide +kernel
  obtain ⟨t, ht, heq⟩ := map_eq_some_iff.mp hall
  obtain ⟨hdispatcher, hhandler, hdrain, hlength⟩ : t.handoff.dispatcher = .returned ∧
      t.handoff.handler = .returned ∧ t.handoff.drain = .done ∧ t.slots.length = 1 := by
    simpa using heq
  obtain ⟨s', hs', hst⟩ := run_append_eq_some.mp ht
  obtain rfl := mem_unique hs hs'
  have htimely : OneAgent.machine.Along Timely OneAgent.begin
      (OneAgent.answered ++ OneAgent.delivered) := by decide +kernel
  obtain ⟨hbefore, hafter⟩ := (along_append hs).mp htimely
  have hvia : OneAgent.machine.ReachVia Timely s := ⟨_, _, rfl, hbefore, hs⟩
  have hprotocol := @dispatch_protocol ℕ _ "m" capabilityLLM OneAgent.steps none
  refine ⟨s, t, hvia, (hprotocol.1 s ⟨_, _, rfl, hs⟩).1.2.1 hreturned, hst, hlength, ?_⟩
  exact (hprotocol.2.2.1 s hvia hreturned _ t hafter hst).2 fun a _ =>
    step_eq_none hdispatcher hhandler (.inl hdrain) a

/-- The handler gives up although its response is there: nothing can happen any more, and the slot
was not freed. -/
theorem not_freed_abandoned :
    ¬∀ s, OneAgent.machine.Reachable s → (∀ a, OneAgent.machine.step s a = none) →
      ∀ x ∈ s.slots, x.freed = 1 := by
  intro h
  have hrun : (OneAgent.machine.run OneAgent.begin OneAgent.abandoned).map
      (fun s => (s.handoff, s.slots)) =
        some (⟨.returned, .returned, .writing 5 (some ⟨[], 0⟩), some .stream, false, false, false⟩,
          [.taken]) := by decide +kernel
  obtain ⟨s, hs, heq⟩ := map_eq_some_iff.mp hrun
  obtain ⟨hhandoff, hslots⟩ := Prod.mk.inj heq
  have hfreed := h s ⟨_, _, rfl, hs⟩ (step_eq_none (by rw [hhandoff]) (by rw [hhandoff])
    (.inr ⟨by rw [hhandoff], by rw [hhandoff], 5, some ⟨[], 0⟩, by rw [hhandoff]⟩))
  rw [hslots] at hfreed
  exact absurd (hfreed _ (.head _)) (by decide)

end HivenetRouter.Router
