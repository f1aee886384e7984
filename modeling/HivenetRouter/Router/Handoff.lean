import HivenetRouter.Framework.Machine
import Mathlib.Algebra.Ring.Nat

/-!
# Handing a response over

A request has a handler, which waits for its response in `awaitResponse`, and a dispatcher, which
sends one message on the channels `Response` and `Error` of the request. Both have room for one
message, so that the dispatcher does not wait for the handler. A streaming response has a third
goroutine: `drainStream` writes the body into a pipe whose reader is in the response, and frees the
slot of the agent when the body has ended. A write to the pipe waits until the reader has taken
all of it, or has closed the pipe.

The machine `handoff` has a step for every operation of the three on what they share. What the
client and the upstream do is in the actions. The upstream is finite: it brings an end or an error
at last, if only because the deadline of the request passes.

The handler may give up at any time (`timeout`), and never looks at the channels again. If a
streaming response is there, or comes later, nobody reads the pipe and nobody closes it: the
goroutine waits for ever in its first write, with the slot. `handoff_sound_iff` says that this is
the only way: the responses of a run find a reader exactly if no timeout abandons a stream that has
something to write (`Timely`), and then every slot is freed.
-/

namespace HivenetRouter.Router

open List Option Nat Machine

inductive Message where
  /-- A response with a body to stream. -/
  | stream
  | response
  | error
  deriving DecidableEq

inductive DispatcherStage where
  | running
  /-- At the send of its message. -/
  | sending (m : Message)
  | returned
  deriving DecidableEq

inductive HandlerStage where
  /-- In the `select` of `awaitResponse`. -/
  | waiting
  /-- In `io.Copy`, at a read of the pipe. -/
  | copying
  /-- In `io.Copy`, at a write to the client. -/
  | delivering
  /-- At the deferred `resp.Body.Close`. -/
  | closing
  | returned
  deriving DecidableEq

/-- What the upstream body brings: for every read the number of bytes that the line writer then
passes on, and at the end those of the last write, of a held line or of the truncation frame. -/
structure Upstream where
  chunks : List ℕ
  last : ℕ
  deriving DecidableEq

inductive Drain where
  /-- There is no streaming response. -/
  | absent
  /-- At a read of the body. -/
  | reading (u : Upstream)
  /-- At a write to the pipe that has `n` bytes left; without `next` it is the last one. -/
  | writing (n : ℕ) (next : Option Upstream)
  /-- At the release of the slot. -/
  | releasing
  /-- At the deferred `pw.Close`. -/
  | closing
  | done
  deriving DecidableEq

structure Handoff where
  dispatcher : DispatcherStage
  handler : HandlerStage
  drain : Drain
  /-- The channel `Response`. -/
  response : Option Message
  /-- There is a message in the channel `Error`. -/
  error : Bool
  /-- The reader of the pipe was closed. -/
  readerClosed : Bool
  /-- The slot of the streaming response was freed. -/
  released : Bool
  deriving DecidableEq

inductive HandoffAct where
  /-- `forwardToAgent` starts the goroutine for a streaming response. -/
  | stream (u : Upstream)
  /-- The dispatcher comes to another exit. -/
  | finish (m : Message)
  | send
  | receive
  | receiveError
  | timeout
  /-- The handler takes `k` bytes from the pipe. -/
  | read (k : ℕ)
  | readEOF
  /-- The handler writes to the client, which may have gone. -/
  | deliver (ok : Bool)
  | close
  /-- The upstream brings a chunk, or its end. -/
  | upstream
  /-- A write to the pipe fails, because its reader was closed. -/
  | writeFails
  | release
  | closePipe

namespace Upstream

def bytes (u : Upstream) : ℕ := u.chunks.sum + u.last

end Upstream

namespace Drain

def resume : Option Upstream → Drain
  | some u => .reading u
  | none => .releasing

/-- A write of `n` bytes; without bytes there is no write. -/
def write (n : ℕ) (next : Option Upstream) : Drain := if n = 0 then resume next else .writing n next

def read : Upstream → Drain
  | ⟨n :: chunks, last⟩ => write n (some ⟨chunks, last⟩)
  | ⟨[], last⟩ => write last none

def bytes : Drain → ℕ
  | .reading u => u.bytes
  | .writing n next => n + (next.map Upstream.bytes).getD 0
  | _ => 0

end Drain

namespace Handoff

def start : Handoff := ⟨.running, .waiting, .absent, none, false, false, false⟩

def put (s : Handoff) : Message → Option Handoff
  | .error => if s.error then none else some { s with error := true, dispatcher := .returned }
  | m =>
    if s.response.isSome then none
    else some { s with response := some m, dispatcher := .returned }

def take (s : Handoff) (m : Message) : Handoff :=
  { s with response := none, handler := if m = .stream then .copying else .returned }

def step (s : Handoff) : HandoffAct → Option Handoff
  | .stream u =>
    if s.dispatcher = .running then
      some { s with dispatcher := .sending .stream, drain := .reading u }
    else none
  | .finish m =>
    if s.dispatcher = .running ∧ m ≠ .stream then some { s with dispatcher := .sending m } else none
  | .send =>
    match s.dispatcher with
    | .sending m => s.put m
    | _ => none
  | .receive =>
    match s.handler, s.response with
    | .waiting, some m => some (s.take m)
    | _, _ => none
  | .receiveError =>
    if s.handler = .waiting ∧ s.error then some { s with error := false, handler := .returned }
    else none
  | .timeout => if s.handler = .waiting then some { s with handler := .returned } else none
  | .read k =>
    match s.handler, s.drain with
    | .copying, .writing n next =>
      if 0 < k ∧ k ≤ n then
        some { s with handler := .delivering, drain := .write (n - k) next }
      else none
    | _, _ => none
  | .readEOF =>
    if s.handler = .copying ∧ s.drain = .done then some { s with handler := .closing } else none
  | .deliver ok =>
    if s.handler = .delivering then
      some { s with handler := if ok then .copying else .closing }
    else none
  | .close =>
    if s.handler = .closing then some { s with handler := .returned, readerClosed := true }
    else none
  | .upstream =>
    match s.drain with
    | .reading u => some { s with drain := .read u }
    | _ => none
  | .writeFails =>
    match s.drain with
    | .writing _ _ => if s.readerClosed then some { s with drain := .releasing } else none
    | _ => none
  | .release =>
    if s.drain = .releasing then some { s with drain := .closing, released := true } else none
  | .closePipe => if s.drain = .closing then some { s with drain := .done } else none

/-- The goroutine is in a write to the pipe, which nobody will read or close. -/
def Stuck (s : Handoff) : Prop :=
  s.handler = .returned ∧ s.readerClosed = false ∧ ∃ n next, s.drain = .writing n next

/-- The goroutine has something to write, and nobody will read or close the pipe. -/
def Doomed (s : Handoff) : Prop :=
  s.handler = .returned ∧ s.readerClosed = false ∧ 0 < s.drain.bytes

instance (s : Handoff) : Decidable s.Doomed := inferInstanceAs (Decidable (_ ∧ _))

/-- The handler does not give up while there is a stream with something to write, and no such stream
starts when it has given up. -/
def Timely (s : Handoff) : HandoffAct → Prop
  | .timeout => s.drain.bytes = 0
  | .stream u => s.handler = .returned → u.bytes = 0
  | _ => True

instance (s : Handoff) (a : HandoffAct) : Decidable (s.Timely a) := by
  unfold Timely
  split <;> infer_instance

end Handoff

def handoff : Machine Handoff HandoffAct where
  Init s := s = .start
  step := Handoff.step

/-! ### What a step does -/

namespace Drain

theorem bytes_resume (next : Option Upstream) :
    (resume next).bytes = (next.map Upstream.bytes).getD 0 := by
  cases next with
  | none | some => rfl

theorem bytes_write (n : ℕ) (next : Option Upstream) :
    (write n next).bytes = n + (next.map Upstream.bytes).getD 0 := by
  unfold write
  split_ifs with hn
  · rw [bytes_resume, hn, zero_add]
  · rfl

theorem bytes_read (u : Upstream) : (read u).bytes = u.bytes := by
  rcases u with ⟨_ | ⟨n, chunks⟩, last⟩
  · rw [read, bytes_write]
    show last + 0 = 0 + last
    omega
  · rw [read, bytes_write]
    show n + (chunks.sum + last) = (n :: chunks).sum + last
    rw [sum_cons, add_assoc]

/-- Steps that the goroutine is sure to take, with three for every byte. -/
def work : Drain → ℕ
  | .absent => 0
  | .reading u => 3 * u.bytes + u.chunks.length + 3
  | .writing n next => 3 * n + (next.map fun u => 3 * u.bytes + u.chunks.length + 3).getD 2
  | .releasing => 2
  | .closing => 1
  | .done => 0

theorem work_write (n : ℕ) (next : Option Upstream) :
    (write n next).work = 3 * n + (next.map fun u => 3 * u.bytes + u.chunks.length + 3).getD 2 := by
  unfold write
  split_ifs with hn
  · subst hn
    cases next with
    | none => rfl
    | some => exact (zero_add _).symm
  · rfl

theorem work_read_lt (u : Upstream) : (read u).work < (Drain.reading u).work := by
  rcases u with ⟨_ | ⟨n, chunks⟩, last⟩
  · rw [read, work_write]
    simp only [map_none, getD_none, work, Upstream.bytes, sum_nil, length_nil]
    omega
  · rw [read, work_write]
    simp only [map_some, getD_some, work, Upstream.bytes, sum_cons, length_cons]
    omega

end Drain

namespace Handoff

/-- The inversion of `step`. -/
inductive Moved (s : Handoff) : HandoffAct → Handoff → Prop
  | stream (u : Upstream) (h : s.dispatcher = .running) :
    Moved s (.stream u) { s with dispatcher := .sending .stream, drain := .reading u }
  | finish (m : Message) (h : s.dispatcher = .running) (hm : m ≠ .stream) :
    Moved s (.finish m) { s with dispatcher := .sending m }
  | sendError (h : s.dispatcher = .sending .error) :
    Moved s .send { s with error := true, dispatcher := .returned }
  | sendResponse (m : Message) (hm : m ≠ .error) (h : s.dispatcher = .sending m) :
    Moved s .send { s with response := some m, dispatcher := .returned }
  | receiveStream (h : s.handler = .waiting) (hm : s.response = some .stream) :
    Moved s .receive { s with response := none, handler := .copying }
  | receiveOther (m : Message) (h : s.handler = .waiting) (hm : s.response = some m)
      (hne : m ≠ .stream) : Moved s .receive { s with response := none, handler := .returned }
  | receiveError (h : s.handler = .waiting) (herror : s.error = true) :
    Moved s .receiveError { s with error := false, handler := .returned }
  | timeout (h : s.handler = .waiting) : Moved s .timeout { s with handler := .returned }
  | read (k n : ℕ) (next : Option Upstream) (h : s.handler = .copying)
      (hdrain : s.drain = .writing n next) (hk : 0 < k) (hkn : k ≤ n) :
    Moved s (.read k) { s with handler := .delivering, drain := .write (n - k) next }
  | readEOF (h : s.handler = .copying) (hdrain : s.drain = .done) :
    Moved s .readEOF { s with handler := .closing }
  | deliver (ok : Bool) (h : s.handler = .delivering) :
    Moved s (.deliver ok) { s with handler := if ok then .copying else .closing }
  | close (h : s.handler = .closing) :
    Moved s .close { s with handler := .returned, readerClosed := true }
  | upstream (u : Upstream) (hdrain : s.drain = .reading u) :
    Moved s .upstream { s with drain := .read u }
  | writeFails (n : ℕ) (next : Option Upstream) (hdrain : s.drain = .writing n next)
      (hclosed : s.readerClosed = true) : Moved s .writeFails { s with drain := .releasing }
  | release (hdrain : s.drain = .releasing) :
    Moved s .release { s with drain := .closing, released := true }
  | closePipe (hdrain : s.drain = .closing) : Moved s .closePipe { s with drain := .done }

variable {s t : Handoff} {m : Message}

theorem moved_put (hm : s.dispatcher = .sending m) (h : s.put m = some t) : s.Moved .send t := by
  cases m with
  | stream | response =>
    obtain ⟨-, h⟩ := ite_none_left_eq_some.mp h
    cases h
    exact .sendResponse _ nofun hm
  | error =>
    obtain ⟨-, h⟩ := ite_none_left_eq_some.mp h
    cases h
    exact .sendError hm

theorem moved_take (h : s.handler = .waiting) (hm : s.response = some m) :
    s.Moved .receive (s.take m) := by
  unfold take
  split_ifs with hstream
  · subst hstream
    exact .receiveStream h hm
  · exact .receiveOther m h hm hstream

theorem moved_of_step {a : HandoffAct} (h : s.step a = some t) : s.Moved a t := by
  cases a with
  | stream u =>
    obtain ⟨hrunning, h⟩ := ite_none_right_eq_some.mp h
    cases h
    exact .stream u hrunning
  | finish m =>
    obtain ⟨⟨hrunning, hm⟩, h⟩ := ite_none_right_eq_some.mp h
    cases h
    exact .finish m hrunning hm
  | send =>
    unfold step at h
    dsimp only at h
    split at h
    · exact moved_put ‹_› h
    · cases h
  | receive =>
    unfold step at h
    dsimp only at h
    split at h
    · cases h
      exact moved_take ‹_› ‹_›
    · cases h
  | receiveError =>
    obtain ⟨⟨hwaiting, herror⟩, h⟩ := ite_none_right_eq_some.mp h
    cases h
    exact .receiveError hwaiting herror
  | timeout =>
    obtain ⟨hwaiting, h⟩ := ite_none_right_eq_some.mp h
    cases h
    exact .timeout hwaiting
  | read k =>
    unfold step at h
    dsimp only at h
    split at h
    · obtain ⟨⟨hk, hkn⟩, h⟩ := ite_none_right_eq_some.mp h
      cases h
      exact .read k _ _ ‹_› ‹_› hk hkn
    · cases h
  | readEOF =>
    obtain ⟨⟨hcopying, hdone⟩, h⟩ := ite_none_right_eq_some.mp h
    cases h
    exact .readEOF hcopying hdone
  | deliver ok =>
    obtain ⟨hdelivering, h⟩ := ite_none_right_eq_some.mp h
    cases h
    exact .deliver ok hdelivering
  | close =>
    obtain ⟨hclosing, h⟩ := ite_none_right_eq_some.mp h
    cases h
    exact .close hclosing
  | upstream =>
    unfold step at h
    dsimp only at h
    split at h
    · cases h
      exact .upstream _ ‹_›
    · cases h
  | writeFails =>
    unfold step at h
    dsimp only at h
    split at h
    · obtain ⟨hclosed, h⟩ := ite_none_right_eq_some.mp h
      cases h
      exact .writeFails _ _ ‹_› hclosed
    · cases h
  | release =>
    obtain ⟨hreleasing, h⟩ := ite_none_right_eq_some.mp h
    cases h
    exact .release hreleasing
  | closePipe =>
    obtain ⟨hclosing, h⟩ := ite_none_right_eq_some.mp h
    cases h
    exact .closePipe hclosing

/-! ### The invariant -/

/-- The invariant. The drain goroutine exists only behind a streaming response, which the handler
has or will find, and the slot is released exactly where the goroutine has passed its release. -/
structure Inv (s : Handoff) : Prop where
  closed : s.readerClosed = true → s.handler = .returned
  /-- The channels have room for the message. -/
  room : s.dispatcher ≠ .returned → s.response = none ∧ s.error = false
  running : s.dispatcher = .running →
    s.drain = .absent ∧ (s.handler = .waiting ∨ s.handler = .returned) ∧ s.readerClosed = false
  /-- Only a streaming response has a goroutine. -/
  only : s.drain ≠ .absent → s.error = false ∧ ∀ m ∈ s.response, m = .stream
  sending : s.drain ≠ .absent → ∀ m, s.dispatcher = .sending m → m = .stream
  /-- A handler that waits will find the response. -/
  found : s.drain ≠ .absent → s.handler = .waiting →
    s.dispatcher = .sending .stream ∨ s.response = some .stream
  writing : ∀ n next, s.drain = .writing n next → 0 < n
  released : s.released = true ↔ s.drain = .closing ∨ s.drain = .done

end Handoff

namespace Drain

/-- After a write or a read the goroutine is not at a release, and has not ended. -/
structure Going (d : Drain) : Prop where
  absent : d ≠ .absent
  writing : ∀ n next, d = .writing n next → 0 < n
  released : ¬(d = .closing ∨ d = .done)

theorem going_write (n : ℕ) (next : Option Upstream) : (write n next).Going := by
  unfold write
  split_ifs with hn
  · cases next with
    | none => exact ⟨nofun, nofun, by decide⟩
    | some => exact ⟨nofun, nofun, by rintro (h | h) <;> cases h⟩
  · refine ⟨nofun, ?_, by rintro (h | h) <;> cases h⟩
    rintro _ _ ⟨⟩
    exact Nat.pos_of_ne_zero hn

theorem going_read (u : Upstream) : (read u).Going := by
  rcases u with ⟨_ | ⟨n, chunks⟩, last⟩
  · exact going_write last none
  · exact going_write n _

end Drain

namespace Handoff

theorem Inv.start : Inv .start where
  closed := nofun
  room _ := ⟨rfl, rfl⟩
  running _ := ⟨rfl, .inl rfl, rfl⟩
  only h := absurd rfl h
  sending h := absurd rfl h
  found h := absurd rfl h
  writing := nofun
  released := by decide

variable {s : Handoff} {a : HandoffAct} {t : Handoff}

theorem Inv.goOn (h : Inv s) (hne : s.drain ≠ .absent) {d : Drain} {released : Bool}
    (hwriting : ∀ n next, d = .writing n next → 0 < n)
    (hreleased : released = true ↔ d = .closing ∨ d = .done) :
      Inv { s with drain := d, released } where
  __ := h
  running hrunning := absurd (h.running hrunning).1 hne
  only _ := h.only hne
  sending _ := h.sending hne
  found _ := h.found hne
  writing := hwriting
  released := hreleased

theorem Inv.going (h : Inv s) (hne : s.drain ≠ .absent)
    (hnot : ¬(s.drain = .closing ∨ s.drain = .done)) {d : Drain} (hd : d.Going) :
    Inv { s with drain := d } :=
  h.goOn hne hd.writing (iff_of_false (fun hreleased => hnot (h.released.mp hreleased)) hd.released)

theorem Inv.handler (h : Inv s) (hclosed : s.handler ≠ .returned) {stage : HandlerStage}
    (hstage : stage ≠ .waiting) (hwaiting : s.handler = .waiting → stage = .returned) :
    Inv { s with handler := stage } where
  closed hreader := absurd (h.closed hreader) hclosed
  __ := h
  running hrunning :=
    have ⟨habsent, hhandler, hopen⟩ := h.running hrunning
    ⟨habsent, .inr (hwaiting (hhandler.resolve_right hclosed)), hopen⟩
  found _ hwaiting := absurd hwaiting hstage

/-- **Every step keeps the invariant.** -/
theorem Inv.step (h : Inv s) (hstep : s.step a = some t) : Inv t := by
  cases moved_of_step hstep with
  | stream u hrunning =>
    -- the goroutine starts here, with the slot and with room for its response
    obtain ⟨habsent, -⟩ := h.running hrunning
    obtain ⟨hresponse, herror⟩ := h.room (by rw [hrunning]; nofun)
    refine ⟨h.closed, fun _ => ⟨hresponse, herror⟩, nofun, fun _ => ⟨herror, ?_⟩, ?_,
      fun _ _ => .inl rfl,
      nofun, ?_⟩
    · rw [hresponse]
      exact nofun
    · rintro _ m ⟨⟩
      rfl
    · rw [h.released, habsent]
      exact iff_of_false (by decide) (by rintro (h | h) <;> cases h)
  | finish m hrunning =>
    obtain ⟨habsent, -⟩ := h.running hrunning
    have hroom := h.room (by rw [hrunning]; nofun)
    exact ⟨h.closed, fun _ => hroom, nofun, fun hne => absurd habsent hne,
      fun hne => absurd habsent hne, fun hne => absurd habsent hne, h.writing, h.released⟩
  | sendError hsending =>
    -- a dispatcher that has started a goroutine sends the stream
    have habsent : s.drain = .absent := by
      by_contra hne
      exact absurd (h.sending hne _ hsending) nofun
    exact ⟨h.closed, fun hne => absurd rfl hne, nofun, fun hne => absurd habsent hne,
      fun hne => absurd habsent hne, fun hne => absurd habsent hne, h.writing, h.released⟩
  | sendResponse m hm hsending =>
    refine ⟨h.closed, fun hne => absurd rfl hne, nofun, fun hne => ⟨(h.only hne).1, ?_⟩, nofun,
      fun hne _ => ?_, h.writing, h.released⟩
    · rintro _ ⟨⟩
      exact h.sending hne m hsending
    · exact .inr (congrArg some (h.sending hne m hsending))
  | receiveStream hwaiting hm =>
    refine ⟨?_, fun hne => ⟨rfl, (h.room hne).2⟩, ?_, fun hne => ⟨(h.only hne).1, nofun⟩, h.sending,
      nofun, h.writing, h.released⟩
    · intro hclosed
      rw [h.closed hclosed] at hwaiting
      cases hwaiting
    · -- nothing is received while the dispatcher still runs
      intro hrunning
      rw [(h.room (by rw [show s.dispatcher = _ from hrunning]; nofun)).1] at hm
      cases hm
  | receiveOther m hwaiting hm hother =>
    -- beside a goroutine nothing else than the stream is sent
    have habsent : s.drain = .absent := by
      by_contra hne
      exact hother ((h.only hne).2 m hm)
    exact ⟨fun _ => rfl, fun hne => ⟨rfl, (h.room hne).2⟩,
      fun hrunning => ⟨habsent, .inr rfl, (h.running hrunning).2.2⟩, fun hne => absurd habsent hne,
      fun hne => absurd habsent hne, fun hne => absurd habsent hne, h.writing, h.released⟩
  | receiveError hwaiting herror =>
    have habsent : s.drain = .absent := by
      by_contra hne
      rw [(h.only hne).1] at herror
      cases herror
    exact ⟨fun _ => rfl, fun hne => ⟨(h.room hne).1, rfl⟩,
      fun hrunning => ⟨habsent, .inr rfl, (h.running hrunning).2.2⟩, fun hne => absurd habsent hne,
      fun hne => absurd habsent hne, fun hne => absurd habsent hne, h.writing, h.released⟩
  | timeout hwaiting => exact h.handler (by rw [hwaiting]; nofun) nofun fun _ => rfl
  | read k n next hcopying hdrain =>
    have hgoing := h.going (by rw [hdrain]; nofun) (by rw [hdrain]; rintro (h | h) <;> cases h)
      (Drain.going_write (n - k) next)
    exact hgoing.handler (by rw [hcopying]; nofun) nofun (by rw [hcopying]; nofun)
  | readEOF hcopying => exact h.handler (by rw [hcopying]; nofun) nofun (by rw [hcopying]; nofun)
  | deliver ok hdelivering =>
    refine h.handler (by rw [hdelivering]; nofun) ?_ (by rw [hdelivering]; nofun)
    cases ok with
    | true | false => exact nofun
  | close hclosing =>
    refine ⟨fun _ => rfl, h.room, fun hrunning => ?_, h.only, h.sending, nofun, h.writing,
      h.released⟩
    -- the handler closes a body only after it has received it
    obtain ⟨-, hhandler, -⟩ := h.running hrunning
    rw [hclosing] at hhandler
    rcases hhandler with hhandler | hhandler <;> cases hhandler
  | upstream u hdrain =>
    exact h.going (by rw [hdrain]; nofun) (by rw [hdrain]; rintro (h | h) <;> cases h)
      (Drain.going_read u)
  | writeFails n next hdrain =>
    exact h.going (by rw [hdrain]; nofun) (by rw [hdrain]; rintro (h | h) <;> cases h)
      ⟨nofun, nofun, by decide⟩
  | release hdrain => exact h.goOn (by rw [hdrain]; nofun) nofun (iff_of_true rfl (.inl rfl))
  | closePipe hdrain =>
    exact h.goOn
      (by rw [hdrain]; nofun) nofun (iff_of_true (h.released.mpr (.inl hdrain)) (.inr rfl))

/-! ### Streams that nobody reads -/

theorem Stuck.doomed (h : Inv s) (hs : s.Stuck) : s.Doomed := by
  obtain ⟨hreturned, hopen, n, next, hdrain⟩ := hs
  refine ⟨hreturned, hopen, ?_⟩
  rw [hdrain]
  exact Nat.add_pos_left (h.writing n next hdrain) _

/-- The handler has returned by then, so nothing changes any more. -/
theorem Doomed.step (h : Inv s) (hs : s.Doomed) (hstep : s.step a = some t) : t.Doomed := by
  obtain ⟨hreturned, hopen, hbytes⟩ := hs
  have hhandler : ∀ stage, stage ≠ .returned → s.handler ≠ stage := by
    rintro stage hne rfl
    exact hne hreturned
  have hdrain : ∀ d : Drain, d.bytes = 0 → s.drain ≠ d := by
    rintro d hd rfl
    omega
  cases moved_of_step hstep with
  -- the goroutine that is stuck is the only one
  | stream u hrunning => exact absurd (h.running hrunning).1 (hdrain _ rfl)
  | finish | sendError | sendResponse => exact ⟨hreturned, hopen, hbytes⟩
  | receiveStream hwaiting | receiveOther m hwaiting | receiveError hwaiting
  | timeout hwaiting | deliver ok hwaiting
  | close hwaiting => exact absurd hwaiting (hhandler _ nofun)
  | read k n next hcopying | readEOF hcopying => exact absurd hcopying (hhandler _ nofun)
  | upstream u hreading =>
    refine ⟨hreturned, hopen, ?_⟩
    rw [hreading] at hbytes
    rw [Drain.bytes_read]
    exact hbytes
  | writeFails n next hwriting hclosed =>
    -- a write fails only if the reader has closed the pipe
    rw [hopen] at hclosed
    cases hclosed
  | release hreleasing | closePipe hreleasing => exact absurd hreleasing (hdrain _ rfl)

/-- **The exact condition for a step**: from a state in which every stream has a reader, it leads to
another one exactly if it is timely. -/
theorem not_doomed_step_iff (h : Inv s) (hs : ¬s.Doomed) (hstep : s.step a = some t) :
    ¬t.Doomed ↔ s.Timely a := by
  -- what is left to write, where the handler has returned
  have hnone : s.handler = .returned → s.readerClosed = false → s.drain.bytes = 0 := by
    intro hreturned hopen
    by_contra hne
    exact hs ⟨hreturned, hopen, Nat.pos_of_ne_zero hne⟩
  have hkeep : ∀ t : Handoff, t.handler = s.handler → t.readerClosed = s.readerClosed →
      t.drain.bytes ≤ s.drain.bytes → ¬t.Doomed := by
    rintro t hhandler hclosed hle ⟨hreturned, hopen, hbytes⟩
    have := hnone (hhandler ▸ hreturned) (hclosed ▸ hopen)
    omega
  have habsent : ∀ t : Handoff, t.drain = .absent → ¬t.Doomed := by
    rintro t hdrain ⟨-, -, hbytes⟩
    rw [hdrain] at hbytes
    exact absurd hbytes (by decide)
  cases moved_of_step hstep with
  | stream u hrunning =>
    obtain ⟨-, -, hopen⟩ := h.running hrunning
    show ¬(s.handler = .returned ∧ s.readerClosed = false ∧ 0 < u.bytes) ↔ _
    rw [hopen]
    simp [Timely]
  | finish | sendError | sendResponse => exact iff_of_true (hkeep _ rfl rfl (le_refl _)) trivial
  | receiveStream | read | readEOF => exact iff_of_true (fun hdoomed => nomatch hdoomed.1) trivial
  | receiveOther m hwaiting hm hother =>
    refine iff_of_true (habsent _ ?_) trivial
    by_contra hne
    exact hother ((h.only hne).2 m hm)
  | receiveError hwaiting herror =>
    refine iff_of_true (habsent _ ?_) trivial
    by_contra hne
    rw [(h.only hne).1] at herror
    cases herror
  | timeout hwaiting =>
    have hopen : s.readerClosed = false := by
      refine eq_false_of_ne_true fun hclosed => ?_
      rw [h.closed hclosed] at hwaiting
      cases hwaiting
    show ¬(HandlerStage.returned = .returned ∧ s.readerClosed = false ∧ 0 < s.drain.bytes) ↔ _
    rw [hopen]
    simp [Timely]
  | deliver ok =>
    refine iff_of_true (fun hdoomed => ?_) trivial
    have hreturned := hdoomed.1
    cases ok <;> cases hreturned
  | close => exact iff_of_true (fun hdoomed => nomatch hdoomed.2.1) trivial
  | upstream u hreading =>
    refine iff_of_true (hkeep _ rfl rfl ?_) trivial
    rw [hreading, Drain.bytes_read]
    exact le_refl _
  | writeFails | release | closePipe => exact iff_of_true (hkeep _ rfl rfl (zero_le _)) trivial

/-! ### Slots are freed -/

/-- The steps that are left for a streaming response, at most. -/
def work (s : Handoff) : ℕ :=
  (match s.dispatcher with
    | .sending _ => 1
    | _ => 0) +
  (match s.handler with
    | .waiting | .delivering => 3
    | .copying => 2
    | .closing => 1
    | .returned => 0) +
  s.drain.work

theorem work_step (h : Inv s) (hne : s.drain ≠ .absent) (hstep : s.step a = some t) :
    t.drain ≠ .absent ∧ t.work < s.work := by
  cases moved_of_step hstep with
  | stream u hrunning | finish m hrunning hm => exact absurd (h.running hrunning).1 hne
  | sendError hsending
  | sendResponse m hm hsending => exact ⟨hne, by simp only [work, hsending]; omega⟩
  | receiveStream hwaiting | receiveOther m hwaiting | receiveError hwaiting
  | timeout hwaiting | readEOF hwaiting
  | close hwaiting => exact ⟨hne, by simp only [work, hwaiting]; omega⟩
  | read k n next hcopying hdrain =>
    refine ⟨(Drain.going_write _ _).absent, ?_⟩
    have hwriting : (Drain.writing n next).work =
        3 * n + (next.map fun u => 3 * u.bytes + u.chunks.length + 3).getD 2 := rfl
    -- `delivering` counts for one more than `copying`, but a byte less is left
    simp only [work, hcopying, hdrain, Drain.work_write, hwriting]
    omega
  | deliver ok hdelivering =>
    refine ⟨hne, ?_⟩
    cases ok <;> simp only [work, hdelivering] <;> simp
  | upstream u hreading =>
    have hlt := Drain.work_read_lt u
    rw [← hreading] at hlt
    exact ⟨(Drain.going_read u).absent, Nat.add_lt_add_left hlt _⟩
  | writeFails n next hwriting =>
    have hn := h.writing n next hwriting
    refine ⟨nofun, Nat.add_lt_add_left ?_ _⟩
    rw [hwriting]
    show 2 < 3 * n + _
    omega
  | release hreleasing =>
    refine ⟨nofun, Nat.add_lt_add_left ?_ _⟩
    rw [hreleasing]
    exact lt_succ_self 1
  | closePipe hclosing =>
    refine ⟨nofun, Nat.add_lt_add_left ?_ _⟩
    rw [hclosing]
    exact lt_succ_self 0

/-- While the slot is held, someone can go on, if every stream has a reader. -/
theorem exists_step (h : Inv s) (hs : ¬s.Doomed) (hne : s.drain ≠ .absent)
    (hreleased : s.released = false) : ∃ a, s.Timely a ∧ s.step a ≠ none := by
  have hnot : ¬(s.drain = .closing ∨ s.drain = .done) := by
    rw [← h.released, hreleased]
    exact Bool.false_ne_true
  cases hdrain : s.drain with
  | absent => exact absurd hdrain hne
  | reading => exact ⟨.upstream, trivial, by simp [step, hdrain]⟩
  | writing n next =>
    have hn := h.writing n next hdrain
    cases hclosed : s.readerClosed with
    | true => exact ⟨.writeFails, trivial, by simp [step, hdrain, hclosed]⟩
    | false =>
      cases hhandler : s.handler with
      | waiting =>
        -- the response is on its way, or it is in the channel
        rcases h.found hne hhandler with hsending | hresponse
        · have hroom := (h.room (by rw [hsending]; nofun)).1
          exact ⟨.send, trivial, by simp [step, hsending, put, hroom]⟩
        · exact ⟨.receive, trivial, by simp [step, hhandler, hresponse]⟩
      | copying => exact ⟨.read n, trivial, by simp [step, hhandler, hdrain, hn]⟩
      | delivering => exact ⟨.deliver true, trivial, by simp [step, hhandler]⟩
      | closing => exact ⟨.close, trivial, by simp [step, hhandler]⟩
      -- the stream would have lost its reader
      | returned => exact absurd (Stuck.doomed h ⟨hhandler, hclosed, n, next, hdrain⟩) hs
  | releasing => exact ⟨.release, trivial, by simp [step, hdrain]⟩
  | closing => exact absurd (.inl hdrain) hnot
  | done => exact absurd (.inr hdrain) hnot

end Handoff

open Handoff

variable {s t : Handoff}

theorem Handoff.timely_step {a : HandoffAct} (h : Inv s ∧ ¬s.Doomed) (htimely : s.Timely a)
    (hstep : handoff.step s a = some t) : Inv t ∧ ¬t.Doomed :=
  ⟨h.1.step hstep, (not_doomed_step_iff h.1 h.2 hstep).mpr htimely⟩

/-- A slot of which the stream has lost its reader is not freed. -/
theorem Handoff.Doomed.released (h : Inv s) (hs : s.Doomed) : s.released = false := by
  refine eq_false_of_ne_true fun hreleased => ?_
  have hbytes := hs.2.2
  rcases h.released.mp hreleased with hdrain | hdrain
  all_goals
    rw [hdrain] at hbytes
    exact absurd hbytes (by decide)

/-- The steps that are left are bounded, once there is a stream. -/
theorem Handoff.length_le_work (h : Inv s) (hne : s.drain ≠ .absent) {acts : List HandoffAct}
    (hrun : handoff.run s acts = some t) :
    t.drain ≠ .absent ∧ acts.length ≤ s.work := by
  have hstep : ∀ s a t, (Inv s ∧ s.drain ≠ .absent) → handoff.step s a = some t →
      (Inv t ∧ t.drain ≠ .absent) ∧ t.work < s.work := by
    rintro s a t ⟨hinv, hne⟩ hstep
    obtain ⟨hne', hlt⟩ := work_step hinv hne hstep
    exact ⟨⟨hinv.step hstep, hne'⟩, hlt⟩
  have hlength := length_le_of_decreasing work hstep acts s t ⟨h, hne⟩ hrun
  have ht := run_preserves (fun s a t h hst => (hstep s a t h hst).1) ⟨h, hne⟩ hrun
  exact ⟨ht.2, by omega⟩

/-- **Handing a response over.** In a run every stream has a reader all along exactly if all steps
are timely. Then no goroutine waits for a reader for ever, and the slot of a streaming response is
freed: it takes a bounded number of steps until nothing can happen any more, and the slot is free by
then. Where a stream has lost its reader, its slot is never freed. -/
theorem handoff_sound_iff (s : Handoff) : (∀ acts, handoff.run .start acts = some s →
      (handoff.Throughout (fun s => ¬s.Doomed) .start acts ↔ handoff.Along Timely .start acts)) ∧
    (handoff.ReachVia Timely s → ¬s.Stuck ∧
      (s.drain ≠ .absent → ∀ acts t, handoff.Along Timely s acts → handoff.run s acts = some t →
        acts.length ≤ s.work ∧ ((∀ a, t.Timely a → handoff.step t a = none) → t.released = true))) ∧
    (handoff.Reachable s → s.Doomed →
      ∀ acts t, handoff.run s acts = some t → t.released = false) := by
  refine ⟨fun acts hrun => ?_, fun hs => ?_, fun hs hdoomed acts t hrun => ?_⟩
  · refine throughout_iff_along_of (I := fun s => Inv s ∧ ¬s.Doomed) (fun _ h => h.2) ?_ acts
      .start s ⟨.start, by decide⟩ hrun
    rintro s a t ⟨hinv, hs⟩ hstep
    have hiff := not_doomed_step_iff hinv hs hstep
    exact ⟨hiff.mp, fun htimely => ⟨hinv.step hstep, hiff.mpr htimely⟩⟩
  · have hinv : Inv s ∧ ¬s.Doomed := by
      refine hs.induction (fun s hinit => ?_) fun s a t => timely_step
      rw [show s = _ from hinit]
      exact ⟨.start, by decide⟩
    refine ⟨fun hstuck => hinv.2 (hstuck.doomed hinv.1), fun hne acts t halong hrun => ?_⟩
    obtain ⟨hne', hlength⟩ := length_le_work hinv.1 hne hrun
    refine ⟨hlength, fun hend => ?_⟩
    have ht := run_induction (fun s a t => timely_step) acts s t hinv halong hrun
    -- if the slot were still held, some timely step would be possible
    by_contra hreleased
    obtain ⟨a, htimely, henabled⟩ := exists_step ht.1 ht.2 hne' (eq_false_of_ne_true hreleased)
    exact henabled (hend a htimely)
  · have hinv : Inv s := hs.induction (fun s hinit => by rw [show s = _ from hinit]; exact .start)
      fun s a t h hstep => h.step hstep
    obtain ⟨ht, hdoomed⟩ := run_preserves (I := fun s => Inv s ∧ s.Doomed)
      (fun s a t ⟨hinv, hs⟩ hstep => ⟨hinv.step hstep, hs.step hinv hstep⟩) ⟨hinv, hdoomed⟩ hrun
    exact hdoomed.released ht

/-! ### One line -/

namespace OneLine

def body : Upstream := ⟨[5], 0⟩

def delivered : List HandoffAct :=
  [.stream body, .send, .receive, .upstream, .read 3, .deliver true, .read 2, .deliver true,
    .upstream, .release, .closePipe, .readEOF, .close]

/-- The timeout fires when the response is in its channel. -/
def abandoned : List HandoffAct := [.stream body, .send, .timeout, .upstream]

end OneLine

/-- The line is delivered, and the slot is freed. -/
theorem handoff_sound_delivered :
    (handoff.run .start OneLine.delivered).map Handoff.released = some true ∧
      handoff.Throughout (fun s => ¬s.Doomed) .start OneLine.delivered := by
  refine ⟨by decide, ?_⟩
  obtain ⟨s, hrun⟩ : ∃ s, handoff.run .start OneLine.delivered = some s :=
    isSome_iff_exists.mp (by decide)
  rw [(handoff_sound_iff s).1 _ hrun]
  decide

/-- The handler gives up although its response is there, and the goroutine waits for ever. -/
theorem stuck_abandoned : ¬∀ s, handoff.Reachable s → ¬s.Stuck := by
  intro h
  have hrun : handoff.run .start OneLine.abandoned =
      some ⟨.returned, .returned, .writing 5 (some ⟨[], 0⟩), some .stream, false, false,
        false⟩ := by
    decide
  exact h _ ⟨.start, OneLine.abandoned, rfl, hrun⟩ ⟨rfl, rfl, 5, _, rfl⟩

end HivenetRouter.Router
