import HivenetRouter.Framework.Machine

/-!
# The decision log

`DecisionLog`: any number of calls of `Write` and of `Close`, and the goroutine `run`. A call of
`Write` stands for its record, and `accepted`, `dropped` and `file` keep what happened, in its
order. Go's lock also holds readers back while a `Close` waits for it, which only takes runs away.

`Inv` is indexed by the phase of the function that `once` runs: the phase alone decides who holds
`mu` for writing and what is closed (`Closing.flags`). It holds in every reachable state
(`exists_inv`); `decisionLog_accounts` and `close_progress` are read off it.
-/

namespace HivenetRouter.Semantic

open List

/-- Where a call of `Write` is. -/
inductive Writing | start | check | select | drop | unlock | done
  deriving DecidableEq

/-- Where a call of `Close` is: from `lock` to `closeFile` in the function that `once` runs. -/
inductive Closing | start | lock | setClosed | closeChan | unlock | wait | closeFile | done
  deriving DecidableEq

/-- Whether `mu` is held for writing, the log is closed, and the channel is, while the function is
at a phase. -/
def Closing.flags : Closing → Bool × Bool × Bool
  | .start | .lock => (false, false, false)
  | .setClosed => (true, false, false)
  | .closeChan => (true, true, false)
  | .unlock => (true, true, true)
  | .wait | .closeFile | .done => (false, true, true)

/-- Where `run` is. -/
inductive Running (ι : Type*) | receive | encode (i : ι) | idle | flush | done
  deriving DecidableEq

structure DecisionLog (ι κ : Type*) where
  buffer : ℕ
  ch : List ι := []
  chClosed : Bool := false
  /-- The calls that hold `mu` for reading, and whether one holds it for writing. -/
  readers : Finset ι := ∅
  locked : Bool := false
  closed : Bool := false
  dropped : List ι := []
  writeErrs : ℕ := 0
  /-- The call whose function `once` runs or has run. -/
  once : Option κ := none
  writing : ι → Writing := fun _ => .start
  closing : κ → Closing := fun _ => .start
  running : Running ι := .receive
  accepted : List ι := []
  /-- The records passed to the encoder, and `none` for a closing of the file. -/
  file : List (Option ι) := []
  /-- There was a send on the closed channel, or a second closing of it. -/
  panicked : Bool := false

namespace DecisionLog

variable {ι κ : Type*} (l : DecisionLog ι κ)

def openDecisionLog (buffer : ℤ) : DecisionLog ι κ where
  buffer := if buffer ≤ 0 then 4096 else buffer.toNat

/-- A step of `run`; `failed` says how the encoding or the flush ends. -/
def run (failed : Bool) : Option (DecisionLog ι κ) :=
  let errs := l.writeErrs + failed.toNat
  match l.running, l.ch with
  | .receive, i :: ch => some { l with ch, running := .encode i }
  | .receive, [] => if l.chClosed then some { l with running := .flush } else none
  | .encode i, _ => some { l with file := l.file ++ [some i], writeErrs := errs, running := .idle }
  | .idle, [] => some { l with writeErrs := errs, running := .receive }
  | .idle, _ :: _ => some { l with running := .receive }
  | .flush, _ => some { l with writeErrs := errs, running := .done }
  | .done, _ => none

/-- The record that `run` has received and not passed on. -/
def held : List ι := match l.running with
  | .encode i => [i]
  | _ => []

variable [DecidableEq ι]

def write (i : ι) : Option (DecisionLog ι κ) :=
  let goOn (l : DecisionLog ι κ) p := some { l with writing := Function.update l.writing i p }
  match l.writing i with
  | .start => if l.locked then none else goOn { l with readers := insert i l.readers } .check
  | .check => goOn l (if l.closed then .drop else .select)
  | .select =>
    if l.chClosed then some { l with panicked := true }
    else if l.ch.length < l.buffer then
      goOn { l with ch := l.ch ++ [i], accepted := l.accepted ++ [i] } .unlock
    else goOn l .drop
  | .drop => goOn { l with dropped := l.dropped ++ [i] } .unlock
  | .unlock => goOn { l with readers := l.readers.erase i } .done
  | .done => none

/-- The function that `once` runs is at `p`, in the one call that runs it; the other calls have not
begun, or have returned after it. -/
def Turn (once : Option κ) (closing : κ → Closing) (p : Closing) : Prop := match once with
  | none => p = .start ∧ ∀ k, closing k = .start
  | some k => closing k = p ∧ p ≠ .start ∧
    ∀ j ≠ k, closing j = .start ∨ closing j = .done ∧ p = .done

/-- The invariant, where the function that `once` runs is at `p`. -/
structure Inv (p : Closing) : Prop where
  panicked : l.panicked = false
  readers : ∀ i, i ∈ l.readers ↔ l.writing i ∉ [.start, .done]
  excluded : l.locked = true → l.readers = ∅
  select : ∀ i, l.writing i = .select → l.closed = false
  counted : ∀ i, l.accepted.count i + l.dropped.count i =
    if l.writing i ∈ [.unlock, .done] then 1 else 0
  turn : Turn l.once l.closing p
  flags : (l.locked, l.closed, l.chClosed) = p.flags
  ran : p ∈ [.closeFile, .done] → l.running = .done
  drained : l.running ∈ [.flush, .done] → l.chClosed = true ∧ l.ch = []
  file : l.file ++ (l.held ++ l.ch).map some =
    l.accepted.map some ++ if p = .done then [none] else []

variable {l} {l' : DecisionLog ι κ} {p : Closing} {i : ι} {k : κ} {failed : Bool}

theorem Inv.run (h : l.Inv p) (hrun : l.run failed = some l') : l'.Inv p := by
  -- the file is not closed before `run` is done
  have hopen : l.running ≠ .done → p ∉ [.closeFile, .done] := mt h.ran
  have hdrained := h.drained
  have hfile := h.file
  unfold held at hfile
  unfold DecisionLog.run at hrun
  split at hrun <;> simp only [*] at hfile hopen hdrained
  case h_2 hch =>
    -- the channel is closed, and all of it was received
    split_ifs at hrun with hclosed
    cases hrun
    exact { h with
      ran := (absurd · (hopen nofun))
      drained := fun _ => ⟨hclosed, hch⟩
      file := by simpa [held, hch] using hfile }
  case h_6 =>
    cases hrun
    exact { h with ran := fun _ => rfl, drained := fun _ => hdrained (.head _), file := hfile }
  case h_7 => cases hrun
  all_goals
    cases hrun
    exact { h with
      ran := (absurd · (hopen nofun)), drained := nofun, file := by simpa [held, *] using hfile }

theorem Inv.write (h : l.Inv p) (hwrite : l.write i = some l') : l'.Inv p := by
  have hreaders := h.readers
  have hselect := h.select
  have hcounted := h.counted
  unfold DecisionLog.write at hwrite
  cases hi : l.writing i <;> simp only [hi] at hwrite
  case start =>
    -- no call holds `mu` for writing, so one more may read; the record is nowhere yet
    split_ifs at hwrite with hlocked
    cases hwrite
    exact { h with
      readers := by grind
      excluded := (absurd · hlocked)
      select := by grind
      counted := by grind }
  case check =>
    -- still a reader; the call goes on to the channel only if the log is open
    cases hwrite
    exact { h with readers := by grind, select := by grind, counted := by grind }
  case select =>
    -- the log is not closed, so that the channel is not
    have hclosed := hselect i hi
    have hchan : ¬l.chClosed = true := by cases p <;> grind [h.flags, Closing.flags]
    rw [if_neg hchan] at hwrite
    split_ifs at hwrite with hroom
    · cases hwrite
      -- accepted now, and last in the channel; `run` cannot have drained it
      refine { h with
        readers := by grind
        select := by grind
        counted := by grind
        drained := fun hrunning => absurd (h.drained hrunning).1 hchan
        file := ?_ }
      have hfile := h.file
      cases p <;> grind [h.flags, Closing.flags, held]
    · -- no room: the record is counted when it is dropped
      cases hwrite
      exact { h with readers := by grind, select := by grind, counted := by grind }
  case drop =>
    cases hwrite
    exact { h with readers := by grind, select := by grind, counted := by grind }
  case unlock =>
    -- one reader less; the record stays where it is counted
    cases hwrite
    exact { h with
      readers := by grind
      excluded := by grind [h.excluded]
      select := by grind
      counted := by grind }
  case done => cases hwrite

variable [DecidableEq κ]

def close (l : DecisionLog ι κ) (k : κ) : Option (DecisionLog ι κ) :=
  let goOn (l : DecisionLog ι κ) p := some { l with closing := Function.update l.closing k p }
  match l.closing k with
  | .start =>
    match l.once with
    | none => goOn { l with once := some k } .lock
    | some first => if l.closing first = .done then goOn l .done else none
  | .lock => if l.locked ∨ l.readers ≠ ∅ then none else goOn { l with locked := true } .setClosed
  | .setClosed => goOn { l with closed := true } .closeChan
  | .closeChan =>
    if l.chClosed then some { l with panicked := true }
      else goOn { l with chClosed := true } .unlock
  | .unlock => goOn { l with locked := false } .wait
  | .wait => if l.running = .done then goOn l .closeFile else none
  | .closeFile => goOn { l with file := l.file ++ [none] } .done
  | .done => none

inductive Act (ι κ : Type*) | write (i : ι) | close (k : κ) | run (failed : Bool)

def machine (ι κ : Type*) [DecidableEq ι] [DecidableEq κ] :
    Machine (DecisionLog ι κ) (Act ι κ) where
  Init l := ∃ buffer, l = openDecisionLog buffer
  step
    | l, .write i => l.write i
    | l, .close k => l.close k
    | l, .run failed => l.run failed

omit [DecidableEq ι] in
theorem Turn.goOn {once : Option κ} {closing : κ → Closing} (h : Turn once closing p)
    (hk : closing k ∉ [.start, .done]) :
    closing k = p ∧ ∀ q ≠ .start, Turn once (Function.update closing k q) q := by
  cases once <;> grind [Turn]

theorem Inv.close (h : l.Inv p) (hclose : l.close k = some l') : ∃ p', l'.Inv p' := by
  have hturn := h.turn
  unfold DecisionLog.close at hclose
  by_cases hk : l.closing k ∈ [.start, .done]
  · -- the call enters `once`, or returns from it after the one that ran the function
    cases hphase : l.closing k <;> simp [hphase] at hk hclose
    split at hclose
    case h_1 honce =>
      rw [honce] at hturn
      obtain ⟨rfl, hall⟩ := hturn
      cases hclose
      exact ⟨.lock, { h with
        turn := by grind [Turn], flags := h.flags, ran := nofun, file := h.file }⟩
    case h_2 honce =>
      split_ifs at hclose with hdone
      cases hclose
      exact ⟨p, { h with turn := by grind [Turn] }⟩
  -- else the call is the one that `once` runs, and `p` is its phase
  obtain ⟨rfl, hnext⟩ := hturn.goOn hk
  have hflags := h.flags
  have hfile := h.file
  have hran := h.ran
  cases hphase : l.closing k <;> simp only [hphase] at hclose hflags hfile hran hk hnext <;>
    simp only [Closing.flags, Prod.mk.injEq] at hflags
  case start | done => simp at hk
  case lock =>
    -- the lock is free of readers when it is taken
    split_ifs at hclose with hheld
    cases hclose
    exact ⟨.setClosed, { h with
      excluded := fun _ => by grind
      turn := hnext _ (by decide), flags := by grind [Closing.flags], ran := nofun, file := hfile }⟩
  case setClosed =>
    -- there is no reader, so no call is between its test of `closed` and its send
    cases hclose
    have hreader (i) (hi : l.writing i = .select) : i ∈ l.readers :=
      (h.readers i).mpr (by simp [hi])
    exact ⟨.closeChan, { h with
      select := fun i hi => absurd (hreader i hi) (by simp [h.excluded hflags.1])
      turn := hnext _ (by decide), flags := by grind [Closing.flags], ran := nofun, file := hfile }⟩
  case closeChan =>
    -- the channel is closed for the first time
    rw [if_neg (by simp [hflags])] at hclose
    cases hclose
    exact ⟨.unlock, { h with
      drained := fun hrunning => ⟨rfl, (h.drained hrunning).2⟩
      turn := hnext _ (by decide), flags := by grind [Closing.flags], ran := nofun, file := hfile }⟩
  case unlock =>
    cases hclose
    exact ⟨.wait, { h with
      excluded := nofun
      turn := hnext _ (by decide), flags := by grind [Closing.flags], ran := nofun, file := hfile }⟩
  case wait =>
    -- `wg.Wait` returns when `run` has ended
    split_ifs at hclose with hdone
    cases hclose
    exact ⟨.closeFile, { h with
      turn := hnext _ (by decide), flags := by grind [Closing.flags], ran := fun _ => hdone
      file := hfile }⟩
  case closeFile =>
    -- `run` has ended, so the channel is drained and no record is held: the closing comes last
    cases hclose
    have hdone := hran (by decide)
    exact ⟨.done, { h with
      turn := hnext _ (by decide), flags := by grind [Closing.flags], ran := fun _ => hdone
      file := by simpa [held, hdone, (h.drained (by simp [hdone])).2] using hfile }⟩

/-- **Every reachable state is at some phase of the function.** -/
theorem exists_inv (h : (machine ι κ).Reachable l) : ∃ p, l.Inv p := by
  refine h.induction (I := fun l => ∃ p, l.Inv p) ?_ ?_
  · rintro _ ⟨buffer, rfl⟩
    refine ⟨.start, ?_⟩
    constructor <;> simp [openDecisionLog, held, Turn, Closing.flags]
  · rintro l a l' ⟨p, hl⟩ hstep
    cases a with
    | write => exact ⟨p, hl.write hstep⟩
    | close => exact hl.close hstep
    | run => exact ⟨p, hl.run hstep⟩

/-- **The accounting of the decision log**: nothing panics, a `Write` never blocks on the channel, a
record is accepted or dropped and not both, and a `Close` that has returned left in the file what
was accepted, in that order, and the file closed once. -/
theorem decisionLog_accounts (h : (machine ι κ).Reachable l) :
    l.panicked = false ∧ (∀ i, l.writing i = .select → (l.write i).isSome) ∧
      (∀ i, l.writing i = .done → l.accepted.count i + l.dropped.count i = 1) ∧
      ∀ k, l.closing k = .done → l.file = l.accepted.map some ++ [none] := by
  obtain ⟨p, hinv⟩ := exists_inv h
  refine ⟨hinv.panicked, fun i hi => ?_, fun i hi => ?_, fun k hk => ?_⟩
  · unfold DecisionLog.write
    simp only [hi]
    split_ifs <;> rfl
  · rw [hinv.counted, hi]
    rfl
  · obtain rfl : p = .done := by
      have hturn := hinv.turn
      cases honce : l.once <;> grind [Turn]
    have hran := hinv.ran (by decide)
    simpa [held, hran, (hinv.drained (by simp [hran])).2] using hinv.file

/-- Two writes with room for one, and a `Close`. -/
def demoActs : List (Act Bool Unit) :=
  replicate 4 (.write false) ++ replicate 5 (.write true) ++ replicate 3 (.run false) ++
    replicate 5 (.close ()) ++ replicate 2 (.run false) ++ replicate 2 (.close ())

theorem decisionLog_demoActs : ∃ l ∈ (machine Bool Unit).run (openDecisionLog 1) demoActs,
    (l.dropped = [true] ∧ l.closing () = .done) ∧ l.file = l.accepted.map some ++ [none] :=
  Machine.exists_mem_and (by decide) fun _ hrun hl =>
    (decisionLog_accounts ⟨_, demoActs, ⟨1, rfl⟩, hrun⟩).2.2.2 () hl.2

/-- **`Close` is never stuck**: the one that runs the function can go on, or `run` can, or a call of
`Write` that holds `mu` can, which it waits for. -/
theorem close_progress (h : (machine ι κ).Reachable l) (hk : l.closing k ∉ [.start, .done]) :
    (l.close k).isSome ∨ (∀ failed, (l.run failed).isSome) ∨
      ∃ i ∈ l.readers, (l.write i).isSome := by
  obtain ⟨p, hinv⟩ := exists_inv h
  obtain ⟨rfl, -⟩ := hinv.turn.goOn hk
  have hflags := hinv.flags
  cases hphase : l.closing k with
  | start | done => simp [hphase] at hk
  | lock =>
    rcases l.readers.eq_empty_or_nonempty with hempty | ⟨i, hi⟩
    · exact .inl (by grind [DecisionLog.close, Closing.flags])
    · exact .inr (.inr ⟨i, hi, by grind [DecisionLog.write, hinv.readers i]⟩)
  | wait =>
    by_cases hdone : l.running = .done
    · exact .inl (by grind [DecisionLog.close])
    -- the channel is closed, so that `run` receives or flushes
    · exact .inr (.inl fun failed => by grind [DecisionLog.run, Closing.flags])
  | setClosed | closeChan | unlock | closeFile => exact .inl (by grind [DecisionLog.close])

theorem close_progress_reader :
    ∃ l ∈ (machine Bool Unit).run (openDecisionLog 1) [.write true, .close ()],
      l.closing () = .lock ∧ ((l.close ()).isSome ∨ (∀ failed, (l.run failed).isSome) ∨
        ∃ i ∈ l.readers, (l.write i).isSome) :=
  Machine.exists_mem_and (by decide) fun _ hrun hl =>
    close_progress ⟨_, _, ⟨1, rfl⟩, hrun⟩ (by simp [hl])

end DecisionLog

end HivenetRouter.Semantic
