import HivenetRouter.Framework.Go
import HivenetRouter.Framework.Machine

/-!
# The occupancy counters of one model

`admission.modelState` and `admission.Reservation`: the weighted in-flight sum and count
of a model, and the share that one request holds in them. Each function is one locked
section; the channel that waiters block on is a name, and a section that replaces the
channel is given the fresh one and returns the old one, which the code closes after
the section.

All arithmetic is Go's, modulo `2^64`. The lemmas say what each section does where nothing
wraps around: `tryReserve_eq_true`, `release_eq`, `grow_eq` and `adjust_eq` for the state,
`growBy_eq_some`, `adjustBy_eq_some` and `addWeight_eq` for the reservation.
-/

namespace HivenetRouter.Admission

structure ModelState where
  model : String
  /-- The footprints in flight. -/
  sumW : ℤ
  /-- The requests in flight. -/
  count : ℤ
  budget : ℤ
  maxInflight : ℤ
  /-- The channel the parked requests wait on. -/
  notify : ℕ
  /-- The time of the last lookup. -/
  lastActive : ℤ
  deriving DecidableEq

namespace ModelState

/-- `tryReserve`. A budget or an in-flight bound that is not positive is no bound. -/
def tryReserve (s : ModelState) (weight budget maxInflight : ℤ) : ModelState × Bool :=
  let s := { s with budget := budget, maxInflight := maxInflight }
  if budget > 0 ∧ wrap64 (s.sumW + weight) > budget then (s, false)
  else if maxInflight > 0 ∧ wrap64 (s.count + 1) > maxInflight then (s, false)
  else ({ s with sumW := wrap64 (s.sumW + weight), count := wrap64 (s.count + 1) }, true)

/-- A counter that fell below zero is put back to zero. -/
def clamp (x : ℤ) : ℤ := if x < 0 then 0 else x

/-- `release`: the state, and the channel to close. -/
def release (s : ModelState) (weight : ℤ) (fresh : ℕ) : ModelState × ℕ :=
  ({ s with
      sumW := clamp (wrap64 (s.sumW - weight))
      count := clamp (wrap64 (s.count - 1))
      notify := fresh }, s.notify)

def grow (s : ModelState) (delta : ℤ) : ModelState := { s with sumW := wrap64 (s.sumW + delta) }

/-- `adjust`: the state, and the channel to close when budget was freed. -/
def adjust (s : ModelState) (delta : ℤ) (fresh : ℕ) : ModelState × Option ℕ :=
  let s' := { s with sumW := clamp (wrap64 (s.sumW + delta)) }
  if delta < 0 then ({ s' with notify := fresh }, some s.notify) else (s', none)

theorem clamp_of_nonneg {x : ℤ} (h : 0 ≤ x) : clamp x = x := if_neg (not_lt.mpr h)

variable {s s' : ModelState} {weight budget maxInflight delta : ℤ}

/-- A refused reservation records the bounds and nothing else. -/
theorem tryReserve_eq_false (h : s.tryReserve weight budget maxInflight = (s', false)) :
    s' = { s with budget := budget, maxInflight := maxInflight } := by
  unfold tryReserve at h
  dsimp only at h
  split_ifs at h <;> simp only [Prod.mk.injEq, Bool.true_eq_false, and_false, and_true] at h
  all_goals exact h.symm

section

variable (h : s.tryReserve weight budget maxInflight = (s', true))

include h

/-- An accepted reservation is within the bounds, adds its weight and counts one, whatever the
additions give. -/
theorem tryReserve_accepted : ¬(0 < budget ∧ budget < wrap64 (s.sumW + weight)) ∧
    ¬(0 < maxInflight ∧ maxInflight < wrap64 (s.count + 1)) ∧ s' = { s with
      budget := budget
      maxInflight := maxInflight
      sumW := wrap64 (s.sumW + weight)
      count := wrap64 (s.count + 1) } := by
  unfold tryReserve at h
  dsimp only at h
  split_ifs at h with hbudget hcount <;>
    simp only [Prod.mk.injEq, Bool.false_eq_true, and_false, and_true] at h
  exact ⟨hbudget, hcount, h.symm⟩

theorem tryReserve_eq_true (hsum : Fits64 (s.sumW + weight)) (hcount : Fits64 (s.count + 1)) :
    s' = { s with
      budget := budget
      maxInflight := maxInflight
      sumW := s.sumW + weight
      count := s.count + 1 } := by
  rw [(tryReserve_accepted h).2.2, wrap64_of_fits hsum, wrap64_of_fits hcount]

theorem tryReserve_sumW : s'.sumW = wrap64 (s.sumW + weight) := by
  rw [(tryReserve_accepted h).2.2]

/-- **A reservation is within the bounds it was made under.** -/
theorem tryReserve_le :
    (0 < budget → s'.sumW ≤ budget) ∧ (0 < maxInflight → s'.count ≤ maxInflight) := by
  obtain ⟨hbudget, hcount, rfl⟩ := tryReserve_accepted h
  exact ⟨fun hpos => not_lt.mp fun hlt => hbudget ⟨hpos, hlt⟩,
    fun hpos => not_lt.mp fun hlt => hcount ⟨hpos, hlt⟩⟩

end

/-- A weight that takes the sum over the budget is refused. -/
theorem tryReserve_of_lt (maxInflight : ℤ) (hbudget : 0 < budget)
    (hlt : budget < wrap64 (s.sumW + weight)) :
    (s.tryReserve weight budget maxInflight).2 = false := by
  unfold tryReserve
  rw [if_pos ⟨hbudget, hlt⟩]

/-- A sum that is within every positive budget is refused by the in-flight bound only. -/
theorem exists_tryReserve_eq_true (budget : ℤ) (hsum : wrap64 (s.sumW + weight) ≤ 0)
    (hcount : ¬(0 < maxInflight ∧ maxInflight < wrap64 (s.count + 1))) :
    ∃ s', s.tryReserve weight budget maxInflight = (s', true) := by
  have hbudget : ¬(budget > 0 ∧ wrap64 (s.sumW + weight) > budget) := by
    rintro ⟨hpos, hgt⟩
    omega
  unfold tryReserve
  rw [if_neg hbudget, if_neg hcount]
  exact ⟨_, rfl⟩

theorem release_eq (fresh : ℕ) (hweight : 0 ≤ weight) (hsum : weight ≤ s.sumW)
    (hcount : 1 ≤ s.count) (hfits : s.sumW < 2 ^ 63) (hfits' : s.count < 2 ^ 63) :
    (s.release weight fresh).1 =
      { s with sumW := s.sumW - weight, count := s.count - 1, notify := fresh } := by
  have hw : wrap64 (s.sumW - weight) = s.sumW - weight := wrap64_of_fits ⟨by omega, by omega⟩
  have hc : wrap64 (s.count - 1) = s.count - 1 := wrap64_of_fits ⟨by omega, by omega⟩
  unfold release
  rw [hw, hc, clamp_of_nonneg (by omega), clamp_of_nonneg (by omega)]

theorem clamp_nonneg (x : ℤ) : 0 ≤ clamp x := by
  unfold clamp
  split <;> omega

theorem adjust_fields (s : ModelState) (delta : ℤ) (fresh : ℕ) :
    (s.adjust delta fresh).1.model = s.model ∧ (s.adjust delta fresh).1.count = s.count ∧
      (s.adjust delta fresh).1.sumW = clamp (wrap64 (s.sumW + delta)) := by
  unfold adjust
  split <;> exact ⟨rfl, rfl, rfl⟩

theorem grow_eq (hfits : Fits64 (s.sumW + delta)) :
    s.grow delta = { s with sumW := s.sumW + delta } := by
  unfold grow
  rw [wrap64_of_fits hfits]

/-- A correction that keeps the sum at or above zero is applied as it is. -/
theorem adjust_eq (fresh : ℕ) (hpos : 0 ≤ s.sumW + delta) (hfits : s.sumW + delta < 2 ^ 63) :
    ∃ ch, (s.adjust delta fresh).1 = { s with sumW := s.sumW + delta, notify := ch } := by
  have hw : wrap64 (s.sumW + delta) = s.sumW + delta := wrap64_of_fits ⟨by omega, hfits⟩
  unfold adjust
  rw [hw, clamp_of_nonneg hpos]
  split
  · exact ⟨fresh, rfl⟩
  · exact ⟨s.notify, rfl⟩

end ModelState

/-- `int64(c.admitFraction * float64(budgetTokens))`, in the arithmetic `fl`: the product is rounded
to the nearest `float64` and then truncated, so it need not be the floor of the exact one. -/
def admitScale {F : Type*} (fl : GoFloat F) (admitFraction : F) (budgetTokens : ℤ) : ℤ :=
  fl.toInt (fl.mul admitFraction (fl.ofInt budgetTokens))

/-- `effectiveBudget`: a positive budget scaled by the admit fraction, at least `1`. The controller
keeps the fraction; here `scale` stands for `admitScale` at it, and nothing is assumed of it, so
every rounding and every conversion of a product that is out of range are covered. -/
def effectiveBudget (scale : ℤ → ℤ) (budgetTokens : ℤ) : ℤ :=
  if budgetTokens ≤ 0 then 0 else max 1 (scale budgetTokens)

-- the `float64` of 0.85 is below 0.85, and its product with 100000 is rounded up to 85000
example : effectiveBudget (admitScale
    { GoFloat.float64 0 with mul := fun x y => nearest (x * y) } (nearest 0.85)) 100000 =
      85000 := by
  decide +kernel

/-- `Fits`: the request can be admitted against the budget at some time. -/
def fits (scale : ℤ → ℤ) (footprint budgetTokens : ℤ) : Bool :=
  let budget := effectiveBudget scale budgetTokens
  budget ≤ 0 ∨ footprint ≤ budget

/-- How far the `Release` of a reservation has run. -/
inductive ReservationPhase where
  /-- `released` is not set. -/
  | held
  /-- `released` is set; the state's `release` is next. -/
  | releasing
  /-- The weight is back in the budget. -/
  | returned
  deriving DecidableEq

/-- `Reservation`: the state it is held on (an address), and what it holds. -/
structure Reservation where
  state : ℕ
  grows : Bool
  weight : ℤ
  phase : ReservationPhase

namespace Reservation

def released (r : Reservation) : Bool := r.phase ≠ .held

/-- From the successful `tryReserve` to the state's `release`. -/
def live (r : Reservation) : Bool := r.phase ≠ .returned

/-- The tokens that `Grow` adds: `none` when it returns without effect. -/
def growBy (r : Reservation) (tokens : ℤ) : Option ℤ :=
  if tokens ≤ 0 ∨ r.released ∨ !r.grows then none else some tokens

/-- The correction that `Adjust` applies, capped at what the reservation holds: `none`
when it returns without effect. -/
def adjustBy (r : Reservation) (delta : ℤ) : Option ℤ :=
  if delta = 0 ∨ r.released then none
  else
    let d := if delta < wrap64 (-r.weight) then wrap64 (-r.weight) else delta
    if d = 0 then none else some d

/-- The new weight of a reservation that grows or is adjusted. -/
def addWeight (r : Reservation) (d : ℤ) : Reservation := { r with weight := wrap64 (r.weight + d) }

variable {r : Reservation} {d delta : ℤ}

theorem live_of_not_released (h : r.released = false) : r.live = true := by
  unfold released at h
  unfold live
  have hphase : r.phase = .held := by simpa using h
  rw [hphase]
  decide

/-- `Grow` acts on a reservation that is not released, and only upwards. -/
theorem growBy_eq_some {tokens : ℤ} (h : r.growBy tokens = some d) :
    r.released = false ∧ 0 < d := by
  unfold growBy at h
  split_ifs at h with hnot
  cases h
  push Not at hnot
  exact ⟨Bool.eq_false_iff.mpr hnot.2.1, hnot.1⟩

/-- `Adjust` acts on a reservation that is not released, and frees at most what it holds. -/
theorem adjustBy_eq_some (hpos : 0 ≤ r.weight) (hfits : r.weight < 2 ^ 63)
    (h : r.adjustBy delta = some d) :
    r.released = false ∧ 0 ≤ r.weight + d := by
  unfold adjustBy at h
  have hw : wrap64 (-r.weight) = -r.weight := wrap64_of_fits ⟨by omega, by omega⟩
  dsimp only at h
  split at h
  · cases h
  · next hnot =>
    push Not at hnot
    refine ⟨Bool.eq_false_iff.mpr hnot.2, ?_⟩
    split_ifs at h <;> cases h <;> omega

/-- A correction by zero has no effect. -/
theorem adjustBy_ne_zero (h : r.adjustBy delta = some d) : d ≠ 0 := by
  unfold adjustBy at h
  dsimp only at h
  split_ifs at h with _ _ hzero hzero <;> cases h <;> exact hzero

/-- A correction downwards stays one where it is capped. -/
theorem adjustBy_nonpos (hpos : 0 ≤ r.weight) (hfits : r.weight < 2 ^ 63) (hdelta : delta ≤ 0)
    (h : r.adjustBy delta = some d) : d ≤ 0 := by
  unfold adjustBy at h
  have hw : wrap64 (-r.weight) = -r.weight := wrap64_of_fits ⟨by omega, by omega⟩
  dsimp only at h
  split_ifs at h <;> cases h <;> omega

theorem addWeight_eq (hfits : Fits64 (r.weight + d)) :
    r.addWeight d = { r with weight := r.weight + d } := by
  unfold addWeight
  rw [wrap64_of_fits hfits]

/-- A released reservation neither grows nor is adjusted. -/
theorem growBy_of_released (h : r.released = true) (tokens : ℤ) :
    r.growBy tokens = none := if_pos (Or.inr (Or.inl h))

theorem adjustBy_of_released (h : r.released = true) (delta : ℤ) :
    r.adjustBy delta = none := if_pos (Or.inr h)

end Reservation

/-!
## The admission controller: interleavings of admissions, reservations and sweeps

The machine `occupancy` runs any number of `AdmitWithin` calls, of calls on the
reservations they return, and of `SweepIdle` passes against one controller. Model states
are objects: the heap `State.states` lists them by address, `State.models` is the
controller's map from a model name to an address, and a reservation keeps the address it
was made on whatever the map says later. Each action is one locked section, or one step
between two of them:

* `stateFor` (the lookup, under the controller's mutex), `tryFirst` (the first
  `tryReserve`), `notifyCh`, `recheck` (the `tryReserve` of the parking loop), `wake` (the
  receive on a closed channel) and `giveUp` (the timer or the context) — `AdmitWithin`;
* `grow`, `adjust` — the section of the reservation's mutex, which contains the state's;
* `release`, then `stateRelease` — the two sections of `Release`;
* `closeCh` — `close(ch)`, after the section that replaced the channel;
* `sweepCutoff`, `sweepLock`, `sweepTest`, `sweepDelete`, `sweepUnlock` — one pass of
  `SweepIdle`. The controller's mutex is held from `sweepLock` to `sweepUnlock`, the
  state's only during `sweepTest`, so a reservation may come between the test and the
  removal.

The clock moves with `tick` and never goes back.
-/

open Option

/-- The arguments of `AdmitWithin`. -/
structure AdmitCall where
  model : String
  footprint : ℤ
  grows : Bool
  budgetTokens : ℤ
  maxInflight : ℤ
  parkFor : ℤ
  deriving DecidableEq

/-- Where an `AdmitWithin` call stands after its lookup. -/
inductive AdmitPhase where
  | first
  /-- At the head of the parking loop, about to read the channel. -/
  | fetch
  | recheck (ch : ℕ)
  | blocked (ch : ℕ)
  /-- It returned the reservation `r`. -/
  | admitted (r : ℕ)
  /-- It returned `nil`. -/
  | refused
  deriving DecidableEq

/-- An `AdmitWithin` call: its arguments, the state it looked up, and when. -/
structure Admit where
  call : AdmitCall
  state : ℕ
  lookedUp : ℤ
  phase : AdmitPhase
  deriving DecidableEq

/-- Where a `SweepIdle` pass stands. -/
inductive SweepPhase where
  | ready
  /-- It holds the mutex; `todo` is left to visit, and `idle` says that its head passed
  the test and is about to be deleted. -/
  | scanning (todo : List String) (idle : Bool)
  | finished

structure Sweep where
  cutoff : ℤ
  phase : SweepPhase

/-- The pass holds the controller's mutex. -/
def Sweep.holdsMu (w : Sweep) : Bool :=
  match w.phase with
  | .scanning _ _ => true
  | _ => false

structure State where
  now : ℤ
  states : List ModelState
  models : GoMap String ℕ
  admissions : List Admit
  reservations : List Reservation
  sweeps : List Sweep
  nextCh : ℕ
  /-- Channels that were replaced and are about to be closed. -/
  closing : List ℕ
  closed : List ℕ

inductive Act where
  | tick (d : ℕ)
  | stateFor (call : AdmitCall)
  | tryFirst (i : ℕ)
  | notifyCh (i : ℕ)
  | recheck (i : ℕ)
  | wake (i : ℕ)
  | giveUp (i : ℕ)
  | grow (r : ℕ) (tokens : ℤ)
  | adjust (r : ℕ) (delta : ℤ)
  | release (r : ℕ)
  | stateRelease (r : ℕ)
  | closeCh (ch : ℕ)
  | sweepCutoff (ttl : ℤ)
  | sweepLock (k : ℕ) (order : List String)
  | sweepTest (k : ℕ)
  | sweepDelete (k : ℕ)
  | sweepUnlock (k : ℕ)

namespace State

def muHeld (s : State) : Bool := s.sweeps.any Sweep.holdsMu

/-- `Occupancy`: a model never seen has none. -/
def occupancy (s : State) (model : String) : ℤ × ℤ :=
  match (s.models.lookup model).bind fun a => s.states[a]? with
  | some st => (st.sumW, st.count)
  | none => (0, 0)

def setAdmission (s : State) (i : ℕ) (p : AdmitPhase) : State :=
  { s with admissions := s.admissions.modify i fun adm => { adm with phase := p } }

def setSweep (s : State) (k : ℕ) (p : SweepPhase) : State :=
  { s with sweeps := s.sweeps.modify k fun w => { w with phase := p } }

def setState (s : State) (a : ℕ) (st : ModelState) : State :=
  { s with states := s.states.modify a fun _ => st }

def stateFor (s : State) (call : AdmitCall) : Option State :=
  if s.muHeld then none
  else
    match s.models.lookup call.model with
    | some a =>
      some { s with
        states := s.states.modify a fun st => { st with lastActive := s.now }
        admissions := s.admissions ++ [⟨call, a, s.now, .first⟩] }
    | none =>
      some { s with
        states := s.states ++ [⟨call.model, 0, 0, 0, 0, s.nextCh, s.now⟩]
        models := s.models.insert call.model s.states.length
        admissions := s.admissions ++ [⟨call, s.states.length, s.now, .first⟩]
        nextCh := s.nextCh + 1 }

/-- A `tryReserve` of the admission `adm` at index `i`: a reservation, or else the phase
`otherwise`. -/
def tryReserve (scale : ℤ → ℤ) (s : State) (i : ℕ) (adm : Admit) (otherwise : AdmitPhase) :
    Option State :=
  match s.states[adm.state]? with
  | some st =>
    match st.tryReserve adm.call.footprint (effectiveBudget scale adm.call.budgetTokens)
        adm.call.maxInflight with
    | (st', true) =>
      some { (s.setState adm.state st').setAdmission i (.admitted s.reservations.length) with
        reservations := s.reservations ++ [⟨adm.state, adm.call.grows, adm.call.footprint, .held⟩] }
    | (st', false) => some ((s.setState adm.state st').setAdmission i otherwise)
  | none => none

/-- The first `tryReserve` of `AdmitWithin`. A footprint larger than the budget is refused
at once; a call without a park duration too. -/
def tryFirst (scale : ℤ → ℤ) (s : State) (i : ℕ) : Option State :=
  match s.admissions[i]? with
  | some adm =>
    if adm.phase = .first then
      let budget := effectiveBudget scale adm.call.budgetTokens
      s.tryReserve scale i adm
        (if (budget > 0 ∧ adm.call.footprint > budget) ∨ adm.call.parkFor ≤ 0 then .refused
        else .fetch)
    else none
  | none => none

def notifyCh (s : State) (i : ℕ) : Option State :=
  match s.admissions[i]? with
  | some ⟨_, a, _, .fetch⟩ => (s.states[a]?).map fun st => s.setAdmission i (.recheck st.notify)
  | _ => none

/-- The `tryReserve` of the parking loop. -/
def recheck (scale : ℤ → ℤ) (s : State) (i : ℕ) : Option State :=
  match s.admissions[i]? with
  | some adm =>
    match adm.phase with
    | .recheck ch => s.tryReserve scale i adm (.blocked ch)
    | _ => none
  | none => none

/-- The channel was closed: loop and retry. -/
def wake (s : State) (i : ℕ) : Option State :=
  match s.admissions[i]? with
  | some ⟨_, _, _, .blocked ch⟩ => if ch ∈ s.closed then some (s.setAdmission i .fetch) else none
  | _ => none

/-- The timer fired or the context is done. -/
def giveUp (s : State) (i : ℕ) : Option State :=
  match s.admissions[i]? with
  | some ⟨_, _, _, .blocked _⟩ => some (s.setAdmission i .refused)
  | _ => none

def grow (s : State) (r : ℕ) (tokens : ℤ) : Option State :=
  match s.reservations[r]? with
  | some x =>
    match x.growBy tokens with
    | some d =>
      some { s with
        reservations := s.reservations.modify r fun x => x.addWeight d
        states := s.states.modify x.state fun st => st.grow d }
    | none => some s
  | none => none

def adjust (s : State) (r : ℕ) (delta : ℤ) : Option State :=
  match s.reservations[r]? with
  | some x =>
    match x.adjustBy delta with
    | some d =>
      (s.states[x.state]?).map fun st =>
        { s.setState x.state (st.adjust d s.nextCh).1 with
          reservations := s.reservations.modify r fun x => x.addWeight d
          nextCh := s.nextCh + 1
          closing := (st.adjust d s.nextCh).2.toList ++ s.closing }
    | none => some s
  | none => none

/-- The first section of `Release`: only the first call goes on. -/
def release (s : State) (r : ℕ) : Option State :=
  match s.reservations[r]? with
  | some x =>
    if x.released then some s
    else some { s with
      reservations := s.reservations.modify r fun x => { x with phase := .releasing } }
  | none => none

/-- The state's `release`. -/
def stateRelease (s : State) (r : ℕ) : Option State :=
  match s.reservations[r]? with
  | some x =>
    if x.phase = .releasing then
      (s.states[x.state]?).map fun st =>
        { s.setState x.state (st.release x.weight s.nextCh).1 with
          reservations := s.reservations.modify r fun x => { x with phase := .returned }
          nextCh := s.nextCh + 1
          closing := (st.release x.weight s.nextCh).2 :: s.closing }
    else none
  | none => none

/-- `close(ch)`. -/
def closeCh (s : State) (ch : ℕ) : Option State :=
  if ch ∈ s.closing then
    some { s with closing := s.closing.erase ch, closed := ch :: s.closed }
  else none

/-- `SweepIdle` takes the mutex and starts to range over the map. -/
def sweepLock (s : State) (k : ℕ) (order : List String) : Option State :=
  match s.sweeps[k]? with
  | some ⟨_, .ready⟩ =>
    if !s.muHeld ∧ RangeOrder s.models order then some (s.setSweep k (.scanning order false))
    else none
  | _ => none

/-- The idle test of the next model. -/
def sweepTest (s : State) (k : ℕ) : Option State :=
  match s.sweeps[k]? with
  | some ⟨cutoff, .scanning (model :: rest) false⟩ =>
    ((s.models.lookup model).bind fun a => s.states[a]?).map fun st =>
      if st.sumW = 0 ∧ st.count = 0 ∧ st.lastActive < cutoff then
        s.setSweep k (.scanning (model :: rest) true)
      else s.setSweep k (.scanning rest false)
  | _ => none

/-- The removal of a model that passed the test. -/
def sweepDelete (s : State) (k : ℕ) : Option State :=
  match s.sweeps[k]? with
  | some ⟨_, .scanning (model :: rest) true⟩ =>
    some { s.setSweep k (.scanning rest false) with models := s.models.erase model }
  | _ => none

def sweepUnlock (s : State) (k : ℕ) : Option State :=
  match s.sweeps[k]? with
  | some ⟨_, .scanning [] false⟩ => some (s.setSweep k .finished)
  | _ => none

def step (scale : ℤ → ℤ) (s : State) : Act → Option State
  | .tick d => some { s with now := s.now + d }
  | .stateFor call => s.stateFor call
  | .tryFirst i => s.tryFirst scale i
  | .notifyCh i => s.notifyCh i
  | .recheck i => s.recheck scale i
  | .wake i => s.wake i
  | .giveUp i => s.giveUp i
  | .grow r tokens => s.grow r tokens
  | .adjust r delta => s.adjust r delta
  | .release r => s.release r
  | .stateRelease r => s.stateRelease r
  | .closeCh ch => s.closeCh ch
  | .sweepCutoff ttl => some { s with sweeps := s.sweeps ++ [⟨s.now - ttl, .ready⟩] }
  | .sweepLock k order => s.sweepLock k order
  | .sweepTest k => s.sweepTest k
  | .sweepDelete k => s.sweepDelete k
  | .sweepUnlock k => s.sweepUnlock k

/-! ### Inversion -/

/-- **What a step can do**, with the guards under which it is taken. -/
inductive Moved (scale : ℤ → ℤ) (s : State) : Act → State → Prop where
  | ticked {d} : Moved scale s (.tick d) { s with now := s.now + d }
  | lookedUp {call a} (hmu : s.muHeld = false) (ha : s.models.lookup call.model = some a) :
      Moved scale s (.stateFor call)
        { s with
          states := s.states.modify a fun st => { st with lastActive := s.now }
          admissions := s.admissions ++ [⟨call, a, s.now, .first⟩] }
  | created {call} (hmu : s.muHeld = false) (ha : s.models.lookup call.model = none) :
      Moved scale s (.stateFor call)
        { s with
          states := s.states ++ [⟨call.model, 0, 0, 0, 0, s.nextCh, s.now⟩]
          models := s.models.insert call.model s.states.length
          admissions := s.admissions ++ [⟨call, s.states.length, s.now, .first⟩]
          nextCh := s.nextCh + 1 }
  | reserved {i act adm st st'} (hact : act = .tryFirst i ∨ act = .recheck i)
      (hadm : s.admissions[i]? = some adm) (hst : s.states[adm.state]? = some st)
      (htry : st.tryReserve adm.call.footprint
        (effectiveBudget scale adm.call.budgetTokens) adm.call.maxInflight = (st', true)) :
      Moved scale s act
        { (s.setState adm.state st').setAdmission i (.admitted s.reservations.length) with
          reservations := s.reservations ++
            [⟨adm.state, adm.call.grows, adm.call.footprint, .held⟩] }
  | notReserved {i act adm st st' p} (hact : act = .tryFirst i ∨ act = .recheck i)
      (hadm : s.admissions[i]? = some adm) (hst : s.states[adm.state]? = some st)
      (htry : st.tryReserve adm.call.footprint
        (effectiveBudget scale adm.call.budgetTokens) adm.call.maxInflight = (st', false)) :
      Moved scale s act ((s.setState adm.state st').setAdmission i p)
  | waited {i act p} (hact : act = .notifyCh i ∨ act = .wake i ∨ act = .giveUp i) :
      Moved scale s act (s.setAdmission i p)
  | grew {r tokens x d} (hx : s.reservations[r]? = some x) (hd : x.growBy tokens = some d) :
      Moved scale s (.grow r tokens)
        { s with
          reservations := s.reservations.modify r fun x => x.addWeight d
          states := s.states.modify x.state fun st => st.grow d }
  | adjusted {r delta x d st} (hx : s.reservations[r]? = some x)
      (hd : x.adjustBy delta = some d) (hst : s.states[x.state]? = some st) :
      Moved scale s (.adjust r delta)
        { s.setState x.state (st.adjust d s.nextCh).1 with
          reservations := s.reservations.modify r fun x => x.addWeight d
          nextCh := s.nextCh + 1
          closing := (st.adjust d s.nextCh).2.toList ++ s.closing }
  | noEffect {act} : Moved scale s act s
  | releasing {r x} (hx : s.reservations[r]? = some x) (hheld : x.released = false) :
      Moved scale s (.release r)
        { s with
          reservations := s.reservations.modify r fun x => { x with phase := .releasing } }
  | returned {r x st} (hx : s.reservations[r]? = some x) (hphase : x.phase = .releasing)
      (hst : s.states[x.state]? = some st) :
      Moved scale s (.stateRelease r)
        { s.setState x.state (st.release x.weight s.nextCh).1 with
          reservations := s.reservations.modify r fun x => { x with phase := .returned }
          nextCh := s.nextCh + 1
          closing := (st.release x.weight s.nextCh).2 :: s.closing }
  | closed {ch} :
      Moved scale s (.closeCh ch)
        { s with closing := s.closing.erase ch, closed := ch :: s.closed }
  | sweepBegun {ttl} :
      Moved scale s (.sweepCutoff ttl)
        { s with sweeps := s.sweeps ++ [⟨s.now - ttl, .ready⟩] }
  | sweepMoved {k act w todo} (hw : s.sweeps[k]? = some w)
      (hact : (∃ order, act = .sweepLock k order) ∨ act = .sweepTest k) :
      Moved scale s act (s.setSweep k (.scanning todo false))
  | foundIdle {k cutoff model rest a st}
      (hw : s.sweeps[k]? = some ⟨cutoff, .scanning (model :: rest) false⟩)
      (ha : s.models.lookup model = some a) (hst : s.states[a]? = some st)
      (hidle : st.sumW = 0 ∧ st.count = 0 ∧ st.lastActive < cutoff) :
      Moved scale s (.sweepTest k) (s.setSweep k (.scanning (model :: rest) true))
  | deleted {k cutoff model rest}
      (hw : s.sweeps[k]? = some ⟨cutoff, .scanning (model :: rest) true⟩) :
      Moved scale s (.sweepDelete k)
        { s.setSweep k (.scanning rest false) with models := s.models.erase model }
  | unlocked {k w} (hw : s.sweeps[k]? = some w) :
      Moved scale s (.sweepUnlock k) (s.setSweep k .finished)

section Inversion

variable {scale : ℤ → ℤ} {s t : State} {act : Act} {r : ℕ}

theorem stateFor_moved {call : AdmitCall} (h : s.stateFor call = some t) :
    Moved scale s (.stateFor call) t := by
  unfold stateFor at h
  split_ifs at h with hmu
  have hmu : s.muHeld = false := Bool.eq_false_iff.mpr hmu
  split at h
  · next a ha =>
    cases h
    exact .lookedUp hmu ha
  · next ha =>
    cases h
    exact .created hmu ha

theorem tryReserve_moved {i : ℕ} {adm : Admit} {p : AdmitPhase}
    (hact : act = .tryFirst i ∨ act = .recheck i) (hadm : s.admissions[i]? = some adm)
    (h : s.tryReserve scale i adm p = some t) : Moved scale s act t := by
  unfold tryReserve at h
  split at h
  · next st hst =>
    split at h
    · next st' htry =>
      cases h
      exact .reserved hact hadm hst htry
    · next st' htry =>
      cases h
      exact .notReserved hact hadm hst htry
  · cases h

theorem grow_moved {tokens : ℤ} (h : s.grow r tokens = some t) :
    Moved scale s (.grow r tokens) t := by
  unfold grow at h
  split at h
  · next x hx =>
    split at h
    · next d hd =>
      cases h
      exact .grew hx hd
    · cases h
      exact .noEffect
  · cases h

theorem adjust_moved {delta : ℤ} (h : s.adjust r delta = some t) :
    Moved scale s (.adjust r delta) t := by
  unfold adjust at h
  split at h
  · next x hx =>
    split at h
    · next d hd =>
      obtain ⟨st, hst, rfl⟩ := map_eq_some_iff.mp h
      exact .adjusted hx hd hst
    · cases h
      exact .noEffect
  · cases h

theorem stateRelease_moved (h : s.stateRelease r = some t) :
    Moved scale s (.stateRelease r) t := by
  unfold stateRelease at h
  split at h
  · next x hx =>
    split_ifs at h with hphase
    obtain ⟨st, hst, rfl⟩ := map_eq_some_iff.mp h
    exact .returned hx hphase hst
  · cases h

theorem sweepTest_moved {k : ℕ} (h : s.sweepTest k = some t) :
    Moved scale s (.sweepTest k) t := by
  unfold sweepTest at h
  split at h
  · next cutoff model rest hw =>
    obtain ⟨st, hst, hcase⟩ := map_eq_some_iff.mp h
    obtain ⟨a, ha, hst⟩ := bind_eq_some_iff.mp hst
    split at hcase
    · next hidle =>
      subst hcase
      exact .foundIdle hw ha hst hidle
    · subst hcase
      exact .sweepMoved hw (Or.inr rfl)
  · cases h

/-- **Inversion of a step.** -/
theorem step_moved (h : s.step scale act = some t) : Moved scale s act t := by
  cases act with
  | tick =>
    cases h
    exact .ticked
  | stateFor => exact stateFor_moved h
  | tryFirst =>
    simp only [step, tryFirst] at h
    split at h
    · next adm hadm =>
      split at h
      · exact tryReserve_moved (Or.inl rfl) hadm h
      · cases h
    · cases h
  | notifyCh =>
    simp only [step, notifyCh] at h
    split at h
    · obtain ⟨st, -, rfl⟩ := map_eq_some_iff.mp h
      exact .waited (Or.inl rfl)
    · cases h
  | recheck =>
    simp only [step, recheck] at h
    split at h
    · next adm hadm =>
      split at h
      · exact tryReserve_moved (Or.inr rfl) hadm h
      · cases h
    · cases h
  | wake =>
    simp only [step, wake] at h
    split at h
    · split_ifs at h
      cases h
      exact .waited (Or.inr (Or.inl rfl))
    · cases h
  | giveUp =>
    simp only [step, giveUp] at h
    split at h
    · cases h
      exact .waited (Or.inr (Or.inr rfl))
    · cases h
  | grow => exact grow_moved h
  | adjust => exact adjust_moved h
  | release =>
    simp only [step, release] at h
    split at h
    · next x hx =>
      split at h
      · cases h
        exact .noEffect
      · next hheld =>
        cases h
        exact .releasing hx (Bool.eq_false_iff.mpr hheld)
    · cases h
  | stateRelease => exact stateRelease_moved h
  | closeCh =>
    simp only [step, closeCh] at h
    split_ifs at h
    cases h
    exact .closed
  | sweepCutoff =>
    cases h
    exact .sweepBegun
  | sweepLock k order =>
    simp only [step, sweepLock] at h
    split at h
    · next hw =>
      split_ifs at h
      cases h
      exact .sweepMoved hw (Or.inl ⟨order, rfl⟩)
    · cases h
  | sweepTest => exact sweepTest_moved h
  | sweepDelete =>
    simp only [step, sweepDelete] at h
    split at h
    · next hw =>
      cases h
      exact .deleted hw
    · cases h
  | sweepUnlock =>
    simp only [step, sweepUnlock] at h
    split at h
    · next hw =>
      cases h
      exact .unlocked hw
    · cases h

end Inversion

end State

def State.initial (now : ℤ) : State := ⟨now, [], ∅, [], [], [], 0, [], []⟩

/-- **The machine**: all interleavings on one controller with the given admit fraction. -/
def occupancy (scale : ℤ → ℤ) : Machine State Act where
  Init := fun s => ∃ now, s = State.initial now
  step := State.step scale

end HivenetRouter.Admission
