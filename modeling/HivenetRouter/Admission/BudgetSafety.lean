import HivenetRouter.Admission.OccupancyExact

/-!
# What a step does to one object, to the map and to one admission

`State.Moved` says what a step does to the whole state. A property of single objects or of
single admissions needs less, and some of it needs more: `Moved` does not say where an
admission goes when it waits.

* `State.Moved.touched` — an object of the new state is an old one whose counters changed
  in one of the ways of `Touched`, or it is new and empty.
* `State.Moved.lookup_mono` — without a sweep, the map loses nothing.
* `State.step_admission` — an admission of the new state is an old one that stayed where it
  was or went on in one of the ways of `Advanced`, or it is new and at its first attempt.
-/

namespace HivenetRouter.Admission

open Finmap List Option Or

theorem forall_of_eq_some {α : Type} {o : Option α} {a : α} {P : α → Prop} (ha : o = some a)
    (h : P a) : ∀ b, o = some b → P b := fun _ hb => mem_unique ha hb ▸ h

namespace State

variable {scale : ℤ → ℤ} {s t : State} {act : Act} {adm adm' : Admit}

/-! ### Objects -/

/-- **How a step may change the object at address `b`**, from `st` to `st'`. -/
inductive Touched (scale : ℤ → ℤ) (s : State) (b : ℕ) (st : ModelState) :
    Act → ModelState → Prop where
  /-- The counters stay. -/
  | counted {act st'} (hsum : st'.sumW = st.sumW) (hcount : st'.count = st.count) :
      Touched scale s b st act st'
  | reserved {i act adm st'} (hact : act = .tryFirst i ∨ act = .recheck i)
      (hadm : s.admissions[i]? = some adm) (hb : adm.state = b)
      (htry : st.tryReserve adm.call.footprint
        (effectiveBudget scale adm.call.budgetTokens) adm.call.maxInflight = (st', true)) :
      Touched scale s b st act st'
  | grew {r tokens x d} (hx : s.reservations[r]? = some x) (hb : x.state = b)
      (hd : x.growBy tokens = some d) :
      Touched scale s b st (.grow r tokens) (st.grow d)
  | adjusted {r delta x d} (hx : s.reservations[r]? = some x) (hb : x.state = b)
      (hd : x.adjustBy delta = some d) :
      Touched scale s b st (.adjust r delta) (st.adjust d s.nextCh).1
  | returned {r x} (hx : s.reservations[r]? = some x) (hb : x.state = b)
      (hphase : x.phase = .releasing) :
      Touched scale s b st (.stateRelease r) (st.release x.weight s.nextCh).1

/-- The object at address `b` before the step, and what the step did to it. -/
def Became (scale : ℤ → ℤ) (s : State) (act : Act) (b : ℕ) (st' : ModelState) : Prop :=
  ∃ st, s.states[b]? = some st ∧ st'.model = st.model ∧ Touched scale s b st act st'

theorem Became.refl {b : ℕ} {st : ModelState} (h : s.states[b]? = some st) :
    Became scale s act b st := ⟨st, h, rfl, .counted rfl rfl⟩

/-- The one object that the step writes, or another one. -/
theorem Became.of_modify {a b : ℕ} {u : ModelState → ModelState} {st' : ModelState}
    (h : (s.states.modify a u)[b]? = some st')
    (hu : ∀ st, s.states[a]? = some st →
      (u st).model = st.model ∧ Touched scale s a st act (u st)) :
    Became scale s act b st' := by
  obtain ⟨st, hst, ⟨rfl, rfl⟩ | ⟨-, rfl⟩⟩ := getElem?_modify_eq_some h
  · exact ⟨st, hst, hu st hst⟩
  · exact .refl hst

/-- **Inversion for one object**: after a step it is what a locked section made of it, or it is the
new one, empty and in the map. -/
theorem Moved.touched (h : Moved scale s act t) {b : ℕ} {st' : ModelState}
    (hb : t.states[b]? = some st') :
    Became scale s act b st' ∨
      b = s.states.length ∧ (st'.sumW = 0 ∧ st'.count = 0) ∧
        t.models.lookup st'.model = some b := by
  cases h with
  -- the time of the lookup is no counter
  | lookedUp =>
    left
    exact .of_modify hb fun st _ => ⟨rfl, .counted rfl rfl⟩
  -- the new object is at the end of the heap, and the map points to it
  | created =>
    rcases getElem?_concat.mp hb with hold | ⟨rfl, rfl⟩
    · exact Or.inl (.refl hold)
    · exact Or.inr ⟨rfl, ⟨rfl, rfl⟩, lookup_insert _⟩
  -- from here on, the step writes one object: the one it found
  | reserved hact hadm hst htry =>
    left
    refine .of_modify hb (forall_of_eq_some hst ?_)
    exact ⟨by rw [(ModelState.tryReserve_accepted htry).2.2], .reserved hact hadm rfl htry⟩
  | notReserved hact hadm hst htry =>
    left
    obtain rfl := ModelState.tryReserve_eq_false htry
    exact .of_modify hb (forall_of_eq_some hst ⟨rfl, .counted rfl rfl⟩)
  | grew hx hd =>
    left
    exact .of_modify hb fun st _ => ⟨rfl, .grew hx rfl hd⟩
  | adjusted hx hd hst =>
    left
    refine .of_modify hb (forall_of_eq_some hst ?_)
    exact ⟨(ModelState.adjust_fields ..).1, .adjusted hx rfl hd⟩
  | returned hx hphase hst =>
    left
    exact .of_modify hb (forall_of_eq_some hst ⟨rfl, .returned hx rfl hphase⟩)
  | _ => exact Or.inl (.refl hb)

theorem Moved.length_le (h : Moved scale s act t) : s.states.length ≤ t.states.length := by
  cases h with
  | created => exact (length_append ▸ Nat.le_add_right _ _)
  | lookedUp | grew => exact (length_modify _ _ _).ge
  | reserved | notReserved | adjusted | returned => exact (length_modify _ _ _).ge
  | _ => exact le_rfl

/-! ### The map -/

/-- Only a sweep takes a model out of the map. -/
theorem Moved.lookup_mono (h : Moved scale s act t) (hsweeps : s.sweeps = []) {m : String}
    {a : ℕ} (ha : s.models.lookup m = some a) : t.models.lookup m = some a := by
  cases h with
  | @created call hmu hnone =>
    have hne : m ≠ call.model := by
      rintro rfl
      rw [hnone] at ha
      cases ha
    exact (lookup_insert_of_ne _ hne).trans ha
  -- a removal comes from a pass
  | deleted hw =>
    rw [hsweeps] at hw
    cases hw
  | _ => exact ha

/-- An entry of the new map is an old one, or is the new object. -/
theorem Moved.lookup_cases (h : Moved scale s act t) {m : String} {a : ℕ}
    (ha : t.models.lookup m = some a) : s.models.lookup m = some a ∨ a < t.states.length := by
  cases h with
  | @created call hmu hnone =>
    by_cases hm : m = call.model
    · subst hm
      right
      obtain rfl := some.inj ((lookup_insert _).symm.trans ha)
      rw [length_append]
      exact Nat.lt_succ_self _
    · exact inl ((lookup_insert_of_ne _ hm).symm.trans ha)
  | @deleted k cutoff model rest hw => exact inl (GoMap.lookup_erase_eq_some.mp ha).2
  | _ => exact inl ha

/-! ### Admissions -/

/-- **How the admission `adm` at index `i` may go on**: to the phase, and to the state after
the step. -/
inductive Advanced (scale : ℤ → ℤ) (s : State) (i : ℕ) (adm : Admit) :
    Act → AdmitPhase → State → Prop where
  /-- The first attempt, or one of the parking loop, gets a reservation. -/
  | admitted {act st st' t} (hact : act = .tryFirst i ∨ act = .recheck i)
      (hphase : adm.phase ≠ .refused) (hst : s.states[adm.state]? = some st)
      (htry : st.tryReserve adm.call.footprint
        (effectiveBudget scale adm.call.budgetTokens) adm.call.maxInflight = (st', true))
      (ht : t.states[adm.state]? = some st') :
      Advanced scale s i adm act (.admitted s.reservations.length) t
  /-- The first attempt does not. -/
  | notAtFirst {st t} (hphase : adm.phase = .first) (hst : s.states[adm.state]? = some st)
      (htry : (st.tryReserve adm.call.footprint
        (effectiveBudget scale adm.call.budgetTokens) adm.call.maxInflight).2 = false) :
      Advanced scale s i adm (.tryFirst i)
        (if (effectiveBudget scale adm.call.budgetTokens > 0 ∧
            adm.call.footprint > effectiveBudget scale adm.call.budgetTokens) ∨
          adm.call.parkFor ≤ 0 then .refused else .fetch) t
  /-- The parking loop goes on, or gives up. -/
  | waited {act p t} (hphase : adm.phase ≠ .first ∧ adm.phase ≠ .refused)
      (hp : ∀ r, p ≠ .admitted r) : Advanced scale s i adm act p t

/-- The admission before the step, and where it went. -/
def Proceeded (scale : ℤ → ℤ) (s : State) (act : Act) (t : State) (i : ℕ) (adm' : Admit) :
    Prop :=
  ∃ adm, s.admissions[i]? = some adm ∧ adm'.call = adm.call ∧ adm'.state = adm.state ∧
    (adm'.phase = adm.phase ∨ Advanced scale s i adm act adm'.phase t)

theorem Proceeded.refl {i : ℕ} (h : s.admissions[i]? = some adm) :
    Proceeded scale s act t i adm := ⟨adm, h, rfl, rfl, inl rfl⟩

/-- The one admission that the step moves, or another one. -/
theorem Proceeded.of_setAdmission {i j : ℕ} {p : AdmitPhase}
    (h : (s.setAdmission i p).admissions[j]? = some adm') (hadm : s.admissions[i]? = some adm)
    (hp : Advanced scale s i adm act p t) : Proceeded scale s act t j adm' := by
  obtain ⟨x, hx, ⟨rfl, rfl⟩ | ⟨-, rfl⟩⟩ := getElem?_modify_eq_some h
  · obtain rfl : adm = x := mem_unique hadm hx
    exact ⟨adm, hadm, rfl, rfl, inr hp⟩
  · exact .refl hx

/-- An attempt of the admission `i`, with what it leads to when it fails. -/
theorem Proceeded.of_tryReserve {i j : ℕ} {p : AdmitPhase}
    (h : s.tryReserve scale i adm p = some t) (hadm : s.admissions[i]? = some adm)
    (hact : act = .tryFirst i ∨ act = .recheck i) (hphase : adm.phase ≠ .refused)
    (hj : t.admissions[j]? = some adm')
    (hp : ∀ st, s.states[adm.state]? = some st →
      (st.tryReserve adm.call.footprint (effectiveBudget scale adm.call.budgetTokens)
        adm.call.maxInflight).2 = false → Advanced scale s i adm act p t) :
    Proceeded scale s act t j adm' := by
  unfold State.tryReserve at h
  split at h
  · next st hst =>
    split at h
    · next st' htry =>
      cases h
      refine .of_setAdmission (i := i) (s := s) hj hadm (.admitted hact hphase hst htry ?_)
      show (s.states.modify adm.state fun _ => st')[adm.state]? = some st'
      rw [getElem?_modify_eq, hst]
      rfl
    · next st' htry =>
      cases h
      exact .of_setAdmission (i := i) (s := s) hj hadm (hp st hst (by rw [htry]))
  · cases h

/-- Steps on the reservations, the channels, the clock and the sweeps leave the admissions. -/
theorem Moved.admissions_eq (h : Moved scale s act t)
    (hact : ∀ i, act ≠ .tryFirst i ∧ act ≠ .recheck i ∧ act ≠ .notifyCh i ∧ act ≠ .wake i ∧
      act ≠ .giveUp i) (hcall : ∀ call, act ≠ .stateFor call) : t.admissions = s.admissions := by
  cases h with
  | lookedUp | created => exact absurd rfl (hcall _)
  | reserved hact' | notReserved hact' =>
    rcases hact' with rfl | rfl
    · exact absurd rfl (hact _).1
    · exact absurd rfl (hact _).2.1
  | waited hact' =>
    rcases hact' with rfl | rfl | rfl
    · exact absurd rfl (hact _).2.2.1
    · exact absurd rfl (hact _).2.2.2.1
    · exact absurd rfl (hact _).2.2.2.2
  | _ => rfl

/-- **Inversion for one admission**: it went on as `Proceeded` says, or it is new and has just
looked its object up. -/
theorem step_admission (h : s.step scale act = some t) {j : ℕ}
    (hj : t.admissions[j]? = some adm') :
    Proceeded scale s act t j adm' ∨
      act = .stateFor adm'.call ∧ adm'.phase = .first ∧
        t.models.lookup adm'.call.model = some adm'.state := by
  have hmoved := step_moved h
  cases act with
  -- the one step that adds an admission
  | stateFor =>
    cases hmoved with
    | lookedUp hmu ha =>
      rcases getElem?_concat.mp hj with hold | ⟨-, rfl⟩
      · exact inl (.refl hold)
      · exact inr ⟨rfl, rfl, ha⟩
    | created =>
      rcases getElem?_concat.mp hj with hold | ⟨-, rfl⟩
      · exact inl (.refl hold)
      · exact inr ⟨rfl, rfl, lookup_insert _⟩
    | reserved hact | notReserved hact | waited hact => exact absurd hact (by simp)
    | noEffect | sweepMoved => exact inl (.refl hj)
  -- the two attempts, and what each leads to when it fails
  | tryFirst =>
    left
    simp only [step, tryFirst] at h
    split at h
    · next adm hadm =>
      split at h
      · next hphase =>
        refine .of_tryReserve h hadm (inl rfl) (by simp [hphase]) hj fun st hst htry => ?_
        exact .notAtFirst hphase hst htry
      · cases h
    · cases h
  -- the parking loop, from one attempt to the next
  | notifyCh =>
    left
    simp only [step, notifyCh] at h
    split at h
    · next hadm =>
      obtain ⟨st, -, rfl⟩ := map_eq_some_iff.mp h
      exact .of_setAdmission hj hadm (.waited (by simp) (by simp))
    · cases h
  | recheck =>
    left
    simp only [step, recheck] at h
    split at h
    · next adm hadm =>
      split at h
      · next ch hphase =>
        refine .of_tryReserve h hadm (inr rfl) (by simp [hphase]) hj fun st hst htry => ?_
        exact .waited (by simp [hphase]) (by simp)
      · cases h
    · cases h
  | wake =>
    left
    simp only [step, wake] at h
    split at h
    · next hadm =>
      split_ifs at h
      cases h
      exact .of_setAdmission hj hadm (.waited (by simp) (by simp))
    · cases h
  | giveUp =>
    left
    simp only [step, giveUp] at h
    split at h
    · next hadm =>
      cases h
      exact .of_setAdmission hj hadm (.waited (by simp) (by simp))
    · cases h
  -- no other step touches an admission
  | _ =>
    left
    rw [hmoved.admissions_eq (by simp) (by simp)] at hj
    exact .refl hj

end State

/-!
## The admit budget

Where every call for a model brings the same effective budget `B > 0` and the same
in-flight bound, and its reservations are only made, returned and corrected downwards, the
occupancy of the model stays within both (`Budgeted.bounds`). With `Grow` and corrections
upwards it need not, but each reservation that is made still leaves the sum within the
budget of its call (`ModelState.tryReserve_le`). A request that is larger than its budget is
refused at its first attempt and never admitted (`Refusing`).

The runs are those whose steps are `State.Tidy`: footprints are not negative and no sum
leaves the 64-bit range. The results about `Occupancy(model)` are about runs without
sweeps, in which the map loses nothing (`Unswept`): every object is the one the map holds
for its model, so none is doomed, and the accounting invariant holds for any bound on the
time from a lookup to its reservation (`Unswept.inv`).
-/

open ModelState State

/-! ### The statement -/

/-- The action starts a `SweepIdle` pass. -/
def Act.beginsSweep : Act → Bool
  | .sweepCutoff _ => true
  | _ => false

/-- The admission `i` gets its reservation in the step from `s` to `t`. -/
def Admits (s t : State) (i : ℕ) (adm : Admit) : Prop :=
  s.admissions[i]? = some adm ∧ (∀ r, adm.phase ≠ .admitted r) ∧
    ∃ adm', t.admissions[i]? = some adm' ∧ ∃ r, adm'.phase = .admitted r

/-- The request could not be admitted even on a model with nothing in flight. -/
def AdmitCall.Oversized (scale : ℤ → ℤ) (call : AdmitCall) : Prop :=
  ∀ st : ModelState, st.sumW = 0 → st.count = 0 →
    (st.tryReserve call.footprint (effectiveBudget scale call.budgetTokens)
      call.maxInflight).2 = false

variable {scale : ℤ → ℤ} {s : State} {act : Act}

theorem AdmitCall.oversized_iff {call : AdmitCall} (hfits : Fits64 call.footprint) :
    call.Oversized scale ↔ fits scale call.footprint call.budgetTokens = false := by
  unfold fits
  rw [decide_eq_false_iff_not, not_or, not_le, not_le]
  constructor
  · -- refused on the empty object, and not by the in-flight bound, which is at least one
    intro hover
    have hempty := hover ⟨call.model, 0, 0, 0, 0, 0, 0⟩ rfl rfl
    unfold ModelState.tryReserve at hempty
    dsimp only at hempty
    rw [zero_add, zero_add, wrap64_of_fits hfits] at hempty
    split_ifs at hempty with hbudget hcount
    · exact hbudget
    · have hone : wrap64 1 = 1 := by decide
      omega
  · rintro ⟨hpos, hlt⟩ st hsum -
    refine tryReserve_of_lt _ hpos ?_
    rw [hsum, zero_add, wrap64_of_fits hfits]
    exact hlt

/-! ### Runs without sweeps -/

/-- No sweep has begun: the map has lost nothing. -/
structure Unswept (s : State) : Prop where
  sweeps : s.sweeps = []
  mapped : ∀ (a : ℕ) (st : ModelState), s.states[a]? = some st → s.models.lookup st.model = some a
  pending : ∀ (i : ℕ) (adm : Admit), s.admissions[i]? = some adm →
    s.models.lookup adm.call.model = some adm.state
  accounted : Inv 0 s

/-- The time since the lookup of the admission that makes an attempt. -/
def State.delay (s : State) : Act → ℤ
  | .tryFirst i | .recheck i => (s.admissions[i]?).elim 0 fun adm => s.now - adm.lookedUp
  | _ => 0

theorem State.Tidy.sound (h : s.Tidy act) (hsweep : act.beginsSweep = false) :
    s.Sound scale (s.delay act) act := by
  cases act with
  | tryFirst | recheck =>
    intro adm hadm st hst
    refine ⟨h adm hadm st hst, fun _ => ?_⟩
    simp [delay, mem_def.mp hadm]
  | sweepCutoff => cases hsweep
  | _ => exact h

/-- The accounting does not depend on the bound where no sweep has begun. -/
theorem Inv.of_unswept {D : ℤ} (h : Inv D s) (hsweeps : s.sweeps = [])
    (hmapped : ∀ (a : ℕ) (st : ModelState), s.states[a]? = some st → s.models.lookup st.model =
      some a)
    (D' : ℤ) : Inv D' s where
  __ := h
  doomed a st hst hdoom := by
    have hmu : s.muHeld = false := by simp [muHeld, hsweeps]
    exact absurd hdoom (Inv.not_doomed hmu (hmapped a st hst))
  cutoffs w hw := by
    rw [hsweeps] at hw
    cases hw
  clock := h.clock

namespace Unswept

variable {t : State} {st : ModelState}

theorem initial (now : ℤ) : Unswept (initial now) where
  sweeps := rfl
  mapped a st h := by simp [State.initial] at h
  pending i adm h := by simp [State.initial] at h
  accounted := Inv.initial now

variable (h : Unswept s)

include h

theorem inv (D : ℤ) : Inv D s := h.accounted.of_unswept h.sweeps h.mapped D

/-- The object of an admission is that of the model it was called for. -/
theorem model_of_pending {i : ℕ} {adm : Admit}
    (hadm : s.admissions[i]? = some adm) (hst : s.states[adm.state]? = some st) :
    st.model = adm.call.model := by
  obtain ⟨u, hu, hmodel⟩ := h.accounted.mapped _ _ (h.pending i adm hadm)
  obtain rfl : st = u := mem_unique hst hu
  exact hmodel

theorem sweeps_step (hsweep : act.beginsSweep = false)
    (hmoved : State.Moved scale s act t) : t.sweeps = [] := by
  have hnone : ∀ (k : ℕ) (w : Sweep), s.sweeps[k]? ≠ some w := by
    intro k w hw
    rw [h.sweeps] at hw
    cases hw
  -- a pass that goes on was begun before
  cases hmoved with
  | sweepBegun => cases hsweep
  | sweepMoved hw hact | foundIdle hw | deleted hw | unlocked hw => exact absurd hw (hnone _ _)
  | _ => exact h.sweeps

/-- **A tidy step that begins no sweep.** -/
theorem step (htidy : s.Tidy act) (hsweep : act.beginsSweep = false)
    (hstep : s.step scale act = some t) : Unswept t := by
  have hmoved := step_moved hstep
  have hsweeps := h.sweeps_step hsweep hmoved
  have hmapped : ∀ (a : ℕ) (st : ModelState), t.states[a]? = some st →
      t.models.lookup st.model = some a := by
    intro a st' hst'
    rcases hmoved.touched hst' with ⟨st, hst, hmodel, -⟩ | ⟨-, -, hnew⟩
    · rw [hmodel]
      exact hmoved.lookup_mono h.sweeps (h.mapped a st hst)
    · exact hnew
  have hinv : Inv (s.delay act) t := (h.inv _).step (htidy.sound hsweep) hmoved
  refine ⟨hsweeps, hmapped, fun i adm' hadm' => ?_, hinv.of_unswept hsweeps hmapped 0⟩
  rcases step_admission hstep hadm' with ⟨adm, hadm, hcall, hstate, -⟩ | ⟨-, -, hnew⟩
  · rw [hcall, hstate]
    exact hmoved.lookup_mono h.sweeps (h.pending i adm hadm)
  · exact hnew

theorem occupancy_eq {a : ℕ} (hst : s.states[a]? = some st) :
    s.occupancy st.model = (st.sumW, st.count) := by
  unfold State.occupancy
  rw [h.mapped a st hst, bind_some, hst]

end Unswept

/-! ### The budget -/

/-- The conditions on the steps of a run that keeps to the budget of `model`. -/
def State.InBudget (scale : ℤ → ℤ) (model : String) (B N : ℤ) (s : State) (act : Act) : Prop :=
  s.Tidy act ∧ act.beginsSweep = false ∧ s.Fixed scale model B N act

instance (scale : ℤ → ℤ) (model : String) (B N : ℤ) (s : State) (act : Act) :
    Decidable (s.InBudget scale model B N act) := inferInstanceAs (Decidable (_ ∧ _))

def ModelState.Within (B N : ℤ) (st : ModelState) : Prop := st.sumW ≤ B ∧ (0 < N → st.count ≤ N)

/-- The invariant of the runs that keep to the budget of `model`. -/
structure Budgeted (scale : ℤ → ℤ) (model : String) (B N : ℤ) (s : State) : Prop where
  unswept : Unswept s
  declared : ∀ (i : ℕ) (adm : Admit), s.admissions[i]? = some adm → adm.call.model = model →
    effectiveBudget scale adm.call.budgetTokens = B ∧ adm.call.maxInflight = N
  within : ∀ (a : ℕ) (st : ModelState), s.states[a]? = some st → st.model = model → st.Within B N

namespace Budgeted

variable {model : String} {B N : ℤ} {t : State}

theorem initial (now : ℤ) : Budgeted scale model B N (initial now) where
  unswept := .initial now
  declared i adm h := by simp [State.initial] at h
  within a st h := by simp [State.initial] at h

variable (h : Budgeted scale model B N s)

include h

/-- **What a step does to an object of the model keeps it within the bounds.** -/
theorem within_of_touched (hB : 0 < B)
    (hC : s.InBudget scale model B N act) {a : ℕ} {st st' : ModelState}
    (hst : s.states[a]? = some st) (hmodel : st.model = model)
    (htouched : State.Touched scale s a st act st') : st'.Within B N := by
  obtain ⟨htidy, -, hfixed⟩ := hC
  obtain ⟨hsum, hcount⟩ := h.within a st hst hmodel
  have hinv := h.unswept.accounted
  cases htouched with
  | counted hsum' hcount' => exact ⟨hsum' ▸ hsum, hcount' ▸ hcount⟩
  -- an attempt of an admission for the model, which brings the model's own bounds
  | @reserved i act adm _ hact hadm hb htry =>
    subst hb
    obtain ⟨rfl, rfl⟩ := h.declared i adm hadm
      ((h.unswept.model_of_pending hadm hst).symm.trans hmodel)
    obtain ⟨hle, hle'⟩ := tryReserve_le htry
    exact ⟨hle hB, hle'⟩
  -- excluded: the reservations of the model never grow
  | @grew r tokens x d hx hb hd =>
    have hon : s.OnModel model x := by
      unfold State.OnModel
      rw [hb, hst, map_some, hmodel]
    exact absurd hon (hfixed x hx)
  -- the cap at what the reservation holds keeps the sum at or above zero, so that the clamp
  -- does not act and the sum goes down
  | @adjusted r delta x d hx hb hd =>
    subst hb
    have hdelta : delta ≤ 0 := hfixed x hx (by
      unfold State.OnModel
      rw [hst, map_some, hmodel])
    obtain ⟨hlive, hpos⟩ := hinv.adjust_live hx hst hd
    have hle := (hinv.le_of_live hx hst hlive).1
    have hd0 : d ≤ 0 := Reservation.adjustBy_nonpos (hinv.held x (List.mem_of_getElem? hx)).1
      (by have hlt := (hinv.fits _ st hst).1; omega) hdelta hd
    obtain ⟨ch, hch⟩ := adjust_eq s.nextCh (by omega) (htidy x hx d hd st hst)
    rw [hch]
    exact ⟨by dsimp only; omega, hcount⟩
  -- a live reservation is within both counters, so that neither clamp acts
  | @returned r x hx hb hphase =>
    subst hb
    have hlive : x.live = true := by
      unfold Reservation.live
      rw [hphase]
      decide
    have hpos := (hinv.held x (List.mem_of_getElem? hx)).1
    obtain ⟨hle, hone⟩ := hinv.le_of_live hx hst hlive
    obtain ⟨hfw, hfc⟩ := hinv.fits _ st hst
    rw [release_eq _ hpos hle hone hfw hfc]
    refine ⟨by dsimp only; omega, fun hN => ?_⟩
    dsimp only
    omega

theorem step (hB : 0 < B)
    (hC : s.InBudget scale model B N act) (hstep : s.step scale act = some t) :
    Budgeted scale model B N t := by
  refine ⟨h.unswept.step hC.1 hC.2.1 hstep, fun i adm' hadm' hmodel => ?_,
    fun a st' hst' hmodel => ?_⟩
  · rcases step_admission hstep hadm' with ⟨adm, hadm, hcall, -, -⟩ | ⟨rfl, -, -⟩
    · rw [hcall] at hmodel ⊢
      exact h.declared i adm hadm hmodel
    · exact hC.2.2 hmodel
  · rcases (step_moved hstep).touched hst' with
      ⟨st, hst, hsame, htouched⟩ | ⟨-, ⟨hsum, hcount⟩, -⟩
    · exact h.within_of_touched hB hC hst (hsame ▸ hmodel) htouched
    · exact ⟨by omega, fun hN => by omega⟩

/-- The bounds, for the occupancy and for the live reservations. -/
theorem bounds (hB : 0 < B) :
    (s.occupancy model).1 ≤ B ∧ (0 < N → ((s.liveOf model).length : ℤ) ≤ N) := by
  have hcounters : (s.occupancy model).1 ≤ B ∧ (0 < N → (s.occupancy model).2 ≤ N) := by
    unfold State.occupancy
    split
    · next st hst =>
      obtain ⟨a, ha, hst⟩ := bind_eq_some_iff.mp hst
      obtain ⟨u, hu, hmodel⟩ := h.unswept.accounted.mapped model a ha
      obtain rfl : st = u := mem_unique hst hu
      exact h.within a st hst hmodel
    · exact ⟨hB.le, fun hN => hN.le⟩
  -- the counters of the object are the sums over the live reservations
  rw [h.unswept.accounted.occupancy model] at hcounters ⊢
  exact hcounters

end Budgeted

/-! ### Reservations as they are made -/

/-- **A reservation leaves the object that it is made on within the bounds of its call**, from
any state. -/
theorem within_of_admits {t : State} {i : ℕ} {adm : Admit}
    (hstep : s.step scale act = some t) (hadmits : Admits s t i adm) :
    ∃ st, t.states[adm.state]? = some st ∧
      (0 < effectiveBudget scale adm.call.budgetTokens →
        st.sumW ≤ effectiveBudget scale adm.call.budgetTokens) ∧
      (0 < adm.call.maxInflight → st.count ≤ adm.call.maxInflight) := by
  obtain ⟨hadm, hnot, adm', hadm', r, hr⟩ := hadmits
  rcases step_admission hstep hadm' with ⟨u, hu, -, -, hphase | hadv⟩ | ⟨-, hfirst, -⟩
  · -- the admission did not move
    obtain rfl : adm = u := mem_unique hadm hu
    exact absurd (hphase.symm.trans hr) (hnot r)
  · obtain rfl : adm = u := mem_unique hadm hu
    generalize hp : adm'.phase = p at hadv hr
    cases hadv with
    | admitted _ _ hst htry ht => exact ⟨_, ht, tryReserve_le htry⟩
    | notAtFirst => split at hr <;> cases hr
    | waited _ hne => exact absurd hr (hne r)
  · rw [hfirst] at hr
    cases hr

/-! ### Requests that are too large -/

/-- The invariant of tidy runs, with any sweeps. -/
structure Refusing (scale : ℤ → ℤ) (s : State) : Prop where
  nonneg : ∀ (a : ℕ) (st : ModelState), s.states[a]? = some st → 0 ≤ st.sumW
  addresses : ∀ (m : String) (a : ℕ), s.models.lookup m = some a → a < s.states.length
  pending : ∀ (i : ℕ) (adm : Admit), s.admissions[i]? = some adm →
    0 ≤ adm.call.footprint ∧ adm.state < s.states.length
  refused : ∀ (i : ℕ) (adm : Admit), s.admissions[i]? = some adm →
    adm.call.Oversized scale → adm.phase = .first ∨ adm.phase = .refused

namespace Refusing

variable {t : State} {i : ℕ} {adm : Admit} {st : ModelState}

theorem initial (now : ℤ) : Refusing scale (initial now) where
  nonneg a st h := by simp [State.initial] at h
  addresses m a h := by simp [State.initial] at h
  pending i adm h := by simp [State.initial] at h
  refused i adm h := by simp [State.initial] at h

variable (h : Refusing scale s)

include h

/-- An oversized request is refused by every object, where the sum does not overflow. -/
theorem not_reserved (hadm : s.admissions[i]? = some adm)
    (hst : s.states[adm.state]? = some st) (hover : adm.call.Oversized scale)
    (hfits : st.sumW + adm.call.footprint < 2 ^ 63) :
    (0 < effectiveBudget scale adm.call.budgetTokens ∧
      effectiveBudget scale adm.call.budgetTokens < adm.call.footprint) ∧
    (st.tryReserve adm.call.footprint (effectiveBudget scale adm.call.budgetTokens)
      adm.call.maxInflight).2 = false := by
  have hsum := h.nonneg _ st hst
  have hfoot := (h.pending i adm hadm).1
  have hlarge := (AdmitCall.oversized_iff ⟨by omega, by omega⟩).mp hover
  unfold fits at hlarge
  rw [decide_eq_false_iff_not, not_or, not_le, not_le] at hlarge
  refine ⟨hlarge, tryReserve_of_lt _ hlarge.1 ?_⟩
  rw [wrap64_of_fits ⟨by omega, hfits⟩]
  omega

theorem nonneg_of_touched (htidy : s.Tidy act) {a : ℕ}
    {st' : ModelState} (hst : s.states[a]? = some st)
    (htouched : State.Touched scale s a st act st') : 0 ≤ st'.sumW := by
  have hsum := h.nonneg a st hst
  cases htouched with
  | counted hsum' => exact hsum' ▸ hsum
  | @reserved i act adm _ hact hadm hb htry =>
    subst hb
    have hfits : st.sumW + adm.call.footprint < 2 ^ 63 := by
      rcases hact with rfl | rfl
      all_goals exact (htidy adm hadm st hst).1
    have hfoot := (h.pending i adm hadm).1
    rw [tryReserve_sumW htry, wrap64_of_fits ⟨by omega, hfits⟩]
    omega
  | @grew r tokens x d hx hb hd =>
    subst hb
    have hpos := (Reservation.growBy_eq_some hd).2
    have hfits := htidy x hx d hd st hst
    rw [grow_eq ⟨by omega, hfits⟩]
    dsimp only
    omega
  -- the two clamps, whatever the sums were
  | adjusted =>
    rw [(adjust_fields ..).2.2]
    exact clamp_nonneg _
  | returned => exact clamp_nonneg _

/-- An oversized request goes nowhere but to its refusal. -/
theorem refused_of_advanced (htidy : s.Tidy act) {p : AdmitPhase}
    (hadm : s.admissions[i]? = some adm) (hover : adm.call.Oversized scale)
    (hadv : State.Advanced scale s i adm act p t) : p = .refused := by
  have hphase := h.refused i adm hadm hover
  cases hadv with
  | @admitted act st st' t hact hnot hst htry ht =>
    have hfits : st.sumW + adm.call.footprint < 2 ^ 63 := by
      rcases hact with rfl | rfl
      all_goals exact (htidy adm hadm st hst).1
    have hfalse := (h.not_reserved hadm hst hover hfits).2
    rw [htry] at hfalse
    cases hfalse
  | @notAtFirst st t hfirst hst htry =>
    exact if_pos (Or.inl (h.not_reserved hadm hst hover (htidy adm hadm st hst).1).1)
  | waited hnot =>
    rcases hphase with hfirst | hrefused
    · exact absurd hfirst hnot.1
    · exact absurd hrefused hnot.2

/-- **A tidy step keeps an oversized request refused**: no counter is negative, so that even an
empty object has no room for it. -/
theorem step (htidy : s.Tidy act)
    (hstep : s.step scale act = some t) : Refusing scale t := by
  have hmoved := step_moved hstep
  -- `SweepIdle` only takes addresses out of the map, and `stateFor` adds a valid one
  have haddr : ∀ (m : String) (a : ℕ), t.models.lookup m = some a → a < t.states.length := by
    intro m a ha
    rcases hmoved.lookup_cases ha with hold | hnew
    · exact (h.addresses m a hold).trans_le hmoved.length_le
    · exact hnew
  refine ⟨fun a st' hst' => ?_, haddr, fun i adm' hadm' => ?_, fun i adm' hadm' hover => ?_⟩
  · -- an object that is new is empty
    rcases hmoved.touched hst' with ⟨st, hst, -, htouched⟩ | ⟨-, ⟨hsum, -⟩, -⟩
    · exact h.nonneg_of_touched htidy hst htouched
    · exact hsum.ge
  · rcases step_admission hstep hadm' with ⟨adm, hadm, hcall, hstate, -⟩ | ⟨rfl, -, hnew⟩
    · rw [hcall, hstate]
      exact ⟨(h.pending i adm hadm).1, (h.pending i adm hadm).2.trans_le hmoved.length_le⟩
    · exact ⟨htidy, haddr _ _ hnew⟩
  · rcases step_admission hstep hadm' with
      ⟨adm, hadm, hcall, -, hphase | hadv⟩ | ⟨-, hfirst, -⟩
    · -- the step has not moved the admission; else it was tried and refused
      rw [hphase]
      exact h.refused i adm hadm (hcall ▸ hover)
    · rw [hcall] at hover
      exact Or.inr (h.refused_of_advanced htidy hadm hover hadv)
    · exact Or.inl hfirst

/-- The first attempt is always possible, and refuses an oversized request. -/
theorem tryFirst_refuses (htidy : s.Tidy (.tryFirst i))
    (hadm : s.admissions[i]? = some adm) (hfirst : adm.phase = .first)
    (hover : adm.call.Oversized scale) :
    ∃ t, s.step scale (.tryFirst i) = some t ∧
      t.admissions[i]? = some { adm with phase := .refused } := by
  obtain ⟨st, hst⟩ : ∃ st, s.states[adm.state]? = some st :=
    ⟨_, List.getElem?_eq_getElem (h.pending i adm hadm).2⟩
  obtain ⟨hlarge, hfalse⟩ := h.not_reserved hadm hst hover (htidy adm hadm st hst).1
  obtain ⟨st', htry⟩ : ∃ st', st.tryReserve adm.call.footprint
      (effectiveBudget scale adm.call.budgetTokens) adm.call.maxInflight = (st', false) :=
    ⟨_, Prod.ext rfl hfalse⟩
  -- the refusal is the branch before the test of the park duration
  refine ⟨(s.setState adm.state st').setAdmission i .refused, ?_, ?_⟩
  · simp only [State.step, tryFirst, hadm, hfirst, if_true, State.tryReserve, hst, htry]
    rw [if_pos (Or.inl hlarge)]
  · show (s.admissions.modify i _)[i]? = _
    rw [List.getElem?_modify_eq, hadm]
    rfl

end Refusing

/-! ### The result -/

def State.TidyUnswept (s : State) (act : Act) : Prop := s.Tidy act ∧ act.beginsSweep = false

/-- The admit budget, over all runs of one controller. -/
structure BudgetSafe (scale : ℤ → ℤ) : Prop where
  /-- A model with a fixed budget and in-flight bound keeps to both. -/
  kept : ∀ (model : String) (B N : ℤ) (s : State), 0 < B →
    (occupancy scale).ReachVia (State.InBudget scale model B N) s →
    (s.occupancy model).1 ≤ B ∧ (0 < N → ((s.liveOf model).length : ℤ) ≤ N)
  /-- Whatever came before, an admission leaves the sum of its model within the budget of
  its call. -/
  admitted : ∀ (s : State), (occupancy scale).ReachVia State.TidyUnswept s →
    ∀ (act : Act) (t : State), s.TidyUnswept act → s.step scale act = some t →
    ∀ (i : ℕ) (adm : Admit), Admits s t i adm →
    0 < effectiveBudget scale adm.call.budgetTokens →
    (t.occupancy adm.call.model).1 ≤ effectiveBudget scale adm.call.budgetTokens
  /-- From any state at all, sweeps and overflows included, it leaves the object it
  reserved on within the budget. -/
  reserved : ∀ (s t : State) (act : Act), s.step scale act = some t →
    ∀ (i : ℕ) (adm : Admit), Admits s t i adm →
    0 < effectiveBudget scale adm.call.budgetTokens →
    ∃ st, t.states[adm.state]? = some st ∧
      st.sumW ≤ effectiveBudget scale adm.call.budgetTokens
  /-- A request that is too large for an empty model has not made its first attempt or was
  refused: it never waits and is never admitted. -/
  neverWaits : ∀ (s : State), (occupancy scale).ReachVia State.Tidy s →
    ∀ (i : ℕ) (adm : Admit), s.admissions[i]? = some adm → adm.call.Oversized scale →
    adm.phase = .first ∨ adm.phase = .refused
  /-- The first attempt, which is always possible, returns the refusal. -/
  refuses : ∀ (s : State), (occupancy scale).ReachVia State.Tidy s →
    ∀ (i : ℕ) (adm : Admit), s.Tidy (.tryFirst i) → s.admissions[i]? = some adm →
    adm.phase = .first → adm.call.Oversized scale →
    ∃ t, s.step scale (.tryFirst i) = some t ∧
      t.admissions[i]? = some { adm with phase := .refused }

theorem budgeted_of_reachVia {model : String} {B N : ℤ} (hB : 0 < B)
    (h : (occupancy scale).ReachVia (State.InBudget scale model B N) s) :
    Budgeted scale model B N s := by
  refine h.induction ?_ fun s a t hI hC hstep => hI.step hB hC hstep
  rintro s ⟨now, rfl⟩
  exact .initial now

theorem unswept_of_reachVia (h : (occupancy scale).ReachVia State.TidyUnswept s) :
    Unswept s := by
  refine h.induction ?_ fun s a t hI hC hstep => hI.step hC.1 hC.2 hstep
  rintro s ⟨now, rfl⟩
  exact .initial now

theorem refusing_of_reachVia (h : (occupancy scale).ReachVia State.Tidy s) :
    Refusing scale s := by
  refine h.induction ?_ fun s a t hI hC hstep => hI.step hC hstep
  rintro s ⟨now, rfl⟩
  exact .initial now

/-- **The admit budget is safe**, for every scaling of the budget. -/
theorem budgetSafe (scale : ℤ → ℤ) : BudgetSafe scale where
  kept model B N s hB h := (budgeted_of_reachVia hB h).bounds hB
  admitted s h act t hC hstep i adm hadmits hbudget := by
    have hs := unswept_of_reachVia h
    have ht := hs.step hC.1 hC.2 hstep
    obtain ⟨st, hst, hle, -⟩ := within_of_admits hstep hadmits
    -- the object of the admission is still the one of its model
    have hmap := (step_moved hstep).lookup_mono hs.sweeps (hs.pending i adm hadmits.1)
    obtain ⟨u, hu, hmodel⟩ := ht.accounted.mapped _ _ hmap
    obtain rfl : st = u := mem_unique hst hu
    rw [← hmodel, ht.occupancy_eq hst]
    exact hle hbudget
  reserved s t act hstep i adm hadmits hbudget := by
    obtain ⟨st, hst, hle, -⟩ := within_of_admits hstep hadmits
    exact ⟨st, hst, hle hbudget⟩
  neverWaits s h := (refusing_of_reachVia h).refused
  refuses s h i adm htidy hadm hfirst hover :=
    (refusing_of_reachVia h).tryFirst_refuses htidy hadm hfirst hover

/-- A request that parks until a correction makes room for it. -/
def parkedRun : List Act :=
  [.stateFor ⟨"m", 60, false, 200, 2, 0⟩, .tryFirst 0, .stateFor ⟨"m", 70, false, 200, 2, 5⟩,
    .tryFirst 1, .notifyCh 1, .recheck 1, .adjust 0 (-30), .closeCh 0, .wake 1, .notifyCh 1,
    .recheck 1]

/-- Half of 200 tokens, two in flight: the budget is used up exactly, and then a request of
150 tokens is refused at once although it could park. -/
theorem budgetSafe_parkedRun :
    (∃ t, (occupancy (· / 2)).ReachVia (State.InBudget (· / 2) "m" 100 2) t ∧
      t.occupancy "m" = (100, 2) ∧ (t.occupancy "m").1 ≤ 100 ∧
      (0 < (2 : ℤ) → ((t.liveOf "m").length : ℤ) ≤ 2)) ∧
    ∃ s t, (occupancy (· / 2)).ReachVia State.Tidy s ∧
      s.step (· / 2) (.tryFirst 2) = some t ∧
      t.admissions[2]? = some ⟨⟨"m", 150, false, 200, 2, 5⟩, 0, 0, .refused⟩ := by
  constructor
  · have hrun : ∃ t ∈ (occupancy (· / 2)).run (initial 0) parkedRun,
        t.occupancy "m" = (100, 2) := by decide +kernel
    obtain ⟨t, ht, hocc⟩ := hrun
    have hreach : (occupancy (· / 2)).ReachVia (State.InBudget (· / 2) "m" 100 2) t :=
      ⟨State.initial 0, parkedRun, ⟨0, rfl⟩, by decide +kernel, ht⟩
    exact ⟨t, hreach, hocc, (budgetSafe (· / 2)).kept "m" 100 2 t (by decide) hreach⟩
  · have hrun : ∃ s ∈ (occupancy (· / 2)).run (initial 0)
        (parkedRun ++ [.stateFor ⟨"m", 150, false, 200, 2, 5⟩]),
        s.Tidy (.tryFirst 2) ∧
        s.admissions[2]? = some ⟨⟨"m", 150, false, 200, 2, 5⟩, 0, 0, .first⟩ := by
      decide +kernel
    obtain ⟨s, hs, htidy, hadm⟩ := hrun
    have hreach : (occupancy (· / 2)).ReachVia State.Tidy s :=
      ⟨State.initial 0, _, ⟨0, rfl⟩, by decide +kernel, hs⟩
    have hover : AdmitCall.Oversized (· / 2) ⟨"m", 150, false, 200, 2, 5⟩ :=
      (AdmitCall.oversized_iff (by decide)).mpr (by decide +kernel)
    obtain ⟨t, hstep, ht⟩ := (budgetSafe (· / 2)).refuses s hreach 2 _ htidy hadm rfl hover
    exact ⟨s, t, hreach, hstep, ht⟩

end HivenetRouter.Admission
