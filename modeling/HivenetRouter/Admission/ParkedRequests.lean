import HivenetRouter.Admission.BudgetSafety

/-!
# Parked requests

A request that finds no room reads the channel of its model state, tries once more, and
blocks on the channel. `release`, and `adjust` with a negative correction, replace the
channel in their locked section and close it afterwards. The channels of the model states are
`Broadcast` channels, with the state objects as sites (`State.channels`), and a step that
gives room back is a broadcast (`State.heard_of_frees`). So a request that is parked was not
refused before the last time that room was given back, or its channel is closed or about to
be (`Attempted.heard`).

That a parked request which would fit is about to try again needs more: that no other step
gives room back. A reservation with a negative footprint does, and so does a sum that
overflows (`parked_beside_room`). In runs without these the counters of an object fall only in
a release or a correction downwards (`State.Holds.step`), and then it holds
(`noLostWakeup_of_accrues`).
-/

namespace HivenetRouter.Admission

open List Option Machine ModelState State

/-! ### The statement -/

/-- There is room for a request of this weight, the numbers being integers. -/
def ModelState.HasRoom (st : ModelState) (weight budget maxInflight : ℤ) : Prop :=
  (0 < budget → st.sumW + weight ≤ budget) ∧ (0 < maxInflight → st.count + 1 ≤ maxInflight)

namespace State

/-- The step is the locked section of a release, or of a correction downwards, on the object at
address `a`. -/
def Frees (s : State) (a : ℕ) : Act → Prop
  | .stateRelease r => ∃ x ∈ s.reservations[r]?, x.state = a
  | .adjust r delta => ∃ x ∈ s.reservations[r]?, x.state = a ∧ ∃ d ∈ x.adjustBy delta, d < 0
  | _ => False

/-- The channel is closed, or will be by a call that is past its locked section. -/
def Notified (s : State) (ch : ℕ) : Prop := ch ∈ s.closed ∨ ch ∈ s.closing

def WouldFit (scale : ℤ → ℤ) (s : State) (adm : Admit) : Prop :=
  ∃ st, s.states[adm.state]? = some st ∧
    st.HasRoom adm.call.footprint (effectiveBudget scale adm.call.budgetTokens)
      adm.call.maxInflight

end State

/-- `since` is what the run `as` from `s` does after the last attempt of the admission `i`, which
failed and led to `u`. -/
structure LastAttempt (scale : ℤ → ℤ) (i : ℕ) (s : State) (as : List Act) (u : State)
    (since : List Act) : Prop where
  attempt : ∃ before, as = before ++ .recheck i :: since ∧
    (occupancy scale).run s (before ++ [.recheck i]) = some u
  failed : ∃ adm ch, u.admissions[i]? = some adm ∧ adm.phase = .blocked ch
  last : .recheck i ∉ since

/-- **No wake-up is lost** in the run `as` from `s` to `t`: for every request that is parked, no
room was given back since its last attempt, or it is notified; and if it would fit, it is
notified. -/
def NoLostWakeup (scale : ℤ → ℤ) (s : State) (as : List Act) (t : State) : Prop :=
  ∀ i adm ch, t.admissions[i]? = some adm → adm.phase = .blocked ch →
    (∃ u since, LastAttempt scale i s as u since ∧
      ((occupancy scale).Along (fun s act => ¬s.Frees adm.state act) u since ∨
        t.Notified ch)) ∧
    (t.WouldFit scale adm → t.Notified ch)

/-- The channel that the admission has read in its parking loop and waits on, or is about to. -/
def AdmitPhase.awaits : AdmitPhase → Option ℕ
  | .recheck ch | .blocked ch => some ch
  | _ => none

/-! ### The channels -/

variable {weight budget maxInflight : ℤ} {st st' : ModelState}

namespace State

variable {scale : ℤ → ℤ} {s t : State} {act : Act} {a ch i j : ℕ} {p : AdmitPhase}

/-- The notification channels: the sites are the state objects. -/
def channels (s : State) : Broadcast ℕ ℕ where
  current a := s.states[a]?.map (·.notify)
  retired := {ch | s.Notified ch}

theorem current_eq_some :
    s.channels.current a = some ch ↔ ∃ st, s.states[a]? = some st ∧ st.notify = ch :=
  map_eq_some_iff

/-- A step that writes one object keeps its channel, or retires it. -/
theorem channels_step_of_modify {u : ModelState → ModelState}
    (hstates : t.states = s.states.modify a u)
    (hretired : s.channels.retired ⊆ t.channels.retired)
    (hu : ∀ st, s.states[a]? = some st → (u st).notify = st.notify ∨ t.Notified st.notify) :
    Broadcast.Step s.channels t.channels := by
  refine ⟨fun {b ch} hb => ?_, hretired⟩
  obtain ⟨st, hst, rfl⟩ := current_eq_some.mp hb
  by_cases hab : a = b
  · subst hab
    refine (hu st hst).imp (fun hnotify => current_eq_some.mpr ⟨u st, ?_, hnotify⟩) id
    rw [hstates, getElem?_modify_eq, hst]
    rfl
  · refine .inl (current_eq_some.mpr ⟨st, ?_, rfl⟩)
    rw [hstates, getElem?_modify, hst]
    exact congrArg some (if_neg hab)

/-- **A channel leaves its object only to be closed.** -/
theorem channels_step (h : Moved scale s act t) : Broadcast.Step s.channels t.channels := by
  cases h with
  | lookedUp | grew => exact channels_step_of_modify rfl subset_rfl fun _ _ => .inl rfl
  | created =>
    refine ⟨fun {b ch} hb => .inl ?_, subset_rfl⟩
    obtain ⟨st, hst, hch⟩ := current_eq_some.mp hb
    exact current_eq_some.mpr ⟨st, getElem?_concat.mpr (.inl hst), hch⟩
  | reserved hact hadm hst htry =>
    obtain ⟨-, -, rfl⟩ := tryReserve_accepted htry
    exact channels_step_of_modify rfl subset_rfl (forall_of_eq_some hst (.inl rfl))
  | notReserved hact hadm hst htry =>
    obtain rfl := tryReserve_eq_false htry
    exact channels_step_of_modify rfl subset_rfl (forall_of_eq_some hst (.inl rfl))
  | @adjusted r delta x d st hx hd hst =>
    have hretired : ∀ ch, s.Notified ch →
        ch ∈ s.closed ∨ ch ∈ (st.adjust d s.nextCh).2.toList ++ s.closing := fun ch hch =>
      hch.imp id (mem_append_right _)
    refine channels_step_of_modify rfl hretired (forall_of_eq_some hst ?_)
    -- a correction downwards replaces the channel, and the old one is to be closed
    by_cases hd : d < 0
    · right
      show _ ∨ _ ∈ (st.adjust d s.nextCh).2.toList ++ s.closing
      unfold ModelState.adjust
      rw [if_pos hd]
      exact .inr mem_cons_self
    · left
      unfold ModelState.adjust
      rw [if_neg hd]
  | returned hx hphase hst =>
    exact channels_step_of_modify rfl (fun ch hch => hch.imp id (mem_cons_of_mem _))
      (forall_of_eq_some hst (.inr (.inr mem_cons_self)))
  | @closed ch =>
    refine ⟨.inl, fun ch' hch' => ?_⟩
    by_cases heq : ch' = ch
    · exact .inl (heq ▸ mem_cons_self)
    · exact hch'.imp (mem_cons_of_mem _) (mem_erase_of_ne heq).mpr
  | _ => exact .refl _

/-- **Giving room back is a broadcast.** -/
theorem heard_of_frees (hfrees : s.Frees a act) (hstep : s.step scale act = some t) :
    Broadcast.Heard a s.channels t.channels := by
  intro ch hch
  obtain ⟨st, hst, rfl⟩ := current_eq_some.mp hch
  cases act with
  | stateRelease =>
    obtain ⟨x, hx, rfl⟩ := hfrees
    simp only [step, stateRelease, mem_def.mp hx, hst] at hstep
    split_ifs at hstep with hphase
    cases hstep
    exact .inr mem_cons_self
  | adjust =>
    obtain ⟨x, hx, rfl, d, hd, hneg⟩ := hfrees
    simp only [step, adjust, mem_def.mp hx, mem_def.mp hd, hst] at hstep
    cases hstep
    right
    show _ ∈ (st.adjust d s.nextCh).2.toList ++ s.closing
    unfold ModelState.adjust
    rw [if_pos hneg]
    exact mem_cons_self
  | _ => exact hfrees.elim

/-! ### The parking loop -/

/-- A refused attempt of the admission: the object before it and after it. -/
def Refused (scale : ℤ → ℤ) (s t : State) (adm : Admit) : Prop :=
  ∃ st st', s.states[adm.state]? = some st ∧ t.states[adm.state]? = some st' ∧
    st.tryReserve adm.call.footprint (effectiveBudget scale adm.call.budgetTokens)
      adm.call.maxInflight = (st', false)

/-- **How the admission `j` comes to wait on a channel**: it has waited on it before, it has just
read it, or its attempt has failed. -/
inductive Awaits (scale : ℤ → ℤ) (s t : State) (j : ℕ) (adm' : Admit) (act : Act) (ch : ℕ) :
    Prop where
  | before (hadm : s.admissions[j]? = some adm') (hact : act ≠ .recheck j)
  | read {adm : Admit} (hadm : s.admissions[j]? = some adm) (hstate : adm.state = adm'.state)
      (hphase : adm'.phase = .recheck ch) (hch : s.channels.current adm.state = some ch)
  | failed {adm : Admit} (hact : act = .recheck j) (hadm : s.admissions[j]? = some adm)
      (hcall : adm'.call = adm.call) (hstate : adm.state = adm'.state)
      (hphase : adm.phase = .recheck ch) (hphase' : adm'.phase = .blocked ch)
      (hrefused : Refused scale s t adm)

variable {adm' : Admit}

/-- The admission that the step moves, or another one. -/
theorem of_setAdmission (h : (s.setAdmission i p).admissions[j]? = some adm') :
    (i = j ∧ ∃ adm, s.admissions[j]? = some adm ∧ adm' = { adm with phase := p }) ∨
      (i ≠ j ∧ s.admissions[j]? = some adm') := by
  obtain ⟨x, hx, ⟨hij, rfl⟩ | ⟨hij, rfl⟩⟩ := getElem?_modify_eq_some h
  · exact .inl ⟨hij, x, hx, rfl⟩
  · exact .inr ⟨hij, hx⟩

/-- A step that moves the admission `i` to a phase in which it waits on nothing. -/
theorem Awaits.of_setAdmission (hj : (s.setAdmission i p).admissions[j]? = some adm')
    (hp : p.awaits = none) (hch : adm'.phase.awaits = some ch) (hact : i ≠ j → act ≠ .recheck j) :
    Awaits scale s t j adm' act ch := by
  rcases State.of_setAdmission hj with ⟨-, adm, -, rfl⟩ | ⟨hne, hadm⟩
  · rw [hp] at hch
    cases hch
  · exact .before hadm (hact hne)

/-- An attempt of the admission `i`, which leads to `p` where it fails. -/
theorem tryReserve_cases {adm : Admit} (h : s.tryReserve scale i adm p = some t) :
    (∃ r, t.admissions = (s.setAdmission i (.admitted r)).admissions) ∨
      t.admissions = (s.setAdmission i p).admissions ∧ Refused scale s t adm := by
  unfold tryReserve at h
  split at h
  · next st hst =>
    split at h
    · cases h
      exact .inl ⟨_, rfl⟩
    · next st' htry =>
      cases h
      refine .inr ⟨rfl, st, st', hst, ?_, htry⟩
      show (s.states.modify adm.state fun _ => st')[adm.state]? = some st'
      rw [getElem?_modify_eq, hst]
      rfl
  · cases h

/-- **Inversion of waiting.** -/
theorem step_awaits (h : s.step scale act = some t) (hj : t.admissions[j]? = some adm')
    (hch : adm'.phase.awaits = some ch) :
    Awaits scale s t j adm' act ch := by
  have hmoved := step_moved h
  cases act with
  -- the new admission is at its first attempt
  | stateFor =>
    have hnew : s.admissions[j]? = some adm' ∨ adm'.phase = .first := by
      cases hmoved with
      | lookedUp hmu ha | created hmu ha =>
        rcases getElem?_concat.mp hj with hold | ⟨-, rfl⟩
        · exact .inl hold
        · exact .inr rfl
      | reserved hact | notReserved hact | waited hact => exact absurd hact (by simp)
      | noEffect | sweepMoved => exact .inl hj
    rcases hnew with hold | hfirst
    · exact .before hold (by simp)
    · rw [hfirst] at hch
      cases hch
  | tryFirst =>
    simp only [step, tryFirst] at h
    split at h
    · split at h
      · -- refused for good, or to the head of the loop
        rcases tryReserve_cases h with ⟨r, hadms⟩ | ⟨hadms, -⟩
        · exact .of_setAdmission (hadms ▸ hj) rfl hch (by simp)
        · refine .of_setAdmission (hadms ▸ hj) ?_ hch (by simp)
          split_ifs <;> rfl
      · cases h
    · cases h
  | notifyCh =>
    simp only [step, notifyCh] at h
    split at h
    · next call a lookedUp hadm =>
      obtain ⟨st, hst, rfl⟩ := map_eq_some_iff.mp h
      rcases of_setAdmission hj with ⟨rfl, adm, hadm', rfl⟩ | ⟨hne, hold⟩
      · obtain rfl := mem_unique hadm hadm'
        cases hch
        exact .read hadm rfl rfl (current_eq_some.mpr ⟨st, hst, rfl⟩)
      · exact .before hold (by simp)
    · cases h
  | recheck =>
    simp only [step, recheck] at h
    split at h
    · next adm hadm =>
      split at h
      · next ch' hphase =>
        rcases tryReserve_cases h with ⟨r, hadms⟩ | ⟨hadms, hrefused⟩
        · exact .of_setAdmission (hadms ▸ hj) rfl hch fun hne => by simpa using hne
        · rw [hadms] at hj
          rcases of_setAdmission hj with ⟨rfl, adm', hadm', rfl⟩ | ⟨hne, hold⟩
          · obtain rfl := mem_unique hadm hadm'
            cases hch
            exact .failed rfl hadm rfl rfl hphase rfl hrefused
          · exact .before hold (by simpa using hne)
      · cases h
    · cases h
  | wake =>
    simp only [step, wake] at h
    split at h
    · split_ifs at h
      cases h
      exact .of_setAdmission hj rfl hch (by simp)
    · cases h
  | giveUp =>
    simp only [step, giveUp] at h
    split at h
    · cases h
      exact .of_setAdmission hj rfl hch (by simp)
    · cases h
  -- no other step touches an admission
  | _ =>
    rw [hmoved.admissions_eq (by simp) (by simp)] at hj
    exact .before hj (by simp)

/-! ### The counters -/

structure Counted (s : State) : Prop where
  footprint : ∀ (i : ℕ) (adm : Admit), s.admissions[i]? = some adm → 0 ≤ adm.call.footprint
  sumW : ∀ (a : ℕ) (st : ModelState), s.states[a]? = some st → 0 ≤ st.sumW
  count : ∀ (a : ℕ) (st : ModelState), s.states[a]? = some st → 0 ≤ st.count

def Fuller (st st' : ModelState) : Prop := st.sumW ≤ st'.sumW ∧ st.count ≤ st'.count

/-- What a step that accrues does to the counters of the object at address `b`. -/
theorem Touched.counted_fuller {b : ℕ} {st' : ModelState}
    (h : Touched scale s b st act st') (hb : s.states[b]? = some st) (hs : s.Counted)
    (hC : s.Accrues scale act) :
    (0 ≤ st'.sumW ∧ 0 ≤ st'.count) ∧ (¬s.Frees b act → Fuller st st') := by
  have hsumW := hs.sumW b st hb
  have hcount := hs.count b st hb
  cases h with
  | counted hsum hcnt =>
    rw [Fuller, hsum, hcnt]
    exact ⟨⟨hsumW, hcount⟩, fun _ => ⟨le_rfl, le_rfl⟩⟩
  | @reserved i act adm st' hact hadm hb' htry =>
    have hfoot := hs.footprint i adm hadm
    have hfits : st.sumW + adm.call.footprint < 2 ^ 63 ∧ st.count + 1 < 2 ^ 63 := by
      have hok := congrArg Prod.snd htry
      rcases hact with rfl | rfl
      all_goals exact hC adm hadm st (hb' ▸ hb) hok
    rw [tryReserve_eq_true htry ⟨by omega, hfits.1⟩ ⟨by omega, hfits.2⟩]
    refine ⟨⟨?_, ?_⟩, fun _ => ⟨?_, ?_⟩⟩ <;> dsimp only <;> omega
  | @grew r tokens x d hx hb' hd =>
    have hpos := (Reservation.growBy_eq_some hd).2
    have hfits : st.sumW + d < 2 ^ 63 := hC x hx d hd st (hb' ▸ hb)
    rw [grow_eq ⟨by omega, hfits⟩]
    refine ⟨⟨?_, hcount⟩, fun _ => ⟨?_, le_rfl⟩⟩ <;> dsimp only <;> omega
  | @adjusted r delta x d hx hb' hd =>
    rw [Fuller, (adjust_fields ..).2.2, (adjust_fields ..).2.1]
    refine ⟨⟨ModelState.clamp_nonneg _, hcount⟩, fun hnot => ⟨?_, le_rfl⟩⟩
    -- a correction downwards frees, and no correction is zero
    have hpos : 0 < d := by
      have hne := Reservation.adjustBy_ne_zero hd
      have hnonneg : ¬d < 0 := fun hneg => hnot ⟨x, hx, hb', d, hd, hneg⟩
      omega
    have hfits : st.sumW + d < 2 ^ 63 := hC x hx d hd st (hb' ▸ hb) hpos
    rw [wrap64_of_fits ⟨by omega, hfits⟩, clamp_of_nonneg (by omega)]
    omega
  | @returned r x hx hb' hphase =>
    refine ⟨⟨ModelState.clamp_nonneg _, clamp_nonneg _⟩, fun hnot => ?_⟩
    exact absurd ⟨x, hx, hb'⟩ hnot

theorem Counted.step (hs : s.Counted) (hC : s.Accrues scale act)
    (hstep : s.step scale act = some t) : t.Counted := by
  have hmoved := step_moved hstep
  have hobject : ∀ (a : ℕ) (st : ModelState), t.states[a]? = some st →
      0 ≤ st.sumW ∧ 0 ≤ st.count := by
    intro a st ha
    rcases hmoved.touched ha with ⟨st₀, hst₀, -, htouched⟩ | ⟨-, ⟨hsum, hcount⟩, -⟩
    · exact (htouched.counted_fuller hst₀ hs hC).1
    · rw [hsum, hcount]
      exact ⟨le_rfl, le_rfl⟩
  refine ⟨fun i adm hadm => ?_, fun a st ha => (hobject a st ha).1,
    fun a st ha => (hobject a st ha).2⟩
  rcases step_admission hstep hadm with ⟨adm₀, hadm₀, hcall, -⟩ | ⟨hact, -⟩
  · rw [hcall]
    exact hs.footprint i adm₀ hadm₀
  · rw [hact] at hC
    exact hC

/-- The object at address `a` is at least as full as `st`. -/
def Holds (a : ℕ) (st : ModelState) (s : State) : Prop :=
  a < s.states.length ∧ ∀ st', s.states[a]? = some st' → Fuller st st'

/-- **Only a release or a correction downwards makes room.** -/
theorem Holds.step (h : Holds a st s) (hs : s.Counted) (hC : s.Accrues scale act)
    (hnot : ¬s.Frees a act) (hstep : s.step scale act = some t) : Holds a st t := by
  have hmoved := step_moved hstep
  refine ⟨lt_of_lt_of_le h.1 hmoved.length_le, fun st' hst' => ?_⟩
  rcases hmoved.touched hst' with ⟨st₀, hst₀, -, htouched⟩ | ⟨hnew, -⟩
  · have hfuller := (htouched.counted_fuller hst₀ hs hC).2 hnot
    have hbefore := h.2 st₀ hst₀
    exact ⟨hbefore.1.trans hfuller.1, hbefore.2.trans hfuller.2⟩
  · exact absurd h.1 (hnew ▸ lt_irrefl _)

end State

theorem ModelState.not_hasRoom_of_refused
    (h : st.tryReserve weight budget maxInflight = (st', false)) (hsumW : 0 ≤ st.sumW)
    (hweight : 0 ≤ weight) (hcount : 0 ≤ st.count) : ¬st'.HasRoom weight budget maxInflight := by
  rintro ⟨hbudget, hinflight⟩
  rw [tryReserve_eq_false h] at hbudget hinflight
  have hsum := wrap64_le (x := st.sumW + weight) (by omega)
  have hone := wrap64_le (x := st.count + 1) (by omega)
  unfold tryReserve at h
  dsimp only at h hbudget hinflight
  split_ifs at h with hover hfull
  · have := hbudget hover.1
    omega
  · have := hinflight hfull.1
    omega
  · cases h

theorem ModelState.HasRoom.of_fuller (h : st'.HasRoom weight budget maxInflight)
    (hle : State.Fuller st st') :
    st.HasRoom weight budget maxInflight :=
  ⟨fun hpos => (Int.add_le_add_right hle.1 _).trans (h.1 hpos),
    fun hpos => (Int.add_le_add_right hle.2 _).trans (h.2 hpos)⟩

/-! ### Runs -/

section Runs

variable {scale : ℤ → ℤ} {s t : State} {as : List Act} {i ch : ℕ} {adm : Admit} {s₀ u : State}

/-- Every channel that an admission waits on is current or retired. -/
def State.AllAwaited (s : State) : Prop :=
  ∀ (i : ℕ) (adm : Admit) (ch : ℕ), s.admissions[i]? = some adm → adm.phase.awaits = some ch →
    s.channels.Awaited adm.state ch

theorem State.AllAwaited.step (h : s.AllAwaited) {act : Act}
    (hstep : s.step scale act = some t) : t.AllAwaited := by
  intro i adm ch hadm hch
  have hchannels := channels_step (step_moved hstep)
  cases step_awaits hstep hadm hch with
  | before hadm₀ => exact (h i adm ch hadm₀ hch).step hchannels
  | read hadm₀ hstate hphase hcurrent =>
    rw [hstate] at hcurrent
    exact Broadcast.Awaited.step (.inl hcurrent) hchannels
  | @failed adm₀ hact hadm₀ hcall hstate hphase hphase' hrefused =>
    rw [← hstate]
    refine (h i adm₀ ch hadm₀ ?_).step hchannels
    rw [hphase]
    rfl

theorem State.allAwaited_of_run (hstart : s.admissions = [])
    (hrun : (Admission.occupancy scale).run s as = some t) : t.AllAwaited := by
  refine run_preserves (I := State.AllAwaited)
    (fun s act t h hstep => State.AllAwaited.step h hstep) ?_ hrun
  intro i adm ch hadm
  rw [hstart] at hadm
  cases hadm

/-- The failed attempt after which a request has parked, and the run before it and since. -/
structure Attempted (scale : ℤ → ℤ) (i : ℕ) (adm : Admit) (s : State) (as : List Act)
    (t : State) (before since : List Act) (s₀ u : State) : Prop where
  split : as = before ++ .recheck i :: since
  reached : (occupancy scale).run s before = some s₀
  attempt : s₀.step scale (.recheck i) = some u
  rest : (occupancy scale).run u since = some t
  last : .recheck i ∉ since
  parked : u.admissions[i]? = some adm
  refused : State.Refused scale s₀ u adm

/-- **A parked request has failed once**, and has been parked ever since. -/
theorem exists_attempted (hstart : s.admissions = [])
    (hrun : (occupancy scale).run s as = some t) (hadm : t.admissions[i]? = some adm)
    (hphase : adm.phase = .blocked ch) :
    ∃ before since s₀ u, Attempted scale i adm s as t before since s₀ u := by
  -- the induction is on the run, from its end
  induction as using reverseRecOn generalizing t with
  | nil =>
    cases hrun
    rw [hstart] at hadm
    cases hadm
  | append_singleton as act ih =>
    obtain ⟨t', hrun', hstep⟩ := run_concat_eq_some.mp hrun
    have hch : adm.phase.awaits = some ch := by
      rw [hphase]
      rfl
    cases step_awaits hstep hadm hch with
    | before hadm' hact =>
      obtain ⟨before, since, s₀, u, h⟩ := ih hrun' hadm'
      refine ⟨before, since ++ [act], s₀, u, ?_, h.reached, h.attempt,
        run_concat_eq_some.mpr ⟨t', h.rest, hstep⟩, ?_, h.parked, h.refused⟩
      · rw [h.split, append_assoc, cons_append]
      · rw [mem_append, mem_singleton]
        exact fun hmem => hmem.elim h.last fun heq => hact heq.symm
    | read hadm' hstate hphase' =>
      rw [hphase] at hphase'
      cases hphase'
    | @failed adm₀ hact hadm' hcall hstate hphase₀ hphase' hrefused =>
      subst hact
      refine ⟨as, [], t', t, rfl, hrun', hstep, rfl, not_mem_nil, hadm, ?_⟩
      unfold State.Refused at hrefused ⊢
      rw [hcall, ← hstate]
      exact hrefused

variable {before since : List Act}

theorem Attempted.lastAttempt (h : Attempted scale i adm s as t before since s₀ u)
    (hphase : adm.phase = .blocked ch) :
    LastAttempt scale i s as u since where
  attempt := ⟨before, h.split, run_concat_eq_some.mpr ⟨s₀, h.reached, h.attempt⟩⟩
  failed := ⟨adm, ch, h.parked, hphase⟩
  last := h.last

/-- **A parked request is notified when room is given back**, whatever the footprints are. -/
theorem Attempted.heard (hstart : s.admissions = [])
    (h : Attempted scale i adm s as t before since s₀ u)
    (hphase : adm.phase = .blocked ch) :
    (occupancy scale).Along (fun s act => ¬s.Frees adm.state act) u since ∨
      t.Notified ch := by
  have hu : (occupancy scale).run s (before ++ [.recheck i]) = some u :=
    run_concat_eq_some.mpr ⟨s₀, h.reached, h.attempt⟩
  have hawaited := allAwaited_of_run hstart hu i adm ch h.parked (by rw [hphase]; rfl)
  exact Broadcast.unheard_or_retired channels
    (fun s a t hstep => channels_step (step_moved hstep))
    (fun s a t hfrees hstep => heard_of_frees hfrees hstep) since u t hawaited h.rest

/-- **Where no room was given back, a parked request does not fit.** -/
theorem Attempted.not_wouldFit (h : Attempted scale i adm s as t before since s₀ u)
    (hs₀ : s₀.Counted) (hC₀ : s₀.Accrues scale (.recheck i))
    (hC : (occupancy scale).Along (State.Accrues scale) u since)
    (hnot : (occupancy scale).Along (fun s act => ¬s.Frees adm.state act) u since) :
    ¬t.WouldFit scale adm := by
  obtain ⟨st, st', hst, hst', htry⟩ := h.refused
  have hu : u.Counted := hs₀.step hC₀ h.attempt
  have hstart : State.Holds adm.state st' u := by
    refine ⟨(List.getElem?_eq_some_iff.mp hst').1, fun st'' hst'' => ?_⟩
    rw [mem_unique hst' hst'']
    exact ⟨le_rfl, le_rfl⟩
  -- since the attempt the object has not become emptier
  have hend : t.Counted ∧ State.Holds adm.state st' t :=
    run_induction (I := fun s => s.Counted ∧ State.Holds adm.state st' s)
      (fun s act t hs hC hstep =>
        ⟨hs.1.step hC.1 hstep, hs.2.step hs.1 hC.1 hC.2 hstep⟩)
      since u t ⟨hu, hstart⟩ (along_and.mpr ⟨hC, hnot⟩) h.rest
  rintro ⟨st'', hst'', hroom⟩
  exact not_hasRoom_of_refused htry (hs₀.sumW _ _ hst) (hu.footprint _ _ h.parked)
    (hs₀.count _ _ hst) (hroom.of_fuller (hend.2.2 st'' hst''))

theorem State.counted_of_run (hstart : s.admissions = []) (hempty : s.states = [])
    (hC : (Admission.occupancy scale).Along (State.Accrues scale) s as)
    (hrun : (Admission.occupancy scale).run s as = some t) : t.Counted := by
  refine run_induction (I := State.Counted)
    (fun s act t h hC hstep => State.Counted.step h hC hstep) as s t ?_ hC hrun
  refine ⟨fun i adm hadm => ?_, fun a st hst => ?_, fun a st hst => ?_⟩
  · rw [hstart] at hadm
    cases hadm
  all_goals
    rw [hempty] at hst
    cases hst

end Runs

/-- **No wake-up is lost** in a run in which what is added is not negative and does not overflow. -/
theorem noLostWakeup_of_accrues (scale : ℤ → ℤ) (now : ℤ) {as : List Act} {t : State}
    (hrun : (occupancy scale).run (initial now) as = some t)
    (hC : (occupancy scale).Along (State.Accrues scale) (initial now) as) :
    NoLostWakeup scale (initial now) as t := by
  intro i adm ch hadm hphase
  obtain ⟨before, since, s₀, u, h⟩ := exists_attempted rfl hrun hadm hphase
  have hheard := h.heard rfl hphase
  refine ⟨⟨u, since, h.lastAttempt hphase, hheard⟩, fun hfit => hheard.resolve_left fun hnot => ?_⟩
  rw [h.split, along_append h.reached, along_cons h.attempt] at hC
  have hs₀ := counted_of_run rfl rfl hC.1 h.reached
  exact h.not_wouldFit hs₀ hC.2.1 hC.2.2 hnot hfit

/-- A request of 70 tokens parks beside one of 60, which is then corrected down by 30. -/
def correctedRun : List Act :=
  [.stateFor ⟨"m", 60, false, 100, 2, 0⟩, .tryFirst 0, .stateFor ⟨"m", 70, false, 100, 2, 5⟩,
    .tryFirst 1, .notifyCh 1, .recheck 1, .adjust 0 (-30)]

/-- The parked request would fit, and the correction will close its channel. -/
theorem noLostWakeup_correctedRun :
    ∃ t adm, (occupancy id).run (initial 0) correctedRun = some t ∧
      (occupancy id).Along (State.Accrues id) (initial 0) correctedRun ∧
      t.admissions[1]? = some adm ∧ adm.phase = .blocked 0 ∧ t.WouldFit id adm ∧ t.Notified 0 := by
  have hrun : ∃ t ∈ (occupancy id).run (initial 0) correctedRun,
      t.admissions[1]? = some ⟨⟨"m", 70, false, 100, 2, 5⟩, 0, 0, .blocked 0⟩ ∧
      t.states[0]? = some ⟨"m", 30, 1, 100, 2, 1, 0⟩ := by decide +kernel
  obtain ⟨t, ht, hadm, hst⟩ := hrun
  have halong : (occupancy id).Along (State.Accrues id) (initial 0) correctedRun := by
    decide +kernel
  have hfit : t.WouldFit id ⟨⟨"m", 70, false, 100, 2, 5⟩, 0, 0, .blocked 0⟩ :=
    ⟨_, hst, by decide +kernel, by decide +kernel⟩
  have hlost := noLostWakeup_of_accrues id 0 ht halong
  exact ⟨t, _, ht, halong, hadm, rfl, hfit, (hlost 1 _ 0 hadm rfl).2 hfit⟩

/-- A request of 5 tokens parks beside one of 10, and then comes one with
`max_tokens` `2^63 - 1`, whose footprint has wrapped around. -/
def wrappedRun : List Act :=
  [.stateFor ⟨"m", 10, false, 10, 0, 5⟩, .tryFirst 0, .stateFor ⟨"m", 5, false, 10, 0, 5⟩,
    .tryFirst 1, .notifyCh 1, .recheck 1,
    .stateFor ⟨"m", wrap64 (4 + (2 ^ 63 - 1)), false, 10, 0, 5⟩, .tryFirst 2]

/-- The last request is admitted and takes the sum below zero. The parked one would fit, and
nobody notifies it. -/
theorem parked_beside_room : ∃ t, (occupancy id).run (initial 0) wrappedRun = some t ∧
      ¬NoLostWakeup id (initial 0) wrappedRun t := by
  refine exists_mem_imp
    (fun t => t.admissions[1]? = some ⟨⟨"m", 5, false, 10, 0, 5⟩, 0, 0, .blocked 0⟩ ∧
      t.states[0]? = some ⟨"m", 10 + wrap64 (4 + (2 ^ 63 - 1)), 2, 10, 0, 0, 0⟩ ∧
      t.closed = [] ∧ t.closing = []) (by decide +kernel) ?_
  rintro t - ⟨hadm, hst, hclosed, hclosing⟩ hlost
  have hfit : t.WouldFit id ⟨⟨"m", 5, false, 10, 0, 5⟩, 0, 0, .blocked 0⟩ :=
    ⟨_, hst, by decide +kernel, by decide +kernel⟩
  rcases (hlost 1 _ 0 hadm rfl).2 hfit with hmem | hmem
  · rw [hclosed] at hmem
    cases hmem
  · rw [hclosing] at hmem
    cases hmem

end HivenetRouter.Admission
