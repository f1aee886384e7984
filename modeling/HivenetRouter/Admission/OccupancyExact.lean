import Mathlib.Algebra.Order.BigOperators.Group.List
import HivenetRouter.Admission.Occupancy

/-!
# Occupancy is the sum of the live reservations

In every state reached, `Occupancy(model)` is the total weight and the number of the live
reservations of the model (`OccupancyExact.occupancy`), no clamp at zero ever acts
(`OccupancyExact.clamps`), and a released reservation is inert: `Release`, `Grow` and
`Adjust` on it change nothing, now or later (`OccupancyExact.inert`).

The runs are those whose steps are `State.Sound` for some bound `D`: footprints are not
negative, no sum leaves the 64-bit range, a `tryReserve` that succeeds comes at most `D`
after the lookup of its admission, and the idle TTL of every sweep is longer than `D`.

The counters of a state object are exact by bookkeeping (`Inv.sums`): each step that
changes a counter changes one reservation by the same amount. What needs an argument is
that the reservations *of a model* are those on the object that the map holds for it. An
object that a sweep has removed, or has found idle and is about to remove, is **doomed**
(`State.Doomed`); the invariant is that a doomed object has nothing in flight and was
looked up more than `D` ago (`Inv.doomed`). An admission that still points to it is then
too old to reserve on it.
-/

namespace HivenetRouter.Admission

open Accounting Finmap List Option ModelState Or Reservation State

/-! ### The statement -/

def State.liveOf (s : State) (model : String) : List Reservation :=
  s.reservations.filter fun x => x.live && (s.states[x.state]?.map (·.model) == some model)

/-- The conditions on a step: non-negative footprints, no overflow, and the two times. -/
def State.Sound (scale : ℤ → ℤ) (D : ℤ) (s : State) : Act → Prop
  | .stateFor call => 0 ≤ call.footprint
  | .tryFirst i | .recheck i => ∀ adm ∈ s.admissions[i]?, ∀ st ∈ s.states[adm.state]?,
      (st.sumW + adm.call.footprint < 2 ^ 63 ∧ st.count + 1 < 2 ^ 63) ∧
      ((st.tryReserve adm.call.footprint (effectiveBudget scale adm.call.budgetTokens)
        adm.call.maxInflight).2 = true → s.now - adm.lookedUp ≤ D)
  | .grow r tokens => ∀ x ∈ s.reservations[r]?, ∀ d ∈ x.growBy tokens,
      ∀ st ∈ s.states[x.state]?, st.sumW + d < 2 ^ 63
  | .adjust r delta => ∀ x ∈ s.reservations[r]?, ∀ d ∈ x.adjustBy delta,
      ∀ st ∈ s.states[x.state]?, st.sumW + d < 2 ^ 63
  | .sweepCutoff ttl => D < ttl
  | _ => True

instance (scale : ℤ → ℤ) (D : ℤ) (s : State) (act : Act) :
    Decidable (s.Sound scale D act) := by
  unfold State.Sound
  split <;> infer_instance

/-- The conditions on a step: non-negative footprints and no overflow. -/
def State.Tidy (s : State) : Act → Prop
  | .stateFor call => 0 ≤ call.footprint
  | .tryFirst i | .recheck i => ∀ adm ∈ s.admissions[i]?, ∀ st ∈ s.states[adm.state]?,
      st.sumW + adm.call.footprint < 2 ^ 63 ∧ st.count + 1 < 2 ^ 63
  | .grow r tokens => ∀ x ∈ s.reservations[r]?, ∀ d ∈ x.growBy tokens,
      ∀ st ∈ s.states[x.state]?, st.sumW + d < 2 ^ 63
  | .adjust r delta => ∀ x ∈ s.reservations[r]?, ∀ d ∈ x.adjustBy delta,
      ∀ st ∈ s.states[x.state]?, st.sumW + d < 2 ^ 63
  | _ => True

instance (s : State) (act : Act) : Decidable (s.Tidy act) := by
  unfold State.Tidy
  split <;> infer_instance

def State.OnModel (s : State) (model : String) (x : Reservation) : Prop :=
  s.states[x.state]?.map (·.model) = some model

instance (s : State) (model : String) (x : Reservation) : Decidable (s.OnModel model x) :=
  inferInstanceAs (Decidable (_ = _))

/-- Every call for `model` brings the effective budget `B` and the in-flight bound `N`, and
the reservations of `model` never grow. -/
def State.Fixed (scale : ℤ → ℤ) (model : String) (B N : ℤ) (s : State) : Act → Prop
  | .stateFor call => call.model = model →
      effectiveBudget scale call.budgetTokens = B ∧ call.maxInflight = N
  | .grow r _ => ∀ x ∈ s.reservations[r]?, ¬ s.OnModel model x
  | .adjust r delta => ∀ x ∈ s.reservations[r]?, s.OnModel model x → delta ≤ 0
  | _ => True

instance (scale : ℤ → ℤ) (model : String) (B N : ℤ) (s : State) (act : Act) :
    Decidable (s.Fixed scale model B N act) := by
  unfold State.Fixed
  split <;> infer_instance

/-- What a step adds is not negative and does not overflow. -/
def State.Accrues (scale : ℤ → ℤ) (s : State) : Act → Prop
  | .stateFor call => 0 ≤ call.footprint
  | .tryFirst i | .recheck i => ∀ adm ∈ s.admissions[i]?, ∀ st ∈ s.states[adm.state]?,
      (st.tryReserve adm.call.footprint (effectiveBudget scale adm.call.budgetTokens)
        adm.call.maxInflight).2 = true →
      st.sumW + adm.call.footprint < 2 ^ 63 ∧ st.count + 1 < 2 ^ 63
  | .grow r tokens => ∀ x ∈ s.reservations[r]?, ∀ d ∈ x.growBy tokens,
      ∀ st ∈ s.states[x.state]?, st.sumW + d < 2 ^ 63
  | .adjust r delta => ∀ x ∈ s.reservations[r]?, ∀ d ∈ x.adjustBy delta,
      ∀ st ∈ s.states[x.state]?, 0 < d → st.sumW + d < 2 ^ 63
  | _ => True

instance (scale : ℤ → ℤ) (s : State) (act : Act) : Decidable (s.Accrues scale act) := by
  unfold State.Accrues
  split <;> infer_instance

/-- The accounting property of one state of a run. -/
structure OccupancyExact (scale : ℤ → ℤ) (s : State) : Prop where
  occupancy : ∀ model, s.occupancy model =
    (((s.liveOf model).map (·.weight)).sum, ((s.liveOf model).length : ℤ))
  /-- Where a reservation is about to be returned, or may be adjusted, the counters stay
  at or above zero without the clamp. -/
  clamps : ∀ (r : ℕ) (x : Reservation) (st : ModelState),
    s.reservations[r]? = some x → s.states[x.state]? = some st →
    (x.phase = .releasing → 0 ≤ st.sumW - x.weight ∧ 0 ≤ st.count - 1) ∧
    ∀ delta d, x.adjustBy delta = some d → 0 ≤ st.sumW + d
  /-- After a `Release`, and whatever happens then, further calls have no effect. -/
  inert : ∀ (r : ℕ) (x : Reservation), s.reservations[r]? = some x → x.released = true →
    ∀ as t, (Admission.occupancy scale).run s as = some t →
      t.step scale (.release r) = some t ∧
      (∀ tokens, t.step scale (.grow r tokens) = some t) ∧
      ∀ delta, t.step scale (.adjust r delta) = some t

/-! ### Shares -/

/-- The weight that a reservation has on the object at address `a`. -/
def Reservation.weightOn (a : ℕ) (x : Reservation) : ℤ :=
  if x.live ∧ x.state = a then x.weight else 0

/-- Whether a reservation counts on the object at address `a`. -/
def Reservation.countOn (a : ℕ) (x : Reservation) : ℤ := if x.live ∧ x.state = a then 1 else 0

/-- The live weight on the object at address `a`. -/
def liveWeight (l : List Reservation) (a : ℕ) : ℤ := (l.map (·.weightOn a)).sum

/-- The number of live reservations on the object at address `a`. -/
def liveCount (l : List Reservation) (a : ℕ) : ℤ := (l.map (·.countOn a)).sum

section Shares

variable {l : List Reservation} {r : ℕ} {x : Reservation} {a : ℕ}

theorem liveWeight_append (l : List Reservation) (x : Reservation) (a : ℕ) :
    liveWeight (l ++ [x]) a = liveWeight l a + x.weightOn a := by
  simp [liveWeight]

theorem liveCount_append (l : List Reservation) (x : Reservation) (a : ℕ) :
    liveCount (l ++ [x]) a = liveCount l a + x.countOn a := by
  simp [liveCount]

theorem liveWeight_modify (hx : l[r]? = some x) (u : Reservation → Reservation) (a : ℕ) :
    liveWeight (l.modify r u) a + x.weightOn a = liveWeight l a + (u x).weightOn a :=
  total_modify (·.weightOn a) u l r hx

theorem liveCount_modify (hx : l[r]? = some x) (u : Reservation → Reservation) (a : ℕ) :
    liveCount (l.modify r u) a + x.countOn a = liveCount l a + (u x).countOn a :=
  total_modify (·.countOn a) u l r hx

theorem Reservation.weightOn_of_live (hlive : x.live = true) :
    x.weightOn x.state = x.weight ∧ x.countOn x.state = 1 := by
  simp [weightOn, countOn, hlive]

theorem Reservation.weightOn_of_ne (hne : x.state ≠ a) : x.weightOn a = 0 ∧ x.countOn a = 0 := by
  simp [weightOn, countOn, hne]

variable (hpos : ∀ x ∈ l, 0 ≤ x.weight)

include hpos

/-- With no negative weight, a live reservation is within the totals of its object. -/
theorem le_live (hx : l[r]? = some x) (hlive : x.live = true) :
    x.weight ≤ liveWeight l x.state ∧ 1 ≤ liveCount l x.state := by
  have hmem : x ∈ l := mem_of_getElem? hx
  obtain ⟨hw, hc⟩ := weightOn_of_live hlive
  constructor
  · rw [← hw]
    refine single_le_sum (fun y hy => ?_) _ (mem_map_of_mem hmem)
    obtain ⟨z, hz, rfl⟩ := mem_map.mp hy
    unfold weightOn
    split
    · exact hpos z hz
    · exact le_rfl
  · rw [← hc]
    refine single_le_sum (fun y hy => ?_) _ (mem_map_of_mem hmem)
    obtain ⟨z, -, rfl⟩ := mem_map.mp hy
    unfold countOn
    split <;> decide

theorem live_nonneg (a : ℕ) : 0 ≤ liveWeight l a ∧ 0 ≤ liveCount l a := by
  constructor
  · refine sum_nonneg fun y hy => ?_
    obtain ⟨z, hz, rfl⟩ := mem_map.mp hy
    unfold weightOn
    split
    · exact hpos z hz
    · exact le_rfl
  · refine sum_nonneg fun y hy => ?_
    obtain ⟨z, -, rfl⟩ := mem_map.mp hy
    unfold countOn
    split <;> decide

end Shares

/-! ### Entries of a list -/

variable {α : Type*} {l : List α} {x : α} {a : ℕ} {u : α → α}

/-- An entry of a list extended at its end is an old one or the new one. -/
theorem getElem?_concat {u : α} {b : ℕ} :
    (l ++ [x])[b]? = some u ↔ l[b]? = some u ∨ b = l.length ∧ u = x := by
  rcases lt_trichotomy b l.length with hlt | rfl | hgt
  · rw [getElem?_append_left hlt]
    exact ⟨Or.inl, fun h => h.resolve_right fun he => absurd he.1 (Nat.ne_of_lt hlt)⟩
  · rw [getElem?_concat_length, getElem?_eq_none le_rfl, some.injEq]
    exact ⟨fun h => inr ⟨rfl, h.symm⟩, fun h => (h.resolve_left (by simp)).2.symm⟩
  · have hlen : (l ++ [x]).length ≤ b := by
      rw [length_append, length_singleton]
      omega
    rw [getElem?_eq_none hlen, getElem?_eq_none hgt.le]
    constructor
    · intro h
      cases h
    · rintro (h | h)
      · cases h
      · exact absurd h.1 (Nat.ne_of_gt hgt)

theorem modify_eq_const (hx : l[a]? = some x) (f : α → α) :
    l.modify a f = l.modify a fun _ => f x := by
  refine ext_getElem? fun b => ?_
  by_cases hab : a = b
  · subst hab
    simp [hx]
  · simp [hab]

theorem getElem?_modify_eq_some {b : ℕ} {y : α} (h : (l.modify a u)[b]? = some y) :
    ∃ x, l[b]? = some x ∧ (a = b ∧ y = u x ∨ a ≠ b ∧ y = x) := by
  rw [getElem?_modify] at h
  obtain ⟨x, hx, hy⟩ := map_eq_some_iff.mp h
  refine ⟨x, hx, ?_⟩
  by_cases hab : a = b
  · rw [if_pos hab] at hy
    exact inl ⟨hab, hy.symm⟩
  · rw [if_neg hab] at hy
    exact inr ⟨hab, hy.symm⟩

theorem mem_modify {y : α} (hx : l[a]? = some x) (h : y ∈ l.modify a u) : y ∈ l ∨ y = u x := by
  obtain ⟨b, hb⟩ := mem_iff_getElem?.mp h
  obtain ⟨z, hz, ⟨rfl, rfl⟩ | ⟨-, rfl⟩⟩ := getElem?_modify_eq_some hb
  · right
    rw [mem_unique hx hz]
  · exact inl (mem_of_getElem? hz)

/-! ### The invariant -/

/-- Nothing in flight, and not looked up for longer than `D`. -/
def Idle (D now : ℤ) (st : ModelState) : Prop := st.lastActive + D < now ∧ st.count = 0

/-- The object at address `a` is no longer the one the map holds for its model, or a sweep
has found it idle and is about to remove it. -/
def State.Doomed (s : State) (a : ℕ) (st : ModelState) : Prop :=
  s.models.lookup st.model ≠ some a ∨
    ∃ w ∈ s.sweeps, ∃ rest, w.phase = .scanning (st.model :: rest) true

/-- **The accounting invariant.** It is about every object, also one that a sweep has dropped: such
an object is idle, since its last lookup is more than `D` ago and no admission is pending on it. -/
structure Inv (D : ℤ) (s : State) : Prop where
  mapped : ∀ (m : String) (a : ℕ), s.models.lookup m = some a →
    ∃ st, s.states[a]? = some st ∧ st.model = m
  /-- The counters of every object, in the map or not, are exact. -/
  sums : ∀ (a : ℕ) (st : ModelState), s.states[a]? = some st →
    st.sumW = liveWeight s.reservations a ∧ st.count = liveCount s.reservations a
  fits : ∀ (a : ℕ) (st : ModelState), s.states[a]? = some st → st.sumW < 2 ^ 63 ∧ st.count < 2 ^ 63
  held : ∀ x ∈ s.reservations, 0 ≤ x.weight ∧ x.state < s.states.length
  pending : ∀ adm ∈ s.admissions, 0 ≤ adm.call.footprint ∧
    ∃ st, s.states[adm.state]? = some st ∧ adm.lookedUp ≤ st.lastActive
  doomed : ∀ (a : ℕ) (st : ModelState), s.states[a]? = some st → s.Doomed a st → Idle D s.now st
  cutoffs : ∀ w ∈ s.sweeps, w.cutoff + D < s.now
  clock : ∀ (a : ℕ) (st : ModelState), s.states[a]? = some st → st.lastActive ≤ s.now

namespace Inv

variable {D : ℤ} {s t : State} {st : ModelState} {r : ℕ} {x : Reservation} {i : ℕ} {adm : Admit}

theorem initial (now : ℤ) : Inv D (initial now) where
  mapped m a h := by simp [State.initial] at h
  sums a st h := by simp [State.initial] at h
  fits a st h := by simp [State.initial] at h
  held x h := by simp [State.initial] at h
  pending adm h := by simp [State.initial] at h
  doomed a st h := by simp [State.initial] at h
  cutoffs w h := by simp [State.initial] at h
  clock a st h := by simp [State.initial] at h

theorem nonneg (h : Inv D s) (hst : s.states[a]? = some st) : 0 ≤ st.sumW ∧ 0 ≤ st.count := by
  rw [(h.sums a st hst).1, (h.sums a st hst).2]
  exact live_nonneg (fun x hx => (h.held x hx).1) a

theorem le_of_live (h : Inv D s) (hx : s.reservations[r]? = some x)
    (hst : s.states[x.state]? = some st) (hlive : x.live = true) :
    x.weight ≤ st.sumW ∧ 1 ≤ st.count := by
  rw [(h.sums _ st hst).1, (h.sums _ st hst).2]
  exact le_live (fun y hy => (h.held y hy).1) hx hlive

/-- An adjustment acts on a live reservation and leaves it at or above zero. -/
theorem adjust_live (h : Inv D s) {delta d : ℤ} (hx : s.reservations[r]? = some x)
    (hst : s.states[x.state]? = some st) (hd : x.adjustBy delta = some d) :
    x.live = true ∧ 0 ≤ x.weight + d := by
  have hheld : x.released = false := by
    by_contra hrel
    rw [adjustBy_of_released (Bool.not_eq_false _ ▸ hrel)] at hd
    cases hd
  have hlive := live_of_not_released hheld
  have hle := (h.le_of_live hx hst hlive).1
  have hfits := (h.fits _ st hst).1
  have hpos := (h.held x (mem_of_getElem? hx)).1
  exact ⟨hlive, (adjustBy_eq_some hpos (by omega) hd).2⟩

variable {st' : ModelState} {budget : ℤ} {call : AdmitCall} {l : List Reservation}

/-- **One object is written**, together with the reservations. The sweeps, the map and the
clock stay; an admission may change its phase. -/
theorem write (h : Inv D s) (hst : s.states[a]? = some st)
    (hstates : t.states = s.states.modify a fun _ => st') (hmodel : st'.model = st.model)
    (hactive : st.lastActive ≤ st'.lastActive ∧ st'.lastActive ≤ s.now) (hnow : t.now = s.now)
    (hmodels : t.models = s.models) (hsweeps : t.sweeps = s.sweeps)
    (hadm : ∀ adm ∈ t.admissions, ∃ adm' ∈ s.admissions, adm.call = adm'.call ∧
      adm.state = adm'.state ∧ adm.lookedUp = adm'.lookedUp)
    (hsum : st'.sumW = liveWeight t.reservations a ∧ st'.count = liveCount t.reservations a)
    (hother : ∀ b, b ≠ a → liveWeight t.reservations b = liveWeight s.reservations b ∧
      liveCount t.reservations b = liveCount s.reservations b)
    (hfits : st'.sumW < 2 ^ 63 ∧ st'.count < 2 ^ 63)
    (hheld : ∀ x ∈ t.reservations, 0 ≤ x.weight ∧ x.state < s.states.length)
    (hdoomed : s.Doomed a st → Idle D s.now st') : Inv D t := by
  -- the heap after the step: `st'` at `a`, and the old objects elsewhere
  have hself : t.states[a]? = some st' := by
    rw [hstates, getElem?_modify_eq, hst]
    rfl
  have hne : ∀ b, b ≠ a → t.states[b]? = s.states[b]? := by
    intro b hb
    rw [hstates, getElem?_modify_ne _ _ (Ne.symm hb)]
  have hcases : ∀ {b u}, t.states[b]? = some u →
      b = a ∧ u = st' ∨ b ≠ a ∧ s.states[b]? = some u := by
    intro b u hu
    by_cases hba : b = a
    · subst hba
      exact .inl ⟨rfl, mem_unique hu hself⟩
    · exact .inr ⟨hba, (hne b hba).symm.trans hu⟩
  have hlen : t.states.length = s.states.length := by
    rw [hstates, length_modify]
  refine ⟨fun m b hb => ?_, fun b u hu => ?_, fun b u hu => ?_, fun x hx => ?_,
    fun adm hadm' => ?_, fun b u hu hdoom => ?_, fun w hw => ?_, fun b u hu => ?_⟩
  · rw [hmodels] at hb
    -- the map is the old one, and the object it points to keeps its model
    obtain ⟨u, hu, hum⟩ := h.mapped m b hb
    by_cases hba : b = a
    · subst hba
      obtain rfl : st = u := mem_unique hst hu
      exact ⟨st', hself, hmodel.trans hum⟩
    · exact ⟨u, (hne b hba).trans hu, hum⟩
  · rcases hcases hu with ⟨rfl, rfl⟩ | ⟨hba, hu⟩
    · exact hsum
    · rw [(hother b hba).1, (hother b hba).2]
      exact h.sums b u hu
  · rcases hcases hu with ⟨rfl, rfl⟩ | ⟨-, hu⟩
    · exact hfits
    · exact h.fits b u hu
  · rw [hlen]
    exact hheld x hx
  · -- an admission still points to an object, which was not looked up earlier than before
    obtain ⟨adm', hmem, hcall, hstate, hlook⟩ := hadm adm hadm'
    obtain ⟨hfoot, u, hu, hle⟩ := h.pending adm' hmem
    rw [hcall, hstate, hlook]
    refine ⟨hfoot, ?_⟩
    by_cases hba : adm'.state = a
    · rw [hba] at hu ⊢
      obtain rfl : st = u := mem_unique hst hu
      exact ⟨st', hself, hle.trans hactive.1⟩
    · exact ⟨u, (hne _ hba).trans hu, hle⟩
  · rw [hnow]
    -- the map and the sweeps are the old ones, so the object was doomed before
    unfold State.Doomed at hdoom
    rw [hmodels, hsweeps] at hdoom
    rcases hcases hu with ⟨rfl, rfl⟩ | ⟨-, hu⟩
    · rw [hmodel] at hdoom
      exact hdoomed hdoom
    · exact h.doomed b u hu hdoom
  · rw [hnow]
    exact h.cutoffs w (hsweeps ▸ hw)
  · rw [hnow]
    rcases hcases hu with ⟨rfl, rfl⟩ | ⟨-, hu⟩
    · exact hactive.2
    · exact h.clock b u hu

/-- A phase change keeps what an admission was called with and what it looked up. -/
theorem mem_setAdmission {p : AdmitPhase} (h : adm ∈ (s.setAdmission i p).admissions) :
    ∃ adm' ∈ s.admissions,
      adm.call = adm'.call ∧ adm.state = adm'.state ∧ adm.lookedUp = adm'.lookedUp := by
  obtain ⟨j, hj⟩ := mem_iff_getElem?.mp h
  obtain ⟨adm', hadm', ⟨-, rfl⟩ | ⟨-, rfl⟩⟩ := getElem?_modify_eq_some hj
  · exact ⟨adm', mem_of_getElem? hadm', rfl, rfl, rfl⟩
  · exact ⟨adm, mem_of_getElem? hadm', rfl, rfl, rfl⟩

/-! #### Admissions -/

/-- A reservation is made: the admission is recent, so the object is not doomed, and the
counters take what the reservation holds. -/
theorem reserve (h : Inv D s) (hadm : s.admissions[i]? = some adm)
    (hst : s.states[adm.state]? = some st)
    (htry : st.tryReserve adm.call.footprint budget adm.call.maxInflight = (st', true))
    (hfit : st.sumW + adm.call.footprint < 2 ^ 63 ∧ st.count + 1 < 2 ^ 63)
    (hrecent : s.now - adm.lookedUp ≤ D) :
    Inv D { (s.setState adm.state st').setAdmission i (.admitted s.reservations.length) with
      reservations := s.reservations ++
        [⟨adm.state, adm.call.grows, adm.call.footprint, .held⟩] } := by
  obtain ⟨hfoot, u, hu, hle⟩ := h.pending adm (mem_of_getElem? hadm)
  obtain rfl : st = u := mem_unique hst hu
  obtain ⟨hsum, hcount⟩ := h.nonneg hst
  obtain ⟨hw, hc⟩ := h.sums _ st hst
  -- the counters are within 64 bits before and after, so that nothing wraps
  obtain rfl := tryReserve_eq_true htry ⟨by omega, hfit.1⟩ ⟨by omega, hfit.2⟩
  have hlen : adm.state < s.states.length := (List.getElem?_eq_some_iff.mp hst).1
  refine h.write hst rfl rfl ⟨le_rfl, h.clock _ st hst⟩ rfl rfl rfl
    (fun adm' h' => mem_setAdmission h') ?_ ?_ hfit ?_ ?_
  · rw [liveWeight_append, liveCount_append, ← hw, ← hc]
    obtain ⟨h1, h2⟩ := weightOn_of_live
      (x := ⟨adm.state, adm.call.grows, adm.call.footprint, .held⟩) rfl
    exact ⟨by rw [h1], by rw [h2]⟩
  · intro b hb
    rw [liveWeight_append, liveCount_append]
    obtain ⟨h1, h2⟩ := weightOn_of_ne
      (x := ⟨adm.state, adm.call.grows, adm.call.footprint, .held⟩) (Ne.symm hb)
    rw [h1, h2]
    exact ⟨add_zero _, add_zero _⟩
  · intro x hx
    rcases mem_append.mp hx with hx | hx
    · exact h.held x hx
    · rw [mem_singleton.mp hx]
      exact ⟨hfoot, hlen⟩
  · -- a doomed object was looked up longer ago than the admission
    intro hdoomed
    have hidle := (h.doomed _ st hst hdoomed).1
    omega

/-- A refused `tryReserve` touches no counter. -/
theorem refuse (h : Inv D s) (hst : s.states[adm.state]? = some st)
    (htry : st.tryReserve adm.call.footprint budget adm.call.maxInflight = (st', false))
    (p : AdmitPhase) : Inv D ((s.setState adm.state st').setAdmission i p) := by
  obtain rfl := tryReserve_eq_false htry
  exact h.write hst rfl rfl ⟨le_rfl, h.clock _ st hst⟩ rfl rfl rfl
    (fun adm' h' => mem_setAdmission h') (h.sums _ st hst) (fun b _ => ⟨rfl, rfl⟩)
    (h.fits _ st hst) h.held (h.doomed _ st hst)

theorem setAdmission (h : Inv D s) (i : ℕ) (p : AdmitPhase) : Inv D (s.setAdmission i p) := by
  refine { h with pending := fun adm hadm => ?_ }
  obtain ⟨adm', hmem, hcall, hstate, hlook⟩ := mem_setAdmission hadm
  rw [hcall, hstate, hlook]
  exact h.pending adm' hmem

/-- No sweep holds the mutex, so none is about to remove anything. -/
theorem not_doomed (hmu : s.muHeld = false) (ha : s.models.lookup st.model = some a) :
    ¬ s.Doomed a st := by
  rintro (hgone | ⟨w, hw, rest, hphase⟩)
  · exact hgone ha
  · have hholds : w.holdsMu = true := by
      unfold Sweep.holdsMu
      rw [hphase]
    exact absurd (any_eq_true.mpr ⟨w, hw, hholds⟩) (Bool.eq_false_iff.mp hmu)

/-- A new admission of an object that was looked up no earlier than the admission says. -/
theorem push (h : Inv D s) (adm : Admit) (hfoot : 0 ≤ adm.call.footprint) (st : ModelState)
    (hst : s.states[adm.state]? = some st) (hle : adm.lookedUp ≤ st.lastActive) :
    Inv D { s with admissions := s.admissions ++ [adm] } := by
  refine { h with pending := fun adm' hadm' => ?_ }
  rcases mem_append.mp hadm' with hold | hnew
  · exact h.pending adm' hold
  · rw [mem_singleton.mp hnew]
    exact ⟨hfoot, st, hst, hle⟩

/-- The lookup of a model that the map holds: its object is touched now. -/
theorem lookUp (h : Inv D s) (hfoot : 0 ≤ call.footprint) (hmu : s.muHeld = false)
    (ha : s.models.lookup call.model = some a) :
    Inv D { s with
      states := s.states.modify a fun st => { st with lastActive := s.now }
      admissions := s.admissions ++ [⟨call, a, s.now, .first⟩] } := by
  obtain ⟨st, hst, hmodel⟩ := h.mapped _ a ha
  have htouched : Inv D { s with
      states := s.states.modify a fun _ => { st with lastActive := s.now } } :=
    h.write hst rfl rfl ⟨h.clock a st hst, le_rfl⟩ rfl rfl rfl
      (fun adm hadm => ⟨adm, hadm, rfl, rfl, rfl⟩)
      (h.sums a st hst) (fun b _ => ⟨rfl, rfl⟩) (h.fits a st hst) h.held
      (fun hdoomed => absurd hdoomed (not_doomed hmu (hmodel ▸ ha)))
  rw [modify_eq_const hst]
  refine htouched.push ⟨call, a, s.now, .first⟩ hfoot { st with lastActive := s.now } ?_ le_rfl
  rw [getElem?_modify_eq, hst]
  rfl

/-- The lookup of a new model: its object is created, with nothing in flight. An object
that the map no longer held for the model is still not the one it holds. -/
theorem create (h : Inv D s) (hfoot : 0 ≤ call.footprint) (hmu : s.muHeld = false)
    (ha : s.models.lookup call.model = none) (ch : ℕ) :
    Inv D { s with
      states := s.states ++ [⟨call.model, 0, 0, 0, 0, s.nextCh, s.now⟩]
      models := s.models.insert call.model s.states.length
      admissions := s.admissions ++ [⟨call, s.states.length, s.now, .first⟩]
      nextCh := ch } := by
  -- no reservation is on an address that was not there
  have hfresh : ∀ x ∈ s.reservations, x.state ≠ s.states.length := by
    intro x hx heq
    have hlt := (h.held x hx).2
    omega
  refine ⟨fun m b hb => ?_, fun b u hu => ?_, fun b u hu => ?_, fun x hx => ?_,
    fun adm hadm => ?_, fun b u hu hdoom => ?_, h.cutoffs, fun b u hu => ?_⟩
  · obtain ⟨rfl, rfl⟩ | ⟨-, hb⟩ := GoMap.lookup_insert_eq_some.mp hb
    · exact ⟨_, getElem?_concat.mpr (inr ⟨rfl, rfl⟩), rfl⟩
    · obtain ⟨u, hu, hum⟩ := h.mapped m b hb
      exact ⟨u, getElem?_concat.mpr (inl hu), hum⟩
  · rcases getElem?_concat.mp hu with hu | ⟨rfl, rfl⟩
    · exact h.sums b u hu
    · constructor
      · refine (sum_eq_zero fun y hy => ?_).symm
        obtain ⟨x, hx, rfl⟩ := mem_map.mp hy
        exact (weightOn_of_ne (hfresh x hx)).1
      · refine (sum_eq_zero fun y hy => ?_).symm
        obtain ⟨x, hx, rfl⟩ := mem_map.mp hy
        exact (weightOn_of_ne (hfresh x hx)).2
  · rcases getElem?_concat.mp hu with hu | ⟨rfl, rfl⟩
    · exact h.fits b u hu
    · exact ⟨by norm_num, by norm_num⟩
  · obtain ⟨hpos, hlt⟩ := h.held x hx
    refine ⟨hpos, ?_⟩
    rw [length_append]
    omega
  · rcases mem_append.mp hadm with hadm | hadm
    · obtain ⟨hf, u, hu, hle⟩ := h.pending adm hadm
      exact ⟨hf, u, getElem?_concat.mpr (inl hu), hle⟩
    · rw [mem_singleton.mp hadm]
      exact ⟨hfoot, _, getElem?_concat.mpr (inr ⟨rfl, rfl⟩), le_rfl⟩
  · rcases getElem?_concat.mp hu with hu | ⟨rfl, rfl⟩
    · refine h.doomed b u hu ?_
      rcases hdoom with hgone | hflag
      · left
        intro hmap
        by_cases hm : u.model = call.model
        · rw [hm, ha] at hmap
          cases hmap
        · exact hgone (by rw [lookup_insert_of_ne _ hm]; exact hmap)
      · exact inr hflag
    · -- the new object is in the map, and no sweep is running
      rcases hdoom with hgone | ⟨w, hw, rest, hphase⟩
      · exact absurd (lookup_insert _) hgone
      · have hholds : w.holdsMu = true := by
          unfold Sweep.holdsMu
          rw [hphase]
        exact absurd (any_eq_true.mpr ⟨w, hw, hholds⟩) (Bool.eq_false_iff.mp hmu)
  · rcases getElem?_concat.mp hu with hu | ⟨rfl, rfl⟩
    · exact h.clock b u hu
    · exact le_rfl

/-! #### Reservations -/

/-- Replacing a reservation by one on the same object, with the change that this makes to
the totals of the object; the totals of the others stay. -/
theorem shares_modify {y : Reservation} (hx : l[r]? = some x) (hlive : x.live = true)
    (hstate : y.state = x.state) :
    (liveWeight (l.modify r fun _ => y) x.state + x.weight =
        liveWeight l x.state + y.weightOn x.state ∧
      liveCount (l.modify r fun _ => y) x.state + 1 = liveCount l x.state + y.countOn x.state) ∧
    ∀ b, b ≠ x.state → liveWeight (l.modify r fun _ => y) b = liveWeight l b ∧
      liveCount (l.modify r fun _ => y) b = liveCount l b := by
  -- the old share leaves and the new one comes, on every object
  have hw := liveWeight_modify hx (fun _ => y)
  have hc := liveCount_modify hx (fun _ => y)
  obtain ⟨hxw, hxc⟩ := weightOn_of_live hlive
  refine ⟨⟨?_, ?_⟩, fun b hb => ?_⟩
  · rw [← hw x.state, hxw]
  · rw [← hc x.state, hxc]
  · obtain ⟨h1, h2⟩ := weightOn_of_ne (Ne.symm hb)
    obtain ⟨h3, h4⟩ := weightOn_of_ne (x := y) (hstate ▸ Ne.symm hb)
    have hwb := hw b
    have hcb := hc b
    rw [h1, h3, add_zero, add_zero] at hwb
    rw [h2, h4, add_zero, add_zero] at hcb
    exact ⟨hwb, hcb⟩

/-- **A live reservation and its object change by the same amount.** -/
theorem reweigh (h : Inv D s) {d : ℤ} (ch : ℕ) (hx : s.reservations[r]? = some x)
    (hlive : x.live = true) (hst : s.states[x.state]? = some st) (hpos : 0 ≤ x.weight + d)
    (hfits : st.sumW + d < 2 ^ 63)
    (hstates : t.states =
      s.states.modify x.state fun _ => { st with sumW := st.sumW + d, notify := ch })
    (hres : t.reservations = s.reservations.modify r fun x => x.addWeight d)
    (hnow : t.now = s.now) (hmodels : t.models = s.models) (hsweeps : t.sweeps = s.sweeps)
    (hadm : t.admissions = s.admissions) : Inv D t := by
  obtain ⟨hle, -⟩ := h.le_of_live hx hst hlive
  obtain ⟨hw, hc⟩ := h.sums _ st hst
  -- the weight of the reservation is within the sum, so it does not wrap around
  have hadd : x.addWeight d = { x with weight := x.weight + d } := addWeight_eq ⟨by omega, by omega⟩
  rw [modify_eq_const hx, hadd] at hres
  obtain ⟨⟨hself, hself'⟩, hother⟩ := shares_modify (y := { x with weight := x.weight + d })
    hx hlive rfl
  obtain ⟨hyw, hyc⟩ := weightOn_of_live (x := { x with weight := x.weight + d }) hlive
  dsimp only at hyw hyc
  refine h.write hst hstates rfl ⟨le_rfl, h.clock _ st hst⟩ hnow hmodels hsweeps
    (fun adm hmem => ⟨adm, hadm ▸ hmem, rfl, rfl, rfl⟩) ?_ ?_ ⟨hfits, (h.fits _ st hst).2⟩ ?_
    (h.doomed _ st hst)
  · rw [hres]
    dsimp only
    constructor <;> omega
  · rw [hres]
    exact hother
  · intro y hy
    rw [hres] at hy
    rcases mem_modify hx hy with hold | rfl
    · exact h.held y hold
    · exact ⟨hpos, (h.held x (mem_of_getElem? hx)).2⟩

/-- The state's `release`: a live reservation leaves both counters. -/
theorem giveBack (h : Inv D s) {ch : ℕ} (hx : s.reservations[r]? = some x) (hlive : x.live = true)
    (hst : s.states[x.state]? = some st)
    (hstates : t.states = s.states.modify x.state fun _ => (st.release x.weight ch).1)
    (hres : t.reservations = s.reservations.modify r fun x => { x with phase := .returned })
    (hnow : t.now = s.now) (hmodels : t.models = s.models) (hsweeps : t.sweeps = s.sweeps)
    (hadm : t.admissions = s.admissions) : Inv D t := by
  obtain ⟨hle, hone⟩ := h.le_of_live hx hst hlive
  obtain ⟨hw, hc⟩ := h.sums _ st hst
  obtain ⟨hfw, hfc⟩ := h.fits _ st hst
  have hpos := (h.held x (mem_of_getElem? hx)).1
  -- the reservation is within both counters, so that no clamp acts
  rw [release_eq ch hpos hle hone hfw hfc] at hstates
  rw [modify_eq_const hx] at hres
  obtain ⟨⟨hself, hself'⟩, hother⟩ := shares_modify (y := { x with phase := .returned })
    hx hlive rfl
  -- a returned reservation has no share
  have hgone : weightOn x.state { x with phase := .returned } = 0 ∧
      countOn x.state { x with phase := .returned } = 0 := by
    simp [weightOn, countOn, live]
  refine h.write hst hstates rfl ⟨le_rfl, h.clock _ st hst⟩ hnow hmodels hsweeps
    (fun adm hmem => ⟨adm, hadm ▸ hmem, rfl, rfl, rfl⟩) ?_ ?_ ⟨?_, ?_⟩ ?_ ?_
  · rw [hres]
    dsimp only
    constructor <;> omega
  · rw [hres]
    exact hother
  · dsimp only
    omega
  · dsimp only
    omega
  · intro y hy
    rw [hres] at hy
    rcases mem_modify hx hy with hold | rfl
    · exact h.held y hold
    · exact ⟨hpos, (h.held x (mem_of_getElem? hx)).2⟩
  · -- an object with a live reservation is not doomed
    intro hdoomed
    have hzero := (h.doomed _ st hst hdoomed).2
    omega

/-- Setting `released` changes no share: the reservation stays live. -/
theorem markReleased (h : Inv D s) (hx : s.reservations[r]? = some x) (hheld : x.released = false) :
    Inv D { s with
      reservations := s.reservations.modify r fun x => { x with phase := .releasing } } := by
  have hlive := live_of_not_released hheld
  -- only a returned reservation loses its share
  have hshare : ∀ b, weightOn b { x with phase := .releasing } = x.weightOn b ∧
      countOn b { x with phase := .releasing } = x.countOn b := by
    intro b
    unfold weightOn countOn
    rw [hlive]
    exact ⟨rfl, rfl⟩
  refine { h with sums := fun a st hst => ?_, held := fun y hy => ?_ }
  · have hw := liveWeight_modify hx (fun x => { x with phase := .releasing }) a
    have hc := liveCount_modify hx (fun x => { x with phase := .releasing }) a
    rw [(hshare a).1] at hw
    rw [(hshare a).2] at hc
    rw [(h.sums a st hst).1, (h.sums a st hst).2]
    exact ⟨(add_right_cancel hw).symm, (add_right_cancel hc).symm⟩
  · rcases mem_modify hx hy with hold | rfl
    · exact h.held y hold
    · exact h.held x (mem_of_getElem? hx)

/-! #### The clock and the sweeps -/

theorem tick (h : Inv D s) (d : ℕ) : Inv D { s with now := s.now + d } := by
  refine { h with
    doomed := fun a st hst hdoom => ?_, cutoffs := fun w hw => ?_, clock := fun a st hst => ?_ }
  · obtain ⟨hlast, hzero⟩ := h.doomed a st hst hdoom
    exact ⟨by dsimp only; omega, hzero⟩
  · have hcut := h.cutoffs w hw
    dsimp only
    omega
  · have hle := h.clock a st hst
    dsimp only
    omega

/-- A new pass: its cutoff is more than `D` in the past. -/
theorem beginSweep (h : Inv D s) {ttl : ℤ} (httl : D < ttl) :
    Inv D { s with sweeps := s.sweeps ++ [⟨s.now - ttl, .ready⟩] } := by
  refine { h with doomed := fun a st hst hdoom => ?_, cutoffs := fun w hw => ?_ }
  · refine h.doomed a st hst (hdoom.imp_right ?_)
    rintro ⟨w, hw, rest, hphase⟩
    rcases mem_append.mp hw with hw | hw
    · exact ⟨w, hw, rest, hphase⟩
    · rw [mem_singleton.mp hw] at hphase
      cases hphase
  · rcases mem_append.mp hw with hw | hw
    · exact h.cutoffs w hw
    · rw [mem_singleton.mp hw]
      dsimp only
      omega

/-- A pass moves on. It may announce a removal only of an object that is idle. -/
theorem setSweep (h : Inv D s) {k : ℕ} {w : Sweep} {p : SweepPhase} (hw : s.sweeps[k]? = some w)
    (hidle : ∀ m rest, p = .scanning (m :: rest) true → ∀ (a : ℕ) (st : ModelState),
      s.models.lookup m = some a → s.states[a]? = some st → Idle D s.now st) :
    Inv D (s.setSweep k p) := by
  have hmem : ∀ v ∈ (s.setSweep k p).sweeps, v ∈ s.sweeps ∨ v = { w with phase := p } :=
    fun v hv => mem_modify hw hv
  refine { h with doomed := fun a st hst hdoom => ?_, cutoffs := fun v hv => ?_ }
  · by_cases hmap : s.models.lookup st.model = some a
    · rcases hdoom with hgone | ⟨v, hv, rest, hphase⟩
      · exact absurd hmap hgone
      · rcases hmem v hv with hv | rfl
        · exact h.doomed a st hst (inr ⟨v, hv, rest, hphase⟩)
        · exact hidle _ rest hphase a st hmap hst
    · exact h.doomed a st hst (inl hmap)
  · rcases hmem v hv with hv | rfl
    · exact h.cutoffs v hv
    · exact h.cutoffs w (mem_of_getElem? hw)

theorem eraseModel (h : Inv D s) {m : String}
    (hidle : ∀ (a : ℕ) (st : ModelState), s.models.lookup m = some a → s.states[a]? = some st →
      Idle D s.now st) : Inv D { s with models := s.models.erase m } := by
  refine { h with mapped := fun m' a ha => ?_, doomed := fun a st hst hdoom => ?_ }
  · exact h.mapped m' a (GoMap.lookup_erase_eq_some.mp ha).2
  · by_cases hm : st.model = m
    · by_cases hmap : s.models.lookup m = some a
      · exact hidle a st hmap hst
      · exact h.doomed a st hst (inl (hm ▸ hmap))
    · unfold State.Doomed at hdoom
      rw [lookup_erase_ne hm] at hdoom
      exact h.doomed a st hst hdoom

/-! #### All steps -/

/-- **Every sound step keeps the account.** -/
theorem step (h : Inv D s) {scale : ℤ → ℤ} {act : Act} (hsound : s.Sound scale D act)
    (hmoved : State.Moved scale s act t) : Inv D t := by
  cases hmoved with
  | @ticked d => exact h.tick d
  | lookedUp hmu ha => exact h.lookUp hsound hmu ha
  | created hmu ha => exact h.create hsound hmu ha _
  -- an attempt that succeeds comes in time
  | @reserved i act adm st st' hact hadm hst htry =>
    have hcond : (st.sumW + adm.call.footprint < 2 ^ 63 ∧ st.count + 1 < 2 ^ 63) ∧
        s.now - adm.lookedUp ≤ D := by
      rcases hact with rfl | rfl
      all_goals
        obtain ⟨hfit, hrecent⟩ := hsound adm hadm st hst
        exact ⟨hfit, hrecent (by rw [htry])⟩
    exact h.reserve hadm hst htry hcond.1 hcond.2
  | notReserved hact hadm hst htry => exact h.refuse hst htry _
  | waited => exact h.setAdmission _ _
  -- the object of the reservation exists, and grows with it
  | @grew r tokens x d hx hd =>
    obtain ⟨hheld, hpos⟩ := growBy_eq_some hd
    have hxmem := h.held x (mem_of_getElem? hx)
    obtain ⟨st, hst⟩ : ∃ st, s.states[x.state]? = some st := ⟨_, getElem?_eq_getElem hxmem.2⟩
    have hfits := hsound x hx d hd st hst
    have hsum := (h.nonneg hst).1
    refine h.reweigh st.notify hx (live_of_not_released hheld) hst (by omega) hfits
      ?_ rfl rfl rfl rfl rfl
    rw [modify_eq_const hst, grow_eq ⟨by omega, hfits⟩]
  | @adjusted r delta x d st hx hd hst =>
    have hfits := hsound x hx d hd st hst
    obtain ⟨hlive, hpos⟩ := h.adjust_live hx hst hd
    have hle := (h.le_of_live hx hst hlive).1
    obtain ⟨ch, hch⟩ := adjust_eq s.nextCh (by omega) hfits
    refine h.reweigh ch hx hlive hst hpos hfits ?_ rfl rfl rfl rfl rfl
    rw [← hch]
    rfl
  | noEffect => exact h
  | releasing hx hheld => exact h.markReleased hx hheld
  | returned hx hphase hst =>
    refine h.giveBack hx ?_ hst rfl rfl rfl rfl rfl rfl
    unfold live
    rw [hphase]
    decide
  | closed => exact { h with }
  | sweepBegun => exact h.beginSweep hsound
  | sweepMoved hw =>
    refine h.setSweep hw fun m rest hp => ?_
    cases hp
  -- the object that the pass found is older than its cutoff
  | @foundIdle k cutoff model rest a st hw ha hst hidle =>
    refine h.setSweep hw fun m rest' hp b u hb hu => ?_
    cases hp
    obtain rfl : a = b := mem_unique ha hb
    obtain rfl : st = u := mem_unique hst hu
    have hcut := h.cutoffs _ (mem_of_getElem? hw)
    dsimp only at hcut
    exact ⟨by omega, hidle.2.1⟩
  -- the pass announced the removal, so the object was doomed before
  | @deleted k cutoff model rest hw =>
    have herased : Inv D { s with models := s.models.erase model } := by
      refine h.eraseModel fun a st ha hst => h.doomed a st hst (inr ?_)
      obtain ⟨u, hu, hmodel⟩ := h.mapped model a ha
      obtain rfl : st = u := mem_unique hst hu
      exact ⟨_, mem_of_getElem? hw, rest, by rw [hmodel]⟩
    exact herased.setSweep hw nofun
  | unlocked hw =>
    refine h.setSweep hw fun m rest hp => ?_
    cases hp

/-! ### From the objects to the models -/

/-- Selecting the live reservations on one object and adding up is adding up the shares. -/
theorem sums_filter {p : Reservation → Bool}
    (hp : ∀ x ∈ l, p x = true ↔ x.live = true ∧ x.state = a) :
    ((l.filter p).map (·.weight)).sum = liveWeight l a ∧
      ((l.filter p).length : ℤ) = liveCount l a := by
  induction l with
  | nil => exact ⟨rfl, rfl⟩
  | cons x l ih =>
    obtain ⟨ihw, ihc⟩ := ih fun y hy => hp y (mem_cons_of_mem x hy)
    unfold liveWeight at ihw ⊢
    unfold liveCount at ihc ⊢
    rw [map_cons, map_cons, sum_cons, sum_cons, ← ihw, ← ihc]
    have hx := hp x mem_cons_self
    -- the first reservation is selected exactly when it has a share
    by_cases hpx : p x = true
    · rw [filter_cons_of_pos hpx, map_cons, sum_cons, length_cons]
      unfold weightOn countOn
      rw [if_pos (hx.mp hpx), if_pos (hx.mp hpx)]
      exact ⟨rfl, by push_cast; omega⟩
    · rw [filter_cons_of_neg hpx]
      unfold weightOn countOn
      rw [if_neg (fun hmem => hpx (hx.mpr hmem)), if_neg (fun hmem => hpx (hx.mpr hmem))]
      exact ⟨(zero_add _).symm, (zero_add _).symm⟩

/-- A live reservation is on the object that the map holds for its model. -/
theorem lookup_of_live (h : Inv D s) (hx : x ∈ s.reservations) (hlive : x.live = true)
    (hst : s.states[x.state]? = some st) :
    s.models.lookup st.model = some x.state := by
  by_contra hgone
  obtain ⟨r, hr⟩ := mem_iff_getElem?.mp hx
  have hone := (h.le_of_live hr hst hlive).2
  have hzero := (h.doomed _ st hst (inl hgone)).2
  omega

theorem mem_liveOf_iff (h : Inv D s) {model : String} (hx : x ∈ s.reservations) :
    (x.live && (s.states[x.state]?.map (·.model) == some model)) = true ↔
      x.live = true ∧ s.models.lookup model = some x.state := by
  rw [Bool.and_eq_true, beq_iff_eq]
  refine and_congr_right fun hlive => ?_
  constructor
  · intro hmodel
    obtain ⟨st, hst, rfl⟩ := map_eq_some_iff.mp hmodel
    exact h.lookup_of_live hx hlive hst
  · intro hmap
    obtain ⟨st, hst, hmodel⟩ := h.mapped model _ hmap
    rw [hst, map_some, hmodel]

theorem occupancy (h : Inv D s) (model : String) : s.occupancy model =
    (((s.liveOf model).map (·.weight)).sum, ((s.liveOf model).length : ℤ)) := by
  unfold State.occupancy
  cases hmap : s.models.lookup model with
  | none =>
    have hnil : s.liveOf model = [] := by
      refine filter_eq_nil_iff.mpr fun x hx hlive => ?_
      have hsome := ((h.mem_liveOf_iff hx).mp hlive).2
      rw [hmap] at hsome
      cases hsome
    rw [hnil]
    rfl
  | some a =>
    obtain ⟨st, hst, -⟩ := h.mapped model a hmap
    obtain ⟨hw, hc⟩ := sums_filter (l := s.reservations) (a := a)
      (p := fun x => x.live && (s.states[x.state]?.map (·.model) == some model)) fun x hx => by
        rw [h.mem_liveOf_iff hx, hmap, some.injEq, eq_comm (a := a)]
    unfold liveOf
    rw [hw, hc, bind_some, hst, ← (h.sums a st hst).1, ← (h.sums a st hst).2]

end Inv

/-! ### Released reservations -/

section Released

variable {scale : ℤ → ℤ} {s t : State} {r : ℕ}

def State.IsReleased (s : State) (r : ℕ) : Prop :=
  ∃ x, s.reservations[r]? = some x ∧ x.released = true

theorem State.IsReleased.modify {l : List Reservation} {k : ℕ} {u : Reservation → Reservation}
    (hu : ∀ x, x.released = true → (u x).released = true)
    (h : ∃ x, l[r]? = some x ∧ x.released = true) :
    ∃ x, (l.modify k u)[r]? = some x ∧ x.released = true := by
  obtain ⟨x, hx, hrel⟩ := h
  rw [getElem?_modify, hx]
  by_cases hk : k = r
  · exact ⟨u x, by simp [hk], hu x hrel⟩
  · exact ⟨x, by simp [hk], hrel⟩

theorem State.IsReleased.step {act : Act} (h : s.IsReleased r)
    (hmoved : State.Moved scale s act t) : t.IsReleased r := by
  cases hmoved with
  | reserved =>
    obtain ⟨x, hx, hrel⟩ := h
    exact ⟨x, getElem?_concat.mpr (inl hx), hrel⟩
  | grew _ _ | adjusted _ _ _ => exact .modify (fun _ hrel => hrel) h
  | releasing _ _ | returned _ _ _ => exact .modify (fun _ _ => rfl) h
  | _ => exact h

/-- `Release`, `Grow` and `Adjust` on a released reservation leave the whole state as it
is. -/
theorem State.IsReleased.inert (h : s.IsReleased r) : s.step scale (.release r) = some s ∧
      (∀ tokens, s.step scale (.grow r tokens) = some s) ∧
      ∀ delta, s.step scale (.adjust r delta) = some s := by
  obtain ⟨x, hx, hrel⟩ := h
  refine ⟨?_, fun tokens => ?_, fun delta => ?_⟩
  · simp only [State.step, release, hx, hrel, if_true]
  · simp only [State.step, grow, hx, growBy_of_released hrel]
  · simp only [State.step, adjust, hx, adjustBy_of_released hrel]

end Released

/-! ### The result -/

/-- **The occupancy of a model is exact in every state of every sound run**, whatever the
bound `D` on the time from a lookup to its reservation. -/
theorem occupancyExact_of_sound (scale : ℤ → ℤ) (D : ℤ) {t : State}
    (h : (occupancy scale).ReachVia (State.Sound scale D) t) :
    OccupancyExact scale t := by
  -- the sums of the live reservations are the counters
  have hinv : Inv D t := by
    refine h.induction ?_ fun s a u hI hC hstep => hI.step hC (step_moved hstep)
    rintro s ⟨now, rfl⟩
    exact Inv.initial now
  refine ⟨hinv.occupancy, fun r x st hx hst => ⟨fun hphase => ?_, fun delta d hd => ?_⟩, ?_⟩
  · have hlive : x.live = true := by
      unfold live
      rw [hphase]
      decide
    obtain ⟨hw, hc⟩ := hinv.le_of_live hx hst hlive
    exact ⟨by omega, by omega⟩
  · obtain ⟨hlive, hpos⟩ := hinv.adjust_live hx hst hd
    have hle := (hinv.le_of_live hx hst hlive).1
    omega
  · -- a released reservation is inert in every later state
    intro r x hx hrel as u hrun
    have hu : u.IsReleased r :=
      Machine.run_preserves (I := fun s => s.IsReleased r)
        (fun s a v hI hstep => hI.step (step_moved hstep)) ⟨x, hx, hrel⟩ hrun
    exact hu.inert

/-- One request of 100 tokens that grows and is trued up, while a sweep of ten seconds' TTL
passes over it. -/
theorem occupancyExact_sweep : ∃ t, (occupancy id).ReachVia (State.Sound id 5) t ∧
      t.occupancy "m" = (90, 1) ∧ OccupancyExact id t := by
  have hrun : ∃ t ∈ (occupancy id).run (initial 0)
      [.stateFor ⟨"m", 100, true, 0, 4, 0⟩, .tick 3, .tryFirst 0, .tick 20, .sweepCutoff 10,
        .grow 0 10, .sweepLock 0 ["m"], .sweepTest 0, .adjust 0 (-20), .sweepUnlock 0, .release 0],
      t.occupancy "m" = (90, 1) := by decide
  obtain ⟨t, ht, hocc⟩ := hrun
  have hvia : (occupancy id).ReachVia (State.Sound id 5) t := by
    refine ⟨State.initial 0, _, ⟨0, rfl⟩, ?_, ht⟩
    decide
  exact ⟨t, hvia, hocc, occupancyExact_of_sound id 5 hvia⟩

end HivenetRouter.Admission
