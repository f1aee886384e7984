import HivenetRouter.Wake.Holder

/-!
# The invariant of the wake holder

The counters of the holder are counts of `Hold` calls. `Entry` says this for the entry of one
model: its holds and its counters by caller are those of the calls that are held, its demand is
that of the calls that are pending, and its health poll runs while there is a hold. Together
with what is known about the channels (`Channels`) and about models without an entry this is
kept by every step (`Inv.step`), so that no step finds an entry missing, or closes a channel
twice. `step_effect` says once what a step can do.
-/

namespace HivenetRouter.Wake

open Function Finmap List Option Nat GoMap Phase State

/-! ### Counting calls -/

/-- The calls in a phase with the flag, by model and key. -/
def count (flag : Phase → Bool) (q : String → String × String → Bool) (rs : List Request) : ℕ :=
  rs.countP fun r => flag r.phase && q r.model r.key

def heldBy (rs : List Request) (model : String) : ℕ := count held (fun m _ => m = model) rs

def heldByCaller (rs : List Request) (model caller : String) : ℕ :=
  count held (fun m key => m = model && key.1 = caller) rs

def pendingBy (rs : List Request) (model : String) (key : String × String) : ℕ :=
  count pending (fun m k => m = model && k = key) rs

def heldAll (rs : List Request) : ℕ := count held (fun _ _ => true) rs

def advance (rs : List Request) (i : ℕ) (phase : Phase) : List Request :=
  rs.modify i fun r => { r with phase }

section Count

variable {rs : List Request} {i : ℕ} {r : Request} {flag : Phase → Bool}
  {q : String → String × String → Bool}

theorem count_advance (hr : rs[i]? = some r) (flag : Phase → Bool)
    (q : String → String × String → Bool) (p : Phase) :
    count flag q (advance rs i p) + (if flag r.phase && q r.model r.key then 1 else 0) =
      count flag q rs + (if flag p && q r.model r.key then 1 else 0) :=
  countP_modify _ _ rs i hr

variable {p : Phase}

theorem count_advance_same (hr : rs[i]? = some r) (hflag : flag p = flag r.phase) :
    count flag q (advance rs i p) = count flag q rs := by
  have h := count_advance hr flag q p
  rw [hflag] at h
  omega

theorem count_advance_gain (hr : rs[i]? = some r) (hr' : flag r.phase = false)
    (hp : flag p = true) :
    count flag q (advance rs i p) = count flag q rs + if q r.model r.key then 1 else 0 := by
  have h := count_advance hr flag q p
  rw [hr', hp, Bool.false_and, Bool.true_and, if_neg Bool.false_ne_true] at h
  exact h

theorem count_advance_loss (hr : rs[i]? = some r) (hr' : flag r.phase = true)
    (hp : flag p = false) :
    count flag q (advance rs i p) + (if q r.model r.key then 1 else 0) = count flag q rs := by
  have h := count_advance hr flag q p
  rw [hr', hp, Bool.false_and, Bool.true_and, if_neg Bool.false_ne_true] at h
  exact h

theorem count_pos_iff :
    0 < count flag q rs ↔ ∃ r ∈ rs, flag r.phase = true ∧ q r.model r.key = true := by
  rw [count, countP_pos_iff]
  simp only [Bool.and_eq_true]

theorem count_append (rs rs' : List Request) :
    count flag q (rs ++ rs') = count flag q rs + count flag q rs' :=
  countP_append

theorem mem_advance {x : Request} (h : x ∈ advance rs i p) :
    x ∈ rs ∨ ∃ r, rs[i]? = some r ∧ x = { r with phase := p } := by
  obtain ⟨j, hj⟩ := mem_iff_getElem?.mp h
  rw [advance, getElem?_modify] at hj
  obtain ⟨y, hy, rfl⟩ := map_eq_some_iff.mp hj
  split_ifs with hij
  · subst hij
    exact .inr ⟨y, hy, rfl⟩
  · exact .inl (mem_of_getElem? hy)

theorem getElem?_advance (hr : rs[i]? = some r) (p : Phase) :
    (advance rs i p)[i]? = some { r with phase := p } := by
  rw [advance, getElem?_modify_eq, hr]
  rfl

theorem Phase.pending_of_held (h : p.held = true) : p.pending = true := by
  rw [pending, h]
  rfl

theorem Phase.held_of_not_pending (h : p.pending = false) : p.held = false := by
  cases hheld : p.held with
  | false => rfl
  | true => exact (pending_of_held hheld).symm.trans h

end Count

/-! ### The entry of a model -/

def ModelHold.channels (m : ModelHold) : List ℕ := m.wake :: m.stop.toList

/-- The counters of the entry are counts of calls. -/
structure Tallies (rs : List Request) (model : String) (m : ModelHold) : Prop where
  holds : m.holds = heldBy rs model
  callers : m.callers.Counts (heldByCaller rs model)
  demand : m.demand.Counts (pendingBy rs model)

/-- The entry is within the limits, and is there for a reason. -/
structure Entry (limits : Limits) (rs : List Request) (model : String) (m : ModelHold) : Prop
    extends Tallies rs model m where
  holds_le : m.holds ≤ limits.perModel
  caller_le : ∀ caller, caller ≠ "" → m.callers.count caller ≤ limits.perCaller
  stop_iff : m.stop.isSome = true ↔ 0 < m.holds
  demand_ne : m.demand.keys.card ≠ 0

variable {model : String} {limits : Limits} {rs : List Request} {m : ModelHold} {r : Request}

/-- Another model's counts do not change. -/
theorem Entry.advance (h : Entry limits rs model m) {i : ℕ} (hr : rs[i]? = some r)
    (hne : r.model ≠ model) (p : Phase) : Entry limits (advance rs i p) model m := by
  have hsame : ∀ (flag : Phase → Bool) (q : String → String × String → Bool),
      (∀ k, q r.model k = false) → count flag q (Wake.advance rs i p) = count flag q rs := by
    intro flag q hq
    have hcount := count_advance hr flag q p
    rw [hq, Bool.and_false, Bool.and_false] at hcount
    omega
  have hholds : heldBy (Wake.advance rs i p) model = heldBy rs model :=
    hsame _ _ fun _ => decide_eq_false hne
  have hcallers : ∀ c, heldByCaller (Wake.advance rs i p) model c = heldByCaller rs model c :=
    fun c => hsame _ _ fun _ => by rw [decide_eq_false hne, Bool.false_and]
  have hdemand : ∀ k, pendingBy (Wake.advance rs i p) model k = pendingBy rs model k :=
    fun k => hsame _ _ fun _ => by rw [decide_eq_false hne, Bool.false_and]
  refine ⟨⟨?_, h.callers.congr hcallers, h.demand.congr hdemand⟩, h.holds_le, h.caller_le,
    h.stop_iff, h.demand_ne⟩
  rw [hholds]
  exact h.holds

variable {p : Phase}

/-- A phase with the same flags does not change the counts. -/
theorem Tallies.advance_same (h : Tallies rs model m) {i : ℕ} (hr : rs[i]? = some r)
    (hheld : p.held = r.phase.held) (hpending : p.pending = r.phase.pending) :
    Tallies (advance rs i p) model m := by
  refine ⟨?_, h.callers.congr fun c => count_advance_same hr hheld,
    h.demand.congr fun k => count_advance_same hr hpending⟩
  rw [heldBy, count_advance_same hr hheld]
  exact h.holds

theorem Tallies.fresh (wake : ℕ) (h : ∀ r ∈ rs, r.phase.pending = true → r.model ≠ model) :
    Tallies rs model ⟨0, ∅, ∅, wake, none⟩ := by
  have hzero : ∀ (flag : Phase → Bool) (q : String → String × String → Bool),
      (∀ p, flag p = true → p.pending = true) → (∀ m k, q m k = true → m = model) →
      count flag q rs = 0 := by
    intro flag q hflag hq
    by_contra hne
    obtain ⟨r, hr, hp, hm⟩ := count_pos_iff.mp (pos_of_ne_zero hne)
    exact h r hr (hflag _ hp) (hq _ _ hm)
  have hboth : ∀ {m : String} {b : Bool}, (decide (m = model) && b) = true → m = model :=
    fun hm => of_decide_eq_true (Bool.and_eq_true_iff.mp hm).1
  refine ⟨?_, GoMap.Counts.empty.congr fun c => ?_, GoMap.Counts.empty.congr fun k => ?_⟩
  · rw [heldBy, hzero _ _ (fun _ => pending_of_held) fun _ _ hm => of_decide_eq_true hm]
    rfl
  · exact hzero _ _ (fun _ => pending_of_held) fun _ _ => hboth
  · exact hzero _ _ (fun _ hp => hp) fun _ _ => hboth

section Tallies

variable {i : ℕ}

theorem decide_model_and (r : Request) (b : Bool) : (decide (r.model = r.model) && b) = b := by
  rw [decide_eq_true rfl, Bool.true_and]

variable {κ : Type} [DecidableEq κ] {f : String × String → κ} {flag : Phase → Bool}
  {counts : GoMap κ ℤ}

section

variable (h : counts.Counts fun k => count flag (fun m key => m = r.model && f key = k) rs)

include h

/-- A counter by key when a call gets the flag. -/
theorem counts_gain (hr : rs[i]? = some r) (hr' : flag r.phase = false) (hp : flag p = true) :
    (counts.inc (f r.key)).Counts
      fun k => count flag (fun m key => m = r.model && f key = k) (advance rs i p) := by
  refine (h.inc (f r.key)).congr fun k => ?_
  rw [count_advance_gain hr hr' hp, decide_model_and, update_apply]
  by_cases hk : k = f r.key
  · rw [if_pos hk, if_pos (decide_eq_true hk.symm), hk]
  · rw [if_neg hk, if_neg (by simpa using Ne.symm hk)]
    rfl

/-- A counter by key when a call loses the flag. -/
theorem counts_loss (hr : rs[i]? = some r) (hr' : flag r.phase = true) (hp : flag p = false) :
    (counts.dec (f r.key)).Counts
      fun k => count flag (fun m key => m = r.model && f key = k) (advance rs i p) := by
  have hloss : ∀ k, count flag (fun m key => m = r.model && f key = k) (advance rs i p) +
      (if decide (f r.key = k) then 1 else 0) =
        count flag (fun m key => m = r.model && f key = k) rs := by
    intro k
    rw [← count_advance_loss (q := fun m key => m = r.model && f key = k) hr hr' hp,
      decide_model_and]
  have hself := hloss (f r.key)
  rw [if_pos (decide_eq_true rfl)] at hself
  refine (h.dec (by omega)).congr fun k => ?_
  rw [update_apply]
  by_cases hk : k = f r.key
  · rw [if_pos hk, hk]
    omega
  · have hother := hloss k
    rw [if_neg (by simpa using Ne.symm hk)] at hother
    rw [if_neg hk]
    exact hother

end

variable (h : Tallies rs r.model m)

include h

theorem Tallies.enter (hr : rs[i]? = some r)
    (hphase : r.phase.pending = false) (hp : p.held = true) (wake : ℕ) (stop : Option ℕ) :
    Tallies (advance rs i p) r.model
      ⟨m.holds + 1, m.callers.inc r.caller, m.demand.inc r.key, wake, stop⟩ := by
  have hheld := held_of_not_pending hphase
  refine ⟨?_, counts_gain (f := Prod.fst) h.callers hr hheld hp,
    counts_gain (f := id) h.demand hr hphase (pending_of_held hp)⟩
  rw [heldBy, count_advance_gain hr hheld hp, if_pos (decide_eq_true rfl)]
  show m.holds + 1 = _
  rw [h.holds]
  rfl

theorem Tallies.leave (hr : rs[i]? = some r)
    (hheld : r.phase.held = true) (hp : p.held = false) (hpending : p.pending = true)
    (stop : Option ℕ) :
    Tallies (advance rs i p) r.model
      ⟨m.holds - 1, m.callers.dec r.caller, m.demand, m.wake, stop⟩ := by
  refine ⟨?_, counts_loss (f := Prod.fst) h.callers hr hheld hp, h.demand.congr fun k => ?_⟩
  · have hloss := count_advance_loss (q := fun m _ => m = r.model) hr hheld hp
    rw [if_pos (decide_eq_true rfl)] at hloss
    show m.holds - 1 = _
    rw [h.holds, heldBy, heldBy]
    omega
  · exact count_advance_same hr (hpending.trans (pending_of_held hheld).symm)

theorem Tallies.leaveDemand (hr : rs[i]? = some r)
    (hheld : r.phase.held = false) (hpending : r.phase.pending = true) (hp : p.pending = false) :
    Tallies (advance rs i p) r.model { m with demand := m.demand.dec r.key } := by
  have hp' : p.held = r.phase.held := (held_of_not_pending hp).trans hheld.symm
  refine ⟨?_, h.callers.congr fun c => count_advance_same hr hp',
    counts_loss (f := id) h.demand hr hpending hp⟩
  rw [heldBy, count_advance_same hr hp']
  exact h.holds

/-- What is pending for the model is in its demand. -/
theorem Tallies.card_ne_zero (hr : r ∈ rs)
    (hpending : r.phase.pending = true) : m.demand.keys.card ≠ 0 := by
  have hpos : 0 < pendingBy rs r.model r.key :=
    count_pos_iff.mpr ⟨r, hr, hpending, by rw [decide_model_and]; exact decide_eq_true rfl⟩
  exact Finset.card_ne_zero_of_mem (h.demand.mem_keys.mpr hpos.ne')

end Tallies

/-! ### The channels -/

/-- The channels of the entries are open, and all different. -/
structure Channels (models : GoMap String ModelHold) (nextCh : ℕ) (closed : List ℕ) : Prop where
  lt : ∀ model m, models.lookup model = some m → ∀ c ∈ m.channels, c < nextCh
  closed_lt : ∀ c ∈ closed, c < nextCh
  opened : ∀ model m, models.lookup model = some m → ∀ c ∈ m.channels, c ∉ closed
  nodup : ∀ model m, models.lookup model = some m → m.channels.Nodup
  disjoint : ∀ model m model' m', models.lookup model = some m → models.lookup model' = some m' →
    ∀ c ∈ m.channels, c ∈ m'.channels → model = model'
  closed_nodup : closed.Nodup

namespace Channels

variable {models : GoMap String ModelHold} {nextCh : ℕ} {closed : List ℕ}

variable (h : Channels models nextCh closed)

include h

theorem erase (model : String) : Channels (models.erase model) nextCh closed := by
  have hold : ∀ model' m, (models.erase model).lookup model' = some m →
      models.lookup model' = some m := fun _ _ hm => (lookup_erase_eq_some.mp hm).2
  exact ⟨fun _ m hm => h.lt _ m (hold _ m hm), h.closed_lt,
    fun _ m hm => h.opened _ m (hold _ m hm), fun _ m hm => h.nodup _ m (hold _ m hm),
    fun _ m _ m' hm hm' => h.disjoint _ m _ m' (hold _ m hm) (hold _ m' hm'), h.closed_nodup⟩

/-- An entry is written: its channels are new or were its own, and what is closed was its own
and is no longer. -/
theorem insert {m' : ModelHold} {nextCh' : ℕ}
    {closed' : List ℕ} (hle : nextCh ≤ nextCh')
    (hnew : ∀ c ∈ m'.channels, (nextCh ≤ c ∧ c < nextCh') ∨
      ∃ m, models.lookup model = some m ∧ c ∈ m.channels)
    (hnodup : m'.channels.Nodup)
    (hclosed : ∀ c ∈ closed', c ∈ closed ∨
      ∃ m, models.lookup model = some m ∧ c ∈ m.channels ∧ c ∉ m'.channels)
    (hclosed' : closed'.Nodup) : Channels (models.insert model m') nextCh' closed' := by
  -- a channel of the new entry is in no other entry, and was not closed before
  have hother : ∀ c ∈ m'.channels, ∀ model' m, model' ≠ model → models.lookup model' = some m →
      c ∉ m.channels := by
    intro c hc model' m hne hm hc'
    rcases hnew c hc with ⟨hge, -⟩ | ⟨m₀, hm₀, hc₀⟩
    · have := h.lt model' m hm c hc'
      omega
    · exact hne (h.disjoint model' m model m₀ hm hm₀ c hc' hc₀)
  have hopened : ∀ c ∈ m'.channels, c ∉ closed := by
    intro c hc hmem
    rcases hnew c hc with ⟨hge, -⟩ | ⟨m₀, hm₀, hc₀⟩
    · have := h.closed_lt c hmem
      omega
    · exact h.opened model m₀ hm₀ c hc₀ hmem
  refine ⟨?_, ?_, ?_, ?_, ?_, hclosed'⟩
  · intro model' m hm c hc
    rcases lookup_insert_eq_some.mp hm with ⟨-, rfl⟩ | ⟨-, hm⟩
    · rcases hnew c hc with ⟨-, hlt⟩ | ⟨m₀, hm₀, hc₀⟩
      · exact hlt
      · exact (h.lt model m₀ hm₀ c hc₀).trans_le hle
    · exact (h.lt model' m hm c hc).trans_le hle
  · intro c hc
    rcases hclosed c hc with hc | ⟨m₀, hm₀, hc₀, -⟩
    · exact (h.closed_lt c hc).trans_le hle
    · exact (h.lt model m₀ hm₀ c hc₀).trans_le hle
  · intro model' m hm c hc hmem
    rcases lookup_insert_eq_some.mp hm with ⟨-, rfl⟩ | ⟨hne, hm⟩
    · rcases hclosed c hmem with hmem | ⟨-, -, -, hnot⟩
      · exact hopened c hc hmem
      · exact hnot hc
    · rcases hclosed c hmem with hmem | ⟨m₀, hm₀, hc₀, -⟩
      · exact h.opened model' m hm c hc hmem
      · exact hne (h.disjoint model' m model m₀ hm hm₀ c hc hc₀)
  · intro model' m hm
    rcases lookup_insert_eq_some.mp hm with ⟨-, rfl⟩ | ⟨-, hm⟩
    · exact hnodup
    · exact h.nodup model' m hm
  · intro model₁ m₁ model₂ m₂ hm₁ hm₂ c hc₁ hc₂
    rcases lookup_insert_eq_some.mp hm₁ with ⟨rfl, rfl⟩ | ⟨hne₁, hold₁⟩
    · rcases lookup_insert_eq_some.mp hm₂ with ⟨rfl, -⟩ | ⟨hne₂, hold₂⟩
      · rfl
      · exact absurd hc₂ (hother c hc₁ model₂ m₂ hne₂ hold₂)
    · rcases lookup_insert_eq_some.mp hm₂ with ⟨rfl, rfl⟩ | ⟨-, hold₂⟩
      · exact absurd hc₁ (hother c hc₂ model₁ m₁ hne₁ hold₁)
      · exact h.disjoint model₁ m₁ model₂ m₂ hold₁ hold₂ c hc₁ hc₂

end Channels

/-! ### The invariant -/

/-- The channel that a call waits on, or is about to. -/
def Phase.channel : Phase → Option ℕ
  | .checking w | .blocked w => some w
  | _ => none

theorem Phase.held_of_channel {w : ℕ} (h : p.channel = some w) : p.held = true := by
  cases p <;> first | rfl | cases h

structure Inv (limits : Limits) (s : State) : Prop where
  total : s.total = heldAll s.requests
  total_le : s.total ≤ limits.total
  entry : ∀ model m, s.models.lookup model = some m → Entry limits s.requests model m
  present : ∀ r ∈ s.requests, r.phase.pending = true → ∃ m, s.models.lookup r.model = some m
  channels : Channels s.models s.nextCh s.closed
  /-- A call waits on the channel that `Wake` closes next, or on a closed one. -/
  waiting : ∀ r ∈ s.requests, ∀ w, r.phase.channel = some w →
    ∀ m, s.models.lookup r.model = some m → m.wake = w ∨ w ∈ s.closed
  sound : s.crashed = false

section Steps

variable {s : State} {i : ℕ} {s' : State}

/-- A call goes on without entering or leaving anything. -/
theorem Inv.setPhase (h : Inv limits s) (hr : s.requests[i]? = some r)
    (hheld : p.held = r.phase.held) (hpending : p.pending = r.phase.pending)
    (hchannel : ∀ w, p.channel = some w → r.phase.channel = some w ∨ ∃ m, s.models.lookup r.model =
      some m ∧ m.wake = w) :
    Inv limits (s.setPhase i p) := by
  have hmem := mem_of_getElem? hr
  refine ⟨?_, h.total_le, fun model m hm => ?_, fun x hx hp => ?_, h.channels,
    fun x hx w hw m hm => ?_, h.sound⟩
  · exact h.total.trans (congrArg Nat.cast (count_advance_same hr hheld).symm)
  · have he := h.entry model m hm
    exact ⟨he.toTallies.advance_same hr hheld hpending, he.holds_le, he.caller_le, he.stop_iff,
      he.demand_ne⟩
  · rcases mem_advance hx with hx | ⟨r', hr', rfl⟩
    · exact h.present x hx hp
    · -- of the call itself: it was pending before, and waited on the same channel
      obtain rfl : r = r' := mem_unique hr hr'
      exact h.present r hmem (hpending ▸ hp)
  · rcases mem_advance hx with hx | ⟨r', hr', rfl⟩
    · exact h.waiting x hx w hw m hm
    · obtain rfl : r = r' := mem_unique hr hr'
      rcases hchannel w hw with hw | ⟨m', hm', hw⟩
      · exact h.waiting r hmem w hw m hm
      · obtain rfl : m' = m := mem_unique hm' hm
        exact .inl hw

variable {outcome : Outcome} {a : Act}

/-- The entry of a model is written, while at most one call of that model goes on. -/
theorem Inv.insert (h : Inv limits s) {m' : ModelHold}
    (hmodels : s'.models = s.models.insert model m') (htotal : s'.total = heldAll s'.requests)
    (htotal_le : s'.total ≤ limits.total) (hentry : Entry limits s'.requests model m')
    (hothers : ∀ model' m, model' ≠ model → Entry limits s.requests model' m →
      Entry limits s'.requests model' m)
    (hrequests : ∀ x ∈ s'.requests, x ∈ s.requests ∨
      (x.model = model ∧ ∀ w, x.phase.channel = some w → m'.wake = w))
    (hchannels : Channels (s.models.insert model m') s'.nextCh s'.closed)
    (hclosed : ∀ c ∈ s.closed, c ∈ s'.closed)
    (hwake : ∀ m, s.models.lookup model = some m → m'.wake = m.wake ∨ m.wake ∈ s'.closed)
    (hsound : s'.crashed = false) : Inv limits s' := by
  refine ⟨htotal, htotal_le, fun model' m hm => ?_, fun x hx hp => ?_, ?_, fun x hx w hw m hm => ?_,
    hsound⟩
  · rw [hmodels] at hm
    rcases lookup_insert_eq_some.mp hm with ⟨rfl, rfl⟩ | ⟨hne, hm⟩
    · exact hentry
    · exact hothers model' m hne (h.entry model' m hm)
  · rw [hmodels]
    by_cases hne : x.model = model
    · exact ⟨m', by rw [hne]; exact lookup_insert _⟩
    · rw [lookup_insert_of_ne _ hne]
      rcases hrequests x hx with hx | ⟨hmodel, -⟩
      · exact h.present x hx hp
      · exact absurd hmodel hne
  · rw [hmodels]
    exact hchannels
  · rw [hmodels] at hm
    rcases hrequests x hx with hx | ⟨hmodel, hnew⟩
    · rcases lookup_insert_eq_some.mp hm with ⟨hmodel, rfl⟩ | ⟨-, hm⟩
      · -- it waited on the channel of the old entry, or on a closed one
        obtain ⟨m₀, hm₀⟩ := h.present x hx (pending_of_held (held_of_channel hw))
        have hold := h.waiting x hx w hw m₀ hm₀
        rw [hmodel] at hm₀
        rcases hold with rfl | hmem
        · exact hwake m₀ hm₀
        · exact .inr (hclosed w hmem)
      · exact (h.waiting x hx w hw m hm).imp id (hclosed w)
    · rw [hmodel] at hm
      obtain rfl : m' = m := some.inj ((lookup_insert _).symm.trans hm)
      exact .inl (hnew w hw)

theorem mem_advance_of (hr : s.requests[i]? = some r) {wake : ℕ}
    (hp : ∀ w, p.channel = some w → wake = w) :
    ∀ x ∈ advance s.requests i p, x ∈ s.requests ∨
      (x.model = r.model ∧ ∀ w, x.phase.channel = some w → wake = w) := by
  intro x hx
  rcases mem_advance hx with hx | ⟨r', hr', rfl⟩
  · exact .inl hx
  · obtain rfl : r = r' := mem_unique hr hr'
    exact .inr ⟨rfl, hp⟩

/-- The entry that `enter` counts the call in: that of the model, with a health poll, or a new
one. -/
structure Prepared (limits : Limits) (s : State) (r : Request) (m : ModelHold) (nextCh : ℕ) :
    Prop where
  tallies : Tallies s.requests r.model m
  holds_lt : m.holds < limits.perModel
  caller_le : ∀ caller, caller ≠ "" → m.callers.count caller ≤ limits.perCaller
  caller_lt : r.caller ≠ "" → m.callers.count r.caller < limits.perCaller
  stop : m.stop.isSome = true
  le : s.nextCh ≤ nextCh
  channels : ∀ c ∈ m.channels, (s.nextCh ≤ c ∧ c < nextCh) ∨
    ∃ m₀, s.models.lookup r.model = some m₀ ∧ c ∈ m₀.channels
  nodup : m.channels.Nodup
  wake : ∀ m₀, s.models.lookup r.model = some m₀ → m.wake = m₀.wake

section

variable (h : Inv limits s)

include h

theorem Prepared.of_lookup (hm : s.models.lookup r.model = some m)
    (hholds : m.holds < limits.perModel)
    (hcaller : r.caller ≠ "" → m.callers.count r.caller < limits.perCaller) {stop : ℕ}
    (hstop : m.stop = some stop) : Prepared limits s r m s.nextCh := by
  have he := h.entry _ m hm
  refine ⟨he.toTallies, hholds, he.caller_le, hcaller, by rw [hstop]; rfl, le_rfl,
    fun c hc => .inr ⟨m, hm, hc⟩, h.channels.nodup _ m hm, fun m₀ hm₀ => ?_⟩
  rw [mem_unique hm₀ hm]

theorem Prepared.of_stopped (hm : s.models.lookup r.model = some m)
    (hholds : m.holds < limits.perModel)
    (hcaller : r.caller ≠ "" → m.callers.count r.caller < limits.perCaller) :
    Prepared limits s r { m with stop := some s.nextCh } (s.nextCh + 1) := by
  have he := h.entry _ m hm
  have hwake : m.wake ∈ m.channels := mem_cons_self
  have hlt := h.channels.lt _ m hm _ hwake
  refine ⟨⟨he.holds, he.callers, he.demand⟩, hholds, he.caller_le, hcaller, rfl, le_succ _,
    fun c hc => ?_, ?_, fun m₀ hm₀ => ?_⟩
  · rcases mem_cons.mp hc with rfl | hc
    · exact .inr ⟨m, hm, hwake⟩
    · obtain rfl := mem_singleton.mp hc
      exact .inl ⟨le_rfl, lt_succ_self _⟩
  · exact nodup_cons.mpr ⟨fun hmem => hlt.ne (mem_singleton.mp hmem), nodup_singleton _⟩
  · rw [mem_unique hm₀ hm]

theorem Prepared.of_none (hm : s.models.lookup r.model = none)
    (hmodel : 0 < limits.perModel) (hcaller : 0 < limits.perCaller) :
    Prepared limits s r ⟨0, ∅, ∅, s.nextCh, some (s.nextCh + 1)⟩ (s.nextCh + 2) := by
  have hzero : Tallies s.requests r.model ⟨0, ∅, ∅, s.nextCh, none⟩ := by
    refine .fresh s.nextCh fun x hx hp heq => ?_
    obtain ⟨m, hm'⟩ := h.present x hx hp
    rw [heq, hm] at hm'
    cases hm'
  refine ⟨⟨hzero.holds, hzero.callers, hzero.demand⟩, hmodel, fun c _ => hcaller.le,
    fun _ => hcaller, rfl, le_add_right _ _, fun c hc => .inl ?_, ?_, fun m₀ hm₀ => ?_⟩
  · rcases mem_cons.mp hc with hc | hc
    · rw [hc]
      exact ⟨le_rfl, Nat.lt_add_of_pos_right two_pos⟩
    · rw [mem_singleton.mp hc]
      exact ⟨Nat.le_succ _, lt_succ_self _⟩
  · exact nodup_cons.mpr ⟨fun hmem => (lt_succ_self _).ne (mem_singleton.mp hmem),
      nodup_singleton _⟩
  · rw [hm] at hm₀
    cases hm₀

theorem Inv.enter_eq (hmodel : 0 < limits.perModel)
    (hcaller : 0 < limits.perCaller) (hfull : s.full limits r = false) :
    ∃ m polls nextCh, Prepared limits s r m nextCh ∧
      s.enter limits i r = ⟨s.total + 1, s.models.insert r.model ⟨m.holds + 1,
        m.callers.inc r.caller, m.demand.inc r.key, m.wake, m.stop⟩,
        advance s.requests i (.checking m.wake), polls, nextCh, s.closed, s.crashed⟩ := by
  have heq : s.enter limits i r = _ := if_neg (by rw [hfull]; exact Bool.false_ne_true)
  rw [heq]
  unfold full at hfull
  rw [Bool.or_eq_false_iff] at hfull
  cases hm : s.models.lookup r.model with
  -- the entry is made here, with two new channels, and its health poll starts
  | none =>
    refine ⟨_, s.polls ++ [⟨r.model, s.nextCh + 1, .ticking⟩], _, .of_none h hm hmodel hcaller, ?_⟩
    simp only [State.entry, hm, startPoll]
    rfl
  | some m =>
    rw [hm] at hfull
    have hlimits := hfull.2
    simp only [any_some, Bool.or_eq_false_iff, Bool.and_eq_false_iff, decide_eq_false_iff_not,
      not_le, not_not] at hlimits
    have hlt : r.caller ≠ "" → m.callers.count r.caller < limits.perCaller :=
      fun hne => hlimits.2.resolve_left hne
    cases hstop : m.stop with
    -- the last held call has stopped the poll, so that it starts again
    | none =>
      refine ⟨_, s.polls ++ [⟨r.model, s.nextCh, .ticking⟩], _, .of_stopped h hm hlimits.1 hlt, ?_⟩
      simp only [State.entry, hm, startPoll, hstop]
      rfl
    | some =>
      refine ⟨_, s.polls, _, .of_lookup h hm hlimits.1 hlt hstop, ?_⟩
      simp only [State.entry, hm, startPoll, hstop]
      rfl

theorem Inv.enter (hmodel : 0 < limits.perModel)
    (hcaller : 0 < limits.perCaller) (hr : s.requests[i]? = some r) (hphase : r.phase = .arrived) :
    Inv limits (s.enter limits i r) := by
  cases hfull : s.full limits r with
  | true =>
    -- a refused call has counted nowhere
    have heq : s.enter limits i r = s.setPhase i (.returned .full) := if_pos hfull
    rw [heq]
    refine h.setPhase hr ?_ ?_ nofun <;> rw [hphase] <;> rfl
  | false =>
    have htotal : s.total < limits.total := by
      unfold full at hfull
      rw [Bool.or_eq_false_iff] at hfull
      exact not_le.mp (of_decide_eq_false hfull.1)
    obtain ⟨m, polls, nextCh, hprep, heq⟩ := h.enter_eq (i := i) hmodel hcaller hfull
    rw [heq]
    -- the entry is the same but for one more call, on either side of every equation
    have hpending : r.phase.pending = false := by rw [hphase]; rfl
    have hadvance := getElem?_advance hr (.checking m.wake)
    have htallies := hprep.tallies.enter hr hpending (p := .checking m.wake) rfl m.wake m.stop
    refine h.insert rfl ?_ (Int.add_one_le_iff.mpr htotal) ⟨htallies, ?_, ?_, ?_, ?_⟩ ?_ ?_ ?_
      (fun _ => id) (fun m₀ hm₀ => .inl (hprep.wake m₀ hm₀)) h.sound
    · show s.total + 1 = (heldAll (advance s.requests i (.checking m.wake)) : ℤ)
      rw [heldAll, count_advance_gain hr (by rw [hphase]; rfl) rfl, if_pos rfl, h.total]
      rfl
    · exact Int.add_one_le_iff.mpr hprep.holds_lt
    · intro c hc
      have hcount := (hprep.tallies.callers.inc r.caller).count_eq c
      have hold := hprep.tallies.callers.count_eq c
      rw [update_apply] at hcount
      show (m.callers.inc r.caller).count c ≤ _
      rw [hcount]
      split_ifs with hcase
      · -- the caller's own count, which was below the limit
        subst hcase
        have := hprep.caller_lt hc
        push_cast
        omega
      · rw [← hold]
        exact hprep.caller_le c hc
    · refine iff_of_true hprep.stop ?_
      show 0 < m.holds + 1
      rw [hprep.tallies.holds]
      omega
    · exact htallies.card_ne_zero (r := { r with phase := .checking m.wake })
        (mem_of_getElem? hadvance) rfl
    · exact fun model' m' hne he => he.advance hr (Ne.symm hne) _
    · exact mem_advance_of hr fun w hw => some.inj hw
    · exact h.channels.insert hprep.le hprep.channels hprep.nodup (fun c hc => .inl hc)
        h.channels.closed_nodup

end

theorem removeIfIdle_of_ne (h : m.demand.keys.card ≠ 0) : s.removeIfIdle model m = s :=
  if_neg fun hidle => h hidle.2

theorem close_of_not_mem {ch : ℕ} (h : ch ∉ s.closed) :
    s.close ch = { s with closed := ch :: s.closed } :=
  if_neg h

section

variable (h : Inv limits s)

include h

section

variable (hr : s.requests[i]? = some r)

include hr

/-- What `leave` does to a held call: the last one stops the health poll. -/
theorem Inv.leave_eq (hphase : r.phase = .leaving outcome) :
    ∃ m p stop closed, s.models.lookup r.model = some m ∧ p.held = false ∧ p.pending = true ∧
      p.channel = none ∧ (isSome stop = true ↔ 0 < m.holds - 1) ∧
      ((stop = m.stop ∧ closed = s.closed) ∨
        ∃ ch, stop = none ∧ m.stop = some ch ∧ closed = ch :: s.closed) ∧
      s.leave i r outcome = ⟨s.total - 1, s.models.insert r.model ⟨m.holds - 1,
        m.callers.dec r.caller, m.demand, m.wake, stop⟩, advance s.requests i p, s.polls,
        s.nextCh, closed, s.crashed⟩ := by
  have hmem := mem_of_getElem? hr
  have hheld : r.phase.held = true := by rw [hphase]; rfl
  obtain ⟨m, hm⟩ := h.present r hmem (pending_of_held hheld)
  have he := h.entry _ m hm
  -- the call itself is still counted, so that the poll runs
  have hpos : 0 < m.holds := by
    have hcount : 0 < heldBy s.requests r.model :=
      count_pos_iff.mpr ⟨r, hmem, hheld, decide_eq_true rfl⟩
    rw [he.holds]
    omega
  obtain ⟨ch, hch⟩ := isSome_iff_exists.mp (he.stop_iff.mpr hpos)
  have hopen : ch ∉ s.closed :=
    h.channels.opened _ m hm ch (by rw [ModelHold.channels, hch]; exact .tail _ (.head _))
  let p : Phase := if outcome = .woken then .released false else .leavingDemand outcome
  have hp : p.held = false ∧ p.pending = true ∧ p.channel = none := by
    show (ite _ _ _ : Phase).held = false ∧ (ite _ _ _ : Phase).pending = true ∧
      (ite _ _ _ : Phase).channel = none
    split_ifs <;> exact ⟨rfl, rfl, rfl⟩
  -- only the last held call stops the poll, and its channel is open
  by_cases hlast : m.holds - 1 = 0
  · refine ⟨m, p, none, ch :: s.closed, hm, hp.1, hp.2.1, hp.2.2, ?_, .inr ⟨ch, rfl, hch, rfl⟩, ?_⟩
    · exact iff_of_false nofun hlast.not_gt
    · unfold leave
      simp only [hm, hch, if_pos hlast]
      rw [removeIfIdle_of_ne (by exact he.demand_ne), close_of_not_mem (by exact hopen)]
      rfl
  · refine ⟨m, p, m.stop, s.closed, hm, hp.1, hp.2.1, hp.2.2, ?_, .inl ⟨rfl, rfl⟩, ?_⟩
    · exact iff_of_true (he.stop_iff.mpr hpos) (by omega)
    · unfold leave
      simp only [hm, if_neg hlast]
      rw [removeIfIdle_of_ne (by exact he.demand_ne)]
      rfl

theorem Inv.leave (hphase : r.phase = .leaving outcome) : Inv limits (s.leave i r outcome) := by
  have hheld : r.phase.held = true := by rw [hphase]; rfl
  obtain ⟨m, p, stop, closed, hm, hp, hpending, hchannel, hstop, hclosed, heq⟩ :=
    h.leave_eq hr hphase
  rw [heq]
  have he := h.entry _ m hm
  have htallies := he.toTallies.leave hr hheld hp hpending stop
  -- no channel is opened again
  have hsub : ∀ c ∈ s.closed, c ∈ closed := by
    rcases hclosed with ⟨-, rfl⟩ | ⟨ch, -, -, rfl⟩
    · exact fun _ => id
    · exact fun _ => .tail _
  refine h.insert rfl ?_ (by have := h.total_le; dsimp only; omega)
    ⟨htallies, by have := he.holds_le; dsimp only; omega, ?_, hstop, he.demand_ne⟩ ?_ ?_ ?_ hsub
    (fun m₀ hm₀ => .inl (by rw [← mem_unique hm hm₀])) h.sound
  · have hloss := count_advance_loss (q := fun _ _ => true) hr hheld hp
    rw [if_pos rfl] at hloss
    show s.total - 1 = (heldAll (advance s.requests i p) : ℤ)
    rw [h.total, heldAll, heldAll, ← hloss]
    push_cast
    omega
  · intro c hc
    have hnew := htallies.callers.count_eq c
    have hold := he.callers.count_eq c
    have hle : heldByCaller (advance s.requests i p) r.model c ≤
        heldByCaller s.requests r.model c := by
      have hloss := count_advance_loss (q := fun m key => m = r.model && key.1 = c) hr hheld hp
      unfold heldByCaller
      omega
    have := he.caller_le c hc
    omega
  · exact fun model' m' hne he => he.advance hr (Ne.symm hne) _
  · exact mem_advance_of hr fun w hw => by rw [hchannel] at hw; cases hw
  · have hnodup := h.channels.nodup _ m hm
    have hopened := h.channels.opened _ m hm
    rcases hclosed with ⟨rfl, rfl⟩ | ⟨ch, rfl, hch, rfl⟩
    · exact h.channels.insert le_rfl (fun c hc => .inr ⟨m, hm, hc⟩) hnodup (fun c hc => .inl hc)
        h.channels.closed_nodup
    · have hmem : ch ∈ m.channels := by rw [ModelHold.channels, hch]; exact .tail _ (.head _)
      -- the channel that stops the poll is not the one the calls wait on
      have hne : ch ≠ m.wake := by
        rw [ModelHold.channels, hch] at hnodup
        exact fun heq => (nodup_cons.mp hnodup).1 (by rw [heq]; exact .head _)
      refine h.channels.insert le_rfl (fun c hc => .inr ⟨m, hm, ?_⟩) (nodup_singleton _)
        (fun c hc => ?_) (nodup_cons.mpr ⟨hopened ch hmem, h.channels.closed_nodup⟩)
      · rw [mem_singleton.mp hc]
        exact .head _
      · rcases mem_cons.mp hc with rfl | hc
        · exact .inr ⟨m, hm, hmem, fun hwake => hne (mem_singleton.mp hwake)⟩
        · exact .inl hc

/-- The entry of a model is removed, when its last pending call goes on. -/
theorem Inv.erase (hheld : r.phase.held = false)
    (hp : p.pending = false) (hidle : ∀ key, pendingBy (advance s.requests i p) r.model key = 0) :
    Inv limits { s with
      models := s.models.erase r.model, requests := advance s.requests i p } := by
  have hp' := held_of_not_pending hp
  -- a call that is still pending is one of another model
  have hpend : ∀ x ∈ advance s.requests i p, x.phase.pending = true →
      x.model ≠ r.model ∧ x ∈ s.requests := by
    intro x hx hpx
    refine ⟨fun heq => ?_, ?_⟩
    · refine (count_pos_iff.mpr ⟨x, hx, hpx, ?_⟩ : 0 < pendingBy _ r.model x.key).ne' (hidle x.key)
      rw [heq, decide_model_and]
      exact decide_eq_true rfl
    · rcases mem_advance hx with hx | ⟨r', -, rfl⟩
      · exact hx
      · rw [hp] at hpx
        cases hpx
  refine ⟨?_, h.total_le, fun model m hm => ?_, fun x hx hpx => ?_, h.channels.erase r.model,
    fun x hx w hw m hm => ?_, h.sound⟩
  · exact h.total.trans (congrArg Nat.cast (count_advance_same hr (hp'.trans hheld.symm)).symm)
  · obtain ⟨hne, hm⟩ := lookup_erase_eq_some.mp hm
    exact (h.entry model m hm).advance hr (Ne.symm hne) p
  · obtain ⟨hne, hx⟩ := hpend x hx hpx
    obtain ⟨m, hm⟩ := h.present x hx hpx
    exact ⟨m, lookup_erase_eq_some.mpr ⟨hne, hm⟩⟩
  · obtain ⟨-, hx⟩ := hpend x hx (pending_of_held (held_of_channel hw))
    exact h.waiting x hx w hw m (lookup_erase_eq_some.mp hm).2

theorem Inv.leaveDemand
    (hheld : r.phase.held = false) (hpending : r.phase.pending = true) (hp : p.pending = false) :
    Inv limits (s.leaveDemand i r p) := by
  obtain ⟨m, hm⟩ := h.present r (mem_of_getElem? hr) hpending
  have he := h.entry _ m hm
  have htallies := he.toTallies.leaveDemand hr hheld hpending hp
  have hp' := held_of_not_pending hp
  unfold State.leaveDemand
  simp only [hm]
  unfold removeIfIdle
  split_ifs with hidle
  · -- the entry goes with the last pending call of its model
    have hzero : ∀ key, pendingBy (advance s.requests i p) r.model key = 0 := by
      intro key
      by_contra hne
      have hkey := htallies.demand.mem_keys.mpr hne
      exact Finset.card_ne_zero_of_mem hkey hidle.2
    have herase : (s.models.insert r.model { m with demand := m.demand.dec r.key }).erase r.model =
        s.models.erase r.model := by
      refine ext_lookup fun model => ?_
      by_cases hne : model = r.model
      · rw [hne, lookup_erase, lookup_erase]
      · rw [lookup_erase_ne hne, lookup_erase_ne hne, lookup_insert_of_ne _ hne]
    have hinv := h.erase hr hheld hp hzero
    rw [← herase] at hinv
    exact hinv
  · have hdemand : (m.demand.dec r.key).keys.card ≠ 0 := by
      intro hzero
      -- some call is held, and a held call is pending
      have hholds : m.holds ≠ 0 := fun heq => hidle ⟨heq, hzero⟩
      have hcount : 0 < heldBy (advance s.requests i p) r.model := by
        have := htallies.holds
        dsimp only at this
        omega
      obtain ⟨x, hx, hxheld, hxmodel⟩ := count_pos_iff.mp hcount
      rw [decide_eq_true_iff] at hxmodel
      rw [← hxmodel] at htallies
      exact htallies.card_ne_zero hx (pending_of_held hxheld) hzero
    refine h.insert rfl ?_ h.total_le ⟨htallies, he.holds_le, he.caller_le, he.stop_iff, hdemand⟩
      ?_ ?_ ?_ (fun _ => id)
      (fun m₀ hm₀ => .inl (by rw [← mem_unique hm hm₀])) h.sound
    · exact h.total.trans (congrArg Nat.cast (count_advance_same hr (hp'.trans hheld.symm)).symm)
    · exact fun model' m' hne he => he.advance hr (Ne.symm hne) _
    · refine mem_advance_of hr fun w hw => ?_
      rw [held_of_channel hw] at hp'
      cases hp'
    · exact h.channels.insert le_rfl (fun c hc => .inr ⟨m, hm, hc⟩) (h.channels.nodup _ m hm)
        (fun c hc => .inl hc) h.channels.closed_nodup

end

theorem Inv.wake (model : String) : Inv limits (s.wake model) := by
  unfold State.wake
  cases hm : s.models.lookup model with
  | none => exact h
  | some m =>
    have he := h.entry _ m hm
    have hwake : m.wake ∈ m.channels := .head _
    -- the channel is closed and replaced: what waits on it can receive
    have hopen := h.channels.opened _ m hm m.wake hwake
    have hlt := h.channels.lt _ m hm
    have hnodup := nodup_cons.mp (h.channels.nodup _ m hm)
    dsimp only
    rw [close_of_not_mem hopen]
    refine h.insert rfl h.total h.total_le ⟨⟨he.holds, he.callers, he.demand⟩, he.holds_le,
      he.caller_le, he.stop_iff, he.demand_ne⟩ (fun _ _ _ => id) (fun x hx => .inl hx) ?_
      (fun _ => .tail _) (fun m₀ hm₀ => .inr ?_) h.sound
    · refine h.channels.insert (le_succ _) (fun c hc => ?_) ?_ (fun c hc => ?_)
        (nodup_cons.mpr ⟨hopen, h.channels.closed_nodup⟩)
      · rcases mem_cons.mp hc with rfl | hc
        · exact .inl ⟨le_rfl, lt_succ_self _⟩
        · exact .inr ⟨m, hm, .tail _ hc⟩
      · exact nodup_cons.mpr ⟨fun hmem => (hlt _ (.tail _ hmem)).false, hnodup.2⟩
      · rcases mem_cons.mp hc with rfl | hc
        · refine .inr ⟨m, hm, hwake, fun hmem => ?_⟩
          rcases mem_cons.mp hmem with heq | hmem
          · exact (hlt _ hwake).ne heq
          · exact hnodup.1 hmem
        · exact .inl hc
    · rw [← mem_unique hm hm₀]
      exact .head _

/-- A new call has entered nothing. -/
theorem Inv.hold (model caller requestID : String) :
    Inv limits { s with requests := s.requests ++ [⟨model, caller, requestID, .arrived⟩] } := by
  have hsame : ∀ (flag : Phase → Bool) (q : String → String × String → Bool),
      flag .arrived = false →
      count flag q (s.requests ++ [⟨model, caller, requestID, .arrived⟩]) =
        count flag q s.requests := by
    intro flag q hflag
    rw [count_append]
    show _ + countP _ [_] = _
    rw [countP_singleton, hflag]
    rfl
  refine ⟨?_, h.total_le, fun model' m hm => ?_, fun x hx hp => ?_, h.channels,
    fun x hx w hw m hm => ?_, h.sound⟩
  · exact h.total.trans (congrArg Nat.cast (hsame _ _ rfl).symm)
  · have he := h.entry model' m hm
    exact ⟨⟨he.holds.trans (congrArg Nat.cast (hsame _ _ rfl).symm),
      he.callers.congr fun c => hsame _ _ rfl, he.demand.congr fun k => hsame _ _ rfl⟩,
      he.holds_le, he.caller_le, he.stop_iff, he.demand_ne⟩
  · rcases mem_append.mp hx with hx | hx
    · exact h.present x hx hp
    · rw [mem_singleton.mp hx] at hp
      cases hp
  · rcases mem_append.mp hx with hx | hx
    · exact h.waiting x hx w hw m hm
    · rw [mem_singleton.mp hx] at hw
      cases hw

end

/-- What a step of a call does. -/
inductive Effect (limits : Limits) (s : State) (i : ℕ) (r : Request) (a : Act) : State → Prop
  | enter (hphase : r.phase = .arrived) : Effect limits s i r a (s.enter limits i r)
  | setPhase (p : Phase) (hheld : r.phase.held = true) (hp : p.held = true)
      (hchannel : ∀ w, p.channel = some w → r.phase.channel = some w)
      (hblocked : ∀ w, p = .blocked w → ∃ j healthy, a = .check j healthy) :
      Effect limits s i r a (s.setPhase i p)
  | wakeChan (hphase : r.phase = .woke) : Effect limits s i r a (s.wakeChan i r)
  | leave (outcome : Outcome) (hphase : r.phase = .leaving outcome) :
      Effect limits s i r a (s.leave i r outcome)
  | leaveDemand (p : Phase) (hheld : r.phase.held = false) (hpending : r.phase.pending = true)
      (hp : p.pending = false) : Effect limits s i r a (s.leaveDemand i r p)
  | idle : Effect limits s i r a s

theorem stepRequest_effect (h : s.stepRequest limits i r a = some s') :
    Effect limits s i r a s' := by
  cases a with
  | enter =>
    obtain ⟨hphase, heq⟩ := ite_none_right_eq_some.mp h
    cases heq
    exact .enter hphase
  | check j healthy =>
    unfold stepRequest at h
    cases hphase : r.phase <;> rw [hphase] at h <;> cases h
    -- a healthy model ends the wait, else the call blocks on the channel it has
    refine .setPhase _ (by rw [hphase]; rfl) ?_ ?_ fun _ _ => ⟨j, healthy, rfl⟩
    · cases healthy <;> rfl
    · rw [hphase]
      cases healthy
      · exact fun _ => id
      · exact nofun
  | receive =>
    unfold stepRequest at h
    cases hphase : r.phase <;> rw [hphase] at h <;> try cases h
    obtain ⟨-, heq⟩ := ite_none_right_eq_some.mp h
    cases heq
    exact .setPhase _ (by rw [hphase]; rfl) rfl nofun nofun
  | wakeChan =>
    obtain ⟨hphase, heq⟩ := ite_none_right_eq_some.mp h
    cases heq
    exact .wakeChan hphase
  | keepAlive j ok =>
    unfold stepRequest at h
    cases hphase : r.phase <;> rw [hphase] at h <;> cases h
    -- the call asks again on the same channel, or is gone
    refine .setPhase _ (by rw [hphase]; rfl) ?_ ?_ ?_
    · cases ok <;> rfl
    · rw [hphase]
      cases ok
      · exact nofun
      · exact fun _ => id
    · cases ok <;> exact nofun
  | budget j healthy | cancel j =>
    unfold stepRequest at h
    cases hphase : r.phase <;> rw [hphase] at h <;> cases h
    exact .setPhase _ (by rw [hphase]; rfl) rfl nofun nofun
  | leave =>
    unfold stepRequest at h
    cases hphase : r.phase <;> rw [hphase] at h <;> cases h
    exact .leave _ hphase
  | leaveDemand =>
    unfold stepRequest at h
    cases hphase : r.phase <;> rw [hphase] at h <;> cases h
    exact .leaveDemand _ (by rw [hphase]; rfl) (by rw [hphase]; rfl) rfl
  | release =>
    unfold stepRequest at h
    cases hphase : r.phase with
    | released answered =>
      -- the second of the two calls of the release function does nothing
      cases answered <;> rw [hphase] at h <;> cases h
      · exact .leaveDemand _ (by rw [hphase]; rfl) (by rw [hphase]; rfl) rfl
      · exact .idle
    | returned =>
      rw [hphase] at h
      cases h
      exact .idle
    | _ => rw [hphase] at h; cases h
  | _ => cases h

/-- The steps of a call keep the invariant. -/
theorem Inv.effect (h : Inv limits s) (hmodel : 0 < limits.perModel)
    (hcaller : 0 < limits.perCaller) (hr : s.requests[i]? = some r)
    (heffect : Effect limits s i r a s') : Inv limits s' := by
  cases heffect with
  | enter hphase => exact h.enter hmodel hcaller hr hphase
  | setPhase p hheld hp hchannel _ =>
    refine h.setPhase hr (hp.trans hheld.symm) ?_ fun w hw => .inl (hchannel w hw)
    rw [pending_of_held hp, pending_of_held hheld]
  | wakeChan hphase =>
    have hheld : r.phase.held = true := by rw [hphase]; rfl
    obtain ⟨m, hm⟩ := h.present r (mem_of_getElem? hr) (pending_of_held hheld)
    unfold wakeChan
    simp only [hm]
    refine h.setPhase hr hheld.symm ?_ fun w hw => .inr ⟨m, hm, some.inj hw⟩
    rw [pending_of_held hheld]
    rfl
  | leave outcome hphase => exact h.leave hr hphase
  | leaveDemand p hheld hpending hp => exact h.leaveDemand hr hheld hpending hp
  | idle => exact h

/-- The model for which the step calls `Wake`. -/
def Act.wakes (s : State) : Act → Option String
  | .wake model => some model
  | .pollWake k => s.polls[k]?.map Poll.model
  | _ => none

inductive StepEffect (limits : Limits) (s : State) (a : Act) : State → Prop
  | hold (model caller requestID : String) (hwakes : a.wakes s = none) :
      StepEffect limits s a
        { s with requests := s.requests ++ [⟨model, caller, requestID, .arrived⟩] }
  | request (i : ℕ) (r : Request) (hactor : a.actor = some (.inl i)) (hwakes : a.wakes s = none)
      (hr : s.requests[i]? = some r) (s' : State) (heffect : Effect limits s i r a s') :
      StepEffect limits s a s'
  | wake (model : String) (hwakes : a.wakes s = some model) (polls : List Poll) :
      StepEffect limits s a { s.wake model with polls }
  | poll (hwakes : a.wakes s = none) (polls : List Poll) : StepEffect limits s a { s with polls }

theorem step_effect (h : (holder limits).step s a = some s') : StepEffect limits s a s' := by
  have hstep : step limits s a = some s' := h
  obtain ⟨-, hstep⟩ := ite_none_left_eq_some.mp hstep
  cases a with
  | hold model caller requestID =>
    cases hstep
    exact .hold model caller requestID rfl
  | wake model =>
    cases hstep
    exact .wake model rfl _
  | pollTick k healthy =>
    obtain ⟨p, -, hstep⟩ := bind_eq_some_iff.mp hstep
    obtain ⟨-, heq⟩ := ite_none_right_eq_some.mp hstep
    cases heq
    cases healthy
    · exact .poll rfl s.polls
    · exact .poll rfl _
  | pollWake k =>
    obtain ⟨p, hp, hstep⟩ := bind_eq_some_iff.mp hstep
    obtain ⟨-, heq⟩ := ite_none_right_eq_some.mp hstep
    cases heq
    refine .wake p.model ?_ _
    show s.polls[k]?.map Poll.model = _
    rw [hp]
    rfl
  | pollStop =>
    obtain ⟨p, -, hstep⟩ := bind_eq_some_iff.mp hstep
    obtain ⟨-, heq⟩ := ite_none_right_eq_some.mp hstep
    cases heq
    exact .poll rfl _
  | enter i | check i healthy | receive i | wakeChan i | keepAlive i ok | budget i healthy
  | cancel i | leave i | leaveDemand i | release i =>
    obtain ⟨r, hr, hstep⟩ := bind_eq_some_iff.mp hstep
    exact .request i r rfl rfl hr s' (stepRequest_effect hstep)

/-- Every step keeps the invariant. -/
theorem Inv.step (h : Inv limits s) (hmodel : 0 < limits.perModel)
    (hcaller : 0 < limits.perCaller) (hstep : (holder limits).step s a = some s') :
    Inv limits s' := by
  cases step_effect hstep with
  | hold model caller requestID => exact h.hold model caller requestID
  | request i r _ _ hr _ heffect => exact h.effect hmodel hcaller hr heffect
  | wake model => exact { h.wake model with }
  | poll => exact { h with }

theorem Inv.init (htotal : 0 ≤ limits.total) : Inv limits ⟨0, ∅, [], [], 0, [], false⟩ := by
  refine ⟨rfl, htotal, nofun, nofun, ⟨nofun, nofun, nofun, nofun, nofun, nodup_nil⟩, nofun, rfl⟩

end Steps

theorem inv_of_reachable (hmodel : 0 < limits.perModel) (hcaller : 0 < limits.perCaller)
    (htotal : 0 < limits.total) {s : State} (hs : (holder limits).Reachable s) : Inv limits s := by
  refine hs.induction ?_ fun _ _ _ h hstep => h.step hmodel hcaller hstep
  rintro _ rfl
  exact .init htotal.le

end HivenetRouter.Wake
