import HivenetRouter.Wake.HolderInvariant

/-!
# What the wake holder guarantees

`holder_sound` draws the conclusions of the invariant: the counters add up and stay within the
limits, `Demand` is the number of different pending requests, the health poll of a model runs
while a request is held for it, its entry is there while something is pending, and a request that
was held when `Wake` was called does not stay blocked.

The pending demand counts a call a little longer than the hold limits do: one whose hold has ended
without the model waking leaves the hold in one locked section and the demand in the next. In
between it is neither held nor released, and `Demand` still reports it (`demand_departing`).
-/

namespace HivenetRouter.Wake

open Finmap List Option Phase State

def pairs (flag : Phase → Bool) (rs : List Request) (model : String) : Finset (String × String) :=
  ((rs.filter fun r => flag r.phase && r.model = model).map Request.key).toFinset

/-- The holds of a model; zero for one that is not in the map. -/
def State.holds (s : State) (model : String) : ℤ :=
  ((s.models.lookup model).map ModelHold.holds).getD 0

structure Sound (limits : Limits) (s : State) : Prop where
  total_eq : s.total = ∑ model ∈ s.models.keys, s.holds model
  total_le : s.total ≤ limits.total
  holds_calls : ∀ model m, s.models.lookup model = some m → m.holds = heldBy s.requests model
  holds_eq : ∀ model m, s.models.lookup model = some m →
    m.holds = ∑ caller ∈ m.callers.keys, m.callers.count caller
  holds_le : ∀ model m, s.models.lookup model = some m → m.holds ≤ limits.perModel
  caller_le : ∀ model m, s.models.lookup model = some m → ∀ caller, caller ≠ "" →
    m.callers.count caller ≤ limits.perCaller
  demand_eq : ∀ model, s.demand model = (pairs pending s.requests model).card
  stop_iff : ∀ model m, s.models.lookup model = some m →
    (m.stop.isSome = true ↔ 0 < heldBy s.requests model)
  /-- No channel was closed twice. -/
  closed_nodup : s.closed.Nodup
  entry_iff : ∀ model, model ∈ s.models ↔
    0 < heldBy s.requests model ∨ (pairs pending s.requests model).Nonempty
  sound : s.crashed = false

section

variable {limits : Limits} {s : State} {model : String} {rs : List Request} {key : String × String}

theorem mem_pairs {flag : Phase → Bool} :
    key ∈ pairs flag rs model ↔ ∃ r ∈ rs, flag r.phase = true ∧ r.model = model ∧ r.key = key := by
  rw [pairs, List.mem_toFinset, List.mem_map]
  simp only [mem_filter, Bool.and_eq_true, decide_eq_true_eq, and_assoc]

theorem pendingBy_ne_zero_iff :
    pendingBy rs model key ≠ 0 ↔ key ∈ pairs pending rs model := by
  rw [mem_pairs, ← Nat.pos_iff_ne_zero, pendingBy, count_pos_iff]
  simp only [Bool.and_eq_true, decide_eq_true_eq]

variable {m : ModelHold} {i : ℕ} {r : Request} {a : Act} {s' : State}

section

variable (h : Inv limits s)

include h

theorem Inv.demand_keys (hm : s.models.lookup model = some m) :
    m.demand.keys = pairs pending s.requests model := by
  ext key
  rw [(h.entry model m hm).demand.mem_keys]
  exact pendingBy_ne_zero_iff

/-- Without an entry nothing is pending. -/
theorem Inv.pairs_of_none (hm : s.models.lookup model = none) :
    pairs pending s.requests model = ∅ := by
  refine Finset.eq_empty_of_forall_notMem fun key hkey => ?_
  obtain ⟨r, hr, hp, rfl, -⟩ := mem_pairs.mp hkey
  obtain ⟨m, hm'⟩ := h.present r hr hp
  rw [hm] at hm'
  cases hm'

theorem Inv.demand_eq (model : String) :
    s.demand model = (pairs pending s.requests model).card := by
  unfold demand
  cases hm : s.models.lookup model with
  | none =>
    rw [h.pairs_of_none hm]
    rfl
  | some =>
    rw [← h.demand_keys hm]
    rfl

theorem Inv.entry_iff (model : String) : model ∈ s.models ↔
      0 < heldBy s.requests model ∨ (pairs pending s.requests model).Nonempty := by
  constructor
  · intro hmem
    obtain ⟨m, hm⟩ := mem_iff.mp hmem
    have hne := (h.entry model m hm).demand_ne
    rw [h.demand_keys hm] at hne
    exact .inr (Finset.card_pos.mp (Nat.pos_of_ne_zero hne))
  · intro hcalls
    have hpending : ∃ r ∈ s.requests, r.phase.pending = true ∧ r.model = model := by
      rcases hcalls with hheld | ⟨key, hkey⟩
      · obtain ⟨r, hr, hp, hmodel⟩ := count_pos_iff.mp hheld
        exact ⟨r, hr, pending_of_held hp, of_decide_eq_true hmodel⟩
      · obtain ⟨r, hr, hp, hmodel, -⟩ := mem_pairs.mp hkey
        exact ⟨r, hr, hp, hmodel⟩
    obtain ⟨r, hr, hp, rfl⟩ := hpending
    exact mem_iff.mpr (h.present r hr hp)

theorem Inv.total_eq : s.total = ∑ model ∈ s.models.keys, s.holds model := by
  have hsum : heldAll s.requests = ∑ model ∈ s.models.keys, heldBy s.requests model := by
    have hsplit := countP_eq_sum (fun r : Request => r.phase.held && true) Request.model
      (s := s.models.keys) s.requests fun r hr hp => by
        rw [Bool.and_true] at hp
        exact mem_keys.mpr (mem_iff.mpr (h.present r hr (pending_of_held hp)))
    simp only [Bool.and_true] at hsplit
    simp only [heldAll, heldBy, count, Bool.and_true]
    exact hsplit
  rw [h.total, hsum, Nat.cast_sum]
  refine Finset.sum_congr rfl fun model hmodel => ?_
  obtain ⟨m, hm⟩ := mem_iff.mp (mem_keys.mp hmodel)
  rw [holds, hm]
  exact (h.entry model m hm).holds.symm

theorem Inv.holds_eq (hm : s.models.lookup model = some m) :
    m.holds = ∑ caller ∈ m.callers.keys, m.callers.count caller := by
  have he := h.entry model m hm
  have hsum : heldBy s.requests model =
      ∑ caller ∈ m.callers.keys, heldByCaller s.requests model caller := by
    have hsplit := countP_eq_sum (fun r : Request => r.phase.held && decide (r.model = model))
      Request.caller (s := m.callers.keys) s.requests fun r hr hp => by
        obtain ⟨hheld, hmodel⟩ := Bool.and_eq_true_iff.mp hp
        refine he.callers.mem_keys.mpr
          (Nat.pos_iff_ne_zero.mp (count_pos_iff.mpr ⟨r, hr, hheld, ?_⟩))
        rw [hmodel, Bool.true_and]
        exact decide_eq_true rfl
    simp only [Bool.and_assoc] at hsplit
    exact hsplit
  rw [he.callers.sum_count (fun k hk => he.callers.mem_keys.mpr hk), ← hsum]
  exact he.holds

theorem Inv.toSound : Sound limits s where
  total_eq := h.total_eq
  total_le := h.total_le
  holds_calls model m hm := (h.entry model m hm).holds
  holds_eq model m hm := h.holds_eq hm
  holds_le model m hm := (h.entry model m hm).holds_le
  caller_le model m hm := (h.entry model m hm).caller_le
  demand_eq := h.demand_eq
  stop_iff model m hm := by
    have he := h.entry model m hm
    rw [he.stop_iff, he.holds]
    exact Int.natCast_pos
  closed_nodup := h.channels.closed_nodup
  entry_iff := h.entry_iff
  sound := h.sound

end

/-! ### After a wake -/

/-- Call `i` does not wait on an open channel. -/
def NotStuck (s : State) (i : ℕ) : Prop :=
  ∀ r w, s.requests[i]? = some r → r.phase = .blocked w → w ∈ s.closed

variable (h : Inv limits s)

include h

/-- Channels stay closed, and a call blocks only after it has asked for the health. -/
theorem Effect.frame (hmodel : 0 < limits.perModel)
    (hcaller : 0 < limits.perCaller) (hr : s.requests[i]? = some r)
    (heffect : Effect limits s i r a s') :
    (∀ c ∈ s.closed, c ∈ s'.closed) ∧ (s'.requests = s.requests ∨
      ∃ p, s'.requests = advance s.requests i p ∧
        ∀ w, p = .blocked w → ∃ j healthy, a = .check j healthy) := by
  cases heffect with
  | enter =>
    cases hfull : s.full limits r with
    | true =>
      have heq : s.enter limits i r = s.setPhase i (.returned .full) := if_pos hfull
      rw [heq]
      exact ⟨fun _ => id, .inr ⟨_, rfl, nofun⟩⟩
    | false =>
      obtain ⟨m, polls, nextCh, -, heq⟩ := h.enter_eq (i := i) hmodel hcaller hfull
      rw [heq]
      exact ⟨fun _ => id, .inr ⟨_, rfl, nofun⟩⟩
  | setPhase p _ _ _ hblocked => exact ⟨fun _ => id, .inr ⟨p, rfl, hblocked⟩⟩
  | wakeChan =>
    unfold State.wakeChan
    cases s.models.lookup r.model with
    | none => exact ⟨fun _ => id, .inl rfl⟩
    | some => exact ⟨fun _ => id, .inr ⟨_, rfl, nofun⟩⟩
  | leave outcome hphase =>
    obtain ⟨m, p, stop, closed, -, -, -, hchannel, -, hclosed, heq⟩ := h.leave_eq hr hphase
    rw [heq]
    refine ⟨?_, .inr ⟨p, rfl, fun w hw => ?_⟩⟩
    · rcases hclosed with ⟨-, rfl⟩ | ⟨ch, -, -, rfl⟩
      · exact fun _ => id
      · exact fun _ => .tail _
    · rw [hw] at hchannel
      cases hchannel
  | leaveDemand p _ _ hp =>
    have hblocked : ∀ w, p = .blocked w → ∃ j healthy, a = .check j healthy := by
      rintro w rfl
      cases hp
    unfold State.leaveDemand
    cases s.models.lookup r.model with
    | none => exact ⟨fun _ => id, .inl rfl⟩
    | some =>
      dsimp only
      unfold removeIfIdle
      split_ifs
      all_goals exact ⟨fun _ => id, .inr ⟨p, rfl, hblocked⟩⟩
  | idle => exact ⟨fun _ => id, .inl rfl⟩

/-- `Wake` closes the channel of the entry, and changes no call. -/
theorem Inv.wake_frame (model : String) :
    (s.wake model).requests = s.requests ∧ (∀ c ∈ s.closed, c ∈ (s.wake model).closed) ∧
      ∀ m, s.models.lookup model = some m → m.wake ∈ (s.wake model).closed := by
  unfold State.wake
  cases hm : s.models.lookup model with
  | none => exact ⟨rfl, fun _ => id, nofun⟩
  | some m =>
    dsimp only
    rw [close_of_not_mem (h.channels.opened _ m hm _ (.head _))]
    refine ⟨rfl, fun _ => .tail _, fun m' hm' => ?_⟩
    rw [← some.inj hm']
    exact .head _

theorem NotStuck.step (hmodel : 0 < limits.perModel)
    (hcaller : 0 < limits.perCaller) (hcheck : ∀ healthy, a ≠ .check i healthy)
    (hstuck : NotStuck s i) (hstep : (holder limits).step s a = some s') : NotStuck s' i := by
  intro r w hr hphase
  cases step_effect hstep with
  | hold =>
    rcases lt_or_ge i s.requests.length with hlt | hge
    · rw [getElem?_append_left hlt] at hr
      exact hstuck r w hr hphase
    · -- the new call is in its first phase
      rw [getElem?_append_right hge] at hr
      rw [mem_singleton.mp (mem_of_getElem? hr)] at hphase
      cases hphase
  | request j r₀ hactor _ hr₀ _ heffect =>
    obtain ⟨hclosed, heq | ⟨p, heq, hblocked⟩⟩ := heffect.frame h hmodel hcaller hr₀
    · rw [heq] at hr
      exact hclosed w (hstuck r w hr hphase)
    · rw [heq] at hr
      by_cases hij : j = i
      · subst hij
        rw [getElem?_advance hr₀] at hr
        cases hr
        -- it blocks only by the check that is excluded here
        obtain ⟨k, healthy, rfl⟩ := hblocked w hphase
        cases hactor
        exact absurd rfl (hcheck healthy)
      · rw [advance, getElem?_modify_ne _ _ hij] at hr
        exact hclosed w (hstuck r w hr hphase)
  | wake model =>
    obtain ⟨hrequests, hclosed, -⟩ := h.wake_frame model
    rw [hrequests] at hr
    exact hclosed w (hstuck r w hr hphase)
  | poll => exact hstuck r w hr hphase

/-- A call of `Wake` frees every call that waits for the model. -/
theorem NotStuck.of_wakes (hr : s.requests[i]? = some r)
    (hwakes : a.wakes s = some r.model) (hstep : (holder limits).step s a = some s') :
    NotStuck s' i := by
  intro r' w hr' hphase
  cases step_effect hstep with
  | hold _ _ _ hnone | request _ _ _ hnone | poll hnone => rw [hnone] at hwakes; cases hwakes
  | wake model hmodel =>
    obtain rfl : model = r.model := mem_unique hmodel hwakes
    obtain ⟨hrequests, hclosed, hwake⟩ := h.wake_frame r.model
    rw [hrequests] at hr'
    obtain rfl : r = r' := mem_unique hr hr'
    have hmem := mem_of_getElem? hr
    have hheld : r.phase.held = true := by rw [hphase]; rfl
    obtain ⟨m, hm⟩ := h.present r hmem (pending_of_held hheld)
    rcases h.waiting r hmem w (by rw [hphase]; rfl) m hm with rfl | hw
    · exact hwake m hm
    · exact hclosed w hw

theorem NotStuck.receive (hstuck : NotStuck s i) {w : ℕ}
    (hr : s.requests[i]? = some r) (hphase : r.phase = .blocked w) :
    ((holder limits).step s (.receive i)).isSome = true := by
  show (State.step limits s (.receive i)).isSome = true
  unfold State.step
  rw [if_neg (by rw [h.sound]; exact Bool.false_ne_true)]
  show (s.requests[i]?.bind fun r => s.stepRequest limits i r (.receive i)).isSome = true
  rw [hr, bind_some]
  unfold stepRequest
  simp only [hphase]
  rw [if_pos (hstuck r w hr hphase)]
  rfl

end

/-- **What the holder guarantees.** For positive limits the counters, the demand, the health poll
and the entries are right in every state of every run, and no step crashes. After a call of `Wake`
for its model a held call is not blocked, or can receive, until it asks for the health again. -/
theorem holder_sound {limits : Limits} (hmodel : 0 < limits.perModel)
    (hcaller : 0 < limits.perCaller) (htotal : 0 < limits.total) {s : State}
    (hs : (holder limits).Reachable s) :
    Sound limits s ∧
      ∀ i r a s₁ acts s₂, s.requests[i]? = some r → r.phase.held = true →
        a.wakes s = some r.model → (holder limits).step s a = some s₁ →
        (holder limits).run s₁ acts = some s₂ → (∀ healthy, .check i healthy ∉ acts) →
        ∀ r₂ w, s₂.requests[i]? = some r₂ → r₂.phase = .blocked w →
          ((holder limits).step s₂ (.receive i)).isSome = true := by
  -- the invariant goes along the run together with what `Wake` has achieved
  have hinv := inv_of_reachable hmodel hcaller htotal hs
  refine ⟨hinv.toSound, ?_⟩
  intro i r a s₁ acts s₂ hr _ hwakes hstep hrun hcheck r₂ w hr₂ hphase
  have hstart : Inv limits s₁ ∧ NotStuck s₁ i :=
    ⟨hinv.step hmodel hcaller hstep, .of_wakes hinv hr hwakes hstep⟩
  have halong : (holder limits).Along (fun _ a => ∀ healthy, a ≠ .check i healthy) s₁ acts := by
    refine Machine.along_of_forall_mem (fun _ a ha healthy heq => hcheck healthy ?_) s₁
    rw [← heq]
    exact ha
  have hend := Machine.run_induction (I := fun s => Inv limits s ∧ NotStuck s i)
    (fun t b t' ⟨ht, hstuck⟩ hb hstep =>
      ⟨ht.step hmodel hcaller hstep, hstuck.step ht hmodel hcaller hb hstep⟩)
    acts s₁ s₂ hstart halong hrun
  exact hend.2.receive hend.1 hr₂ hphase

def State.start : State := ⟨0, ∅, [], [], 0, [], false⟩

/-- A call blocks, the model is woken, and the call can receive. -/
theorem holder_sound_wake : ∃ s s₁, (holder ⟨2, 1, 2⟩).run .start
        [.hold "m" "a" "1", .enter 0, .check 0 false] = some s ∧
      (holder ⟨2, 1, 2⟩).step s (.wake "m") = some s₁ ∧
      s₁.requests = [⟨"m", "a", "1", .blocked 0⟩] ∧ Sound ⟨2, 1, 2⟩ s ∧
      ((holder ⟨2, 1, 2⟩).step s₁ (.receive 0)).isSome = true := by
  refine ⟨_, _, rfl, rfl, rfl, ?_⟩
  have hsound := @holder_sound ⟨2, 1, 2⟩ (by decide) (by decide) (by decide) _
    ⟨.start, [.hold "m" "a" "1", .enter 0, .check 0 false], rfl, rfl⟩
  exact ⟨hsound.1, hsound.2 0 _ (.wake "m") _ [] _ rfl rfl rfl rfl rfl nofun _ _ rfl rfl⟩

/-- Between the two locked sections at the end of an expired hold the demand counts a request
that is neither held nor released. -/
theorem demand_departing :
    ¬∀ limits : Limits, 0 < limits.perModel → 0 < limits.perCaller → 0 < limits.total →
      ∀ s, (holder limits).Reachable s → ∀ model,
        s.demand model = (pairs (fun p => p.held || p.unanswered) s.requests model).card := by
  intro h
  have hdemand := h ⟨2, 1, 2⟩ (by decide) (by decide) (by decide) _
    ⟨.start, [.hold "m" "a" "1", .enter 0, .check 0 false, .budget 0 false, .leave 0], rfl, rfl⟩ "m"
  exact absurd hdemand (by decide +kernel)

end HivenetRouter.Wake
