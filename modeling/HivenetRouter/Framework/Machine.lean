import Mathlib.Algebra.BigOperators.Group.Finset.Piecewise

/-!
# Machines: runs, conditioned runs, and the invariant rules

A concurrent component is read as a **machine**: a type of states, a type of
actions — one per atomic section of the code, with every choice the scheduler or
the environment makes written into the action — and a partial step function,
`none` where the action is not enabled. Nothing else is nondeterministic, so a
run is determined by its list of actions and can be evaluated.

* `Machine.run` — the state a list of actions leads to.
* `Machine.Along C` — every step the run takes meets the condition `C`, which
  reads the state *before* the step and the action.
* `Machine.Reachable` and `Machine.ReachVia C` — the states some run from an
  initial state reaches, without and with a condition on its steps.

The induction over runs is done here once. `ReachVia.induction` is the invariant
rule: what holds initially and is preserved by every step that meets `C` holds
in every state reached by steps that meet `C`; `Reachable.induction` is its
unconditioned form, and `run_preserves` the same for a run from a given state.
`throughout_iff_along` is the rule for an exact condition: if a step keeps the
property exactly when it meets `C`, a run has it throughout exactly when all its
steps do. `length_le_of_decreasing` is the rule for runs that come to an end.
-/

namespace HivenetRouter

open List

/-- A transition system with a partial, deterministic step function: the actions
carry all the nondeterminism. -/
structure Machine (State Act : Type*) where
  /-- The states a run may start in. -/
  Init : State → Prop
  /-- The effect of one atomic action; `none` when it is not enabled. -/
  step : State → Act → Option State

namespace Machine

variable {State Act : Type*} (M : Machine State Act)

/-- The state reached by taking the actions in order, if each is enabled in turn. -/
def run : State → List Act → Option State
  | s, [] => some s
  | s, a :: as =>
    match M.step s a with
    | some t => run t as
    | none => none

/-- Every step taken from `s` along the list of actions meets `C`. -/
def Along (C : State → Act → Prop) : State → List Act → Prop
  | _, [] => True
  | s, a :: as =>
    C s a ∧
      match M.step s a with
      | some t => Along C t as
      | none => True

instance decidableAlong (C : State → Act → Prop) [∀ s a, Decidable (C s a)] :
    ∀ (as : List Act) (s : State), Decidable (M.Along C s as)
  | [], _ => isTrue trivial
  | a :: as, s =>
    have : Decidable
        (match M.step s a with
        | some t => M.Along C t as
        | none => True) :=
      match M.step s a with
      | some t => decidableAlong C as t
      | none => isTrue trivial
    inferInstanceAs (Decidable (_ ∧ _))

/-- Some run leads from an initial state to `t`. -/
def Reachable (t : State) : Prop := ∃ s as, M.Init s ∧ M.run s as = some t

/-- Some run whose steps all meet `C` leads from an initial state to `t`. -/
def ReachVia (C : State → Act → Prop) (t : State) : Prop :=
  ∃ s as, M.Init s ∧ M.Along C s as ∧ M.run s as = some t

/-- Every state that the run passes, its first and last included, has the property. -/
def Throughout (I : State → Prop) (s : State) (as : List Act) : Prop :=
  ∀ done t, done <+: as → M.run s done = some t → I t

variable {M} {as : List Act} {C : State → Act → Prop}

theorem run_cons (s : State) (a : Act) (as : List Act) :
    M.run s (a :: as) = (M.step s a).bind fun t => M.run t as := by
  rw [run]
  cases M.step s a <;> rfl

theorem run_cons_of_step {s t : State} {a : Act} (hst : M.step s a = some t) (as : List Act) :
    M.run s (a :: as) = M.run t as := by
  rw [run_cons, hst]
  rfl

/-- **Inversion of a non-empty run**: its first step is enabled, and the rest of
the run starts where it leads. -/
theorem run_cons_eq_some {s u : State} {a : Act} (h : M.run s (a :: as) = some u) :
    ∃ t, M.step s a = some t ∧ M.run t as = some u := by
  rw [run_cons] at h
  exact Option.bind_eq_some_iff.mp h

theorem along_cons {s t : State} {a : Act} (hstep : M.step s a = some t) :
    M.Along C s (a :: as) ↔ C s a ∧ M.Along C t as := by
  rw [Along, hstep]

theorem run_append_eq_some {s u : State} {bs : List Act} :
    M.run s (as ++ bs) = some u ↔ ∃ t, M.run s as = some t ∧ M.run t bs = some u := by
  induction as generalizing s with
  | nil =>
    constructor
    · exact fun h => ⟨s, rfl, h⟩
    · rintro ⟨t, ht, h⟩
      cases ht
      exact h
  | cons a as ih =>
    constructor
    · intro h
      obtain ⟨s', hstep, h⟩ := run_cons_eq_some h
      obtain ⟨t, ht, h⟩ := ih.mp h
      exact ⟨t, (run_cons_of_step hstep as).trans ht, h⟩
    · rintro ⟨t, ht, h⟩
      obtain ⟨s', hstep, ht⟩ := run_cons_eq_some ht
      exact (run_cons_of_step hstep (as ++ bs)).trans (ih.mpr ⟨t, ht, h⟩)

theorem run_concat_eq_some {s u : State} {a : Act} :
    M.run s (as ++ [a]) = some u ↔ ∃ t, M.run s as = some t ∧ M.step t a = some u := by
  rw [run_append_eq_some]
  refine exists_congr fun t => and_congr_right fun _ => ?_
  rw [run_cons]
  cases M.step t a <;> rfl

theorem along_append {s t : State} {bs : List Act} (hrun : M.run s as = some t) :
    M.Along C s (as ++ bs) ↔ M.Along C s as ∧ M.Along C t bs := by
  induction as generalizing s with
  | nil =>
    cases hrun
    exact ⟨fun h => ⟨trivial, h⟩, And.right⟩
  | cons a as ih =>
    obtain ⟨s', hstep, hrun⟩ := run_cons_eq_some hrun
    rw [cons_append, along_cons hstep, along_cons hstep, ih hrun, and_assoc]

theorem along_and {D : State → Act → Prop} {s : State} :
    M.Along (fun s a => C s a ∧ D s a) s as ↔ M.Along C s as ∧ M.Along D s as := by
  induction as generalizing s with
  | nil => exact ⟨fun _ => ⟨trivial, trivial⟩, fun _ => trivial⟩
  | cons a as ih =>
    unfold Along
    cases M.step s a with
    | some =>
      dsimp only
      rw [ih, and_and_and_comm]
    | none => simp only [and_true]

/-- What `C`-steps preserve, a `C`-run preserves. -/
theorem run_induction {I : State → Prop}
    (hstep : ∀ s a t, I s → C s a → M.step s a = some t → I t) :
    ∀ (as : List Act) (s t : State), I s → M.Along C s as → M.run s as = some t → I t := by
  intro as
  induction as with
  | nil =>
    intro s t hI _ hrun
    cases hrun
    exact hI
  | cons a as ih =>
    intro s u hI halong hrun
    obtain ⟨t, hst, htu⟩ := run_cons_eq_some hrun
    rw [along_cons hst] at halong
    exact ih t u (hstep s a t hI halong.1 hst) halong.2 htu

/-- **The invariant rule, with a condition on the steps.** -/
theorem ReachVia.induction {I : State → Prop} {t : State} (h : M.ReachVia C t)
    (hinit : ∀ s, M.Init s → I s) (hstep : ∀ s a t, I s → C s a → M.step s a = some t → I t) :
    I t := by
  obtain ⟨s, as, hs, halong, hrun⟩ := h
  exact run_induction hstep as s t (hinit s hs) halong hrun

/-- A condition that every action of the list meets, in any state. -/
theorem along_of_forall_mem (hC : ∀ s, ∀ a ∈ as, C s a) : ∀ s : State, M.Along C s as := by
  induction as with
  | nil => exact fun _ => trivial
  | cons a as ih =>
    intro s
    refine ⟨hC s a (.head _), ?_⟩
    cases M.step s a with
    | some t => exact ih (fun s b hb => hC s b (.tail _ hb)) t
    | none => trivial

/-- Where an invariant of the `C`-steps makes every `C`-step meet `D`, a `C`-run is a `D`-run. -/
theorem along_of_invariant {D : State → Act → Prop} {I : State → Prop}
    (hstep : ∀ s a t, I s → C s a → M.step s a = some t → I t) (hD : ∀ s a, I s → C s a → D s a) :
    ∀ (as : List Act) (s : State), I s → M.Along C s as → M.Along D s as := by
  intro as
  induction as with
  | nil => exact fun _ _ _ => trivial
  | cons a as ih =>
    rintro s hI ⟨hC, halong⟩
    refine ⟨hD s a hI hC, ?_⟩
    cases hst : M.step s a with
    | some t =>
      rw [hst] at halong
      exact ih t (hstep s a t hI hC hst) halong
    | none => trivial

theorem run_preserves {I : State → Prop} (hstep : ∀ s a t, I s → M.step s a = some t → I t)
    {s t : State} (hs : I s) (hrun : M.run s as = some t) : I t :=
  run_induction (C := fun _ _ => True) (fun s a t hI _ => hstep s a t hI) as s t hs
    (along_of_forall_mem (fun _ _ _ => trivial) s) hrun

/-- Where an invariant makes every step take something off a measure, a run is no longer than the
measure allows. -/
theorem length_le_of_decreasing {I : State → Prop} (size : State → ℕ)
    (hstep : ∀ s a t, I s → M.step s a = some t → I t ∧ size t < size s) :
    ∀ (as : List Act) (s t : State), I s → M.run s as = some t → as.length + size t ≤ size s := by
  intro as
  induction as with
  | nil =>
    intro s t _ hrun
    cases hrun
    exact Nat.le_of_eq (Nat.zero_add _)
  | cons a as ih =>
    intro s u hI hrun
    obtain ⟨t, hst, htu⟩ := run_cons_eq_some hrun
    obtain ⟨ht, hlt⟩ := hstep s a t hI hst
    have hrest := ih t u ht htu
    rw [length_cons]
    omega

theorem throughout_cons {I : State → Prop} {s t : State} {a : Act} (hst : M.step s a = some t) :
    M.Throughout I s (a :: as) ↔ I s ∧ M.Throughout I t as := by
  constructor
  · intro h
    refine ⟨h [] s nil_prefix rfl, fun done u hdone hrun => ?_⟩
    refine h (a :: done) u (cons_prefix_cons.mpr ⟨rfl, hdone⟩) ?_
    rw [run_cons, hst]
    exact hrun
  · rintro ⟨hs, ht⟩ done u hdone hrun
    cases done with
    | nil =>
      cases hrun
      exact hs
    | cons b done =>
      obtain ⟨rfl, hrest⟩ := cons_prefix_cons.mp hdone
      rw [run_cons, hst] at hrun
      exact ht done u hrest hrun

/-- **The rule for an exact condition**, with an invariant `I` that is stronger than the property:
a step from it that keeps the property meets `C`, and one that meets `C` keeps the invariant. -/
theorem throughout_iff_along_of {I P : State → Prop} (hI : ∀ s, I s → P s)
    (hstep : ∀ s a t, I s → M.step s a = some t → (P t → C s a) ∧ (C s a → I t)) :
    ∀ (as : List Act) (s t : State), I s → M.run s as = some t →
      (M.Throughout P s as ↔ M.Along C s as) := by
  intro as
  induction as with
  | nil =>
    intro s t hs _
    refine iff_of_true (fun done u hdone hrun => ?_) trivial
    rw [prefix_nil.mp hdone] at hrun
    cases hrun
    exact hI s hs
  | cons a as ih =>
    intro s u hs hrun
    obtain ⟨t, hst, htu⟩ := run_cons_eq_some hrun
    obtain ⟨hmeets, hkeeps⟩ := hstep s a t hs hst
    rw [throughout_cons hst, along_cons hst, and_iff_right (hI s hs)]
    constructor
    · intro h
      -- the property of the next state is that after the first action
      have hC : C s a := hmeets (h [] t nil_prefix rfl)
      exact ⟨hC, (ih t u (hkeeps hC) htu).mp h⟩
    · rintro ⟨hC, halong⟩
      exact (ih t u (hkeeps hC) htu).mpr halong

/-- The rule where the property is its own invariant. -/
theorem throughout_iff_along {I : State → Prop}
    (hstep : ∀ s a t, I s → M.step s a = some t → (I t ↔ C s a)) :
    ∀ (as : List Act) (s t : State), I s → M.run s as = some t →
      (M.Throughout I s as ↔ M.Along C s as) :=
  throughout_iff_along_of (fun _ h => h) fun s a t hs hst =>
    ⟨(hstep s a t hs hst).mp, (hstep s a t hs hst).mpr⟩

/-- A step towards a state from which `P` can be reached. -/
theorem exists_run_of_step {P : State → Prop} {s t : State} {a : Act} (hst : M.step s a = some t)
    (h : ∃ as u, M.run t as = some u ∧ P u) : ∃ as u, M.run s as = some u ∧ P u := by
  obtain ⟨as, u, hrun, hu⟩ := h
  exact ⟨a :: as, u, (run_cons_of_step hst as).trans hrun, hu⟩

/-- What is evaluated of the state a run reaches, and what it implies. -/
theorem exists_mem_imp {α : Type*} {o : Option α} (P : α → Prop) {R : α → Prop}
    (h : ∃ t ∈ o, P t) (hR : ∀ t ∈ o, P t → R t) : ∃ t ∈ o, R t := by
  obtain ⟨t, ht, hP⟩ := h
  exact ⟨t, ht, hR t ht hP⟩

theorem exists_mem_and {α : Type*} {o : Option α} {P R : α → Prop} (h : ∃ t ∈ o, P t)
    (hR : ∀ t ∈ o, P t → R t) : ∃ t ∈ o, P t ∧ R t :=
  exists_mem_imp P h fun t ht hP => ⟨hP, hR t ht hP⟩

/-- **The invariant rule**: what holds initially and is kept by every step holds in every reachable
state. -/
theorem Reachable.induction {I : State → Prop} {t : State} (h : M.Reachable t)
    (hinit : ∀ s, M.Init s → I s)
    (hstep : ∀ s a t, I s → M.step s a = some t → I t) : I t := by
  obtain ⟨s, as, hs, hrun⟩ := h
  exact run_preserves hstep (hinit s hs) hrun

end Machine

/-!
## Broadcast channels

The processes that wait for an event at a **site** block on the current channel of the site. A
broadcast installs a new channel and closes the old one, within the same step or in a later
one; every process that blocks on the old channel then goes on. A process reads the channel
first, looks once more whether it has to wait, and blocks on what it read, so that a
broadcast in between is not missed.

`Broadcast` is what the argument reads of such a system: the current channels, and those that
were replaced and are closed or about to be. A channel that somebody waits on is one or the
other (`Awaited`), whatever the steps are, and after a broadcast at its site it is no longer
current. `Broadcast.unheard_or_retired` says so for a run of a machine.
-/

/-- The channels of the sites. -/
structure Broadcast (Site Chan : Type*) where
  /-- The channel that a process reads at the site. -/
  current : Site → Option Chan
  /-- The channels that were replaced: each is closed, or about to be. -/
  retired : Set Chan

namespace Broadcast

variable {Site Chan : Type*} {b b' : Broadcast Site Chan} {x : Site} {c : Chan}

/-- A step of the system: a channel leaves its site only when it is retired. -/
structure Step (b b' : Broadcast Site Chan) : Prop where
  current : ∀ {x c}, b.current x = some c → b'.current x = some c ∨ c ∈ b'.retired
  retired : b.retired ⊆ b'.retired

def Heard (x : Site) (b b' : Broadcast Site Chan) : Prop :=
  ∀ c, b.current x = some c → c ∈ b'.retired

/-- What a process reads at the site and waits on. -/
def Awaited (b : Broadcast Site Chan) (x : Site) (c : Chan) : Prop :=
  b.current x = some c ∨ c ∈ b.retired

theorem Step.refl (b : Broadcast Site Chan) : Step b b := ⟨.inl, subset_rfl⟩

theorem Awaited.step (h : b.Awaited x c) (hstep : Step b b') : b'.Awaited x c := by
  rcases h with hcurrent | hretired
  · exact hstep.current hcurrent
  · exact .inr (hstep.retired hretired)

theorem Awaited.heard (h : b.Awaited x c) (hstep : Step b b') (hheard : Heard x b b') :
    c ∈ b'.retired := by
  rcases h with hcurrent | hretired
  · exact hheard c hcurrent
  · exact hstep.retired hretired

/-! ### Runs -/

section Run

variable {State Act : Type*} {M : Machine State Act} (view : State → Broadcast Site Chan)
  (hstep : ∀ s a t, M.step s a = some t → Step (view s) (view t))
include hstep

theorem retired_run {as : List Act} {s t : State} (hc : c ∈ (view s).retired)
    (hrun : M.run s as = some t) : c ∈ (view t).retired :=
  Machine.run_preserves (I := fun s => c ∈ (view s).retired)
    (fun s a t hc hst => (hstep s a t hst).retired hc) hc hrun

/-- **No broadcast is missed.** From the moment a process has read a channel, there is no broadcast
at the site, or the channel is retired. -/
theorem unheard_or_retired {F : State → Act → Prop}
    (hheard : ∀ s a t, F s a → M.step s a = some t → Heard x (view s) (view t)) :
    ∀ (as : List Act) (s t : State), (view s).Awaited x c → M.run s as = some t →
      M.Along (fun s a => ¬F s a) s as ∨ c ∈ (view t).retired := by
  intro as
  induction as with
  | nil => exact fun _ _ _ _ => .inl trivial
  | cons a as ih =>
    intro s u hc hrun
    obtain ⟨t, hst, hrun⟩ := Machine.run_cons_eq_some hrun
    by_cases hF : F s a
    · -- from here on the channel is retired
      have ht : c ∈ (view t).retired := hc.heard (hstep s a t hst) (hheard s a t hF hst)
      exact .inr (retired_run view hstep ht hrun)
    · rw [Machine.along_cons hst]
      exact (ih t u (hc.step (hstep s a t hst)) hrun).imp (fun h => ⟨hF, h⟩) id

end Run

end Broadcast

end HivenetRouter

/-!
## Loops

A loop of the source is a partial function: `next s` is the state after one more pass of the
body, and `none` when the loop ends in `s`. `iterate next fuel` takes at most `fuel` passes.

`iterate_induction` is the rule for what every pass keeps. `next_iterate` says that the loop has
ended, where a pass takes something off a measure and the fuel covers it.
-/

namespace HivenetRouter.Loop

variable {σ : Type*} {next : σ → Option σ} {s : σ} {P : σ → Prop}

/-- The state in which the loop ends, or that after `fuel` passes. -/
def iterate (next : σ → Option σ) : ℕ → σ → σ
  | 0, s => s
  | fuel + 1, s =>
    match next s with
    | some t => iterate next fuel t
    | none => s

theorem iterate_of_none (h : next s = none) (fuel : ℕ) : iterate next fuel s = s := by
  cases fuel with
  | zero => rfl
  | succ => rw [iterate, h]

theorem iterate_of_some {t : σ} (h : next s = some t) (fuel : ℕ) :
    iterate next (fuel + 1) s = iterate next fuel t := by
  rw [iterate, h]

/-- What every pass keeps, the loop keeps. -/
theorem iterate_induction (hnext : ∀ s t, P s → next s = some t → P t) (fuel : ℕ) (hs : P s) :
    P (iterate next fuel s) := by
  induction fuel generalizing s with
  | zero => exact hs
  | succ fuel ih =>
    cases h : next s with
    | none =>
      rw [iterate_of_none h]
      exact hs
    | some t =>
      rw [iterate_of_some h]
      exact ih (hnext s t hs h)

/-- With fuel for every pass the loop has ended. -/
theorem next_iterate (size : σ → ℕ) (hnext : ∀ s t, P s → next s = some t → P t ∧ size t < size s)
    {fuel : ℕ} (hs : P s) (hfuel : size s ≤ fuel) : next (iterate next fuel s) = none := by
  induction fuel generalizing s with
  | zero =>
    cases h : next s with
    | none => exact h
    | some t =>
      have := (hnext s t hs h).2
      omega
  | succ fuel ih =>
    cases h : next s with
    | none =>
      rw [iterate_of_none h]
      exact h
    | some t =>
      obtain ⟨ht, hlt⟩ := hnext s t hs h
      rw [iterate_of_some h]
      exact ih ht (by omega)

end HivenetRouter.Loop

/-!
## Totals over families in which one member changes

Accounting invariants equate or compare a counter with a total over the members of a
family: processes indexed by a finite type, or records kept in a list. A step changes
one member, so the total moves by the difference of that member's share. Both lemmas
state this additively — the share that leaves is added on the left, the one that
comes on the right — so that they hold in every commutative monoid and `omega` can use
them without subtraction.

* `total_update` — a family over a finite set.
* `total_modify` — a list, at a position that exists.
-/

namespace HivenetRouter.Accounting

open List Function

variable {ι β M : Type*} [AddCommMonoid M]

/-- Replacing one member of a finite family: the old share leaves, the new one comes. -/
theorem total_update [DecidableEq ι] (s : Finset ι) (f : ι → β → M) (g : ι → β) {i : ι}
    (hi : i ∈ s) (x : β) :
    ∑ j ∈ s, f j (update g i x j) + f i (g i) = ∑ j ∈ s, f j (g j) + f i x := by
  have hrest : ∑ j ∈ s.erase i, f j (update g i x j) = ∑ j ∈ s.erase i, f j (g j) := by
    refine Finset.sum_congr rfl fun j hj => ?_
    rw [update_of_ne (Finset.ne_of_mem_erase hj)]
  rw [← Finset.add_sum_erase s _ hi, ← Finset.add_sum_erase s (fun j => f j (g j)) hi, hrest,
    update_self]
  rw [add_right_comm, add_comm (f i x), add_right_comm]

theorem total_update_of_notMem [DecidableEq ι] (s : Finset ι) (f : ι → β → M) (g : ι → β) {i : ι}
    (hi : i ∉ s) (x : β) :
    ∑ j ∈ s, f j (update g i x j) = ∑ j ∈ s, f j (g j) := by
  refine Finset.sum_congr rfl fun j hj => ?_
  have hne : j ≠ i := fun h => hi (h ▸ hj)
  rw [update_of_ne hne]

/-- Replacing one entry of a list: the old share leaves, the new one comes. -/
theorem total_modify (f : β → M) (u : β → β) : ∀ (l : List β) (r : ℕ) {y : β}, l[r]? = some y →
      ((l.modify r u).map f).sum + f y = (l.map f).sum + f (u y)
  | [], _, _, h => by simp at h
  | x :: l, 0, y, h => by
    obtain rfl : x = y := by simpa using h
    rw [modify_zero_cons, map_cons, map_cons, sum_cons, sum_cons]
    rw [add_right_comm, add_comm (f (u x)), add_right_comm]
  | x :: l, r + 1, y, h => by
    have ih := total_modify f u l r (y := y) (by simpa using h)
    rw [modify_succ_cons, map_cons, map_cons, sum_cons, sum_cons, add_assoc, ih, add_assoc]

end HivenetRouter.Accounting
