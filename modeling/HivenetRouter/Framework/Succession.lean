import Mathlib.Data.Set.Insert

/-!
# Succession: replacing a token and disposing of the one before it

At every **site** at most one token is current. A process that brings a new token takes it,
looks which token is current at the site, installs its own, and later hands over the token
that it saw, to be disposed of at any time. Each of these is a step of its own, and the steps
of other processes may come between any two of them; so the token that a process saw need not
be the one that it replaces.

`Succession` is what the argument reads of such a system, and `Succession.Step` a step of it.
The only assumption is that of `Step.take`: a process takes a token that nobody has taken
before. Then every state is `Orderly` (`Step.orderly`), and no token that waits to be disposed
of is pending or current (`Orderly.spare_of_retired`).
-/

namespace HivenetRouter

/-- The tokens of the sites and of the processes that replace them. -/
structure Succession (Proc Site Token : Type*) where
  /-- The tokens that some process has taken. -/
  taken : Set Token
  /-- The token that a process has taken and not yet installed. -/
  pending : Proc → Option Token
  /-- The token that a process has seen at its site, until it installs its own. -/
  seen : Proc → Option (Site × Token)
  /-- The token that a process has seen, from then on. -/
  replaced : Proc → Option Token
  /-- The token of a site. -/
  current : Site → Option Token
  /-- The tokens that wait to be disposed of. -/
  retired : Set Token

namespace Succession

open Function

variable {Proc Site Token : Type*} {s : Succession Proc Site Token} {t : Token} {ι β : Type*}

inductive Step [DecidableEq Proc] [DecidableEq Site] :
    Succession Proc Site Token → Succession Proc Site Token → Prop
  /-- A process takes a token that is new. -/
  | take {s : Succession Proc Site Token} (p : Proc) {t : Token} (fresh : t ∉ s.taken) :
      Step s { s with taken := insert t s.taken, pending := update s.pending p (some t) }
  /-- It looks which token is current. -/
  | see {s : Succession Proc Site Token} (p : Proc) (x : Site) :
      Step s { s with seen := update s.seen p ((s.current x).map fun o => (x, o)) }
  /-- It installs its own token, at the site where it looked. -/
  | install {s : Succession Proc Site Token} {p : Proc} (x : Site) {t : Token}
      (brought : s.pending p = some t) (looked : ∀ y o, s.seen p = some (y, o) → y = x) :
      Step s { s with
        pending := update s.pending p none
        seen := update s.seen p none
        replaced := update s.replaced p ((s.seen p).map Prod.snd)
        current := update s.current x (some t) }
  /-- It hands over the token that it saw. -/
  | retire {s : Succession Proc Site Token} (p : Proc) :
      Step s { s with
        retired := s.retired ∪ {o | s.replaced p = some o}
        replaced := update s.replaced p none }
  | dispose {s : Succession Proc Site Token} {rest : Set Token} (fewer : rest ⊆ s.retired) :
      Step s { s with retired := rest }
  | vacate {s : Succession Proc Site Token} (x : Site) :
      Step s { s with current := update s.current x none }

/-- The token has been seen by a process that disposes of it, or will. -/
def Old (s : Succession Proc Site Token) (o : Token) : Prop :=
  (∃ p x, s.seen p = some (x, o)) ∨ (∃ p, s.replaced p = some o) ∨ o ∈ s.retired

/-- **The invariant.** A pending token is the token of one process and of nothing else; a token is
current at one site; and a process that has looked at a site has seen a token of that site, which is
no longer current there once the process has installed its own. -/
structure Orderly (s : Succession Proc Site Token) : Prop where
  pending_taken : ∀ {p t}, s.pending p = some t → t ∈ s.taken
  pending_inj : ∀ {p q t}, s.pending p = some t → s.pending q = some t → p = q
  pending_current : ∀ {p t x}, s.pending p = some t → s.current x ≠ some t
  pending_old : ∀ {p t}, s.pending p = some t → ¬ s.Old t
  current_taken : ∀ {x t}, s.current x = some t → t ∈ s.taken
  current_inj : ∀ {x y t}, s.current x = some t → s.current y = some t → x = y
  old_taken : ∀ {o}, s.Old o → o ∈ s.taken
  seen_site : ∀ {p x y o}, s.seen p = some (x, o) → s.current y = some o → y = x
  replaced_current : ∀ {p o x}, s.replaced p = some o → s.current x ≠ some o
  retired_current : ∀ {o x}, o ∈ s.retired → s.current x ≠ some o

/-- Nobody needs the token, except at the given sites. -/
structure Spare (s : Succession Proc Site Token) (sites : Set Site) (t : Token) : Prop where
  taken : t ∈ s.taken
  pending : ∀ p, s.pending p ≠ some t
  current : ∀ x ∉ sites, s.current x ≠ some t

theorem Orderly.spare_of_retired (h : s.Orderly) (sites : Set Site) (ht : t ∈ s.retired) :
    s.Spare sites t where
  taken := h.old_taken (.inr (.inr ht))
  pending _ hp := h.pending_old hp (.inr (.inr ht))
  current _ _ := h.retired_current ht

theorem Orderly.spare_of_current (h : s.Orderly) {x : Site} (hx : s.current x = some t) :
    s.Spare {x} t where
  taken := h.current_taken hx
  pending _ hp := h.pending_current hp hx
  current _ hne hy := hne (h.current_inj hy hx)

theorem Orderly.of_empty (hpending : ∀ p, s.pending p = none) (hcurrent : ∀ x, s.current x = none)
    (hold : ∀ o, ¬ s.Old o) : s.Orderly where
  pending_taken h := by rw [hpending] at h; cases h
  pending_inj h := by rw [hpending] at h; cases h
  pending_current h := by rw [hpending] at h; cases h
  pending_old h := by rw [hpending] at h; cases h
  current_taken h := by rw [hcurrent] at h; cases h
  current_inj h := by rw [hcurrent] at h; cases h
  old_taken h := absurd h (hold _)
  seen_site _ h := by rw [hcurrent] at h; cases h
  replaced_current _ h := by rw [hcurrent] at h; cases h
  retired_current _ h := by rw [hcurrent] at h; cases h

/-! ### One lemma for each step -/

variable {f : ι → Option β}

/-- An entry of an updated function is the new one or an old one. -/
theorem of_update_eq_some [DecidableEq ι] {i j : ι} {v : Option β} {b : β}
    (h : update f i v j = some b) : (j = i ∧ v = some b) ∨ (j ≠ i ∧ f j = some b) := by
  rw [update_apply] at h
  split_ifs at h with hj
  · exact .inl ⟨hj, h⟩
  · exact .inr ⟨hj, h⟩

theorem of_update_none_eq_some [DecidableEq ι] {i j : ι} {b : β} (h : update f i none j = some b) :
    j ≠ i ∧ f j = some b :=
  (of_update_eq_some h).resolve_left fun hnew => nomatch hnew.2

section Steps

variable (h : s.Orderly)

include h

theorem Orderly.take [DecidableEq Proc] (p : Proc) (fresh : t ∉ s.taken) :
    Orderly { s with taken := insert t s.taken, pending := update s.pending p (some t) } where
  pending_taken := by
    intro q u hq
    rcases of_update_eq_some hq with ⟨-, hu⟩ | ⟨-, hq⟩
    · cases hu
      exact Set.mem_insert _ _
    · exact Set.mem_insert_of_mem _ (h.pending_taken hq)
  pending_inj := by
    intro q r u hq hr
    -- The new token is not that of another process: that one would have taken it before.
    rcases of_update_eq_some hq with ⟨rfl, hu⟩ | ⟨-, hq⟩
    · cases hu
      rcases of_update_eq_some hr with ⟨rfl, -⟩ | ⟨-, hr⟩
      · rfl
      · exact absurd (h.pending_taken hr) fresh
    · rcases of_update_eq_some hr with ⟨-, hu⟩ | ⟨-, hr⟩
      · cases hu
        exact absurd (h.pending_taken hq) fresh
      · exact h.pending_inj hq hr
  pending_current := by
    intro q u x hq hx
    rcases of_update_eq_some hq with ⟨-, hu⟩ | ⟨-, hq⟩
    · cases hu
      exact fresh (h.current_taken hx)
    · exact h.pending_current hq hx
  pending_old := by
    intro q u hq hold
    rcases of_update_eq_some hq with ⟨-, hu⟩ | ⟨-, hq⟩
    · cases hu
      exact fresh (h.old_taken hold)
    · exact h.pending_old hq hold
  current_taken hx := Set.mem_insert_of_mem _ (h.current_taken hx)
  __ := h
  old_taken ho := Set.mem_insert_of_mem _ (h.old_taken ho)

/-- What a process sees is current, and so neither pending nor current anywhere else. -/
theorem Orderly.see [DecidableEq Proc] (p : Proc) (x : Site) :
    Orderly { s with seen := update s.seen p ((s.current x).map fun o => (x, o)) } := by
  -- an entry of `seen` is the new one, of the site looked at, or was there before
  have hsaw : ∀ {q y o},
      update s.seen p ((s.current x).map fun o => (x, o)) q = some (y, o) →
        (y = x ∧ s.current x = some o) ∨ s.seen q = some (y, o) := by
    intro q y o hq
    rcases of_update_eq_some hq with ⟨-, hv⟩ | ⟨-, hq⟩
    · obtain ⟨o', ho', heq⟩ := Option.map_eq_some_iff.mp hv
      cases heq
      exact .inl ⟨rfl, ho'⟩
    · exact .inr hq
  have hold : ∀ {o},
      Old { s with seen := update s.seen p ((s.current x).map fun o => (x, o)) } o →
        s.current x = some o ∨ s.Old o := by
    rintro o (⟨q, y, hq⟩ | hrest)
    · rcases hsaw hq with ⟨-, hx⟩ | hq
      · exact .inl hx
      · exact .inr (.inl ⟨q, y, hq⟩)
    · exact .inr (.inr hrest)
  exact {
    __ := h
    pending_old := fun hq ho => (hold ho).elim (h.pending_current hq) (h.pending_old hq)
    old_taken := fun ho => (hold ho).elim h.current_taken h.old_taken
    seen_site := fun hq hy => by
      rcases hsaw hq with ⟨rfl, hx⟩ | hq
      · exact h.current_inj hy hx
      · exact h.seen_site hq hy
    retired_current := h.retired_current }

/-- **The step that replaces.** The token that is installed is no longer pending, and it is neither
current nor old before; the token that the process has seen was current at this site only. -/
theorem Orderly.install [DecidableEq Proc] [DecidableEq Site] {p : Proc}
    (x : Site) (brought : s.pending p = some t) (looked : ∀ y o, s.seen p = some (y, o) → y = x) :
    Orderly { s with
      pending := update s.pending p none
      seen := update s.seen p none
      replaced := update s.replaced p ((s.seen p).map Prod.snd)
      current := update s.current x (some t) } := by
  have hpending : ∀ {q u}, update s.pending p none q = some u → u ≠ t ∧ s.pending q = some u := by
    intro q u hq
    obtain ⟨hne, hq⟩ := of_update_none_eq_some hq
    refine ⟨?_, hq⟩
    rintro rfl
    exact hne (h.pending_inj hq brought)
  have hcurrent : ∀ {y u}, update s.current x (some t) y = some u →
      (y = x ∧ u = t) ∨ (y ≠ x ∧ s.current y = some u) := by
    intro y u hy
    rcases of_update_eq_some hy with ⟨hyx, hu⟩ | hy
    · cases hu
      exact .inl ⟨hyx, rfl⟩
    · exact .inr hy
  have hseen : ∀ {q y o}, update s.seen p none q = some (y, o) → s.seen q = some (y, o) :=
    fun hq => (of_update_none_eq_some hq).2
  -- what the process has replaced it has seen, at this site
  have hreplaced : ∀ {q o}, update s.replaced p ((s.seen p).map Prod.snd) q = some o →
      s.seen p = some (x, o) ∨ s.replaced q = some o := by
    intro q o hq
    rcases of_update_eq_some hq with ⟨-, hv⟩ | ⟨-, hq⟩
    · obtain ⟨⟨y, o'⟩, hy, heq⟩ := Option.map_eq_some_iff.mp hv
      cases heq
      obtain rfl := looked y o' hy
      exact .inl hy
    · exact .inr hq
  -- Nothing becomes old by this step; what the process saw was old already.
  have hold : ∀ {o}, Old { s with
      pending := update s.pending p none
      seen := update s.seen p none
      replaced := update s.replaced p ((s.seen p).map Prod.snd)
      current := update s.current x (some t) } o → s.Old o := by
    rintro o (⟨q, y, hq⟩ | ⟨q, hq⟩ | hr)
    · exact .inl ⟨q, y, hseen hq⟩
    · rcases hreplaced hq with hsaw | hq
      · exact .inl ⟨p, x, hsaw⟩
      · exact .inr (.inl ⟨q, hq⟩)
    · exact .inr (.inr hr)
  have hnew : ¬ s.Old t := h.pending_old brought
  exact {
    pending_taken := fun hq => h.pending_taken (hpending hq).2
    pending_inj := fun hq hr => h.pending_inj (hpending hq).2 (hpending hr).2
    pending_current := fun hq hy => by
      rcases hcurrent hy with ⟨-, hu⟩ | ⟨-, hy⟩
      · exact (hpending hq).1 hu
      · exact h.pending_current (hpending hq).2 hy
    pending_old := fun hq ho => h.pending_old (hpending hq).2 (hold ho)
    current_taken := fun hy => by
      rcases hcurrent hy with ⟨-, rfl⟩ | ⟨-, hy⟩
      · exact h.pending_taken brought
      · exact h.current_taken hy
    current_inj := fun hy hz => by
      rcases hcurrent hy with ⟨rfl, rfl⟩ | ⟨-, hy'⟩
      · rcases hcurrent hz with ⟨rfl, -⟩ | ⟨-, hz'⟩
        · rfl
        · exact absurd hz' (h.pending_current brought)
      · rcases hcurrent hz with ⟨-, rfl⟩ | ⟨-, hz'⟩
        · exact absurd hy' (h.pending_current brought)
        · exact h.current_inj hy' hz'
    old_taken := fun ho => h.old_taken (hold ho)
    seen_site := fun hq hy => by
      rcases hcurrent hy with ⟨-, rfl⟩ | ⟨-, hy⟩
      · -- the token installed was pending, and so not seen by anyone
        exact absurd (.inl ⟨_, _, hseen hq⟩) hnew
      · exact h.seen_site (hseen hq) hy
    replaced_current := fun hq hy => by
      rcases hcurrent hy with ⟨-, rfl⟩ | ⟨hne, hy⟩
      · exact hnew (hold (.inr (.inl ⟨_, hq⟩)))
      · rcases hreplaced hq with hsaw | hq
        · -- it was current at this site only, where the new token is now
          exact hne (h.seen_site hsaw hy)
        · exact h.replaced_current hq hy
    retired_current := fun hr hy => by
      rcases hcurrent hy with ⟨-, rfl⟩ | ⟨-, hy⟩
      · exact hnew (.inr (.inr hr))
      · exact h.retired_current hr hy }

theorem Orderly.retire [DecidableEq Proc] (p : Proc) :
    Orderly { s with
      retired := s.retired ∪ {o | s.replaced p = some o}
      replaced := update s.replaced p none } := by
  have hreplaced : ∀ {q o}, update s.replaced p none q = some o → s.replaced q = some o :=
    fun hq => (of_update_none_eq_some hq).2
  have hold : ∀ {o}, Old { s with
      retired := s.retired ∪ {o | s.replaced p = some o}
      replaced := update s.replaced p none } o → s.Old o := by
    -- a token that is handed over was old before
    rintro o (hsaw | ⟨q, hq⟩ | hr | hr)
    · exact .inl hsaw
    · exact .inr (.inl ⟨q, hreplaced hq⟩)
    · exact .inr (.inr hr)
    · exact .inr (.inl ⟨p, hr⟩)
  exact { h with
    pending_old := fun hq ho => h.pending_old hq (hold ho)
    old_taken := fun ho => h.old_taken (hold ho)
    replaced_current := fun hq => h.replaced_current (hreplaced hq)
    retired_current := fun hr hx => hr.elim (h.retired_current · hx) (h.replaced_current · hx) }

theorem Orderly.dispose {rest : Set Token} (fewer : rest ⊆ s.retired) :
    Orderly { s with retired := rest } := by
  have hold : ∀ {o}, Old { s with retired := rest } o → s.Old o := by
    rintro o (hsaw | hq | hr)
    · exact .inl hsaw
    · exact .inr (.inl hq)
    · exact .inr (.inr (fewer hr))
  exact { h with
    pending_old := fun hq ho => h.pending_old hq (hold ho)
    old_taken := fun ho => h.old_taken (hold ho)
    retired_current := fun hr => h.retired_current (fewer hr) }

theorem Orderly.vacate [DecidableEq Site] (x : Site) :
    Orderly { s with current := update s.current x none } := by
  have hcurrent : ∀ {y t}, update s.current x none y = some t → s.current y = some t :=
    fun hy => (of_update_none_eq_some hy).2
  exact { h with
    pending_current := fun hp hy => h.pending_current hp (hcurrent hy)
    current_taken := fun hy => h.current_taken (hcurrent hy)
    current_inj := fun hy hz => h.current_inj (hcurrent hy) (hcurrent hz)
    seen_site := fun hp hy => h.seen_site hp (hcurrent hy)
    replaced_current := fun hp hy => h.replaced_current hp (hcurrent hy)
    retired_current := fun hr hy => h.retired_current hr (hcurrent hy) }

end Steps

/-- **Every step keeps the invariant.** -/
theorem Step.orderly [DecidableEq Proc] [DecidableEq Site] {t : Succession Proc Site Token}
    (h : s.Orderly) (hstep : Step s t) : t.Orderly := by
  cases hstep with
  | take p fresh => exact h.take p fresh
  | see p x => exact h.see p x
  | install x brought looked => exact h.install x brought looked
  | retire p => exact h.retire p
  | dispose fewer => exact h.dispose fewer
  | vacate x => exact h.vacate x

end Succession

end HivenetRouter
