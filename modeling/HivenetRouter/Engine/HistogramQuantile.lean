import Mathlib.Tactic.Linarith

/-!
# Quantiles of a histogram

`histogramQuantile` over the buckets of an engine, in exact arithmetic. The scan stops in the first
bucket whose count reaches the rank, and interpolates there. A greater rank stops in the same bucket
or in a later one, and the values of a bucket lie between its bounds (`scanFrom_mem`), so the
quantiles are ordered as the ranks are (`scanFrom_mono`).
-/

namespace HivenetRouter.Engine

open List

/-- `bucketPoint`. The bound `+Inf` is `none`. -/
structure BucketPoint where
  le : Option ℚ
  count : ℚ

/-- The loop over the points, up to the first bound `+Inf`. -/
def scan (rank prevLe prevCount : ℚ) : List BucketPoint → Option ℚ
  | [] | ⟨none, _⟩ :: _ => none
  | ⟨some le, count⟩ :: pts =>
    if count ≥ rank then
      if count = prevCount then some prevLe
      else some (prevLe + (le - prevLe) * (rank - prevCount) / (count - prevCount))
    else scan rank le count pts

def histogramQuantile (pts : List BucketPoint) (q : ℚ) : Option ℚ :=
  match pts.getLast? with
  | none => none
  | some last =>
    if last.count = 0 then none
    -- beyond the last finite bucket: its bound, looked for from the last but one
    else (scan (q * last.count) 0 0 pts).or (pts.dropLast.reverse.findSome? BucketPoint.le)

/-- The finite buckets of a histogram, and the count of its last one. -/
structure Histogram where
  buckets : List (ℚ × ℚ)
  total : ℚ
  nonempty : buckets ≠ []
  bounds : (0 :: buckets.map Prod.fst).Pairwise (· < ·)
  counts : (0 :: buckets.map Prod.snd ++ [total]).Pairwise (· ≤ ·)
  total_pos : 0 < total

def point (b : ℚ × ℚ) : BucketPoint := ⟨some b.1, b.2⟩

def Histogram.points (h : Histogram) : List BucketPoint := h.buckets.map point ++ [⟨none, h.total⟩]

def lastBound (le : ℚ) (l : List (ℚ × ℚ)) : ℚ := (l.map Prod.fst).getLastD le

/-- The scan from a bucket with bound `le` and count `count` on, and the bound that is returned if
it ends. -/
def scanFrom (rank le count : ℚ) (l : List (ℚ × ℚ)) : ℚ :=
  (scan rank le count (l.map point)).getD (lastBound le l)

section Interpolation

variable {le le' count count' rank rank' : ℚ}

def interpolate (le count le' count' rank : ℚ) : ℚ :=
  le + (le' - le) * (rank - count) / (count' - count)

theorem interpolate_mono (hle : le ≤ le') (hcount : count < count') (hrank : rank ≤ rank') :
    interpolate le count le' count' rank ≤ interpolate le count le' count' rank' := by
  unfold interpolate
  have hpos : 0 < count' - count := sub_pos.mpr hcount
  gcongr

theorem interpolate_mem (hle : le ≤ le') (hlow : count < rank) (hhigh : rank ≤ count') :
    le ≤ interpolate le count le' count' rank ∧ interpolate le count le' count' rank ≤ le' := by
  have hcount : count < count' := hlow.trans_le hhigh
  have hleft : interpolate le count le' count' count = le := by simp [interpolate]
  have hright : interpolate le count le' count' count' = le' := by
    rw [interpolate, mul_div_cancel_right₀ _ (sub_pos.mpr hcount).ne', add_sub_cancel]
  exact ⟨hleft.ge.trans (interpolate_mono hle hcount hlow.le),
    (interpolate_mono hle hcount hhigh).trans hright.le⟩

end Interpolation

section Scan

variable {le count rank rank' : ℚ} {b : ℚ × ℚ} {l : List (ℚ × ℚ)}

theorem scan_append (total : ℚ) :
    scan rank le count (l.map point ++ [⟨none, total⟩]) = scan rank le count (l.map point) := by
  induction l generalizing le count with
  | nil => rfl
  | cons b l ih => rw [map_cons, cons_append, point, scan, scan, ih]

/-- The bucket that the scan stops in is not empty, since the rank is above the count before. -/
theorem scanFrom_cons (hrank : count < rank) : scanFrom rank le count (b :: l) =
    if rank ≤ b.2 then interpolate le count b.1 b.2 rank else scanFrom rank b.1 b.2 l := by
  have hlast : lastBound le (b :: l) = lastBound b.1 l := by
    rw [lastBound, lastBound, map_cons, getLastD_cons]
  unfold scanFrom
  rw [map_cons, point, scan, hlast]
  split_ifs with hstop hsame
  · exact absurd hstop (hsame ▸ not_le.mpr hrank)
  all_goals rfl

abbrev Ascending (le : ℚ) (l : List (ℚ × ℚ)) : Prop := (le :: l.map Prod.fst).Pairwise (· < ·)

theorem Ascending.cons (h : Ascending le (b :: l)) : le < b.1 ∧ Ascending b.1 l :=
  ⟨rel_of_pairwise_cons h mem_cons_self, h.of_cons⟩

theorem scanFrom_mem (h : Ascending le l) (hrank : count < rank) :
    le ≤ scanFrom rank le count l ∧ scanFrom rank le count l ≤ lastBound le l := by
  induction l generalizing le count rank with
  | nil => exact ⟨le_rfl, le_rfl⟩
  | cons b l ih =>
    obtain ⟨hlt, htail⟩ := h.cons
    rw [scanFrom_cons hrank, lastBound, map_cons, getLastD_cons]
    split_ifs with hstop
    · obtain ⟨hlow, hhigh⟩ := interpolate_mem hlt.le hrank hstop
      -- the bound of the bucket is at most the last one, where a scan with any rank above it ends
      have hlast := ih htail (lt_add_one b.2)
      exact ⟨hlow, hhigh.trans (hlast.1.trans hlast.2)⟩
    · obtain ⟨hlow, hhigh⟩ := ih htail (not_le.mp hstop)
      exact ⟨hlt.le.trans hlow, hhigh⟩

theorem scanFrom_mono (h : Ascending le l) (hrank : count < rank) (hle : rank ≤ rank') :
    scanFrom rank le count l ≤ scanFrom rank' le count l := by
  induction l generalizing le count with
  | nil => exact le_rfl
  | cons b l ih =>
    obtain ⟨hlt, htail⟩ := h.cons
    rw [scanFrom_cons hrank, scanFrom_cons (hrank.trans_le hle)]
    split_ifs with hstop hstop' hstop'
    · exact interpolate_mono hlt.le (hrank.trans_le hstop) hle
    -- the greater rank goes on behind the bound
    · exact (interpolate_mem hlt.le hrank hstop).2.trans (scanFrom_mem htail (not_le.mp hstop')).1
    · exact absurd (hle.trans hstop') hstop
    · exact ih htail (not_le.mp hstop)

theorem scanFrom_append {pre : List (ℚ × ℚ)} (h : Ascending le (pre ++ b :: l))
    (hrank : count < rank)
    (hpre : ∀ x ∈ pre, x.2 < rank) (hstop : rank ≤ b.2) :
    lastBound le pre ≤ scanFrom rank le count (pre ++ b :: l) ∧
      scanFrom rank le count (pre ++ b :: l) ≤ b.1 := by
  induction pre generalizing le count with
  | nil =>
    rw [nil_append, scanFrom_cons hrank, if_pos hstop]
    exact interpolate_mem h.cons.1.le hrank hstop
  | cons x pre ih =>
    obtain ⟨hx, hpre⟩ := forall_mem_cons.mp hpre
    rw [cons_append, scanFrom_cons hrank, if_neg (not_le.mpr hx), lastBound, map_cons,
      getLastD_cons]
    exact ih h.cons.2 hx hpre

end Scan

namespace Histogram

variable (h : Histogram) {q : ℚ}

theorem histogramQuantile_points :
    histogramQuantile h.points q = some (scanFrom (q * h.total) 0 0 h.buckets) := by
  have hlast : h.points.dropLast.reverse.findSome? BucketPoint.le =
      some (lastBound 0 h.buckets) := by
    obtain ⟨pre, b, heq⟩ := eq_nil_or_concat h.buckets |>.resolve_left h.nonempty
    simp [points, lastBound, heq, point]
  unfold histogramQuantile
  rw [points, getLast?_concat]
  dsimp only
  rw [if_neg h.total_pos.ne', scan_append, ← points, hlast, scanFrom]
  cases scan (q * h.total) 0 0 (h.buckets.map point) <;> rfl

/-- **Quantiles are bounded and monotone.** -/
theorem quantile_bounded_monotone (h : Histogram) :
    (∀ q, 0 < q → q ≤ 1 → ∃ v, histogramQuantile h.points q = some v ∧ 0 ≤ v ∧
      v ≤ lastBound 0 h.buckets ∧
      ∀ pre b post, h.buckets = pre ++ b :: post → (∀ x ∈ pre, x.2 < q * h.total) → q * h.total ≤
        b.2 →
        lastBound 0 pre ≤ v ∧ v ≤ b.1) ∧
    ∀ q₁ q₂ v₁ v₂, 0 < q₁ → q₁ ≤ q₂ → q₂ ≤ 1 → histogramQuantile h.points q₁ = some v₁ →
      histogramQuantile h.points q₂ = some v₂ → v₁ ≤ v₂ := by
  have hrank : ∀ {q}, 0 < q → 0 < q * h.total := fun hq => mul_pos hq h.total_pos
  constructor
  · intro q hq _
    obtain ⟨hlow, hhigh⟩ := scanFrom_mem h.bounds (hrank hq)
    refine ⟨_, h.histogramQuantile_points, hlow, hhigh, fun pre b post heq hpre hstop => ?_⟩
    have hbounds := h.bounds
    rw [heq] at hbounds ⊢
    exact scanFrom_append hbounds (hrank hq) hpre hstop
  · intro q₁ q₂ v₁ v₂ hq hle _ hv₁ hv₂
    rw [histogramQuantile_points] at hv₁ hv₂
    cases hv₁
    cases hv₂
    exact scanFrom_mono h.bounds (hrank hq) (mul_le_mul_of_nonneg_right hle h.total_pos.le)

end Histogram

def demoHistogram : Histogram := ⟨[(1, 2), (3, 2)], 4, by decide, by decide, by decide, by decide⟩

theorem quantile_demoHistogram : histogramQuantile demoHistogram.points (1 / 4) = some (1 / 2) ∧
    histogramQuantile demoHistogram.points 1 = some 3 ∧ (1 / 2 : ℚ) ≤ 3 := by
  have hlow : histogramQuantile demoHistogram.points (1 / 4) = some (1 / 2) := by decide +kernel
  have hhigh : histogramQuantile demoHistogram.points 1 = some 3 := by decide +kernel
  exact ⟨hlow, hhigh, demoHistogram.quantile_bounded_monotone.2 _ _ _ _ (by decide +kernel)
    (by decide +kernel) le_rfl hlow hhigh⟩

end HivenetRouter.Engine
