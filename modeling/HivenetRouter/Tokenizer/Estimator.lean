import HivenetRouter.Framework.Go

/-!
# The learned token estimate

`tokenizer.Estimator`: a tokens-per-byte ratio for each model, learned from what the
backends report. A `float64` is a rational number, and `round` is the rounding of a result
to one.

The estimate is never below the overhead of the messages (`le_estimate`), whatever the
ratio and the rounding are. The ratios stay between `minRatio` and `maxRatio`, whatever the
backends report (`inBand_observed`).
-/

namespace HivenetRouter.Tokenizer

def perMessageOverhead : ℤ := 4

/-- `Estimator`: the cold-start ratio, and the ratios learned so far. -/
structure Estimator where
  cold : ℚ
  ratio : GoMap String ℚ

namespace Estimator

def ratioFor (e : Estimator) (model : String) : ℚ := (e.ratio.lookup model).getD e.cold

def estimate (round : ℚ → ℚ) (e : Estimator) (model : String) (textBytes messageCount : ℤ) : ℤ :=
  let est := wrap64 ⌈round (textBytes * e.ratioFor model)⌉
  let floor := wrap64 (messageCount * perMessageOverhead)
  if est < floor then floor else est

variable (round : ℚ → ℚ) (e : Estimator) (model : String) (textBytes messageCount : ℤ)

theorem le_estimate :
    wrap64 (messageCount * perMessageOverhead) ≤ e.estimate round model textBytes messageCount := by
  rw [estimate]
  split_ifs with hlt
  · exact le_rfl
  · exact not_lt.mp hlt

theorem estimate_fits : Fits64 (e.estimate round model textBytes messageCount) := by
  rw [estimate]
  split_ifs
  all_goals exact wrap64_fits _

/-! ### What the estimator learns -/

/-- `NewEstimator`; the ratio is `1.0 / coldStartCharsPerToken`. -/
def newEstimator (round : ℚ → ℚ) : Estimator := ⟨round (5 / 16), ∅⟩

/-- The `EWMA` of `Observe`, with `defaultAlpha`; no two operations are fused into one. -/
def ewma (round : ℚ → ℚ) (obs cur : ℚ) : ℚ :=
  let alpha := round (1 / 5)
  round (round (alpha * obs) + round (round (1 - alpha) * cur))

/-- `Observe`, with `MinLearnBytes`, `minRatio` and `maxRatio`. -/
def observe (round : ℚ → ℚ) (e : Estimator) (model : String) (textBytes promptTokens : ℤ) :
    Estimator :=
  if textBytes < 4096 ∨ promptTokens ≤ 0 then e
  else
    let obs := round (round promptTokens / round textBytes)
    let obs := if obs < round (1 / 20) then round (1 / 20) else obs
    let obs := if obs > 1 then 1 else obs
    { e with ratio := e.ratio.insert model (ewma round obs (e.ratioFor model)) }

/-- Neither the weights nor the rounded sums turn the order around. -/
theorem ewma_le {obs obs' cur cur' : ℚ} (hobs : obs ≤ obs') (hcur : cur ≤ cur') :
    ewma nearest obs cur ≤ ewma nearest obs' cur' := by
  have halpha : 0 ≤ nearest (1 / 5) := nearest_nonneg (by norm_num)
  have hrest : 0 ≤ nearest (1 - nearest (1 / 5)) := by decide +kernel
  exact nearest_mono (add_le_add (nearest_mono (mul_le_mul_of_nonneg_left hobs halpha))
    (nearest_mono (mul_le_mul_of_nonneg_left hcur hrest)))

/-- Every ratio is between `minRatio` and `maxRatio`. -/
def InBand (e : Estimator) : Prop := ∀ model, e.ratioFor model ∈ Set.Icc (nearest (1 / 20)) 1

variable {e : Estimator}

/-- The average of two ratios in the band is at least that of its lower end with itself, and at most
that of its upper end; these two are computed. -/
theorem InBand.observe (he : e.InBand) (model : String) (textBytes promptTokens : ℤ) :
    (e.observe nearest model textBytes promptTokens).InBand := by
  intro k
  have hends : nearest (1 / 20) ≤ 1 := (he k).1.trans (he k).2
  have hlow : nearest (1 / 20) ≤ ewma nearest (nearest (1 / 20)) (nearest (1 / 20)) := by
    decide +kernel
  have hhigh : ewma nearest 1 1 ≤ 1 := by decide +kernel
  unfold Estimator.observe
  split_ifs
  · exact he k
  · unfold ratioFor
    by_cases hk : k = model
    · rw [hk, Finmap.lookup_insert, Option.getD_some]
      refine ⟨hlow.trans (ewma_le ?_ (he _).1), (ewma_le ?_ (he _).2).trans hhigh⟩ <;> grind
    · rw [Finmap.lookup_insert_of_ne _ hk]
      exact he k

/-- **No reports move a ratio out of the band**, with every result rounded to a `float64`. -/
theorem inBand_observed (samples : List (String × ℤ × ℤ)) :
    (samples.foldl (fun e s => e.observe nearest s.1 s.2.1 s.2.2)
      (newEstimator nearest)).InBand := by
  refine samples.foldlRecOn _ (fun _ => ?_) fun e he s _ => he.observe s.1 s.2.1 s.2.2
  exact (by decide +kernel : nearest (5 / 16) ∈ Set.Icc (nearest (1 / 20)) 1)

end Estimator

end HivenetRouter.Tokenizer
