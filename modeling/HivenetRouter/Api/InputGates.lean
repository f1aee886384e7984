import HivenetRouter.Router.AdmissionConfig

/-!
# The two gates for long inputs

The input estimate of a request passes two gates: the cap of the policy (`enforceRequestCaps`), and
on a serverless policy the bucket of the key, which holds the tokens of one minute
(`AllowInputTokens`). The check of the configuration makes the bucket hold `max_input_tokens`, but
the cap lets an estimate pass up to `inputCapTolerance` times as much. An estimate between the two
is accepted by the cap and refused by every bucket, full or not (`not_agree_tolerated`). The gates
agree exactly if the bucket holds the tolerated estimate (`gates_agree_iff`).
-/

namespace HivenetRouter.Api

open Policy Auth Router

def inputCapTolerance : ℚ := 3 / 2

/-- `enforceRequestCaps`, for a policy with these caps. The product is exact here. The source rounds
it and its factors to `float64`, which makes no difference for caps up to `2 ^ 52`. -/
def enforceRequestCaps (maxInputTokens imagesMax inputTokens images : ℤ) : Bool :=
  if maxInputTokens > 0 ∧ (inputTokens : ℚ) > maxInputTokens * inputCapTolerance then false
  else if imagesMax > 0 ∧ images > imagesMax then false
  else true

/-- `AllowInputTokens` of `MinuteRateLimiter` on a bucket that is full: its burst is the limit, and
`AllowN` gives out what the bucket holds. -/
def allowInputTokens (limit count : ℤ) : Bool :=
  if limit ≤ 0 ∨ count ≤ 0 then true else count ≤ limit

/-- A policy with an input cap and a key with an input rate, of a configuration that passes the
check. -/
structure InputGates where
  policies : List PolicyDoc
  keys : List APIKeyEntry
  valid : validateAdmissionInvariants policies keys = .ok ()
  pol : PolicyDoc
  pol_mem : pol ∈ policies
  key : APIKeyEntry
  key_mem : key ∈ keys
  cap_pos : 0 < pol.maxInputTokens
  rate_pos : 0 < key.quota.inputTokensPerMinute

namespace InputGates

variable (g : InputGates)

/-- **The gates agree**: what the caps accept, a full bucket gives out. -/
def Agree : Prop :=
  ∀ imagesMax inputTokens images, Fits64 inputTokens →
    enforceRequestCaps g.pol.maxInputTokens imagesMax inputTokens images = true →
      allowInputTokens g.key.quota.inputTokensPerMinute inputTokens = true

/-- The largest estimate that the cap tolerates. -/
def tolerated : ℤ := min ⌊g.pol.maxInputTokens * inputCapTolerance⌋ (2 ^ 63 - 1)

theorem tolerated_nonneg : 0 ≤ g.tolerated := by
  have hcap : (0 : ℚ) ≤ g.pol.maxInputTokens * inputCapTolerance :=
    mul_nonneg (Int.cast_nonneg g.cap_pos.le) (by decide +kernel)
  exact le_min (Int.floor_nonneg.mpr hcap) (by decide)

/-- Without a bound on the images the caps accept the estimates up to the tolerated one. -/
theorem enforceRequestCaps_iff {inputTokens : ℤ} (hfits : Fits64 inputTokens) :
    enforceRequestCaps g.pol.maxInputTokens 0 inputTokens 0 = true ↔ inputTokens ≤ g.tolerated := by
  have hlt : inputTokens ≤ 2 ^ 63 - 1 := Int.le_sub_one_of_lt hfits.2
  rw [tolerated, le_min_iff, Int.le_floor, and_iff_left hlt]
  simp [enforceRequestCaps, g.cap_pos]

/-- A bound on the images refuses more. -/
theorem enforceRequestCaps_images {imagesMax inputTokens images : ℤ}
    (h : enforceRequestCaps g.pol.maxInputTokens imagesMax inputTokens images = true) :
    enforceRequestCaps g.pol.maxInputTokens 0 inputTokens 0 = true := by
  unfold enforceRequestCaps at h ⊢
  split at h
  · cases h
  · next hcap => rw [if_neg hcap, if_neg (by omega)]

/-- **The gates agree exactly if the bucket holds the tolerated estimate.** -/
theorem gates_agree_iff (g : InputGates) :
    g.Agree ↔ g.tolerated ≤ g.key.quota.inputTokensPerMinute := by
  have hrate := g.rate_pos
  constructor
  · intro h
    have hfits : Fits64 g.tolerated :=
      ⟨by have := g.tolerated_nonneg; omega, Int.lt_of_le_sub_one (min_le_right _ _)⟩
    have hallow := h 0 g.tolerated 0 hfits ((g.enforceRequestCaps_iff hfits).mpr le_rfl)
    unfold allowInputTokens at hallow
    split at hallow
    · omega
    · exact of_decide_eq_true hallow
  · intro h imagesMax inputTokens images hfits hcaps
    have hle := (g.enforceRequestCaps_iff hfits).mp (g.enforceRequestCaps_images hcaps)
    unfold allowInputTokens
    split
    · rfl
    · exact decide_eq_true (hle.trans h)

end InputGates

def equalGates : InputGates where
  policies := [⟨[], {}, none, false, false, .serverless, 100⟩]
  keys := [⟨"", [], "", "", .ok none, [], ⟨0, 0, 100, 0, none⟩, 0⟩]
  valid := rfl
  pol := ⟨[], {}, none, false, false, .serverless, 100⟩
  pol_mem := List.mem_singleton_self _
  key := ⟨"", [], "", "", .ok none, [], ⟨0, 0, 100, 0, none⟩, 0⟩
  key_mem := List.mem_singleton_self _
  cap_pos := by decide
  rate_pos := by decide

/-- An estimate of 150 tokens. -/
theorem not_agree_tolerated : ¬ ∀ g : InputGates, g.Agree := by
  intro h
  have hallow := h equalGates 0 150 0 (by decide) (by decide +kernel)
  exact absurd hallow (by decide)

end HivenetRouter.Api
