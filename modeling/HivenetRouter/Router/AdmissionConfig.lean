import HivenetRouter.Auth.Loader
import HivenetRouter.Policy.Directory

/-!
# The checks that span policies and keys

`ValidateAdmissionInvariants`: on a serverless policy with an input cap, the input rate of each key
that the policy governs must hold one prompt of the largest size. The check passes exactly when
every policy **covers** every key (`validateAdmissionInvariants_eq_ok_iff`).

`Covers` goes by `GovernsAnyOf`, the law that the check is for by `EffectivePolicy`. A named
document governs the keys that may call one of its models, and so the two agree on it
(`Covers.of_routes`). They agree on the global policy if it lists no models; if it does,
`EffectivePolicy` ignores the list and `GovernsAnyOf` does not (`Covers.of_global`).
-/

namespace HivenetRouter.Router

open Policy Auth List

/-- `gatherPolicies`, with the documents visited in `order`. -/
def gatherPolicies (order : List String) (global : PolicyDoc) (named : GoMap String PolicyDoc) :
    List PolicyDoc :=
  global :: order.filterMap named.lookup

/-- The error of `ValidateITPMCoversMaxInput`, with its label: the key, and the policy. -/
structure AdmissionError where
  index : ℕ
  keyPreview : GoString
  models : List String
  inputTokensPerMinute : ℤ
  maxInputTokens : ℤ

/-- The turn of the inner loop for one key. -/
def checkKey (p : PolicyDoc) (i : ℕ) (k : APIKeyEntry) : Except AdmissionError Unit :=
  if !p.governsAnyOf k.models then .ok ()
  else if validateITPMCoversMaxInput k.quota.inputTokensPerMinute p.maxInputTokens then .ok ()
  else .error ⟨i, k.keyPreview, p.models, k.quota.inputTokensPerMinute, p.maxInputTokens⟩

/-- The inner loop of `ValidateAdmissionInvariants`, from the index `i`. -/
def checkKeys (p : PolicyDoc) (i : ℕ) : List APIKeyEntry → Except AdmissionError Unit
  | [] => .ok ()
  | k :: keys => do
    checkKey p i k
    checkKeys p (i + 1) keys

def checkPolicy (p : PolicyDoc) (keys : List APIKeyEntry) : Except AdmissionError Unit :=
  if !p.isServerless || p.maxInputTokens ≤ 0 then .ok () else checkKeys p 0 keys

def validateAdmissionInvariants (policies : List PolicyDoc) (keys : List APIKeyEntry) :
    Except AdmissionError Unit :=
  match policies with
  | [] => .ok ()
  | p :: policies => do
    checkPolicy p keys
    validateAdmissionInvariants policies keys

/-! ### What the check establishes -/

/-- If the policy is serverless with an input cap and governs keys with these models, a rate that is
set is no less than the cap. -/
def Covers (p : PolicyDoc) (models : List String) (inputTokensPerMinute : ℤ) : Prop :=
  p.isServerless = true → 0 < p.maxInputTokens → p.governsAnyOf models = true →
    0 < inputTokensPerMinute → p.maxInputTokens ≤ inputTokensPerMinute

variable {p : PolicyDoc} {keys : List APIKeyEntry} {models : List String} {rate : ℤ}

theorem checkKey_eq_ok_iff (hserverless : p.isServerless = true) (hcap : 0 < p.maxInputTokens)
    {i : ℕ} {k : APIKeyEntry} :
    checkKey p i k = .ok () ↔ Covers p k.models k.quota.inputTokensPerMinute := by
  unfold checkKey Covers validateITPMCoversMaxInput
  by_cases hgoverns : p.governsAnyOf k.models = true
  · rw [if_neg (by simp [hgoverns])]
    simp only [hserverless, hcap, hgoverns, true_implies, gt_iff_lt, decide_true, Bool.and_true]
    split_ifs with hcheck
    · refine iff_of_true rfl fun hrate => not_lt.mp fun hlt => ?_
      simp [hrate, hlt] at hcheck
    · refine iff_of_false nofun fun h => hcheck ?_
      by_cases hrate : 0 < k.quota.inputTokensPerMinute
      · simp [hrate, h hrate]
      · simp [hrate]
  · rw [if_pos (by simp [hgoverns])]
    exact iff_of_true rfl fun _ _ h => absurd h hgoverns

theorem checkKeys_eq_ok_iff (hserverless : p.isServerless = true) (hcap : 0 < p.maxInputTokens)
    {i : ℕ} :
    checkKeys p i keys = .ok () ↔ ∀ k ∈ keys, Covers p k.models k.quota.inputTokensPerMinute := by
  induction keys generalizing i with
  | nil => exact iff_of_true rfl fun k hk => absurd hk not_mem_nil
  | cons k keys ih =>
    unfold checkKeys
    rw [ok_unit_bind_eq_ok_iff, checkKey_eq_ok_iff hserverless hcap, ih, forall_mem_cons]

/-- **The check passes exactly when every policy covers every key.** -/
theorem validateAdmissionInvariants_eq_ok_iff {policies : List PolicyDoc} :
    validateAdmissionInvariants policies keys = .ok () ↔
      ∀ p ∈ policies, ∀ k ∈ keys, Covers p k.models k.quota.inputTokensPerMinute := by
  induction policies with
  | nil => exact iff_of_true rfl fun p hp => absurd hp not_mem_nil
  | cons p policies ih =>
    unfold validateAdmissionInvariants
    rw [ok_unit_bind_eq_ok_iff, ih, forall_mem_cons]
    refine and_congr_left fun _ => ?_
    unfold checkPolicy
    split_ifs with hskip
    · refine iff_of_true rfl fun k _ hserverless hcap => ?_
      simp [hserverless, not_le.mpr hcap] at hskip
    · simp only [Bool.or_eq_true, Bool.not_eq_eq_eq_not, Bool.not_true, decide_eq_true_eq, not_or,
        Bool.not_eq_false, not_le] at hskip
      exact checkKeys_eq_ok_iff hskip.1 hskip.2

/-! ### Policies in force -/

/-- The document is the global policy or a named one. -/
def InForce (st : PolicyState) (p : PolicyDoc) : Prop :=
  p = st.global ∨ ∃ name, st.named.lookup name = some p

theorem mem_gatherPolicies_iff {order : List String} {st : PolicyState}
    (horder : RangeOrder st.named order) :
    p ∈ gatherPolicies order st.global st.named ↔ InForce st p := by
  unfold gatherPolicies InForce
  rw [mem_cons, mem_filterMap]
  refine or_congr_right (exists_congr fun name => and_iff_right_of_imp fun hname => ?_)
  rw [horder.mem_iff, hname]
  rfl

theorem effectivePolicy_cases (st : PolicyState) (order : List String) (model : String) :
    st.effectivePolicy order model = st.global ∨
      ∃ name, Routes st.named name (st.effectivePolicy order model) model := by
  unfold PolicyState.effectivePolicy
  cases hlookup : (buildModelPolicies order st.named).lookup model with
  | none => exact .inl rfl
  | some => exact .inr (routes_of_lookup_buildModelPolicies hlookup)

def Calls (models : List String) (model : String) : Prop := models = [] ∨ model ∈ models

theorem Covers.of_routes {model : String} (h : Covers p models rate) (hlisted : model ∈ p.models)
    (hcalls : Calls models model) (hserverless : p.isServerless = true)
    (hcap : 0 < p.maxInputTokens) (hrate : 0 < rate) :
    p.maxInputTokens ≤ rate := by
  refine h hserverless hcap ?_ hrate
  unfold PolicyDoc.governsAnyOf
  rcases hcalls with rfl | hmem
  · rfl
  · rw [Bool.or_eq_true]
    exact .inr (any_eq_true.mpr ⟨model, hmem, decide_eq_true hlisted⟩)

theorem Covers.of_global (h : Covers p models rate) (hlist : p.models = [])
    (hserverless : p.isServerless = true) (hcap : 0 < p.maxInputTokens) (hrate : 0 < rate) :
    p.maxInputTokens ≤ rate := by
  refine h hserverless hcap ?_ hrate
  unfold PolicyDoc.governsAnyOf
  rw [hlist]
  simp

end HivenetRouter.Router
