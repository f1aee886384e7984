import HivenetRouter.Api.Passthrough
import HivenetRouter.Admission.BudgetSafety
import HivenetRouter.Auth.Quota

/-!
# The occupancy footprint of a request

`enforceOccupancyBudget`: the reservation that a request asks of the admission controller
is its input estimate plus the output tokens it declares, checked against the policy's
limits scaled to the pool (`globalCall`), and on a serverless replica against the key's
share of the pool (`keyCall`).

The client chooses the declared tokens, any 64-bit integer. `footprint_sound_iff` says for
which of them the reservation is what the gate takes it to be: at least the input
estimate, and never one that lowers the model's sum. The two sums of the path, footprint
and occupancy, both have to be representable; where they are not, the wrapped value is
negative and passes every budget.
-/

namespace HivenetRouter.Api

open Domain Tokenizer Admission Option ModelState

/-- The admission limits of a policy, for one replica. -/
structure PolicyLimits where
  admitBudgetTokens : ℤ
  maxInflight : ℤ
  /-- `IsServerless`. -/
  serverless : Bool

/-- `healthyReplicas`; the count is absent when no source of it is wired. -/
def healthyReplicas (healthyAgentCount : Option ℤ) : ℤ :=
  match healthyAgentCount with
  | none => 1
  | some n => if n > 1 then n else 1

/-- The output tokens that a request declares: the preferred of the two fields, unless it
is negative. -/
def declaredTokens (req : ChatRequest) : ℤ :=
  let declared := if req.maxCompletionTokens = 0 then req.maxTokens else req.maxCompletionTokens
  if declared < 0 then 0 else declared

/-- What `enforceOccupancyBudget` reserves. -/
def footprint (req : ChatRequest) (inputEstimate : ℤ) : ℤ :=
  wrap64 (inputEstimate + declaredTokens req)

/-- The limits of the pool: budget and in-flight bound. -/
def pool (pol : PolicyLimits) (replicas : ℤ) : ℤ × ℤ :=
  (wrap64 (pol.admitBudgetTokens * replicas), wrap64 (pol.maxInflight * replicas))

/-- The call on the controller of the model, if the policy bounds the pool at all. -/
def globalCall (pol : PolicyLimits) (req : ChatRequest) (inputEstimate replicas parkFor : ℤ) :
    Option AdmitCall :=
  if pol.admitBudgetTokens > 0 ∨ pol.maxInflight > 0 then
    some {
      model := req.model
      footprint := footprint req inputEstimate
      grows := declaredTokens req = 0
      budgetTokens := (pool pol replicas).1
      maxInflight := (pool pol replicas).2
      parkFor := parkFor }
  else none

/-- The conversion of a `float64` to an `int`, towards zero. -/
def truncate (x : ℚ) : ℤ := wrap64 (if x < 0 then ⌈x⌉ else ⌊x⌋)

/-- The call on the controller of the keys, for a key with a share of a serverless pool. -/
def keyCall (round : ℚ → ℚ) (pol : PolicyLimits) (req : ChatRequest)
    (inputEstimate replicas parkFor : ℤ) (keyID : String) (share : ℚ) : Option AdmitCall :=
  if pol.serverless ∧ pol.admitBudgetTokens > 0 ∧ share > 0 then
    some {
      model := keyID ++ "\x00" ++ req.model
      footprint := footprint req inputEstimate
      grows := declaredTokens req = 0
      budgetTokens := truncate (round (share * (pool pol replicas).1))
      maxInflight := 0
      parkFor := parkFor }
  else none

/-- `call` is one that `enforceOccupancyBudget` makes for the request, whatever the policy,
the pool and the key are at that moment. -/
inductive OccupancyCall (req : ChatRequest) (inputEstimate : ℤ) (call : AdmitCall) : Prop where
  | global (pol : PolicyLimits) (healthyAgentCount : Option ℤ) (parkFor : ℤ) :
    globalCall pol req inputEstimate (healthyReplicas healthyAgentCount) parkFor = some call →
      OccupancyCall req inputEstimate call
  | key (round : ℚ → ℚ) (pol : PolicyLimits) (healthyAgentCount : Option ℤ) (parkFor : ℤ)
      (keyID : String) (share : ℚ) :
    keyCall round pol req inputEstimate (healthyReplicas healthyAgentCount) parkFor keyID share =
        some call →
      OccupancyCall req inputEstimate call

theorem OccupancyCall.footprint_eq {req : ChatRequest} {inputEstimate : ℤ} {call : AdmitCall}
    (h : OccupancyCall req inputEstimate call) : call.footprint = footprint req inputEstimate := by
  cases h with
  | global _ _ _ hcall | key _ _ _ _ _ _ hcall =>
    obtain ⟨-, hcall⟩ := ite_none_right_eq_some.mp hcall
    rw [← some.inj hcall]

theorem declaredTokens_nonneg (req : ChatRequest) : 0 ≤ declaredTokens req := by
  unfold declaredTokens
  dsimp only
  split_ifs <;> omega

theorem declaredTokens_lt {n : ℕ} {req : ChatRequest} (h : req.WF n) :
    declaredTokens req < 2 ^ 63 := by
  have h₁ := h.maxCompletionTokens.2
  have h₂ := h.maxTokens.2
  unfold declaredTokens
  dsimp only
  split_ifs <;> omega

/-- What an occupancy call is taken to be: a reservation of at least the input, which is not
negative, and which no state lowers its sum for. -/
structure FootprintSound (scale : ℤ → ℤ) (inputEstimate : ℤ) (call : AdmitCall)
    (st : ModelState) : Prop where
  input_nonneg : 0 ≤ inputEstimate
  input_le : inputEstimate ≤ call.footprint
  sum_le : ∀ st', st.tryReserve call.footprint (effectiveBudget scale call.budgetTokens)
    call.maxInflight = (st', true) → st.sumW ≤ st'.sumW

/-- The two sums are representable; the second is not taken where the in-flight bound
refuses the request anyway. -/
def SumsFit (req : ChatRequest) (inputEstimate : ℤ) (call : AdmitCall) (st : ModelState) : Prop :=
  inputEstimate + declaredTokens req < 2 ^ 63 ∧
    (st.sumW + (inputEstimate + declaredTokens req) < 2 ^ 63 ∨
      (0 < call.maxInflight ∧ call.maxInflight < wrap64 (st.count + 1)))

instance (req : ChatRequest) (inputEstimate : ℤ) (call : AdmitCall) (st : ModelState) :
    Decidable (SumsFit req inputEstimate call st) :=
  inferInstanceAs (Decidable (_ ∧ _))

/-- **A request's footprint is sound exactly when the sums fit in 64 bits.** -/
theorem footprint_sound_iff (body : Body) {req : ChatRequest}
    (hreq : parsePassthroughRequest body = .ok req) (round : ℚ → ℚ)
    (estimator : Option Estimator) (scale : ℤ → ℤ) {call : AdmitCall}
    (hcall : OccupancyCall req (estimatePromptTokens round estimator req) call)
    {st : ModelState} (hst : Fits64 st.sumW) :
    FootprintSound scale (estimatePromptTokens round estimator req) call st ↔
      SumsFit req (estimatePromptTokens round estimator req) call st := by
  have hest := estimatePromptTokens_fits round estimator req
  have hest₀ := estimatePromptTokens_nonneg hreq round estimator
  have hdecl := declaredTokens_lt (parsePassthroughRequest_wf hreq)
  have hdecl₀ := declaredTokens_nonneg req
  have hfoot := le_wrap64_add_iff hest hdecl₀ hdecl
  have hcallfoot := hcall.footprint_eq
  rw [footprint] at hcallfoot
  constructor
  · intro h
    have hfits := hfoot.mp (hcallfoot ▸ h.input_le)
    refine ⟨hfits, ?_⟩
    by_contra hnot
    push Not at hnot
    rw [wrap64_of_fits ⟨by omega, hfits⟩] at hcallfoot
    -- the sum wraps to a negative value, which no budget refuses
    have hwrap := wrap64_of_ge hnot.1 (by have := hst.2; omega)
    rw [← hcallfoot] at hwrap
    obtain ⟨st', hst'⟩ := exists_tryReserve_eq_true
      (effectiveBudget scale call.budgetTokens)
      (by rw [hwrap]; have := hst.2; omega) (fun hcount => by have := hnot.2 hcount.1; omega)
    have hle := h.sum_le st' hst'
    rw [tryReserve_sumW hst', hwrap] at hle
    omega
  · rintro ⟨hfits, hsum⟩
    refine ⟨hest₀, hcallfoot ▸ hfoot.mpr hfits, fun st' hst' => ?_⟩
    rw [wrap64_of_fits ⟨by omega, hfits⟩] at hcallfoot
    rw [tryReserve_sumW hst', hcallfoot]
    refine (le_wrap64_add_iff hst (by omega) hfits).mpr ?_
    rcases hsum with hlt | hcount
    · exact hlt
    · exact absurd hcount (tryReserve_accepted hst').2.1

/-! ### Two requests

A body with one short message and the given `max_tokens`, the estimator as it starts, a
policy with a budget for one replica, and a model that nothing is in flight for. -/

def bodyText (maxTokens : String) : List UInt8 :=
  ("\x7b\"model\":\"m\",\"max_tokens\":" ++ maxTokens ++
    ",\"messages\":[\x7b\"content\":\"hi\"\x7d]\x7d").toList.map Json.byte

def shortRequest (maxTokens : ℤ) : ChatRequest where
  model := "m"
  messages := [⟨"", .text "hi"⟩]
  maxCompletionTokens := 0
  maxTokens := maxTokens
  system := []
  tools := []

def coldEstimator : Estimator := ⟨5 / 16, ∅⟩

def reservedPolicy : PolicyLimits := ⟨100000, 0, false⟩

def idleState : ModelState := ⟨"m", 0, 0, 0, 0, 0, 0⟩

/-- A small `max_tokens` is reserved as declared. -/
theorem footprint_sound_small :
    FootprintSound id (estimatePromptTokens id (some coldEstimator) (shortRequest 100))
      ⟨"m", 104, false, 100000, 0, 0⟩ idleState :=
  (footprint_sound_iff ⟨bodyText "100", by decide⟩ (by decide +kernel) id (some coldEstimator) id
    (.global reservedPolicy none 0 (by decide +kernel)) (by decide)).mpr (by decide +kernel)

/-- The largest `max_tokens` wraps the footprint to a negative value, which is admitted and
takes the model's sum below zero. -/
theorem footprint_wraps : parsePassthroughRequest ⟨bodyText "9223372036854775807", by decide⟩ =
        .ok (shortRequest (2 ^ 63 - 1)) ∧
      ∃ call, OccupancyCall (shortRequest (2 ^ 63 - 1))
          (estimatePromptTokens id (some coldEstimator) (shortRequest (2 ^ 63 - 1))) call ∧
        call.footprint = -2 ^ 63 + 3 ∧
        (idleState.tryReserve call.footprint (effectiveBudget id call.budgetTokens)
          call.maxInflight).2 = true ∧
        (idleState.tryReserve call.footprint (effectiveBudget id call.budgetTokens)
          call.maxInflight).1.sumW = -2 ^ 63 + 3 := by
  refine ⟨by decide +kernel, ⟨"m", -2 ^ 63 + 3, false, 100000, 0, 0⟩, ?_, rfl, ?_, ?_⟩
  · exact .global reservedPolicy none 0 (by decide +kernel)
  all_goals decide +kernel

/-!
## The occupancy share of a key

On a serverless pool `enforceOccupancyBudget` takes a second reservation, on the controller of the
keys: the key's requests in flight are to stay within its share of the pool's budget. That
controller has the admit fraction one, which scales by `id`, and no in-flight bound.

The handler truncates the product of share and pool budget, and `effectiveBudget` takes a budget
that is not positive for none. The floor at one that it has for a positive budget comes too late: a
product below one has become zero before. So the share limits exactly if the product is at least one
(`share_limits_iff`); below that every request of the key is admitted, whatever is in flight. The
count of replicas is no reason for it, since `healthyReplicas` is never below one.

The product is exact here, as a rational.
-/

open Int

theorem healthyReplicas_pos (healthyAgentCount : Option ℤ) :
    1 ≤ healthyReplicas healthyAgentCount := by
  unfold healthyReplicas
  split
  · exact le_rfl
  · split <;> omega

/-- A serverless policy with a budget, the replicas at the time of a request, and the share of its
key. The budget of the pool is representable. -/
structure KeyGate where
  pol : PolicyLimits
  serverless : pol.serverless = true
  budget_pos : 0 < pol.admitBudgetTokens
  healthyAgentCount : Option ℤ
  fits : pol.admitBudgetTokens * healthyReplicas healthyAgentCount < 2 ^ 63
  share : ℚ
  share_pos : 0 < share
  share_le : share ≤ 1

namespace KeyGate

variable (g : KeyGate)

def poolBudget : ℤ := g.pol.admitBudgetTokens * healthyReplicas g.healthyAgentCount

/-- What the key may have in flight. -/
def limit : ℤ := max 1 ⌊g.share * g.poolBudget⌋

/-- The call that `enforceOccupancyBudget` makes for a request of the key. -/
def Calls (call : AdmitCall) : Prop :=
  ∃ req inputEstimate parkFor keyID, keyCall id g.pol req inputEstimate
    (healthyReplicas g.healthyAgentCount) parkFor keyID g.share = some call

/-- **The share limits**: in every interleaving on the controller of the keys, with footprints that
are not negative and sums that are representable, an admission of the key leaves its sum within the
limit. -/
def Limits : Prop :=
  ∀ s act t i adm, (occupancy id).ReachVia State.Tidy s → s.Tidy act →
    (occupancy id).step s act = some t → Admits s t i adm → g.Calls adm.call →
    ∃ st, t.states[adm.state]? = some st ∧ st.sumW ≤ g.limit

/-! ### The budget of the call -/

theorem poolBudget_pos : 0 < g.poolBudget :=
  mul_pos g.budget_pos (healthyReplicas_pos g.healthyAgentCount)

theorem pool_eq : (pool g.pol (healthyReplicas g.healthyAgentCount)).1 = g.poolBudget :=
  wrap64_of_fits ⟨by have := g.poolBudget_pos; unfold poolBudget at this; omega, g.fits⟩

theorem product_pos : 0 < g.share * g.poolBudget :=
  mul_pos g.share_pos (cast_pos.mpr g.poolBudget_pos)

theorem truncate_product : truncate (g.share * g.poolBudget) = ⌊g.share * g.poolBudget⌋ := by
  have hpool : (0 : ℚ) < g.poolBudget := cast_pos.mpr g.poolBudget_pos
  have hle : g.share * g.poolBudget ≤ g.poolBudget := mul_le_of_le_one_left hpool.le g.share_le
  have hfloor : ⌊g.share * g.poolBudget⌋ ≤ g.poolBudget := cast_le.mp ((floor_le _).trans hle)
  have hnonneg : 0 ≤ ⌊g.share * g.poolBudget⌋ := floor_nonneg.mpr g.product_pos.le
  have hfits := g.fits
  unfold truncate
  rw [if_neg (not_lt.mpr g.product_pos.le)]
  refine wrap64_of_fits ⟨by omega, ?_⟩
  exact lt_of_le_of_lt hfloor hfits

variable {g}

theorem Calls.budgetTokens_eq {call : AdmitCall} (h : g.Calls call) :
    call.budgetTokens = ⌊g.share * g.poolBudget⌋ := by
  obtain ⟨req, inputEstimate, parkFor, keyID, hcall⟩ := h
  obtain ⟨-, hcall⟩ := Option.ite_none_right_eq_some.mp hcall
  rw [← Option.some.inj hcall]
  show truncate (g.share * (pool g.pol (healthyReplicas g.healthyAgentCount)).1) = _
  rw [g.pool_eq, g.truncate_product]

theorem effectiveBudget_id {b : ℤ} (hb : 1 ≤ b) : effectiveBudget id b = b := by
  unfold effectiveBudget
  rw [if_neg (by omega)]
  exact max_eq_right hb

theorem one_le_floor_iff : 1 ≤ ⌊g.share * g.poolBudget⌋ ↔ 1 ≤ g.share * g.poolBudget := by
  rw [le_floor, cast_one]

/-- The gate of the key bounds exactly if the product is at least one. -/
theorem Calls.effectiveBudget_pos_iff {call : AdmitCall} (h : g.Calls call) :
    0 < effectiveBudget id call.budgetTokens ↔ 1 ≤ g.share * g.poolBudget := by
  rw [h.budgetTokens_eq, ← one_le_floor_iff]
  constructor
  · intro hpos
    by_contra hlt
    unfold effectiveBudget at hpos
    rw [if_pos (by omega)] at hpos
    exact lt_irrefl 0 hpos
  · intro hone
    rw [effectiveBudget_id hone]
    omega

theorem limits_of_one_le (hone : 1 ≤ g.share * g.poolBudget) : g.Limits := by
  intro s act t i adm _ _ hstep hadmits hcalls
  obtain ⟨st, hst, hbudget, -⟩ := within_of_admits hstep hadmits
  have hfloor := one_le_floor_iff.mpr hone
  have hle := hbudget (hcalls.effectiveBudget_pos_iff.mpr hone)
  rw [hcalls.budgetTokens_eq, effectiveBudget_id hfloor] at hle
  exact ⟨st, hst, hle.trans (le_max_right _ _)⟩

/-! ### A share that is too small -/

def undeclared : ChatRequest := ⟨"m", [], 0, 0, [], []⟩

/-- The call for a prompt of two tokens where the product is truncated to zero. -/
def smallCall : AdmitCall := ⟨"k\x00m", 2, true, 0, 0, 0⟩

theorem calls_smallCall (hlt : g.share * g.poolBudget < 1) : g.Calls smallCall := by
  have hzero : ⌊g.share * g.poolBudget⌋ = 0 := floor_eq_zero_iff.mpr ⟨g.product_pos.le, hlt⟩
  refine ⟨undeclared, 2, 0, "k", ?_⟩
  unfold keyCall
  rw [if_pos ⟨g.serverless, g.budget_pos, g.share_pos⟩, g.pool_eq]
  have htruncate : truncate (id (g.share * g.poolBudget)) = 0 := g.truncate_product.trans hzero
  rw [htruncate]
  rfl

/-- One request of the key, on a controller that has nothing in flight: before its attempt. -/
def smallBefore : State :=
  ⟨0, [⟨"k\x00m", 0, 0, 0, 0, 0, 0⟩], (∅ : GoMap String ℕ).insert "k\x00m" 0,
    [⟨smallCall, 0, 0, .first⟩], [], [], 1, [], []⟩

theorem not_limits_of_lt (hlt : g.share * g.poolBudget < 1) : ¬g.Limits := by
  intro hlimits
  have hlimit : g.limit = 1 := by
    unfold limit
    rw [floor_eq_zero_iff.mpr ⟨g.product_pos.le, hlt⟩]
    rfl
  have hreach : (occupancy id).ReachVia State.Tidy smallBefore := by
    refine ⟨State.initial 0, [.stateFor smallCall], ⟨0, rfl⟩, ?_, rfl⟩
    exact (Machine.along_cons (M := occupancy id) (t := smallBefore) rfl).mpr
      ⟨(by decide : (0 : ℤ) ≤ 2), trivial⟩
  have htidy : smallBefore.Tidy (.tryFirst 0) := by decide
  -- without a budget the attempt succeeds
  have htry : ∃ t, (occupancy id).step smallBefore (.tryFirst 0) = some t ∧
      Admits smallBefore t 0 ⟨smallCall, 0, 0, .first⟩ ∧
      ∀ st, t.states[0]? = some st → st.sumW = 2 := by
    refine ⟨_, rfl, ⟨rfl, fun _ => AdmitPhase.noConfusion, _, rfl, 0, rfl⟩, ?_⟩
    rintro st hst
    cases hst
    rfl
  obtain ⟨t, hstep, hadmits, hsum⟩ := htry
  obtain ⟨st, hst, hle⟩ := hlimits _ _ _ _ _ hreach htidy hstep hadmits (calls_smallCall hlt)
  rw [hsum st hst, hlimit] at hle
  exact absurd hle (by decide)

end KeyGate

/-- **When the share of a key limits.** For every serverless policy with a budget, count of replicas
and share: in all interleavings every admission of the key leaves its sum within the limit, and
every call for the key is bounded, exactly if the share of the pool's budget is at least one
token. -/
theorem share_limits_iff (g : KeyGate) : (g.Limits ↔ 1 ≤ g.share * g.poolBudget) ∧
      ∀ call, g.Calls call →
        (0 < effectiveBudget id call.budgetTokens ↔ 1 ≤ g.share * g.poolBudget) := by
  refine ⟨⟨fun hlimits => ?_, KeyGate.limits_of_one_le⟩, fun call hcall =>
    hcall.effectiveBudget_pos_iff⟩
  by_contra hlt
  exact KeyGate.not_limits_of_lt (not_le.mp hlt) hlimits

/-- A budget of one hundred thousand tokens on one replica, and a share of a millionth. -/
def tinyShare : KeyGate where
  pol := ⟨100000, 0, true⟩
  serverless := rfl
  budget_pos := by decide
  healthyAgentCount := some 1
  fits := by decide
  share := 1 / 1000000
  share_pos := by norm_num
  share_le := by norm_num

theorem not_limits_tinyShare : ¬∀ g : KeyGate, g.Limits := by
  intro hall
  refine KeyGate.not_limits_of_lt (g := tinyShare) ?_ (hall tinyShare)
  show (1 / 1000000 : ℚ) * ((100000 * healthyReplicas (some 1) : ℤ) : ℚ) < 1
  norm_num [healthyReplicas]

/-!
## The daily budget before the queue

`reserveInputBudget` looks whether a request fits in what is left of the tenant's daily
budget, and then charges its prompt estimate: `RemainingTokens` and `AllowInputTokens`, with
the calls of other requests in between. `InputBudget` is one bucket of the limiter with the
requests that use it; a call of the limiter is one step.

Only the tokens of the current day count, and the calls read the bucket only through its
rollover (`InputBudget.today`): whether it has been created or rolled over by a request that
came to nothing makes no difference to the others. That is the relation `Alike`, between a run
and the run without one of its requests. A refused request leaves the two alike, unless it is
refused by the charge while some budget is left: then the counter is set to the limit. The
other way in which the gate errs is its sum, which wraps around.

* `reserve_sound` — where no charge is refused with budget left, and no declared output is
  negative or makes the sum overflow, a refused request consumes nothing, and an accepted one
  fits.
* `reserve_unsound` — what happens otherwise.
-/

open Auth Domain Function Machine DailyBucket

def reservedOutput (req : ChatRequest) : ℤ :=
  if req.maxCompletionTokens = 0 then req.maxTokens else req.maxCompletionTokens

/-- A request that fits, with the budget that was left. -/
structure BudgetCheck where
  promptTokens : ℤ
  reservedOutput : ℤ
  remaining : ℤ
  deriving DecidableEq

/-- How far `reserveInputBudget` has come with a request. -/
inductive BudgetStage
  | checked (c : BudgetCheck)
  /-- It has returned true; without a check where there is nothing to budget. -/
  | accepted (c : Option BudgetCheck)
  /-- It has written `429 token_limit_exceeded` with this text and this remaining budget. -/
  | refused (message : String) (remaining : ℤ)
  deriving DecidableEq

/-- A bucket of the limiter, the clock, and the requests. -/
structure InputBudget where
  bucket : Option DailyBucket
  day : ℤ
  requests : ℕ → Option BudgetStage

inductive BudgetAct
  /-- A request comes, and its remaining budget is read. -/
  | check (pid : ℕ) (req : ChatRequest)
  /-- Its prompt estimate is charged. -/
  | charge (pid : ℕ)
  /-- The completion of an earlier request is charged. -/
  | output (n : ℤ)
  | midnight (days : ℕ)

def BudgetAct.pid : BudgetAct → Option ℕ
  | .check pid _ => some pid
  | .charge pid => some pid
  | .output _ => none
  | .midnight _ => none

/-- The admission check: what is left against the prompt and the declared output. -/
def admissionCheck (promptTokens reservedOutput remaining : ℤ) : BudgetStage :=
  if 0 ≤ remaining ∧ remaining < wrap64 (promptTokens + reservedOutput) then
    .refused
      (if 0 < reservedOutput then "insufficient daily token budget for requested max_tokens"
        else "daily token budget exceeded") remaining
  else .checked ⟨promptTokens, reservedOutput, remaining⟩

namespace InputBudget

/-- The bucket that `getOrCreateDaily` returns. -/
def getOrCreate (s : InputBudget) : DailyBucket := s.bucket.getD ⟨0, s.day⟩

def remainingTokens (tpd : ℤ) (s : InputBudget) : ℤ × InputBudget :=
  if tpd ≤ 0 then (-1, s)
  else
    let result := s.getOrCreate.remainingTokens s.day tpd
    (result.1, { s with bucket := some result.2 })

/-- `AllowInputTokens` and `AllowOutputTokens`. -/
def allowTokens (tpd n : ℤ) (s : InputBudget) : Bool × InputBudget :=
  if tpd ≤ 0 ∨ n ≤ 0 then (true, s)
  else
    let result := s.getOrCreate.allowTokens s.day tpd n
    (result.1, { s with bucket := some result.2.2 })

def setRequest (s : InputBudget) (pid : ℕ) (stage : BudgetStage) : InputBudget :=
  { s with requests := update s.requests pid (some stage) }

/-- `reserveInputBudget` up to its admission check. -/
def check (estimate : ChatRequest → ℤ) (tpd : ℤ) (s : InputBudget) (pid : ℕ) (req : ChatRequest) :
    InputBudget :=
  if tpd ≤ 0 then s.setRequest pid (.accepted none)
  else if estimate req = 0 then s.setRequest pid (.accepted none)
  else
    let (remaining, s) := s.remainingTokens tpd
    s.setRequest pid (admissionCheck (estimate req) (reservedOutput req) remaining)

/-- `reserveInputBudget` from there on. -/
def charge (tpd : ℤ) (s : InputBudget) (pid : ℕ) (c : BudgetCheck) : InputBudget :=
  match s.allowTokens tpd c.promptTokens with
  | (true, s) => s.setRequest pid (.accepted (some c))
  | (false, s) => s.setRequest pid (.refused "daily token budget exceeded" 0)

def step (estimate : ChatRequest → ℤ) (tpd : ℤ) (s : InputBudget) : BudgetAct → Option InputBudget
  | .check pid req =>
    match s.requests pid with
    | none => some (s.check estimate tpd pid req)
    | some _ => none
  | .charge pid =>
    match s.requests pid with
    | some (.checked c) => some (s.charge tpd pid c)
    | _ => none
  | .output n => some (s.allowTokens tpd n).2
  | .midnight days => some { s with day := s.day + days }

/-- **What a step can do.** -/
inductive Moved (estimate : ChatRequest → ℤ) (tpd : ℤ) (s : InputBudget) :
    BudgetAct → InputBudget → Prop where
  | checked {pid req} (hnew : s.requests pid = none) :
      Moved estimate tpd s (.check pid req) (s.check estimate tpd pid req)
  | charged {pid c} (hchecked : s.requests pid = some (.checked c)) :
      Moved estimate tpd s (.charge pid) (s.charge tpd pid c)
  | deducted {n} : Moved estimate tpd s (.output n) (s.allowTokens tpd n).2
  | dayPassed {days} : Moved estimate tpd s (.midnight days) { s with day := s.day + days }

theorem step_moved {estimate : ChatRequest → ℤ} {tpd : ℤ} {s t : InputBudget} {a : BudgetAct}
    (h : s.step estimate tpd a = some t) : Moved estimate tpd s a t := by
  cases a with
  | check =>
    dsimp only [step] at h
    split at h
    · next hnew =>
      cases h
      exact .checked hnew
    · cases h
  | charge =>
    dsimp only [step] at h
    split at h
    · next c hchecked =>
      cases h
      exact .charged hchecked
    · cases h
  | output =>
    cases h
    exact .deducted
  | midnight =>
    cases h
    exact .dayPassed

/-- The bucket is not of a later day, and its counter is a machine integer. -/
structure Valid (s : InputBudget) : Prop where
  day_le : ∀ b ∈ s.bucket, b.day ≤ s.day
  fits : ∀ b ∈ s.bucket, Fits64 b.used

structure Start (s : InputBudget) : Prop extends s.Valid where
  requests : s.requests = fun _ => none

def today (s : InputBudget) : DailyBucket := s.getOrCreate.rollOver s.day

end InputBudget

/-- The requests of one tenant and model, with a fixed limit. -/
def inputBudget (estimate : ChatRequest → ℤ) (tpd : ℤ) : Machine InputBudget BudgetAct where
  Init := InputBudget.Start
  step := InputBudget.step estimate tpd

/-! ### The limiter calls -/

namespace InputBudget

variable {s t : InputBudget} {tpd n : ℤ} {b : DailyBucket}

theorem today_of_bucket (hbucket : s.bucket = some b) (hday : b.day = s.day) : s.today = b := by
  unfold today getOrCreate
  rw [hbucket]
  exact rollOver_of_eq hday

theorem today_day (s : InputBudget) : s.today.day = s.day := rollOver_day _ _

/-- The call reads the bucket of today, and leaves it as it is. -/
theorem remainingTokens_eq (htpd : 0 < tpd) (s : InputBudget) : s.remainingTokens tpd =
      (max 0 (wrap64 (tpd - s.today.used)), { s with bucket := some s.today }) :=
  if_neg (not_le.mpr htpd)

theorem allowTokens_eq (htpd : 0 < tpd) (hn : 0 < n) (s : InputBudget) : s.allowTokens tpd n =
      ((s.today.allowTokens s.day tpd n).1,
        { s with bucket := some (s.today.allowTokens s.day tpd n).2.2 }) := by
  have hagain : s.today.allowTokens s.day tpd n = s.getOrCreate.allowTokens s.day tpd n := by
    unfold DailyBucket.allowTokens
    rw [rollOver_of_eq (today_day s)]
    rfl
  rw [hagain]
  exact if_neg (not_or.mpr ⟨Int.not_le.mpr htpd, not_le.mpr hn⟩)

theorem Valid.fits_today (h : s.Valid) : Fits64 s.today.used := by
  have hzero : Fits64 0 := by decide
  unfold today getOrCreate rollOver
  cases hb : s.bucket with
  | none =>
    rw [getD_none, if_pos rfl]
    exact hzero
  | some b =>
    split_ifs
    · exact h.fits b hb
    · exact hzero

theorem Valid.write (hday : b.day = s.day) (hfits : Fits64 b.used) :
    Valid { s with bucket := some b } where
  day_le b' hb' := by
    cases hb'
    exact le_of_eq hday
  fits b' hb' := by
    cases hb'
    exact hfits

/-- The bucket after a deducting call is one of today. -/
theorem allowTokens_bucket (htpd : Fits64 tpd) (h : s.Valid) (n : ℤ) :
    (s.today.allowTokens s.day tpd n).2.2.day = s.day ∧
      Fits64 (s.today.allowTokens s.day tpd n).2.2.used := by
  have hroll : s.today.rollOver s.day = s.today := rollOver_of_eq (today_day s)
  cases hallow : s.today.allowTokens s.day tpd n with
  | mk allowed rest =>
    obtain ⟨rem, b'⟩ := rest
    cases allowed with
    | true =>
      obtain ⟨rfl, -⟩ := allowTokens_eq_true hallow
      exact ⟨rfl, wrap64_fits _⟩
    | false =>
      obtain ⟨rfl, -⟩ := allowTokens_eq_false hallow
      rw [hroll]
      refine ⟨rfl, ?_⟩
      rcases max_choice s.today.used tpd with hmax | hmax
      · rw [show (⟨max s.today.used tpd, s.day⟩ : DailyBucket).used = s.today.used from hmax]
        exact h.fits_today
      · rw [show (⟨max s.today.used tpd, s.day⟩ : DailyBucket).used = tpd from hmax]
        exact htpd

end InputBudget

/-! ### A run without one of its requests -/

open InputBudget

/-- Two states that differ in the request `r`, and in whether the bucket has been created and rolled
over already. -/
structure Alike (r : ℕ) (s s' : InputBudget) : Prop where
  day : s.day = s'.day
  today : s.today = s'.today
  requests : ∀ pid, pid ≠ r → s.requests pid = s'.requests pid
  valid : s.Valid
  valid' : s'.Valid

section Alike

variable {estimate : ChatRequest → ℤ} {tpd : ℤ} {r : ℕ} {s s' t : InputBudget}

section

variable (h : Alike r s s')

include h

theorem Alike.setRequest (pid : ℕ) (stage : BudgetStage) :
    Alike r (s.setRequest pid stage) (s'.setRequest pid stage) where
  __ := h
  requests q hq := by
    change update s.requests pid _ q = update s'.requests pid _ q
    rw [update_apply, update_apply, h.requests q hq]
  valid := ⟨h.valid.day_le, h.valid.fits⟩
  valid' := ⟨h.valid'.day_le, h.valid'.fits⟩

/-- The request itself is not compared. -/
theorem Alike.setRequest_self (stage : BudgetStage) : Alike r (s.setRequest r stage) s' where
  __ := h
  requests q hq := by
    change update s.requests r _ q = _
    rw [update_of_ne hq]
    exact h.requests q hq
  valid := ⟨h.valid.day_le, h.valid.fits⟩
  valid' := h.valid'

theorem Alike.write {b : DailyBucket} (hday : b.day = s.day)
    (hfits : Fits64 b.used) :
    Alike r { s with bucket := some b } { s' with bucket := some b } where
  __ := h
  today := by
    rw [today_of_bucket (s := { s with bucket := some b }) rfl hday,
      today_of_bucket (s := { s' with bucket := some b }) rfl (hday.trans h.day)]
  valid := Valid.write hday hfits
  valid' := Valid.write (hday.trans h.day) hfits

/-- The bucket is created, or rolled over: nobody sees a difference. -/
theorem Alike.rollOver : Alike r { s with bucket := some s.today } s' where
  __ := h
  today := by
    rw [today_of_bucket (s := { s with bucket := some s.today }) rfl (today_day s)]
    exact h.today
  valid := Valid.write (today_day s) h.valid.fits_today
  valid' := h.valid'

theorem Alike.check (pid : ℕ) (req : ChatRequest) :
    Alike r (s.check estimate tpd pid req) (s'.check estimate tpd pid req) := by
  unfold InputBudget.check
  split_ifs with htpd hestimate
  · exact h.setRequest pid _
  · exact h.setRequest pid _
  · rw [remainingTokens_eq (not_le.mp htpd), remainingTokens_eq (not_le.mp htpd), ← h.today]
    exact (h.write (today_day s) h.valid.fits_today).setRequest pid _

theorem Alike.check_self (req : ChatRequest) : Alike r (s.check estimate tpd r req) s' := by
  unfold InputBudget.check
  split_ifs with htpd hestimate
  · exact h.setRequest_self _
  · exact h.setRequest_self _
  · rw [remainingTokens_eq (not_le.mp htpd)]
    exact h.rollOver.setRequest_self _

variable (hfits : Fits64 tpd)

include hfits

theorem Alike.allowTokens (n : ℤ) :
    (s.allowTokens tpd n).1 = (s'.allowTokens tpd n).1 ∧
      Alike r (s.allowTokens tpd n).2 (s'.allowTokens tpd n).2 := by
  by_cases hzero : tpd ≤ 0 ∨ n ≤ 0
  · unfold InputBudget.allowTokens
    rw [if_pos hzero, if_pos hzero]
    exact ⟨rfl, h⟩
  · obtain ⟨htpd, hn⟩ := not_or.mp hzero
    have hbucket : s'.today.allowTokens s'.day tpd n = s.today.allowTokens s.day tpd n := by
      rw [h.today, h.day]
    rw [allowTokens_eq (not_le.mp htpd) (not_le.mp hn),
      allowTokens_eq (not_le.mp htpd) (not_le.mp hn), hbucket]
    obtain ⟨hday, hused⟩ := allowTokens_bucket hfits h.valid n
    exact ⟨rfl, h.write hday hused⟩

theorem Alike.charge (pid : ℕ) (c : BudgetCheck) :
    Alike r (s.charge tpd pid c) (s'.charge tpd pid c) := by
  obtain ⟨hsame, hafter⟩ := h.allowTokens hfits c.promptTokens
  unfold InputBudget.charge
  cases hs : s.allowTokens tpd c.promptTokens with
  | mk allowed =>
    cases hs' : s'.allowTokens tpd c.promptTokens with
    | mk allowed' =>
      rw [hs, hs'] at hsame hafter
      obtain rfl : allowed = allowed' := hsame
      cases allowed with
      | true | false => exact hafter.setRequest pid _

/-- **A refusal by the charge** leaves the counter as it is where the budget was used up. -/
theorem Alike.charge_self {c : BudgetCheck}
    (hcharge : s.today.used + c.promptTokens ≤ tpd ∨ tpd ≤ s.today.used) :
    (s.charge tpd r c).requests r = some (.accepted (some c)) ∨ Alike r (s.charge tpd r c) s' := by
  unfold InputBudget.charge
  by_cases hzero : tpd ≤ 0 ∨ c.promptTokens ≤ 0
  · -- nothing is charged without a limit or a prompt
    left
    unfold InputBudget.allowTokens
    rw [if_pos hzero]
    exact update_self ..
  · obtain ⟨htpd, hn⟩ := not_or.mp hzero
    have hroll : s.today.rollOver s.day = s.today := rollOver_of_eq (today_day s)
    rw [allowTokens_eq (not_le.mp htpd) (not_le.mp hn)]
    cases hallow : s.today.allowTokens s.day tpd c.promptTokens with
    | mk allowed rest =>
      obtain ⟨rem, b'⟩ := rest
      cases allowed with
      | true =>
        left
        exact update_self ..
      | false =>
        right
        obtain ⟨hb', hover⟩ := allowTokens_eq_false hallow
        rw [hroll] at hb' hover
        have hused : tpd ≤ s.today.used := by
          rcases hcharge with hroom | hfull
          · -- With room for the charge it is not refused: the sum does not wrap.
            obtain ⟨hlo, -⟩ := h.valid.fits_today
            obtain ⟨-, hhi⟩ := hfits
            rw [wrap64_of_fits ⟨by omega, by omega⟩] at hover
            omega
          · exact hfull
        -- the refusal writes the used amount back, capped at a limit that it has reached
        have hsame : b' = s.today := by
          rw [hb', max_eq_left hused, ← today_day s]
        rw [hsame]
        exact h.rollOver.setRequest_self _

end

theorem InputBudget.today_midnight (h : s.Valid) (days : ℕ) :
    today { s with day := s.day + days } = if days = 0 then s.today else ⟨0, s.day + days⟩ := by
  split_ifs with hdays
  · rw [hdays, Nat.cast_zero, add_zero]
  · unfold today getOrCreate
    dsimp only
    cases hb : s.bucket with
    | none => exact rollOver_of_eq rfl
    | some b =>
      rw [getD_some]
      have hle : b.day ≤ s.day := h.day_le b hb
      refine rollOver_of_ne ?_
      omega

theorem Alike.midnight (h : Alike r s s') (days : ℕ) :
    Alike r { s with day := s.day + days } { s' with day := s'.day + days } where
  day := by rw [h.day]
  today := by rw [today_midnight h.valid, today_midnight h.valid', h.today, h.day]
  requests := h.requests
  valid := ⟨fun b hb => le_trans (h.valid.day_le b hb) (by simp), h.valid.fits⟩
  valid' := ⟨fun b hb => le_trans (h.valid'.day_le b hb) (by simp), h.valid'.fits⟩

theorem Alike.step (h : Alike r s s') (hfits : Fits64 tpd) {a : BudgetAct} (hpid : a.pid ≠ some r)
    (hstep : s.step estimate tpd a = some t) :
    ∃ t', s'.step estimate tpd a = some t' ∧ Alike r t t' := by
  -- the request of the step stands where it stood, so that the step is possible here too
  cases step_moved hstep with
  | @checked pid req hnew =>
    have hne : pid ≠ r := fun heq => hpid (congrArg some heq)
    refine ⟨_, ?_, h.check pid req⟩
    dsimp only [InputBudget.step]
    rw [← h.requests pid hne, hnew]
  | @charged pid c hchecked =>
    have hne : pid ≠ r := fun heq => hpid (congrArg some heq)
    refine ⟨_, ?_, h.charge hfits pid c⟩
    dsimp only [InputBudget.step]
    rw [← h.requests pid hne, hchecked]
  | @deducted n => exact ⟨_, rfl, (h.allowTokens hfits n).2⟩
  | @dayPassed days => exact ⟨_, rfl, h.midnight days⟩

end Alike

/-! ### The gate -/

def Refused (s : InputBudget) (r : ℕ) : Prop :=
  ∃ message remaining, s.requests r = some (.refused message remaining)

/-- The declared output is not negative, and its sum with the prompt estimate is a machine
integer; a charge fits, or finds the budget used up. -/
def FairStep (estimate : ChatRequest → ℤ) (tpd : ℤ) (s : InputBudget) : BudgetAct → Prop
  | .check _ req => 0 ≤ reservedOutput req ∧ Fits64 (estimate req + reservedOutput req)
  | .charge pid =>
    match s.requests pid with
    | some (.checked c) => s.today.used + c.promptTokens ≤ tpd ∨ tpd ≤ s.today.used
    | _ => True
  | _ => True

instance (estimate : ChatRequest → ℤ) (tpd : ℤ) (s : InputBudget) (a : BudgetAct) :
    Decidable (FairStep estimate tpd s a) := by
  unfold FairStep
  repeat' split
  all_goals infer_instance

section Gate

variable {estimate : ChatRequest → ℤ} {tpd : ℤ} {r : ℕ} {s s' t : InputBudget} {a : BudgetAct}

theorem requests_allowTokens (tpd n : ℤ) (s : InputBudget) :
    (s.allowTokens tpd n).2.requests = s.requests := by
  unfold InputBudget.allowTokens
  split_ifs <;> rfl

/-- The stage that the check writes. -/
theorem check_cases (estimate : ChatRequest → ℤ) (tpd : ℤ) (s : InputBudget) (pid : ℕ)
    (req : ChatRequest) :
    (s.check estimate tpd pid req).requests = update s.requests pid (some (.accepted none)) ∨
      ∃ remaining, 0 ≤ remaining ∧
        (s.check estimate tpd pid req).requests = update s.requests pid
            (some (admissionCheck (estimate req) (reservedOutput req) remaining)) := by
  unfold check
  split_ifs with htpd hestimate
  · exact .inl rfl
  · exact .inl rfl
  · right
    rw [remainingTokens_eq (not_le.mp htpd)]
    exact ⟨_, le_max_left _ _, rfl⟩

/-- The stage that the charge writes. -/
theorem charge_cases (tpd : ℤ) (s : InputBudget) (pid : ℕ) (c : BudgetCheck) :
    (s.charge tpd pid c).requests = update s.requests pid (some (.accepted (some c))) ∨
      (s.charge tpd pid c).requests =
        update s.requests pid (some (.refused "daily token budget exceeded" 0)) := by
  have hsame := requests_allowTokens tpd c.promptTokens s
  unfold charge
  cases hs : s.allowTokens tpd c.promptTokens with
  | mk allowed u =>
    rw [hs] at hsame
    obtain rfl | rfl : allowed = true ∨ allowed = false := by cases allowed <;> simp
    · left
      change update u.requests pid _ = _
      rw [hsame]
    · right
      change update u.requests pid _ = _
      rw [hsame]

theorem accepted_step {c : Option BudgetCheck} (h : s.requests r = some (.accepted c))
    (hstep : s.step estimate tpd a = some t) :
    t.requests r = some (.accepted c) := by
  -- a step writes a request that is new or at its charge
  cases step_moved hstep with
  | @checked pid req hnew =>
    have hne : r ≠ pid := by
      rintro rfl
      rw [hnew] at h
      cases h
    rcases check_cases estimate tpd s pid req with heq | ⟨_, _, heq⟩
    all_goals rw [heq, update_of_ne hne, h]
  | @charged pid c' hchecked =>
    have hne : r ≠ pid := by
      rintro rfl
      rw [hchecked] at h
      cases h
    rcases charge_cases tpd s pid c' with heq | heq
    all_goals rw [heq, update_of_ne hne, h]
  | deducted =>
    rw [requests_allowTokens]
    exact h
  | dayPassed => exact h

/-- **The run without the request** leads to a state that is alike. -/
theorem run_without (hfits : Fits64 tpd) :
    ∀ (acts : List BudgetAct) (s s' : InputBudget), Alike r s s' →
      (inputBudget estimate tpd).Along (FairStep estimate tpd) s acts →
      (inputBudget estimate tpd).run s acts = some t → Refused t r →
      ∃ t', (inputBudget estimate tpd).run s' (acts.filter fun a => a.pid ≠ some r) = some t' ∧
        Alike r t t' := by
  intro acts
  induction acts with
  | nil =>
    intro s s' h _ hrun _
    cases hrun
    exact ⟨s', rfl, h⟩
  | cons a acts ih =>
    intro s s' h halong hrun hrefused
    obtain ⟨u, hsu, hut⟩ := run_cons_eq_some hrun
    rw [along_cons hsu] at halong
    obtain ⟨hfair, halong⟩ := halong
    by_cases hpid : a.pid = some r
    · -- A step of the request itself is left out; the states stay alike.
      rw [List.filter_cons_of_neg (by simpa using hpid)]
      suffices hsame : Alike r u s' from ih u s' hsame halong hut hrefused
      cases step_moved hsu with
      | @checked pid req hnew =>
        cases hpid
        exact h.check_self req
      | @charged pid c hchecked =>
        cases hpid
        dsimp only [FairStep] at hfair
        rw [hchecked] at hfair
        rcases h.charge_self hfits hfair with haccepted | hsame
        · -- Accepted, it would not have been refused in the end.
          have hend : t.requests r = some (.accepted (some c)) :=
            run_preserves (I := fun s => s.requests r = some (.accepted (some c)))
              (fun s a t h hstep => accepted_step h hstep) haccepted hut
          obtain ⟨message, remaining, hr⟩ := hrefused
          rw [hend] at hr
          cases hr
        · exact hsame
      | deducted | dayPassed => cases hpid
    · rw [List.filter_cons_of_pos (by simpa using hpid)]
      -- a step of another request is made in the other run as well
      obtain ⟨u', hsu', hsame⟩ := h.step hfits hpid hsu
      obtain ⟨t', hrun', ht'⟩ := ih u u' hsame halong hut hrefused
      exact ⟨t', (run_cons_of_step hsu' _).trans hrun', ht'⟩

/-- A request that is past its check fits in what was left. -/
def Fitting (s : InputBudget) : Prop :=
  ∀ pid c, s.requests pid = some (.checked c) ∨ s.requests pid = some (.accepted (some c)) →
    c.promptTokens + max 0 c.reservedOutput ≤ c.remaining

theorem fitting_admissionCheck {p out remaining : ℤ} (hout : 0 ≤ out) (hsum : Fits64 (p + out))
    (hremaining : 0 ≤ remaining) {c : BudgetCheck}
    (h : admissionCheck p out remaining = .checked c) :
    c.promptTokens + max 0 c.reservedOutput ≤ c.remaining := by
  unfold admissionCheck at h
  split_ifs at h with hfit
  cases h
  rw [wrap64_of_fits hsum] at hfit
  rw [max_eq_right hout]
  exact not_lt.mp fun hlt => hfit ⟨hremaining, hlt⟩

theorem fitting_update {pid : ℕ} {stage : BudgetStage} (h : Fitting s)
    (hrequests : t.requests = update s.requests pid (some stage))
    (hstage : ∀ c, stage = .checked c ∨ stage = .accepted (some c) →
      c.promptTokens + max 0 c.reservedOutput ≤ c.remaining) : Fitting t := by
  intro q c hq
  rw [hrequests, update_apply] at hq
  split_ifs at hq
  · exact hstage c (hq.imp some_inj.mp some_inj.mp)
  · exact h q c hq

theorem fitting_step (h : Fitting s) (hfair : FairStep estimate tpd s a)
    (hstep : s.step estimate tpd a = some t) : Fitting t := by
  cases step_moved hstep with
  | @checked pid req hnew =>
    rcases check_cases estimate tpd s pid req with heq | ⟨rem, hrem, heq⟩
    · exact fitting_update h heq nofun
    · refine fitting_update h heq fun c hc => ?_
      rcases hc with hc | hc
      · exact fitting_admissionCheck hfair.1 hfair.2 hrem hc
      · -- the check itself accepts nothing
        unfold admissionCheck at hc
        split at hc <;> cases hc
  | @charged pid c hchecked =>
    rcases charge_cases tpd s pid c with heq | heq
    · refine fitting_update h heq fun c' hc' => ?_
      rcases hc' with hc' | hc'
      · cases hc'
      · -- it is accepted with the check that it has passed
        cases hc'
        exact h pid c (.inl hchecked)
    · exact fitting_update h heq nofun
  -- output tokens are deducted from the counter, not from a request
  | deducted =>
    intro pid c hpid
    rw [requests_allowTokens] at hpid
    exact h pid c hpid
  | dayPassed => exact h

/-- **A refused request consumes nothing, and an accepted one fits**: the counter is the one
of the run without the request, and the prompt estimate with the declared output is at most
what was left at its check. -/
theorem reserve_sound (hfits : Fits64 tpd) {acts : List BudgetAct}
    (hinit : (inputBudget estimate tpd).Init s)
    (halong : (inputBudget estimate tpd).Along (FairStep estimate tpd) s acts)
    (hrun : (inputBudget estimate tpd).run s acts = some t) :
    (∀ r, Refused t r →
      ∃ t', (inputBudget estimate tpd).run s (acts.filter fun a => a.pid ≠ some r) = some t' ∧
        t'.today.used = t.today.used) ∧
    (∀ pid c, t.requests pid = some (.accepted (some c)) →
      c.promptTokens + max 0 c.reservedOutput ≤ c.remaining) := by
  constructor
  · -- the run without the request ends with the same counter
    intro r hrefused
    obtain ⟨t', hrun', halike⟩ :=
      run_without hfits acts s s ⟨rfl, rfl, fun _ _ => rfl, hinit.toValid, hinit.toValid⟩ halong
        hrun hrefused
    exact ⟨t', hrun', by rw [halike.today]⟩
  · -- what a check has promised holds until the request is accepted
    have hstart : Fitting s := by
      intro pid c hpid
      rw [show s.requests = fun _ => none from hinit.requests] at hpid
      exact absurd hpid (by simp)
    have hfitting : Fitting t := run_induction (C := FairStep estimate tpd) (I := Fitting)
      (fun s a t h hfair hstep => fitting_step h hfair hstep) acts s t hstart halong hrun
    intro pid c hpid
    exact hfitting pid c (.inr hpid)

end Gate

/-! ### Requests of four tokens

The prompt of `shortRequest` is estimated with the overhead of its message, four tokens. -/

def demoEstimate : ChatRequest → ℤ := estimatePromptTokens id none

def demoBudget : InputBudget := ⟨none, 0, fun _ => none⟩

/-- Two requests fit one after the other, and use the budget up; the third one is refused. -/
def seriesActs : List BudgetAct :=
  [.check 0 (shortRequest 2), .check 1 (shortRequest 0), .charge 0, .charge 1,
    .check 2 (shortRequest 1)]

theorem reserve_sound_series : ∃ t ∈ (inputBudget demoEstimate 8).run demoBudget seriesActs,
      Refused t 2 ∧ (∀ r, Refused t r →
        ∃ t', (inputBudget demoEstimate 8).run demoBudget
            (seriesActs.filter fun a => a.pid ≠ some r) = some t' ∧
          t'.today.used = t.today.used) ∧
      (∀ pid c, t.requests pid = some (.accepted (some c)) →
        c.promptTokens + max 0 c.reservedOutput ≤ c.remaining) := by
  obtain ⟨t, hrun, hrefused⟩ : ∃ t ∈ (inputBudget demoEstimate 8).run demoBudget seriesActs,
      t.requests 2 =
        some (.refused "insufficient daily token budget for requested max_tokens" 0) := by
    decide +kernel
  exact ⟨t, hrun, ⟨_, _, hrefused⟩,
    reserve_sound (by decide) ⟨⟨nofun, nofun⟩, rfl⟩ (by decide +kernel) hrun⟩

/-- **What happens otherwise.** Of two requests that are checked before either is charged, the
second is refused, and the counter is set to the limit: two tokens are gone that nobody has
used. And a request that declares the largest output is accepted with a budget of six. -/
theorem reserve_unsound : (∃ t ∈ (inputBudget demoEstimate 6).run demoBudget
        [.check 0 (shortRequest 0), .check 1 (shortRequest 0), .charge 0, .charge 1],
      t.requests 1 = some (.refused "daily token budget exceeded" 0) ∧ t.today.used = 6 ∧
        ∃ t' ∈ (inputBudget demoEstimate 6).run demoBudget [.check 0 (shortRequest 0), .charge 0],
          t'.today.used = 4) ∧
    ∃ t ∈ (inputBudget demoEstimate 6).run demoBudget
        [.check 0 (shortRequest (2 ^ 63 - 1)), .charge 0],
      t.requests 0 = some (.accepted (some ⟨4, 2 ^ 63 - 1, 6⟩)) ∧
        ¬(4 + max 0 (2 ^ 63 - 1) ≤ (6 : ℤ)) := by
  decide +kernel

end HivenetRouter.Api
