import HivenetRouter.Domain.Types
import HivenetRouter.Tokenizer.Estimator

/-!
# The front of the inference handlers

What `Passthrough` does with a body before any gate: `parsePassthroughRequest` decodes it
and checks the model, and `estimatePromptTokens` estimates its input tokens. The estimate
is not negative (`estimatePromptTokens_nonneg`): it is at least the overhead of the
messages, of which a body in memory cannot have so many that their count overflows.
-/

namespace HivenetRouter.Api

open Domain Tokenizer

/-- The bytes of a request body: a slice that fits in the 48-bit address space. -/
structure Body where
  bytes : List UInt8
  alloc : bytes.length < 2 ^ 48

/-- Why a body is answered with `400 request_invalid`. -/
inductive ParseError where
  /-- The decoder's error. -/
  | invalid
  | modelRequired
  | modelTooLong
  deriving DecidableEq

def parsePassthroughRequest (body : Body) : Except ParseError ChatRequest :=
  match decodeChatRequest body.bytes with
  | none => .error .invalid
  | some req =>
    if req.model = "" then .error .modelRequired
    else if byteLen req.model > 256 then .error .modelTooLong
    else .ok req

def perMessageTokenOverhead : ℤ := 4

/-- `estimatePromptTokens`: with the learned estimator, if there is one. -/
def estimatePromptTokens (round : ℚ → ℚ) (estimator : Option Estimator) (req : ChatRequest) : ℤ :=
  match estimator with
  | some e =>
    let (textBytes, messageCount) := promptTextBytes req
    e.estimate round req.model textBytes messageCount
  | none =>
    let promptTokens := estimateTokens (getMessageSlice req.messages)
    let floor := wrap64 (req.messages.length * perMessageTokenOverhead)
    if promptTokens < floor then floor else promptTokens

theorem parsePassthroughRequest_wf {body : Body} {req : ChatRequest}
    (h : parsePassthroughRequest body = .ok req) : req.WF body.bytes.length := by
  rw [parsePassthroughRequest] at h
  split at h
  · cases h
  · next req' hdecode =>
    split_ifs at h
    cases h
    exact decodeChatRequest_wf hdecode

variable (round : ℚ → ℚ) (estimator : Option Estimator)

theorem le_estimatePromptTokens (req : ChatRequest) :
    wrap64 (req.messages.length * 4) ≤ estimatePromptTokens round estimator req := by
  cases estimator with
  | some e => exact e.le_estimate round req.model (promptTextBytes req).1 req.messages.length
  | none =>
    rw [estimatePromptTokens]
    split_ifs with hlt
    · exact le_rfl
    · exact not_lt.mp hlt

theorem estimatePromptTokens_fits (req : ChatRequest) :
    Fits64 (estimatePromptTokens round estimator req) := by
  cases estimator with
  | some e => exact e.estimate_fits round req.model (promptTextBytes req).1 req.messages.length
  | none =>
    rw [estimatePromptTokens]
    split_ifs
    all_goals exact wrap64_fits _

theorem estimatePromptTokens_nonneg {body : Body} {req : ChatRequest}
    (h : parsePassthroughRequest body = .ok req) (round : ℚ → ℚ)
    (estimator : Option Estimator) : 0 ≤ estimatePromptTokens round estimator req := by
  have hmessages : req.messages.length ≤ body.bytes.length :=
    (parsePassthroughRequest_wf h).messages
  have halloc := body.alloc
  have hle := le_estimatePromptTokens round estimator req
  -- four times the number of messages is far from overflowing
  rw [wrap64_of_fits ⟨by omega, by omega⟩] at hle
  omega

end HivenetRouter.Api
