import HivenetRouter.Framework.Json.Grammar

/-!
# Agents

The part of `domain.Agent` that routing reads and writes. The metadata fields are
those that the match filter, the capability filter and the capacity gate look at;
the health flags are the two that `buildCandidates` tests; `activeRequests` is the
load counter. Each of the three operations below is one critical section of the
agent's mutex in the source, hence one atomic action of every machine built on it.

An agent's concurrency is counted in free slots (`Agent.freeSlots`). A successful
`tryAcquireSlot` takes exactly one of them (`tryAcquireSlot_eq_some`), and
`decrementLoad` gives back at most one (`freeSlots_decrementLoad_le`); these two
facts are all that the accounting of wake-ups needs from the counter.
-/

namespace HivenetRouter.Domain

/-- `domain.AgentMetadata`, without the fields no routing decision reads. -/
structure AgentMetadata where
  capacity : Int
  region : String
  tags : List String
  engine : String
  organization : String
  machine : String
  capability : String
  gpuModel : String

/-- `domain.Agent`: a connected agent, its health flags and its load. -/
structure Agent where
  metadata : AgentMetadata
  healthy : Bool
  backendHealthy : Bool
  activeRequests : Int

namespace Agent

def decrementLoad (a : Agent) : Agent := { a with activeRequests := a.activeRequests - 1 }

/-- `TryAcquireSlot`: the agent with the slot taken, `none` when it is at capacity. -/
def tryAcquireSlot (a : Agent) : Option Agent :=
  if a.activeRequests ≥ a.metadata.capacity then none
  else some { a with activeRequests := a.activeRequests + 1 }

/-- The slots that `TryAcquireSlot` would still hand out. -/
def freeSlots (a : Agent) : Nat := (a.metadata.capacity - a.activeRequests).toNat

theorem freeSlots_pos_iff (a : Agent) :
    0 < a.freeSlots ↔ a.activeRequests < a.metadata.capacity := by
  unfold freeSlots
  omega

/-- A release gives back at most one slot: none when the counter was above the
capacity. -/
theorem freeSlots_decrementLoad_le (a : Agent) : a.decrementLoad.freeSlots ≤ a.freeSlots + 1 := by
  unfold freeSlots decrementLoad
  dsimp only
  omega

/-- A successful acquisition takes one slot, and changes nothing but the load. -/
theorem tryAcquireSlot_eq_some {a b : Agent} (h : a.tryAcquireSlot = some b) :
    b = { a with activeRequests := a.activeRequests + 1 } ∧ b.freeSlots + 1 = a.freeSlots := by
  unfold tryAcquireSlot at h
  split_ifs at h
  cases h
  refine ⟨rfl, ?_⟩
  unfold freeSlots
  dsimp only
  omega

end Agent

/-!
## Chat requests

`domain.ChatRequest`, decoded from a request body, and what the router reads off it before
it forwards the original bytes: the model, the declared output tokens, and the prompt text
that the token estimates count.

A field that the router decodes and never reads (`temperature`, `audio`, an image's URL) is
checked as the decoder checks it and not kept. Byte counts are Go `int`s.

`decodeChatRequest_wf` says what holds of every decoded request: the token fields are
64-bit integers, and there are no more messages than bytes in the body.
-/

open Option

open Json (decodeStruct decodeString decodeBool decodeInt checkFloat decodeSlice)

/-! ### Messages -/

structure ContentPart where
  type : String
  text : String
  deriving DecidableEq

/-- What a message's `content` was decoded into. -/
inductive Content where
  | absent
  | text (s : String)
  | parts (ps : List ContentPart)
  deriving DecidableEq

structure ChatCompletionMessage where
  role : String
  content : Content
  deriving DecidableEq

/-- A struct all of whose fields are strings, checked and not kept. -/
def checkStrings (fields : List String) (v : Json) : Option Unit :=
  decodeStruct (fields.map fun f => (f, ())) (fun _ _ v _ => (decodeString "" v).map fun _ => ())
    () v

inductive PartField where
  | type
  | text
  | imageURL
  | inputAudio

def partFields : List (String × PartField) :=
  [("type", .type), ("text", .text), ("image_url", .imageURL), ("input_audio", .inputAudio)]

def setPartField (f : PartField) (_ : List UInt8) (v : Json) (p : ContentPart) :
    Option ContentPart :=
  match f with
  | .type => (decodeString p.type v).map fun s => { p with type := s }
  | .text => (decodeString p.text v).map fun s => { p with text := s }
  | .imageURL => (checkStrings ["url", "detail"] v).map fun _ => p
  | .inputAudio => (checkStrings ["data", "format"] v).map fun _ => p

def decodePart (v : Json) : Option ContentPart := decodeStruct partFields setPartField ⟨"", ""⟩ v

inductive MessageField where
  | role
  | content

def messageFields : List (String × MessageField) := [("role", .role), ("content", .content)]

/-- The content of a message: text if it decodes as a string (`null` does), else parts. -/
def decodeContent (v : Json) : Option Content :=
  match decodeString "" v with
  | some s => some (.text s)
  | none => (decodeSlice decodePart v).map .parts

/-- `ChatCompletionMessage.UnmarshalJSON`. -/
def decodeMessage (v : Json) : Option ChatCompletionMessage := do
  let raw ← decodeStruct messageFields
    (fun f _ v (raw : String × Option Json) =>
      match f with
      | .role => (decodeString raw.1 v).map fun role => (role, raw.2)
      | .content => some (raw.1, some v)) ("", none) v
  match raw.2 with
  | none => some ⟨raw.1, .absent⟩
  | some v => (decodeContent v).map fun content => ⟨raw.1, content⟩

/-! ### Requests -/

/-- `domain.ChatRequest`. `system` and `tools` are the bytes of their values. -/
structure ChatRequest where
  model : String
  messages : List ChatCompletionMessage
  maxCompletionTokens : ℤ
  maxTokens : ℤ
  system : List UInt8
  tools : List UInt8
  deriving DecidableEq

inductive ChatField where
  | model
  | messages
  | modalities
  | audio
  | maxCompletionTokens
  | maxTokens
  | system
  | tools
  | temperature
  | topP
  | stream
  | serviceTier
  deriving DecidableEq

def chatFields : List (String × ChatField) :=
  [("model", .model), ("messages", .messages), ("modalities", .modalities), ("audio", .audio),
    ("max_completion_tokens", .maxCompletionTokens), ("max_tokens", .maxTokens),
    ("system", .system), ("tools", .tools), ("temperature", .temperature), ("top_p", .topP),
    ("stream", .stream), ("service_tier", .serviceTier)]

def setChatField (f : ChatField) (raw : List UInt8) (v : Json) (req : ChatRequest) :
    Option ChatRequest :=
  match f with
  | .model => (decodeString req.model v).map fun s => { req with model := s }
  | .messages => (decodeSlice decodeMessage v).map fun ms => { req with messages := ms }
  | .modalities => (decodeSlice (decodeString "") v).map fun _ => req
  | .audio => (checkStrings ["voice", "format"] v).map fun _ => req
  | .maxCompletionTokens =>
    (decodeInt req.maxCompletionTokens v).map fun n => { req with maxCompletionTokens := n }
  | .maxTokens => (decodeInt req.maxTokens v).map fun n => { req with maxTokens := n }
  | .system => some { req with system := raw }
  | .tools => some { req with tools := raw }
  | .temperature => (checkFloat v).map fun _ => req
  | .topP => (checkFloat v).map fun _ => req
  | .stream => (decodeBool false v).map fun _ => req
  | .serviceTier => (decodeString "" v).map fun _ => req

def ChatRequest.zero : ChatRequest := ⟨"", [], 0, 0, [], []⟩

/-- A body decoded with a `json.Decoder`: its first value, into a zero request. -/
def decodeChatRequest (body : List UInt8) : Option ChatRequest := do
  let (v, _) ← Json.parse body
  decodeStruct chatFields setChatField .zero v

/-! ### Prompt text -/

/-- `GetMessageSlice`: the texts of the messages. -/
def getMessageSlice (messages : List ChatCompletionMessage) : List String :=
  messages.flatMap fun m =>
    match m.content with
    | .absent => []
    | .text s => [s]
    | .parts ps => (ps.filter fun p => p.type = "text").map (·.text)

/-- `SystemText`: the text of a system prompt, a string or text blocks. -/
def systemText (req : ChatRequest) : String :=
  match Json.parse req.system with
  | none => ""
  | some (v, _) =>
    match decodeString "" v, decodeSlice decodePart v with
    | some s, _ => s
    | none, some ps => String.join ((ps.filter fun p => p.type = "text").map (·.text))
    | none, none => ""

/-- `len` of a string. -/
def byteLen (s : String) : ℤ := s.utf8ByteSize

/-- `PromptTextBytes`: the bytes of prompt text, and the number of messages. -/
def promptTextBytes (req : ChatRequest) : ℤ × ℤ :=
  let text := (getMessageSlice req.messages).foldl (fun n s => wrap64 (n + byteLen s)) 0
  (wrap64 (wrap64 (text + byteLen (systemText req)) + req.tools.length), req.messages.length)

def estimateTokens (messages : List String) : ℤ :=
  wrap64 (messages.foldl (fun n s => wrap64 (n + byteLen s / 4)) 0 + wrap64 (messages.length * 4))

/-! ### What every decoded request satisfies -/

/-- The request is one that a body of `n` bytes decodes into. -/
structure ChatRequest.WF (n : ℕ) (req : ChatRequest) : Prop where
  maxCompletionTokens : Fits64 req.maxCompletionTokens
  maxTokens : Fits64 req.maxTokens
  messages : req.messages.length ≤ n

theorem setChatField_wf {n : ℕ} {f : ChatField} {raw : List UInt8} {v : Json}
    {req req' : ChatRequest} (hreq : req.WF n) (hv : v.AtMost n)
    (h : setChatField f raw v req = some req') : req'.WF n := by
  cases f with
  | messages =>
    obtain ⟨ms, hms, rfl⟩ := map_eq_some_iff.mp h
    exact { hreq with messages := Json.decodeSlice_length hv hms }
  | maxCompletionTokens =>
    obtain ⟨x, hx, rfl⟩ := map_eq_some_iff.mp h
    exact { hreq with maxCompletionTokens := Json.decodeInt_fits hreq.maxCompletionTokens hx }
  | maxTokens =>
    obtain ⟨x, hx, rfl⟩ := map_eq_some_iff.mp h
    exact { hreq with maxTokens := Json.decodeInt_fits hreq.maxTokens hx }
  | system | tools =>
    rw [← some.inj h]
    exact { hreq with }
  | model | modalities | audio | temperature | topP | stream | serviceTier =>
    obtain ⟨_, -, rfl⟩ := map_eq_some_iff.mp h
    exact { hreq with }

theorem decodeChatRequest_wf {body : List UInt8} {req : ChatRequest}
    (h : decodeChatRequest body = some req) : req.WF body.length := by
  obtain ⟨⟨v, rest⟩, hparse, h⟩ := bind_eq_some_iff.mp h
  refine Json.decodeStruct_preserves (Q := Json.AtMost body.length)
    (fun hv hreq hset => setChatField_wf hreq hv hset) ?_ ?_ h
  · rintro members rfl
    exact Json.parse_obj_atMost hparse
  · exact ⟨by decide, by decide, Nat.zero_le _⟩

end HivenetRouter.Domain
