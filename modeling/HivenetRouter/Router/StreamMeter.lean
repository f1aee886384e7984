import HivenetRouter.Framework.Json.Grammar
import HivenetRouter.Framework.EventStream

/-!
# The token meter of a stream

`SSETokenMeter`: a copy of the stream that a client gets, read line by line. A `data:` line is
decoded as the union of the OpenAI and the Anthropic shapes (`sseChunk`) and changes the counts
(`parseLine`); a line that does not decode changes nothing.

The meter is a `LineBuffer`, so that it does not depend on how the stream is cut into writes
(`meter_chunks`). An observer is told every piece of content as it is parsed; that of the occupancy
budget grows a reservation by the increase of the bytes over four, rounded down, so that what it has
grown is always the rounded quarter of all bytes (`GrowthObserver.Even.observe`).

Lengths and counts of bytes are natural numbers: a stream is shorter than `2^63` bytes.
-/

namespace HivenetRouter.Router

open LineBuffer

open Json (decodeStruct decodeString decodeInt decodeSlice byte)

/-! ### The events of a stream -/

/-- A pointer: `null` is `nil`, and a value is decoded into the one that is there. -/
def decodePointer {α : Type} (zero : α) (decode : α → Json → Option α) (cur : Option α) :
    Json → Option (Option α)
  | .null => some none
  | v => (decode (cur.getD zero) v).map some

/-- An element of `choices`: the content of its delta, and its finish reason. -/
structure SSEChoice where
  content : String
  finishReason : Option String

/-- `usage`. -/
structure SSEUsage where
  promptTokens : ℤ
  completionTokens : ℤ
  inputTokens : ℤ
  outputTokens : ℤ

/-- `sseChunk`. The usage of a message has its input and output tokens only. -/
structure SSEChunk where
  type : String
  choices : List SSEChoice
  usage : Option SSEUsage
  message : Option (ℤ × ℤ)
  /-- The text of the top-level delta. -/
  delta : Option String

inductive ChoiceField where
  | delta
  | finishReason

def decodeText (name : String) (cur : String) : Json → Option String :=
  decodeStruct [(name, ())] (fun _ _ v s => decodeString s v) cur

def setChoice (f : ChoiceField) (_ : List UInt8) (v : Json) (c : SSEChoice) : Option SSEChoice :=
  match f with
  | .delta => (decodeText "content" c.content v).map fun s => { c with content := s }
  | .finishReason =>
    (decodePointer "" decodeString c.finishReason v).map fun r => { c with finishReason := r }

def decodeChoice : Json → Option SSEChoice :=
  decodeStruct [("delta", .delta), ("finish_reason", .finishReason)] setChoice ⟨"", none⟩

inductive UsageField where
  | promptTokens
  | completionTokens
  | inputTokens
  | outputTokens

def setUsage (f : UsageField) (_ : List UInt8) (v : Json) (u : SSEUsage) : Option SSEUsage :=
  match f with
  | .promptTokens => (decodeInt u.promptTokens v).map fun n => { u with promptTokens := n }
  | .completionTokens =>
    (decodeInt u.completionTokens v).map fun n => { u with completionTokens := n }
  | .inputTokens => (decodeInt u.inputTokens v).map fun n => { u with inputTokens := n }
  | .outputTokens => (decodeInt u.outputTokens v).map fun n => { u with outputTokens := n }

def decodeUsage : SSEUsage → Json → Option SSEUsage :=
  decodeStruct [("prompt_tokens", .promptTokens), ("completion_tokens", .completionTokens),
    ("input_tokens", .inputTokens), ("output_tokens", .outputTokens)] setUsage

/-- The `usage` of a message. -/
def decodeMessageUsage : ℤ × ℤ → Json → Option (ℤ × ℤ) :=
  decodeStruct [("input_tokens", true), ("output_tokens", false)] fun input _ v u =>
    if input then (decodeInt u.1 v).map fun n => (n, u.2) else (decodeInt u.2 v).map fun n =>
      (u.1, n)

def decodeMessageStart : ℤ × ℤ → Json → Option (ℤ × ℤ) :=
  decodeStruct [("usage", ())] fun _ _ v u => decodeMessageUsage u v

inductive ChunkField where
  | type
  | choices
  | usage
  | message
  | delta

def setChunk (f : ChunkField) (_ : List UInt8) (v : Json) (c : SSEChunk) : Option SSEChunk :=
  match f with
  | .type => (decodeString c.type v).map fun s => { c with type := s }
  | .choices => (decodeSlice decodeChoice v).map fun cs => { c with choices := cs }
  | .usage => (decodePointer ⟨0, 0, 0, 0⟩ decodeUsage c.usage v).map fun u => { c with usage := u }
  | .message =>
    (decodePointer (0, 0) decodeMessageStart c.message v).map fun m => { c with message := m }
  | .delta => (decodePointer "" (decodeText "text") c.delta v).map fun d => { c with delta := d }

/-- `json.Unmarshal` into an `sseChunk`. -/
def decodeChunk (payload : List UInt8) : Option SSEChunk :=
  (Json.unmarshal payload).bind (decodeStruct [("type", .type), ("choices", .choices),
    ("usage", .usage), ("message", .message), ("delta", .delta)] setChunk ⟨"", [], none, none,
      none⟩)

/-! ### The meter -/

/-- What the meter has read, and the state of its observer. -/
structure MeterState (ω : Type*) where
  content : String
  haveUsage : Bool
  usagePrompt : ℤ
  usageCompletion : ℤ
  sawEvents : Bool
  sawTerminal : Bool
  observer : ω

namespace MeterState

variable {ω : Type*} (onContent : ω → String → ω)

def deliver (m : MeterState ω) (text : String) : MeterState ω :=
  { m with content := m.content ++ text, observer := onContent m.observer text }

def noteEvents (c : SSEChunk) (m : MeterState ω) : MeterState ω :=
  if c.choices ≠ [] then
    { m with
      sawEvents := true
      sawTerminal := m.sawTerminal ||
        c.choices.any fun ch => ch.finishReason.any fun reason => reason ≠ "" }
  else if c.type ≠ "" then
    { m with
      sawEvents := true
      sawTerminal := m.sawTerminal || c.type = "message_stop" || c.type = "error" }
  else m

/-- The usage of OpenAI, of `message_start` and of `message_delta`. -/
def noteUsage (c : SSEChunk) (m : MeterState ω) : MeterState ω :=
  let m := match c.usage with
    | some u =>
      if u.promptTokens > 0 ∨ u.completionTokens > 0 then
        { m with
          haveUsage := true
          usagePrompt := u.promptTokens
          usageCompletion := u.completionTokens }
      else m
    | none => m
  let m := match c.message with
    | some (inputTokens, outputTokens) =>
      if inputTokens > 0 then
        { m with
          haveUsage := true
          usagePrompt := inputTokens
          usageCompletion :=
            if outputTokens > m.usageCompletion then outputTokens else m.usageCompletion }
      else m
    | none => m
  match c.usage with
  | some u =>
    if u.outputTokens > m.usageCompletion then
      let m := { m with usageCompletion := u.outputTokens }
      if u.inputTokens > 0 then { m with usagePrompt := u.inputTokens, haveUsage := true } else m
    else m
  | none => m

def texts (c : SSEChunk) : List String :=
  (c.choices.map (·.content) ++ c.delta.toList).filter (· ≠ "")

def parseLine (m : MeterState ω) (line : List UInt8) : MeterState ω :=
  let line := Utf8.trimSpace line
  if (Utf8.ofText "data:").isPrefixOf line then
    let payload := Utf8.trimSpace (line.drop 5)
    if payload = [] then m
    else if payload = Utf8.ofText "[DONE]" then { m with sawEvents := true, sawTerminal := true }
    else
      match decodeChunk payload with
      | none => m
      | some c => (texts c).foldl (deliver onContent) (noteUsage c (noteEvents c m))
  else m

end MeterState

abbrev SSETokenMeter (ω : Type*) := LineBuffer UInt8 (MeterState ω)

namespace SSETokenMeter

variable {ω : Type*}

/-- `NewSSETokenMeter`, with an observer in its first state. -/
def new (observer : ω) : SSETokenMeter ω := ⟨[], ⟨"", false, 0, 0, false, false, observer⟩⟩

def write (onContent : ω → String → ω) (m : SSETokenMeter ω) (p : List UInt8) : SSETokenMeter ω :=
  LineBuffer.write (byte '\n') (MeterState.parseLine onContent) m p

def flush (onContent : ω → String → ω) (m : SSETokenMeter ω) : SSETokenMeter ω :=
  LineBuffer.flush (MeterState.parseLine onContent) m

end SSETokenMeter

/-! ### The growth observer -/

/-- The variables of `NewGrowthObserver`, and the calls of `Grow`. -/
structure GrowthObserver where
  bytesSoFar : ℕ
  tokensSoFar : ℕ
  grows : List ℕ

namespace GrowthObserver

def new : GrowthObserver := ⟨0, 0, []⟩

/-- The callback. -/
def observe (o : GrowthObserver) (delta : String) : GrowthObserver :=
  let o := { o with bytesSoFar := o.bytesSoFar + delta.utf8ByteSize }
  let tokens := o.bytesSoFar / 4
  if tokens > o.tokensSoFar then
    { o with grows := o.grows ++ [tokens - o.tokensSoFar], tokensSoFar := tokens }
  else o

/-- What the observer keeps: it has grown the reservation by a quarter of the bytes. -/
def Even (o : GrowthObserver) : Prop :=
  o.tokensSoFar = o.bytesSoFar / 4 ∧ o.grows.sum = o.tokensSoFar

theorem bytesSoFar_observe (o : GrowthObserver) (delta : String) :
    (o.observe delta).bytesSoFar = o.bytesSoFar + delta.utf8ByteSize := by
  unfold observe
  dsimp only
  split <;> rfl

/-- **A call keeps the reservation at a quarter of the bytes**: it grows by the difference of two
rounded quarters, so that nothing is lost to rounding. -/
theorem Even.observe {o : GrowthObserver} (h : o.Even) (delta : String) :
    (o.observe delta).Even := by
  obtain ⟨htokens, hgrows⟩ := h
  have hle : o.bytesSoFar / 4 ≤ (o.bytesSoFar + delta.utf8ByteSize) / 4 :=
    Nat.div_le_div_right (Nat.le_add_right _ _)
  unfold GrowthObserver.observe
  dsimp only
  split
  · next hmore =>
    have hsum : (o.grows ++ [(o.bytesSoFar + delta.utf8ByteSize) / 4 - o.tokensSoFar]).sum =
        (o.bytesSoFar + delta.utf8ByteSize) / 4 := by
      rw [List.sum_append, hgrows, List.sum_singleton]
      exact Nat.add_sub_of_le (Nat.le_of_lt hmore)
    exact ⟨rfl, hsum⟩
  · next hless =>
    rw [← htokens] at hle
    exact ⟨Nat.le_antisymm hle (Nat.le_of_not_lt hless), hgrows⟩

end GrowthObserver

/-! ### The whole stream -/

namespace MeterState

/-- The observer has been told all the content. -/
def Observed (m : MeterState GrowthObserver) : Prop :=
  m.observer.Even ∧ m.observer.bytesSoFar = m.content.utf8ByteSize

theorem Observed.deliver {m : MeterState GrowthObserver} (h : m.Observed) (text : String) :
    (m.deliver GrowthObserver.observe text).Observed := by
  refine ⟨h.1.observe text, ?_⟩
  show (m.observer.observe text).bytesSoFar = (m.content ++ text).utf8ByteSize
  rw [GrowthObserver.bytesSoFar_observe, h.2, String.utf8ByteSize_append]

/-- The counts of a chunk change neither the content nor the observer. -/
theorem note_eq {ω : Type*} (c : SSEChunk) (m : MeterState ω) :
    (noteUsage c (noteEvents c m)).content = m.content ∧
      (noteUsage c (noteEvents c m)).observer = m.observer := by
  have hevents : (noteEvents c m).content = m.content ∧
      (noteEvents c m).observer = m.observer := by
    unfold noteEvents
    split_ifs <;> exact ⟨rfl, rfl⟩
  have husage : ∀ m : MeterState ω, (noteUsage c m).content = m.content ∧
      (noteUsage c m).observer = m.observer := by
    intro m
    unfold noteUsage
    cases c.usage <;> cases c.message <;> dsimp only <;> (try split_ifs) <;> exact ⟨rfl, rfl⟩
  exact ⟨(husage _).1.trans hevents.1, (husage _).2.trans hevents.2⟩

/-- **A line keeps the observer even with the content.** -/
theorem Observed.parseLine {m : MeterState GrowthObserver} (h : m.Observed) (line : List UInt8) :
    (m.parseLine GrowthObserver.observe line).Observed := by
  unfold MeterState.parseLine
  dsimp only
  split_ifs
  · exact h
  · exact h
  · split
    · exact h
    · next c _ =>
      obtain ⟨hcontent, hobserver⟩ := note_eq c m
      have hnoted : (noteUsage c (noteEvents c m)).Observed := by
        unfold Observed
        rw [hcontent, hobserver]
        exact h
      -- every text of the chunk is delivered to the observer
      generalize noteUsage c (noteEvents c m) = m' at hnoted
      induction texts c generalizing m' with
      | nil => exact hnoted
      | cons text rest ih => exact ih _ (hnoted.deliver text)
  · exact h

end MeterState

/-- **The meter does not depend on how the stream is cut.** Its state after any writes and a `Flush`
is that after one write of the whole stream, with any observer; and the growth observer has grown
its reservation by a quarter of the bytes of the content, rounded down. -/
theorem meter_chunks (chunks : List (List UInt8)) :
    (∀ (ω : Type) (onContent : ω → String → ω) (observer : ω),
      (chunks.foldl (SSETokenMeter.write onContent) (.new observer)).flush onContent =
        ((SSETokenMeter.new observer).write onContent chunks.flatten).flush onContent) ∧
      let m := (chunks.foldl (SSETokenMeter.write GrowthObserver.observe)
        (.new GrowthObserver.new)).flush GrowthObserver.observe
      m.state.observer.grows.sum = m.state.content.utf8ByteSize / 4 := by
  have hwrites : ∀ (ω : Type) (onContent : ω → String → ω) (observer : ω),
      chunks.foldl (SSETokenMeter.write onContent) (.new observer) =
        (SSETokenMeter.new observer).write onContent chunks.flatten :=
    fun _ _ _ => foldl_write _ List.not_mem_nil chunks
  refine ⟨fun ω onContent observer => by rw [hwrites], ?_⟩
  have hnew : (SSETokenMeter.new GrowthObserver.new).state.Observed := ⟨⟨rfl, rfl⟩, rfl⟩
  have hline : ∀ (m : MeterState GrowthObserver) line, m.Observed →
      (m.parseLine GrowthObserver.observe line).Observed := fun _ line h => h.parseLine line
  have hwritten : ((SSETokenMeter.new GrowthObserver.new).write GrowthObserver.observe
      chunks.flatten).state.Observed := scan_induction hline hnew [] _
  have hend := flush_induction hline hwritten
  rw [hwrites]
  exact hend.1.2.trans (hend.1.1.trans (congrArg (· / 4) hend.2))

end HivenetRouter.Router
