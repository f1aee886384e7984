import HivenetRouter.Router.StreamMeter
import Mathlib.Data.List.DropRight

/-!
# The end of a stream

`drainStream` copies the stream of an agent to the client through a `lineWriter`, which forwards
whole lines and holds the rest back. A stream that is cut, by a read error or by an end without the
terminal marker, is ended by an error frame (`truncationFrame`) behind a newline if an event may be
open (`eventBoundary`), and the line that is held is dropped.

A held line of more than `maxHeldLine` bytes is forwarded without its end. The newline before the
frame is then the end of that line and not an empty one, so that the frame is read as more fields of
the event that the line belongs to. `truncation_isolated_iff` says when: the line at which the
stream is cut is longer than `maxHeldLine`, the last read has no newline, and an event is open
behind it.
-/

namespace HivenetRouter.Router

open LineBuffer

open List Option Nat Utf8

open EventStream (lf cr Reader readAll stripBom events Ended)

/-! ### The writer -/

/-- `lineWriter`, with what its writer was given. -/
structure LineWriter where
  out : List UInt8
  held : List UInt8
  tail : UInt8 × UInt8
  n : ℕ

def maxHeldLine : ℕ := 64 * 1024

def lastIndexByte (p : List UInt8) (c : UInt8) : Option ℕ :=
  (p.reverse.idxOf? c).map (p.length - 1 - ·)

namespace LineWriter

def new : LineWriter := ⟨[], [], (0, 0), 0⟩

/-- `forward`, to a client that keeps reading. -/
def forward (lw : LineWriter) (b : List UInt8) : LineWriter :=
  if b.length = 0 then lw
  else
    { lw with
      out := lw.out ++ b
      tail :=
        if b.length ≥ 2 then (b.getD (b.length - 2) 0, b.getD (b.length - 1) 0)
        else (lw.tail.2, b.getD 0 0)
      n := lw.n + b.length }

def flush (lw : LineWriter) : LineWriter :=
  if lw.held.length = 0 then lw else { lw.forward lw.held with held := [] }

def write (lw : LineWriter) (p : List UInt8) : LineWriter :=
  match lastIndexByte p lf with
  | none =>
    let lw := { lw with held := lw.held ++ p }
    if lw.held.length > maxHeldLine then lw.flush else lw
  | some i => { lw.forward (lw.held ++ p.take (i + 1)) with held := p.drop (i + 1) }

def eventBoundary (lw : LineWriter) : List UInt8 :=
  if lw.n = 0 ∨ lw.tail = (lf, lf) then [] else [lf]

end LineWriter

/-! ### Draining a stream -/

/-- The path of a request in the dialect of Anthropic. -/
def anthropicPath (path : GoString) : Bool := (ofText "/v1/messages").isPrefixOf path

def truncationMsg : String := "upstream stream ended before completion; the response may be partial"

def truncationFrame (path : GoString) : List UInt8 :=
  if anthropicPath path then
    ofText ("event: error\ndata: \x7b\"type\":\"error\",\"error\":" ++
      "\x7b\"type\":\"api_error\",\"message\":\"stream_truncated: " ++ truncationMsg ++
        "\"\x7d\x7d\n\n")
  else
    ofText ("data: \x7b\"error\":\x7b\"code\":\"stream_truncated\",\"message\":\"" ++
      truncationMsg ++
      "\",\"type\":\"server_error\"\x7d\x7d\n\n")

inductive TruncReason where
  | upstreamError
  | missingTerminal

/-- The stream of an agent as it is read: the reads, whether they end in an error, and the path of
the request. Its lines end in LF or CRLF; it may be cut between the two. -/
structure AgentStream where
  reads : List (List UInt8)
  readErr : Bool
  path : GoString
  lineEnds : ∀ bs cs, reads.flatten = bs ++ cr :: cs → cs = [] ∨ cs.head? = some lf

namespace AgentStream

variable {ω : Type*} (onContent : ω → String → ω) (meter : SSETokenMeter ω) (u : AgentStream)

def bytes : List UInt8 := u.reads.flatten

/-- The writes of `io.Copy`, which makes none of an empty read. -/
def writes : List (List UInt8) := u.reads.filter (· ≠ [])

/-- The writer and the meter when `io.Copy` has returned. -/
def copied : LineWriter := u.writes.foldl LineWriter.write .new

def metered : SSETokenMeter ω :=
  (u.writes.foldl (SSETokenMeter.write onContent) meter).flush onContent

def truncReason : Option TruncReason :=
  if u.readErr then some .upstreamError
  else if (u.metered onContent meter).state.sawEvents ∧
    ¬ (u.metered onContent meter).state.sawTerminal
  then some .missingTerminal
  else none

/-- `drainStream`: what the client receives. -/
def drainStream : List UInt8 :=
  match u.truncReason onContent meter with
  | none => u.copied.flush.out
  | some _ => u.copied.out ++ (u.copied.eventBoundary ++ truncationFrame u.path)

/-! ### What the client should see -/

/-- The last event that the client reads is that of the frame alone. -/
def Isolated : Prop :=
  ∃ before e, events (u.drainStream onContent meter) = before ++ [e] ∧
    events (truncationFrame u.path) = [e]

/-- A complete stream is forwarded as it is; one that is cut is forwarded up to some byte and ended
by the frame, which is an event of its own. -/
structure Sound : Prop where
  complete : u.truncReason onContent meter = none → u.drainStream onContent meter = u.bytes
  cut : u.truncReason onContent meter ≠ none →
    ∃ sent boundary, sent <+: u.bytes ∧ (boundary = [] ∨ boundary = [lf]) ∧
      u.drainStream onContent meter = sent ++ (boundary ++ truncationFrame u.path)
  isolated : u.truncReason onContent meter ≠ none → u.Isolated onContent meter

/-- The bytes behind the last newline. -/
def openLine : List UInt8 := u.bytes.rtakeWhile (· ≠ lf)

/-- The stream is cut in a line of more than `maxHeldLine` bytes, with no newline in the last
read. -/
def CutLong : Prop := maxHeldLine < u.openLine.length ∧ ∀ p, u.writes.getLast? = some p → lf ∉ p

end AgentStream

/-- An error frame is read on its own behind this: no data is open and, unless the frame has a type,
no type. -/
def FrameApart (path : GoString) (r : Reader) : Prop :=
  r.data = [] ∧ (anthropicPath path = true ∨ r.type = [])

/-! ### The frame -/

/-- The data of the error frame. -/
def truncationData (path : GoString) : List UInt8 :=
  if anthropicPath path then
    ofText ("\x7b\"type\":\"error\",\"error\":" ++
      "\x7b\"type\":\"api_error\",\"message\":\"stream_truncated: " ++ truncationMsg ++
        "\"\x7d\x7d")
  else
    ofText ("\x7b\"error\":\x7b\"code\":\"stream_truncated\",\"message\":\"" ++ truncationMsg ++
      "\",\"type\":\"server_error\"\x7d\x7d")

theorem truncationFrame_eq (path : GoString) : truncationFrame path =
      (if anthropicPath path then ofText "event: error" ++ [lf] else []) ++
        (ofText "data: " ++ truncationData path ++ [lf] ++ [lf]) := by
  unfold truncationFrame truncationData
  split <;>
  · simp only [ofText_append]
    repeat rw [ofText_ofList]
    decide +kernel

theorem truncationData_line (path : GoString) : lf ∉ ofText "data: " ++ truncationData path ∧
      cr ∉ ofText "data: " ++ truncationData path := by
  unfold truncationData
  split <;>
  · simp only [ofText_append]
    repeat rw [ofText_ofList]
    decide +kernel

variable {r : Reader} {path : GoString} {c : UInt8} {rest part : List UInt8}

/-- **The event of a frame** behind anything: the data that is open is in it. -/
theorem read_truncationFrame (path : GoString) (hr : r.AtLine) :
    (r.read (truncationFrame path)).events =
      r.events ++ [⟨if anthropicPath path then ofText "error" else r.type,
        r.data ++ truncationData path⟩] := by
  -- the type, if there is one
  obtain ⟨s, hs, hline, htype, hdata, hevents⟩ : ∃ s : Reader,
      r.read (if anthropicPath path then ofText "event: error" ++ [lf] else []) = s ∧
        s.AtLine ∧ s.type = (if anthropicPath path then ofText "error" else r.type) ∧
        s.data = r.data ∧ s.events = r.events := by
    refine ⟨_, rfl, ?_⟩
    split
    · rw [Reader.read_line (by decide) (by decide) hr, Reader.endLine_of_ne_nil (by decide) hr]
      exact ⟨hr, rfl, rfl, rfl⟩
    · exact ⟨hr, rfl, rfl, rfl⟩
  have hfield : EventStream.field (ofText "data: " ++ truncationData path) =
      (ofText "data", truncationData path) := by
    have hsplit : ofText "data: " ++ truncationData path =
        ofText "data" ++ EventStream.colon :: EventStream.space :: truncationData path := rfl
    rw [hsplit, EventStream.field_append (by decide)]
    rfl
  obtain ⟨hlf, hcr⟩ := truncationData_line path
  -- the line of the data, and the empty line
  have hread : s.read (ofText "data: " ++ truncationData path ++ [lf]) =
      { s with data := s.data ++ truncationData path ++ [lf] } := by
    have hne : ofText "data: " ++ truncationData path ≠ [] := cons_ne_nil _ _
    rw [Reader.read_line hlf hcr hline, Reader.endLine_of_ne_nil hne hline, hfield, Reader.process,
      if_pos rfl]
  have hblank := @Reader.read_blank { s with data := s.data ++ truncationData path ++ [lf] } hline
  rw [truncationFrame_eq, Reader.read_append, hs, Reader.read_append, hread, hblank,
    Reader.dispatch,
    if_neg (append_ne_nil_of_right_ne_nil _ (cons_ne_nil _ _)), dropLast_concat,
    ← htype, ← hdata, ← hevents]

theorem stripBom_truncationFrame (path : GoString) :
    stripBom (truncationFrame path) = truncationFrame path := by
  have hbom : EventStream.bom.isPrefixOf (truncationFrame path) = false := by
    rw [truncationFrame_eq]
    split <;> rfl
  rw [stripBom, hbom]
  rfl

theorem events_truncationFrame (path : GoString) : events (truncationFrame path) =
      [⟨if anthropicPath path then ofText "error" else [], truncationData path⟩] := by
  rw [events, readAll, stripBom_truncationFrame,
    read_truncationFrame path Reader.atLine_new]
  rfl

/-- **Behind whole lines the frame is an event of its own** if nothing that it would add to is
open. -/
theorem isolated_iff {sent : List UInt8} (hsent : Ended sent) :
    (∃ before e, events (sent ++ truncationFrame path) = before ++ [e] ∧
      events (truncationFrame path) = [e]) ↔
      FrameApart path (readAll sent) := by
  have hread := read_truncationFrame path (EventStream.atLine_readAll hsent)
  rw [← EventStream.readAll_append hsent fun _ => stripBom_truncationFrame path] at hread
  rw [events_truncationFrame, events, hread]
  constructor
  · rintro ⟨before, e, hevents, halone⟩
    -- the event of the frame has nothing before it in its data and its type
    obtain ⟨-, hlast⟩ := append_inj' hevents rfl
    rw [← halone] at hlast
    injection hlast with hlast
    injection hlast with htype hdata
    refine ⟨append_left_eq_self.mp hdata, ?_⟩
    by_cases hpath : anthropicPath path = true
    · exact .inl hpath
    · rw [if_neg hpath, if_neg hpath] at htype
      exact .inr htype
  · rintro ⟨hdata, htype⟩
    refine ⟨_, _, rfl, ?_⟩
    rw [hdata, nil_append]
    obtain hpath | htype := htype
    · rw [if_pos hpath, if_pos hpath]
    · rw [htype]

/-! ### The writer forwards whole lines -/

theorem lastIndexByte_of_notMem {p : List UInt8} (h : c ∉ p) : lastIndexByte p c = none := by
  rw [lastIndexByte, idxOf?_eq_none_iff.mpr (mt mem_reverse.mp h)]
  rfl

theorem lastIndexByte_append {init : List UInt8} (h : c ∉ rest) :
    lastIndexByte (init ++ c :: rest) c = some init.length := by
  have hidx : (init ++ c :: rest).reverse.idxOf? c = some rest.length := by
    have hfind : rest.reverse.findIdx? (· == c) = none := by
      rw [findIdx?_eq_none_iff]
      intro b hb
      exact beq_eq_false_iff_ne.mpr fun hbc => h (hbc ▸ mem_reverse.mp hb)
    rw [reverse_append, reverse_cons, append_assoc, idxOf?, findIdx?_append, hfind]
    simp [findIdx?_cons]
  rw [lastIndexByte, hidx, map_some, length_append, length_cons]
  congr 1
  omega

namespace LineWriter

variable {p : List UInt8}

theorem write_of_notMem (lw : LineWriter) (hp : lf ∉ p) : lw.write p =
      if (lw.held ++ p).length > maxHeldLine then flush { lw with held := lw.held ++ p }
      else { lw with held := lw.held ++ p } := by
  rw [write, lastIndexByte_of_notMem hp]

theorem write_append (lw : LineWriter) (init : List UInt8) (hrest : lf ∉ rest) :
    lw.write (init ++ lf :: rest) =
      { lw.forward (lw.held ++ (init ++ [lf])) with held := rest } := by
  have htake : (init ++ lf :: rest).take (init.length + 1) = init ++ [lf] := by
    rw [take_append, take_of_length_le (le_succ _)]
    simp
  have hdrop : (init ++ lf :: rest).drop (init.length + 1) = rest := by
    simp
  rw [write, lastIndexByte_append hrest]
  dsimp only
  rw [htake, hdrop]

/-- What the writer remembers of its output: how long it is, and its last two bytes. -/
structure Remembers (lw : LineWriter) : Prop where
  n_eq : lw.n = lw.out.length
  tail_suffix : [lw.tail.1, lw.tail.2] <:+ 0 :: 0 :: lw.out

theorem out_forward (lw : LineWriter) (b : List UInt8) : (lw.forward b).out = lw.out ++ b := by
  unfold forward
  split
  · next h => rw [eq_nil_of_length_eq_zero h, append_nil]
  · rfl

variable {lw : LineWriter} {ps : List (List UInt8)}

theorem Remembers.forward (h : lw.Remembers) (b : List UInt8) : (lw.forward b).Remembers := by
  unfold LineWriter.forward
  split
  · exact h
  refine ⟨?_, ?_⟩
  · rw [length_append, h.n_eq]
  show _ <:+ 0 :: 0 :: (lw.out ++ b)
  -- the last two bytes of the output are those of `b`, or its only one behind the last one before
  split
  · next hlen =>
    obtain ⟨init, x, y, rfl⟩ : ∃ init x y, b = init ++ [x, y] := by
      obtain ⟨init, y, rfl⟩ := eq_nil_or_concat' b |>.resolve_left fun h => by simp [h] at hlen
      obtain ⟨init, x, rfl⟩ := eq_nil_or_concat' init |>.resolve_left fun h => by
        simp [h] at hlen
      exact ⟨init, x, y, by simp⟩
    refine ⟨0 :: 0 :: (lw.out ++ init), ?_⟩
    simp
  · next hone hlen =>
    obtain ⟨x, rfl⟩ : ∃ x, b = [x] := length_eq_one_iff.mp (by omega)
    obtain ⟨init, hinit⟩ := h.tail_suffix
    refine ⟨init ++ [lw.tail.1], ?_⟩
    rw [← cons_append, ← cons_append, ← hinit]
    simp

/-- No newline is needed in front of an event behind an empty line, and at the start. -/
theorem Remembers.eventBoundary (h : lw.Remembers) :
    lw.eventBoundary = [] ∧ (lw.out = [] ∨ [lf, lf] <:+ lw.out) ∨
      lw.eventBoundary = [lf] ∧ lw.out ≠ [] := by
  unfold LineWriter.eventBoundary
  have hn : lw.n = 0 ↔ lw.out = [] := by rw [h.n_eq, length_eq_zero_iff]
  split
  · next hnone =>
    refine .inl ⟨rfl, ?_⟩
    obtain hzero | htail := hnone
    · exact .inl (hn.mp hzero)
    · have hsuffix := h.tail_suffix
      rw [htail] at hsuffix
      obtain heq | hsuffix := suffix_cons_iff.mp hsuffix
      · exact absurd (cons.inj heq).1 (by decide)
      obtain heq | hsuffix := suffix_cons_iff.mp hsuffix
      · exact absurd (cons.inj heq).1 (by decide)
      · exact .inr hsuffix
  · next hsome => exact .inr ⟨rfl, mt hn.mpr fun hzero => hsome (.inl hzero)⟩

/-- The state of the writer after some writes: it has forwarded whole lines and holds the open one,
which is short unless it came with the last newline; or the open line was too long, and a part of it
is forwarded. -/
structure Wrote (ps : List (List UInt8)) (lw : LineWriter) : Prop where
  bytes : lw.out ++ lw.held = ps.flatten
  held : lf ∉ lw.held
  remembers : lw.Remembers
  lines :
    (Ended lw.out ∧
      (lw.held.length ≤ maxHeldLine ∨ ∃ p, ps.getLast? = some p ∧ lf ∈ p)) ∨
    ∃ whole part, lw.out = whole ++ part ∧ Ended whole ∧ lf ∉ part ∧
      maxHeldLine < part.length ∧ ∀ p, ps.getLast? = some p → lf ∉ p

theorem wrote_new : Wrote [] new where
  bytes := rfl
  held := not_mem_nil
  remembers := ⟨rfl, suffix_rfl⟩
  lines := .inl ⟨.inl rfl, .inl (zero_le _)⟩

theorem flush_eq (lw : LineWriter) (h : lw.held ≠ []) :
    lw.flush = { lw.forward lw.held with held := [] } :=
  if_neg (mt eq_nil_of_length_eq_zero h)

theorem out_flush (lw : LineWriter) : lw.flush.out = lw.out ++ lw.held := by
  by_cases h : lw.held = []
  · rw [flush, if_pos (length_eq_zero_iff.mpr h), h, append_nil]
  · rw [flush_eq lw h]
    exact out_forward lw lw.held

/-- **A write with a newline** forwards up to the last one. -/
theorem Wrote.write_append (h : Wrote ps lw) (init : List UInt8) (hrest : lf ∉ rest) :
    Wrote (ps ++ [init ++ lf :: rest]) (lw.write (init ++ lf :: rest)) := by
  rw [LineWriter.write_append lw init hrest]
  have hout : (lw.forward (lw.held ++ (init ++ [lf]))).out = ps.flatten ++ init ++ [lf] := by
    rw [out_forward, ← append_assoc, h.bytes, append_assoc]
  have hremembers := h.remembers.forward (lw.held ++ (init ++ [lf]))
  have hlast : (ps ++ [init ++ lf :: rest]).getLast? = some (init ++ lf :: rest) := getLast?_concat
  have hmem : lf ∈ init ++ lf :: rest := mem_append_right _ mem_cons_self
  refine ⟨?_, hrest, ⟨hremembers.n_eq, hremembers.tail_suffix⟩,
    .inl ⟨.inr ⟨_, hout⟩, .inr ⟨_, hlast, hmem⟩⟩⟩
  show (lw.forward (lw.held ++ (init ++ [lf]))).out ++ rest = _
  rw [hout]
  simp

/-- **A write without a newline** is held, or forwarded with what was held if that is too much. -/
theorem Wrote.write_of_notMem (h : Wrote ps lw) (hp : lf ∉ p) : Wrote (ps ++ [p]) (lw.write p) := by
  have hbytes : lw.out ++ (lw.held ++ p) = (ps ++ [p]).flatten := by
    rw [← append_assoc, h.bytes, flatten_append, flatten_singleton]
  have hheld : lf ∉ lw.held ++ p := not_mem_append h.held hp
  have hlast : ∀ q, (ps ++ [p]).getLast? = some q → lf ∉ q := by
    intro q hq
    rw [getLast?_concat] at hq
    exact some.inj hq ▸ hp
  rw [LineWriter.write_of_notMem lw hp]
  split
  · next hlong =>
    -- too much is held: all of it goes out, and a part of a line stands at the end
    have hne : lw.held ++ p ≠ [] := fun hnil => by simp [hnil] at hlong
    rw [flush_eq _ hne]
    have hout := out_forward { lw with held := lw.held ++ p } (lw.held ++ p)
    have hremembers : ({ lw with held := lw.held ++ p } : LineWriter).Remembers :=
      ⟨h.remembers.n_eq, h.remembers.tail_suffix⟩
    have hremembers := hremembers.forward (lw.held ++ p)
    refine ⟨?_, not_mem_nil, ⟨hremembers.n_eq, hremembers.tail_suffix⟩, .inr ?_⟩
    · show (forward _ _).out ++ [] = _
      rw [hout, append_nil]
      exact hbytes
    · obtain ⟨hended, -⟩ | ⟨whole, part, hsplit, hended, hpart, hlength, -⟩ := h.lines
      · exact ⟨lw.out, lw.held ++ p, hout, hended, hheld, hlong, hlast⟩
      · refine ⟨whole, part ++ (lw.held ++ p), ?_, hended, not_mem_append hpart hheld, ?_, hlast⟩
        · show (forward _ _).out = _
          rw [hout, hsplit, append_assoc]
        · rw [length_append]
          exact hlength.trans_le (le_add_right _ _)
  · next hshort =>
    refine ⟨hbytes, hheld, ⟨h.remembers.n_eq, h.remembers.tail_suffix⟩, ?_⟩
    -- the line goes on: it was whole before, or its first part has gone out
    obtain ⟨hended, -⟩ | ⟨whole, part, hsplit, hended, hpart, hlength, -⟩ := h.lines
    · exact .inl ⟨hended, .inl (Nat.le_of_not_lt hshort)⟩
    · exact .inr ⟨whole, part, hsplit, hended, hpart, hlength, hlast⟩

theorem Wrote.write (h : Wrote ps lw) (p : List UInt8) : Wrote (ps ++ [p]) (lw.write p) := by
  by_cases hp : lf ∈ p
  · -- the last newline is the first one from the back
    obtain ⟨rest, init, hsplit, hrest⟩ := eq_append_cons_of_mem (mem_reverse.mpr hp)
    have hsplit : p = init.reverse ++ lf :: rest.reverse := by
      rw [← reverse_reverse p, hsplit]
      simp
    rw [hsplit]
    exact h.write_append _ (mt mem_reverse.mp hrest)
  · exact h.write_of_notMem hp

/-- **The writer after any writes**: what it has forwarded and what it holds is what was written. -/
theorem wrote_foldl (ps : List (List UInt8)) : Wrote ps (ps.foldl LineWriter.write new) := by
  induction ps using reverseRecOn with
  | nil => exact wrote_new
  | append_singleton ps p ih =>
    rw [foldl_append]
    exact ih.write p

end LineWriter

/-! ### A line that is cut -/

/-- **A long line that is forwarded in part** leaves open what the whole line would. -/
theorem frameApart_read_iff (hpart : lf ∉ part) (hrest : lf ∉ rest) (hlong : 7 < part.length)
    (hcr : ∀ bs cs, part ++ rest = bs ++ cr :: cs → cs = []) (hr : r.AtLine) :
    FrameApart path (r.read (part ++ rest ++ [lf])) ↔ FrameApart path (r.read (part ++ [lf])) := by
  by_cases hnil : rest = []
  · rw [hnil, append_nil]
  -- a CR in the part would be followed by something
  have hpartcr : cr ∉ part := by
    intro hmem
    obtain ⟨bs, cs, rfl, -⟩ := eq_append_cons_of_mem hmem
    have hend := hcr bs (cs ++ rest) (by simp)
    exact hnil (append_eq_nil_iff.mp hend).2
  obtain ⟨text, hread⟩ : ∃ text,
      r.read (part ++ rest ++ [lf]) = { r with line := part ++ text }.endLine := by
    by_cases hmem : cr ∈ rest
    · obtain ⟨bs, cs, rfl, hbs⟩ := eq_append_cons_of_mem hmem
      obtain rfl := hcr (part ++ bs) cs (by simp)
      have hline : part ++ (bs ++ [cr]) ++ [lf] = part ++ bs ++ [cr, lf] := by simp
      refine ⟨bs, ?_⟩
      rw [hline]
      exact Reader.read_line_crlf (not_mem_append hpart fun h => hrest (by simp [h]))
        (not_mem_append hpartcr hbs) hr
    · exact ⟨rest, Reader.read_line (not_mem_append hpart hrest) (not_mem_append hpartcr hmem) hr⟩
  obtain ⟨hdata, htype⟩ := Reader.data_endLine_append hlong text hr
  rw [FrameApart, FrameApart, hread, Reader.read_line hpart hpartcr hr, hdata, htype]

/-- The same behind whole lines, of which there may be none: a byte order mark is then in the
line. -/
theorem frameApart_readAll_iff {whole : List UInt8} (hwhole : Ended whole)
    (hpart : lf ∉ part) (hrest : lf ∉ rest) (hlong : maxHeldLine < part.length)
    (hcr : ∀ bs cs, part ++ rest = bs ++ cr :: cs → cs = []) :
    FrameApart path (readAll (whole ++ (part ++ rest) ++ [lf])) ↔
      FrameApart path (readAll (whole ++ part ++ [lf])) := by
  have hmax : maxHeldLine = 65536 := rfl
  have hlong : 10 < part.length := by omega
  obtain rfl | hne := eq_or_ne whole []
  · -- nothing has been read yet, so that a byte order mark is taken off the line
    have hstrip : ∀ cs, stripBom (part ++ cs) = stripBom part ++ cs :=
      EventStream.stripBom_append (by omega)
    obtain ⟨mark, hmark, hmark'⟩ : ∃ mark, mark.length ≤ 3 ∧
      part = mark ++ stripBom part := by
      unfold stripBom
      split
      · exact ⟨part.take 3, length_take_le 3 part, (take_append_drop 3 part).symm⟩
      · exact ⟨[], zero_le 3, rfl⟩
    unfold readAll
    rw [nil_append, nil_append, append_assoc, hstrip, hstrip, ← append_assoc]
    refine frameApart_read_iff ?_ hrest ?_ ?_ Reader.atLine_new
    · exact fun h => hpart (hmark' ▸ mem_append_right mark h)
    · rw [hmark', length_append] at hlong
      omega
    · intro bs cs h
      refine hcr (mark ++ bs) cs ?_
      rw [hmark', append_assoc, h, append_assoc]
  · have hread : ∀ cs, readAll (whole ++ cs) = (readAll whole).read cs :=
      fun _ => EventStream.readAll_append hwhole fun h => absurd h hne
    rw [append_assoc, append_assoc whole, hread, hread]
    exact frameApart_read_iff hpart hrest (by omega) hcr (EventStream.atLine_readAll hwhole)

namespace AgentStream

variable {ω : Type*} {onContent : ω → String → ω} {meter : SSETokenMeter ω} {u : AgentStream}

theorem wrote_copied (u : AgentStream) : LineWriter.Wrote u.writes u.copied :=
  LineWriter.wrote_foldl u.writes

theorem flatten_writes (u : AgentStream) : u.writes.flatten = u.bytes := by
  unfold writes bytes
  induction u.reads with
  | nil => rfl
  | cons p ps ih =>
    rw [filter_cons]
    split
    · rw [flatten_cons, flatten_cons, ih]
    · next h =>
      have hp : p = [] := by simpa using h
      rw [ih, hp, flatten_cons, nil_append]

theorem bytes_eq (u : AgentStream) : u.bytes = u.copied.out ++ u.copied.held := by
  rw [← flatten_writes, u.wrote_copied.bytes]

variable {whole line : List UInt8}

theorem openLine_eq (hwhole : Ended whole) (hline : lf ∉ line)
    (h : u.bytes = whole ++ line) : u.openLine = line := by
  have hall : ∀ b ∈ line.reverse, (fun b => decide (b ≠ lf)) b = true := fun b hb =>
    decide_eq_true fun hlf => hline (hlf ▸ mem_reverse.mp hb)
  rw [openLine, h, rtakeWhile, reverse_append, takeWhile_append_of_pos hall]
  obtain rfl | ⟨init, rfl⟩ := hwhole
  all_goals simp

/-- **What the client gets of a stream that is cut** is whole lines and the frame. -/
theorem drainStream_cut (h : u.truncReason onContent meter ≠ none) : u.drainStream onContent meter =
      u.copied.out ++ u.copied.eventBoundary ++ truncationFrame u.path := by
  obtain ⟨reason, h⟩ := ne_none_iff_exists'.mp h
  rw [drainStream, h, append_assoc]

theorem drainStream_complete (h : u.truncReason onContent meter = none) :
    u.drainStream onContent meter = u.bytes := by
  rw [drainStream, h, bytes_eq]
  exact LineWriter.out_flush _

/-- Behind whole lines and the newline no event is open. -/
theorem closed_copied (h : Ended u.copied.out) :
    Ended (u.copied.out ++ u.copied.eventBoundary) ∧
      FrameApart u.path (readAll (u.copied.out ++ u.copied.eventBoundary)) := by
  obtain ⟨hboundary, hnil | ⟨init, hinit⟩⟩ | ⟨hboundary, -⟩ :=
    u.wrote_copied.remembers.eventBoundary
  · rw [hboundary, hnil]
    exact ⟨.inl rfl, rfl, .inr rfl⟩
  · have hout : u.copied.out = init ++ [lf] ++ [lf] := by rw [← hinit]; simp
    rw [hboundary, append_nil, hout]
    obtain ⟨htype, hdata⟩ := EventStream.closed_readAll (EventStream.ended_append_lf init)
    exact ⟨EventStream.ended_append_lf _, hdata, .inr htype⟩
  · rw [hboundary]
    obtain ⟨htype, hdata⟩ := EventStream.closed_readAll h
    exact ⟨EventStream.ended_append_lf _, hdata, .inr htype⟩

/-- Behind a part of a line the newline is its end. -/
theorem eventBoundary_part {part : List UInt8} (hout : u.copied.out = whole ++ part)
    (hpart : lf ∉ part) (hlong : maxHeldLine < part.length) : u.copied.eventBoundary = [lf] := by
  have hne : part ≠ [] := fun h => by simp [h] at hlong
  obtain ⟨-, hnil | ⟨init, hinit⟩⟩ | ⟨hboundary, -⟩ := u.wrote_copied.remembers.eventBoundary
  · exact absurd (append_eq_nil_iff.mp (hout.symm.trans hnil)).2 hne
  · -- the last byte would be one of the part
    have hlast : part.getLast hne = lf := by
      have hlast : (whole ++ part).getLast? = some lf := by
        rw [← hout, ← hinit]
        simp
      rw [getLast?_append, getLast?_eq_some_getLast hne] at hlast
      exact some.inj hlast
    exact absurd (hlast ▸ getLast_mem hne) hpart
  · exact hboundary

/-- The stream has no CR but before an LF and at its end. -/
theorem cr_last (h : u.bytes = whole ++ line) (hline : lf ∉ line) :
    ∀ bs cs, line = bs ++ cr :: cs → cs = [] := by
  rintro bs cs rfl
  obtain hnil | hhead := u.lineEnds (whole ++ bs) cs (by rw [← bytes, h, append_assoc])
  · exact hnil
  · have hmem : lf ∈ cs := mem_of_mem_head? hhead
    exact absurd (mem_append_right _ (mem_cons_of_mem _ hmem)) hline

/-- **The frame of a stream that is cut.** -/
theorem isolated_cut_iff (h : u.truncReason onContent meter ≠ none) : u.Isolated onContent meter ↔
      (u.CutLong → FrameApart u.path (readAll (u.bytes ++ [lf]))) := by
  unfold Isolated
  rw [drainStream_cut h]
  have hwrote := u.wrote_copied
  obtain ⟨hended, hshort⟩ | ⟨whole, part, hout, hwhole, hpart, hlong, hlast⟩ := hwrote.lines
  · -- whole lines: the frame is apart, and the line is not cut where it is too long
    obtain ⟨hboundary, hapart⟩ := closed_copied hended
    rw [isolated_iff hboundary]
    refine iff_of_true hapart fun ⟨hlong, hlast⟩ => ?_
    rw [openLine_eq hended hwrote.held u.bytes_eq] at hlong
    obtain hshort | ⟨p, hp, hmem⟩ := hshort
    · exact absurd hshort (Nat.not_le_of_lt hlong)
    · exact absurd hmem (hlast p hp)
  · -- a part of a line: the newline ends it, as it would end the whole line
    have hbytes : u.bytes = whole ++ (part ++ u.copied.held) := by
      rw [u.bytes_eq, hout, append_assoc]
    have hline : lf ∉ part ++ u.copied.held := not_mem_append hpart hwrote.held
    have hcut : u.CutLong := by
      refine ⟨?_, hlast⟩
      rw [openLine_eq hwhole hline hbytes, length_append]
      exact hlong.trans_le (le_add_right _ _)
    rw [eventBoundary_part hout hpart hlong, hout, isolated_iff (EventStream.ended_append_lf _),
      ← frameApart_readAll_iff hwhole hpart hwrote.held hlong (cr_last hbytes hline), ← hbytes]
    exact ⟨fun hapart _ => hapart, fun himp => himp hcut⟩

/-- **The end of a stream.** A complete stream is forwarded as it is, and one that is cut up to some
byte and with the frame behind it, whatever is read. The frame is an event of its own unless the
stream is cut in a line of more than `maxHeldLine` bytes, after a read without a newline, and this
line ended there leaves open what the frame adds to. -/
theorem truncation_isolated_iff (onContent : ω → String → ω) (meter : SSETokenMeter ω)
    (u : AgentStream) :
    u.Sound onContent meter ↔
      (u.truncReason onContent meter ≠ none → u.CutLong →
        FrameApart u.path (readAll (u.bytes ++ [lf]))) := by
  constructor
  · intro hsound hcut
    exact (isolated_cut_iff hcut).mp (hsound.isolated hcut)
  · intro hapart
    refine ⟨drainStream_complete, fun hcut => ?_, fun hcut => (isolated_cut_iff hcut).mpr
      (hapart hcut)⟩
    refine ⟨u.copied.out, u.copied.eventBoundary, ?_, ?_, ?_⟩
    · exact ⟨u.copied.held, u.bytes_eq.symm⟩
    · unfold LineWriter.eventBoundary
      split
      · exact .inl rfl
      · exact .inr rfl
    · rw [drainStream_cut hcut, append_assoc]

end AgentStream

/-! ### A long line -/

namespace LongLine

def letters (n : ℕ) : List UInt8 := replicate n 0x78

theorem notMem_line {c : UInt8} (hc : c ∉ ofText "data: ") (hx : c ≠ 0x78) (n : ℕ) :
    c ∉ ofText "data: " ++ letters n :=
  not_mem_append hc fun h => hx (eq_of_mem_replicate h)

/-- Three reads of at most 32 KiB, of one line of data. -/
def reads : List (List UInt8) := [ofText "data: " ++ letters 32762, letters 32768, letters 1]

theorem flatten_reads : reads.flatten = ofText "data: " ++ letters 65531 := by
  unfold reads letters
  rw [flatten_cons, flatten_cons, flatten_singleton, replicate_append_replicate,
    append_assoc, replicate_append_replicate]

def stream : AgentStream where
  reads := reads
  readErr := true
  path := ofText "/v1/chat/completions"
  lineEnds bs cs h := by
    have hmem : cr ∈ reads.flatten := h ▸ mem_append_right _ mem_cons_self
    rw [flatten_reads] at hmem
    exact absurd hmem (notMem_line (by decide) (by decide) _)

theorem writes_stream : stream.writes = reads := by
  show reads.filter _ = reads
  rw [filter_eq_self]
  intro p hp
  refine decide_eq_true (ne_nil_of_length_pos ?_)
  simp only [reads, letters, mem_cons, not_mem_nil, or_false] at hp
  obtain rfl | rfl | rfl := hp
  · rw [length_append, length_replicate]
    exact Nat.lt_add_left _ (by decide)
  · rw [length_replicate]
    decide
  · exact one_pos

theorem openLine_stream : stream.openLine = ofText "data: " ++ letters 65531 := by
  have hline := notMem_line (by decide : lf ∉ _) (by decide) 65531
  have hbytes : stream.bytes = [] ++ (ofText "data: " ++ letters 65531) := by
    exact flatten_reads
  exact AgentStream.openLine_eq (.inl rfl) hline hbytes

theorem cutLong_stream : stream.CutLong := by
  constructor
  · have hdata : (ofText "data: ").length = 6 := by decide
    rw [openLine_stream, length_append, hdata, letters, length_replicate]
    decide
  · rw [writes_stream]
    rintro p ⟨⟩
    decide

/-- The data of the line is open. -/
theorem data_stream : (readAll (stream.bytes ++ [lf])).data ≠ [] := by
  have hlf := notMem_line (by decide : lf ∉ _) (by decide) 65531
  have hcr := notMem_line (by decide : cr ∉ _) (by decide) 65531
  have hsplit : ofText "data: " ++ letters 65531 =
      ofText "data" ++ EventStream.colon :: EventStream.space :: letters 65531 := by
    rw [show ofText "data: " = ofText "data" ++ [EventStream.colon, EventStream.space] by
      decide, append_assoc]
    rfl
  have hbom : ∀ cs, stripBom (ofText "data: " ++ cs) = ofText "data: " ++ cs := by
    intro cs
    rw [EventStream.stripBom_append (by decide)]
    exact congrArg (· ++ cs) (by decide)
  have hne : ofText "data: " ++ letters 65531 ≠ [] := append_ne_nil_of_left_ne_nil (by decide) _
  rw [AgentStream.bytes, show stream.reads = reads from rfl, flatten_reads, readAll,
    append_assoc, hbom, ← append_assoc, Reader.read_line hlf hcr Reader.atLine_new,
    Reader.endLine_of_ne_nil hne Reader.atLine_new, hsplit, EventStream.field_append (by decide),
    Reader.process, if_pos rfl]
  exact append_ne_nil_of_right_ne_nil _ (cons_ne_nil _ _)

end LongLine

/-- Three reads of one `data:` line of 65537 bytes, and a read error: the frame is read as more data
of the line. -/
theorem not_sound_longLine : ¬ LongLine.stream.Sound (fun _ _ => ()) (SSETokenMeter.new ()) := by
  intro hsound
  have hcut : LongLine.stream.truncReason (fun _ _ => ()) (SSETokenMeter.new ()) ≠ none := by
    have hread : LongLine.stream.readErr = true := rfl
    rw [AgentStream.truncReason, if_pos hread]
    exact some_ne_none _
  have hapart :=
    (AgentStream.isolated_cut_iff hcut).mp (hsound.isolated hcut) LongLine.cutLong_stream
  exact LongLine.data_stream hapart.1

end HivenetRouter.Router
