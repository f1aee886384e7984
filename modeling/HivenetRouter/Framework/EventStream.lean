import HivenetRouter.Framework.Utf8

/-!
# Reading a stream line by line

A reader that gets a stream in pieces, hands each complete line to `parse`, and keeps the rest of
the last line for the next piece. `scan` reads a piece behind the open line; `write` is a piece,
`flush` the end of the stream.

How the stream is cut into pieces makes no difference (`foldl_write`): a piece that is read behind
another is read as if they were one (`scan_append`), since the open line that is kept has no line
end in it (`eol_notMem_scan`).
-/

namespace HivenetRouter

open List

/-- A reader: the open line, and what was made of the lines before. -/
structure LineBuffer (β σ : Type*) where
  buf : List β
  state : σ

namespace LineBuffer

variable {β σ : Type*} [DecidableEq β] (eol : β) (parse : σ → List β → σ)

/-- The lines of a piece, behind the open line `line`. -/
def scan (line : List β) (s : σ) : List β → LineBuffer β σ
  | [] => ⟨line, s⟩
  | b :: bs => if b = eol then scan [] (parse s line) bs else scan (line ++ [b]) s bs

/-- A piece of the stream: the lines of what is kept and the piece. -/
def write (m : LineBuffer β σ) (p : List β) : LineBuffer β σ :=
  scan eol parse [] m.state (m.buf ++ p)

/-- The end of the stream: a line without its end is a line. -/
def flush (m : LineBuffer β σ) : LineBuffer β σ :=
  if m.buf = [] then m else ⟨[], parse m.state m.buf⟩

variable {eol parse}

theorem scan_append (line : List β) (s : σ) (p q : List β) : scan eol parse line s (p ++ q) =
      scan eol parse (scan eol parse line s p).buf (scan eol parse line s p).state q := by
  induction p generalizing line s with
  | nil => rfl
  | cons b bs ih =>
    rw [cons_append, scan, scan]
    split
    · exact ih [] (parse s line)
    · exact ih (line ++ [b]) s

theorem eol_notMem_scan {line : List β} (hline : eol ∉ line) (s : σ) (p : List β) :
    eol ∉ (scan eol parse line s p).buf := by
  induction p generalizing line s with
  | nil => exact hline
  | cons b bs ih =>
    rw [scan]
    split
    · exact ih not_mem_nil _
    · next hb => exact ih (by simp [hline, Ne.symm hb]) s

theorem scan_of_notMem {p : List β} (hp : eol ∉ p) (line : List β) (s : σ) :
    scan eol parse line s p = ⟨line ++ p, s⟩ := by
  induction p generalizing line with
  | nil => rw [append_nil, scan]
  | cons b bs ih =>
    obtain ⟨hb, hbs⟩ := not_or.mp (mt mem_cons.mpr hp)
    rw [scan, if_neg (Ne.symm hb), ih hbs, append_assoc, singleton_append]

/-- Two pieces are read as one. -/
theorem write_write (m : LineBuffer β σ) (p q : List β) :
    (m.write eol parse p).write eol parse q = m.write eol parse (p ++ q) := by
  have hbuf : eol ∉ (m.write eol parse p).buf := eol_notMem_scan not_mem_nil _ _
  calc (m.write eol parse p).write eol parse q
      = scan eol parse (m.write eol parse p).buf (m.write eol parse p).state q := by
        rw [write, scan_append, scan_of_notMem hbuf, nil_append]
    _ = scan eol parse [] m.state ((m.buf ++ p) ++ q) := (scan_append ..).symm
    _ = m.write eol parse (p ++ q) := by rw [write, append_assoc]

/-- **However a stream is cut into pieces**, it is read as one. -/
theorem foldl_write (m : LineBuffer β σ) (hm : eol ∉ m.buf) (chunks : List (List β)) :
    chunks.foldl (write eol parse) m = m.write eol parse chunks.flatten := by
  induction chunks generalizing m with
  | nil => rw [foldl_nil, flatten_nil, write, append_nil, scan_of_notMem hm,
      nil_append]
  | cons p chunks ih =>
    have hp : eol ∉ (m.write eol parse p).buf := eol_notMem_scan not_mem_nil _ _
    rw [foldl_cons, ih _ hp, write_write, flatten_cons]

/-- What every line keeps, a stream keeps. -/
theorem scan_induction {P : σ → Prop} (hparse : ∀ s line, P s → P (parse s line)) {s : σ} (hs : P s)
    (line p : List β) : P (scan eol parse line s p).state := by
  induction p generalizing line s with
  | nil => exact hs
  | cons b bs ih =>
    rw [scan]
    split
    · exact ih (hparse s line hs) []
    · exact ih hs _

omit [DecidableEq β] in
theorem flush_induction {P : σ → Prop} (hparse : ∀ s line, P s → P (parse s line))
    {m : LineBuffer β σ} (hm : P m.state) : P (m.flush parse).state := by
  unfold flush
  split
  · exact hm
  · exact hparse _ _ hm

end LineBuffer

end HivenetRouter

/-!
## Event streams

How a client reads a `text/event-stream`: lines that end in LF, CR or CRLF, after an optional byte
order mark; a line is a field, and an empty line dispatches the event of the fields since the last
one. The reader works on bytes. All that it looks for is ASCII, so that decoding the text first
would give the same lines and fields.

The last event id and the reconnection time outlive an event and are in none of its fields here.

A line that is longer than every field name and its blank opens an event or not, whatever is read
behind it (`data_endLine_append`).
-/

namespace HivenetRouter.EventStream

open List Utf8

def lf : UInt8 := 0x0A

def cr : UInt8 := 0x0D

def colon : UInt8 := 0x3A

def space : UInt8 := 0x20

def bom : List UInt8 := [0xEF, 0xBB, 0xBF]

/-- An event as it is dispatched. -/
structure Event where
  type : GoString
  data : GoString

/-- A reader: the open line, whether the last byte was a CR, the buffers of the open event, and the
events before. -/
structure Reader where
  line : List UInt8
  afterCr : Bool
  type : GoString
  data : GoString
  events : List Event

/-- The name and the value of a field. A comment is a field without a name. -/
def field (line : List UInt8) : GoString × GoString :=
  let value := (line.dropWhile (· ≠ colon)).drop 1
  (line.takeWhile (· ≠ colon), if value.head? = some space then value.tail else value)

namespace Reader

def new : Reader := ⟨[], false, [], [], []⟩

/-- An empty line: an event without data is dropped. -/
def dispatch (r : Reader) : Reader :=
  if r.data = [] then { r with type := [] }
  else { r with type := [], data := [], events := r.events ++ [⟨r.type, r.data.dropLast⟩] }

def process (r : Reader) (name value : GoString) : Reader :=
  if name = ofText "data" then { r with data := r.data ++ value ++ [lf] }
  else if name = ofText "event" then { r with type := value }
  else r

/-- The end of the open line. -/
def endLine (r : Reader) : Reader :=
  let next := { r with line := [], afterCr := false }
  if r.line = [] then next.dispatch else next.process (field r.line).1 (field r.line).2

/-- One byte. The LF of a CRLF ends no second line. -/
def step (r : Reader) (b : UInt8) : Reader :=
  if b = lf then if r.afterCr then { r with afterCr := false } else r.endLine
  else if b = cr then { r.endLine with afterCr := true }
  else { r with line := r.line ++ [b], afterCr := false }

def read (r : Reader) (bs : List UInt8) : Reader := bs.foldl step r

end Reader

def stripBom (bs : List UInt8) : List UInt8 := if bom.isPrefixOf bs then bs.drop 3 else bs

def readAll (bs : List UInt8) : Reader := Reader.new.read (stripBom bs)

def events (bs : List UInt8) : List Event := (readAll bs).events

/-! ### Fields -/

theorem field_append {name : List UInt8} (hname : colon ∉ name) (rest : List UInt8) :
    field (name ++ colon :: rest) =
      (name, if rest.head? = some space then rest.tail else rest) := by
  have hall : ∀ b ∈ name, (fun b => decide (b ≠ colon)) b = true := fun b hb =>
    decide_eq_true fun h => hname (h ▸ hb)
  have htake : (name ++ colon :: rest).takeWhile (· ≠ colon) = name := by
    rw [takeWhile_append_of_pos hall]
    simp
  have hdrop : (name ++ colon :: rest).dropWhile (· ≠ colon) = colon :: rest := by
    rw [dropWhile_append_of_pos hall]
    simp
  unfold field
  rw [htake, hdrop]
  rfl

/-- The name of a field is at least as long as what stands before the first colon. -/
theorem length_le_field {line : List UInt8} (hline : colon ∉ line) (more : List UInt8) :
    line.length ≤ (field (line ++ more)).1.length := by
  have hall : ∀ b ∈ line, (fun b => decide (b ≠ colon)) b = true := fun b hb =>
    decide_eq_true fun h => hline (h ▸ hb)
  show line.length ≤ ((line ++ more).takeWhile (· ≠ colon)).length
  rw [takeWhile_append_of_pos hall, length_append]
  exact Nat.le_add_right _ _

/-- **The field of a long line is decided by its beginning**: its name is known, or is none of
those that are read, and a value is not empty. -/
theorem field_long {line : List UInt8} (hlong : 7 < line.length) (more : List UInt8) :
    ((field (line ++ more)).1 = ofText "data" ↔ (field line).1 = ofText "data") ∧
      ((field (line ++ more)).1 = ofText "event" ↔ (field line).1 = ofText "event") ∧
      ((field line).1 = ofText "event" → (field (line ++ more)).2 ≠ []) := by
  by_cases hcolon : colon ∈ line
  · obtain ⟨name, rest, rfl, hname⟩ := eq_append_cons_of_mem hcolon
    have hmore : name ++ colon :: rest ++ more = name ++ colon :: (rest ++ more) := by
      rw [append_assoc, cons_append]
    rw [hmore, field_append hname, field_append hname]
    refine ⟨Iff.rfl, Iff.rfl, fun (hevent : name = ofText "event") => ?_⟩
    -- two bytes of the value are there, so that one is left when a blank is removed
    have hrest : 1 < rest.length := by
      have hlen : name.length = 5 := by rw [hevent]; decide
      rw [length_append, length_cons, hlen] at hlong
      omega
    obtain ⟨a, b, rest, rfl⟩ : ∃ a b rest', rest = a :: b :: rest' := by
      match rest, hrest with
      | a :: b :: rest, _ => exact ⟨a, b, rest, rfl⟩
    show (if some a = some space then b :: (rest ++ more) else a :: b :: (rest ++ more)) ≠ []
    split <;> exact cons_ne_nil _ _
  · -- the name is the whole line or more
    have hlen : ∀ more, 7 < (field (line ++ more)).1.length := fun more =>
      hlong.trans_le (length_le_field hcolon more)
    have hne : ∀ more (name : GoString), name.length ≤ 7 → (field (line ++ more)).1 ≠ name := by
      intro more name hname h
      have := hlen more
      rw [h] at this
      omega
    have hdata := fun more => hne more (ofText "data") (by decide)
    have hevent := fun more => hne more (ofText "event") (by decide)
    have hdata' := hdata []
    have hevent' := hevent []
    rw [append_nil] at hdata' hevent'
    exact ⟨iff_of_false (hdata more) hdata', iff_of_false (hevent more) hevent',
      fun h => absurd h hevent'⟩

namespace Reader

/-! ### Lines -/

/-- Between two lines. -/
def AtLine (r : Reader) : Prop := r.line = [] ∧ r.afterCr = false

theorem atLine_new : new.AtLine := ⟨rfl, rfl⟩

theorem read_append (r : Reader) (bs cs : List UInt8) : r.read (bs ++ cs) = (r.read bs).read cs :=
  foldl_append

theorem atLine_endLine (r : Reader) : r.endLine.AtLine := by
  unfold endLine dispatch process
  dsimp only
  split_ifs <;> exact ⟨rfl, rfl⟩

variable {r : Reader} {l : List UInt8}

theorem step_lf (h : r.afterCr = false) : r.step lf = r.endLine := by
  rw [step, if_pos rfl, h]
  rfl

theorem atLine_step_lf (hr : r.afterCr = true → r.line = []) : (r.step lf).AtLine := by
  rw [step, if_pos rfl]
  split
  · next h => exact ⟨hr h, rfl⟩
  · exact r.atLine_endLine

/-- An open line is empty behind a CR. -/
theorem line_read (hr : r.afterCr = true → r.line = []) (bs : List UInt8) :
    (r.read bs).afterCr = true → (r.read bs).line = [] := by
  induction bs generalizing r with
  | nil => exact hr
  | cons b bs ih =>
    refine ih ?_
    unfold step
    split_ifs
    · exact False.elim
    · exact fun _ => r.atLine_endLine.1
    · exact fun _ => r.atLine_endLine.1
    · exact False.elim

theorem read_text (hlf : lf ∉ l) (hcr : cr ∉ l) (hr : r.afterCr = false) :
    r.read l = { r with line := r.line ++ l } := by
  induction l generalizing r with
  | nil =>
    rw [append_nil]
    rfl
  | cons b l ih =>
    obtain ⟨hblf, hlf⟩ := not_or.mp (mt mem_cons.mpr hlf)
    obtain ⟨hbcr, hcr⟩ := not_or.mp (mt mem_cons.mpr hcr)
    have hstep : r.step b = { r with line := r.line ++ [b] } := by
      rw [step, if_neg (Ne.symm hblf), if_neg (Ne.symm hbcr), ← hr]
    calc r.read (b :: l) = (r.step b).read l := rfl
      _ = { r with line := r.line ++ [b] ++ l } := by
        rw [hstep]
        exact ih hlf hcr hr
      _ = { r with line := r.line ++ b :: l } := by rw [append_assoc, singleton_append]

theorem read_line (hlf : lf ∉ l) (hcr : cr ∉ l) (hr : r.AtLine) :
    r.read (l ++ [lf]) = { r with line := l }.endLine := by
  rw [read_append, read_text hlf hcr hr.2, hr.1, nil_append]
  exact step_lf hr.2

theorem read_line_crlf (hlf : lf ∉ l) (hcr : cr ∉ l) (hr : r.AtLine) :
    r.read (l ++ [cr, lf]) = { r with line := l }.endLine := by
  rw [read_append, read_text hlf hcr hr.2, hr.1, nil_append]
  obtain ⟨-, hcr⟩ := ({ r with line := l } : Reader).atLine_endLine
  show (step { ({ r with line := l } : Reader).endLine with afterCr := true } lf) = _
  rw [step, if_pos rfl, if_pos rfl, ← hcr]

theorem endLine_of_ne_nil (hl : l ≠ []) (hr : r.AtLine) :
    { r with line := l }.endLine = r.process (field l).1 (field l).2 := by
  obtain ⟨hline, hcr⟩ := hr
  rw [endLine, if_neg hl, ← hline, ← hcr]

theorem dispatch_closed (r : Reader) : r.dispatch.type = [] ∧ r.dispatch.data = [] := by
  unfold dispatch
  split
  · next h => exact ⟨rfl, h⟩
  · exact ⟨rfl, rfl⟩

theorem endLine_of_nil (hr : r.AtLine) : r.endLine = r.dispatch := by
  obtain ⟨hline, hcr⟩ := hr
  rw [endLine, if_pos hline, ← hcr]
  conv_lhs => rw [← hline]

theorem read_blank (hr : r.AtLine) : r.read [lf] = r.dispatch :=
  (step_lf hr.2).trans (endLine_of_nil hr)

/-! ### Long lines -/

/-- **A long line opens an event or not, whatever is read behind it.** -/
theorem data_endLine_append {line : List UInt8} (hlong : 7 < line.length) (more : List UInt8)
    (hr : r.AtLine) :
    ({ r with line := line ++ more }.endLine.data = [] ↔ { r with line := line }.endLine.data =
      []) ∧
      ({ r with line := line ++ more }.endLine.type = [] ↔
        { r with line := line }.endLine.type = []) := by
  -- the name of the field and the first byte of its value are within seven bytes
  have hne : line ≠ [] := fun h => by simp [h] at hlong
  have hne' : line ++ more ≠ [] := fun h => hne (append_eq_nil_iff.mp h).1
  obtain ⟨hdata, hevent, hvalue⟩ := field_long hlong more
  obtain ⟨-, -, hvalue'⟩ := field_long hlong []
  rw [append_nil] at hvalue'
  rw [endLine_of_ne_nil hne' hr, endLine_of_ne_nil hne hr]
  unfold process
  by_cases h : (field line).1 = ofText "data"
  · rw [if_pos h, if_pos (hdata.mpr h)]
    simp
  rw [if_neg h, if_neg (mt hdata.mp h)]
  by_cases h : (field line).1 = ofText "event"
  · rw [if_pos h, if_pos (hevent.mpr h)]
    exact ⟨Iff.rfl, iff_of_false (hvalue h) (hvalue' h)⟩
  · rw [if_neg h, if_neg (mt hevent.mp h)]
    exact ⟨Iff.rfl, Iff.rfl⟩

end Reader

/-! ### The byte order mark -/

variable {bs : List UInt8}

theorem stripBom_append (hbs : 3 ≤ bs.length) (cs : List UInt8) :
    stripBom (bs ++ cs) = stripBom bs ++ cs := by
  match bs, hbs with
  | a :: b :: c :: bs, _ =>
    unfold stripBom bom
    simp only [cons_append, isPrefixOf, Bool.and_true]
    split <;> rfl

/-- A mark ends before a byte that is not of it. -/
theorem stripBom_append_cons {b : UInt8} (hb : b ∉ bom) (bs cs : List UInt8) :
    stripBom (bs ++ b :: cs) = stripBom bs ++ b :: cs := by
  unfold bom at hb
  simp only [mem_cons, not_mem_nil, or_false, not_or] at hb
  obtain ⟨h₁, h₂, h₃⟩ := hb
  match bs with
  | [] => simp [stripBom, bom, isPrefixOf, Ne.symm h₁]
  | [x] => simp [stripBom, bom, isPrefixOf, Ne.symm h₂]
  | [x, y] => simp [stripBom, bom, isPrefixOf, Ne.symm h₃]
  | x :: y :: z :: bs =>
    have hlength : 3 ≤ (x :: y :: z :: bs).length := Nat.le_add_left 3 bs.length
    exact stripBom_append hlength (b :: cs)

theorem line_readAll (bs : List UInt8) : (readAll bs).afterCr = true → (readAll bs).line = [] :=
  Reader.line_read (fun h => absurd h Bool.false_ne_true) _

/-! ### Whole lines -/

/-- A stream of whole lines. -/
def Ended (bs : List UInt8) : Prop := bs = [] ∨ ∃ init, bs = init ++ [lf]

theorem ended_append_lf (bs : List UInt8) : Ended (bs ++ [lf]) := .inr ⟨bs, rfl⟩

/-- What is behind whole lines is read on from there. -/
theorem readAll_append (hbs : Ended bs) {cs : List UInt8} (hcs : bs = [] → stripBom cs = cs) :
    readAll (bs ++ cs) = (readAll bs).read cs := by
  unfold readAll
  obtain rfl | ⟨init, rfl⟩ := hbs
  · rw [nil_append, hcs rfl]
    rfl
  · have hlf : lf ∉ bom := by decide
    rw [append_assoc, singleton_append, stripBom_append_cons hlf,
      stripBom_append_cons hlf, ← Reader.read_append, append_assoc, singleton_append]

theorem atLine_readAll (hbs : Ended bs) : (readAll bs).AtLine := by
  obtain rfl | ⟨init, rfl⟩ := hbs
  · exact Reader.atLine_new
  · have hlf : lf ∉ bom := by decide
    unfold readAll
    rw [stripBom_append_cons hlf, Reader.read_append]
    exact Reader.atLine_step_lf (line_readAll init)

/-- **Behind an empty line no event is open.** -/
theorem closed_readAll (hbs : Ended bs) :
    (readAll (bs ++ [lf])).type = [] ∧ (readAll (bs ++ [lf])).data = [] := by
  rw [readAll_append hbs fun _ => by decide, Reader.read_blank (atLine_readAll hbs)]
  exact Reader.dispatch_closed _

end HivenetRouter.EventStream
