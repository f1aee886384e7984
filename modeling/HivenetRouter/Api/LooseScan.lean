import HivenetRouter.Framework.Json.Grammar

/-!
# The model of a body

`peekModel` reads the model of a body, and `replaceTopLevelModel` writes another one into it: a
scanner over the bytes that finds the last member of the top-level object whose key is `model`, and
replaces its value.

Positions are indices into the body, as in the source. A loop whose index only grows is a function
of the bytes that are left; the others have a bound on their passes, the length of the body, which
no loop exceeds because every pass moves the index.
-/

namespace HivenetRouter.Api

open Json (byte isSpace)

/-- The struct with the one field `model`, of a value. -/
def modelField (v : Json) : Option String :=
  Json.decodeStruct [("model", ())] (fun _ _ v cur => Json.decodeString cur v) "" v

/-- The model of a body as a `json.Decoder` reads it. -/
def decodedModel (body : List UInt8) : Option String :=
  (Json.parse body).bind fun (v, _) => modelField v

/-- The model of a body as `json.Unmarshal` reads it. -/
def unmarshalledModel (body : List UInt8) : Option String := (Json.unmarshal body).bind modelField

inductive ReplaceError where
  | notObject
  | malformedObject
  | malformedValue
  | noModel
  deriving DecidableEq

section Scanner

variable (b : List UInt8)

def skipWS (i : ℕ) : ℕ := i + ((b.drop i).takeWhile isSpace).length

/-- The loop of `skipString`, from the index `i`. -/
def skipStringFrom : ℕ → ℕ → ℕ
  | 0, _ => b.length
  | fuel + 1, i =>
    match b[i]? with
    | none => b.length
    | some c =>
      if c = byte '\\' then skipStringFrom fuel (i + 2)
      else if c = byte '"' then i + 1
      else skipStringFrom fuel (i + 1)

def skipString (i : ℕ) : ℕ := skipStringFrom b b.length (i + 1)

/-- The loop of `skipValue` over an object or an array. -/
def skipNested : ℕ → ℕ → ℕ → Option ℕ
  | 0, _, _ => none
  | fuel + 1, i, depth =>
    match b[i]? with
    | none => none
    | some c =>
      if c = byte '"' then skipNested fuel (skipString b i) depth
      else if c = byte '\x7b' ∨ c = byte '[' then skipNested fuel (i + 1) (depth + 1)
      else if c = byte '\x7d' ∨ c = byte ']' then
        if depth = 1 then some (i + 1) else skipNested fuel (i + 1) (depth - 1)
      else skipNested fuel (i + 1) depth

/-- A number, `true`, `false` or `null` ends before this byte. -/
def endsScalar (c : UInt8) : Bool :=
  c = byte ',' || c = byte '\x7d' || c = byte ']' || isSpace c

def skipValue (i : ℕ) : Option ℕ :=
  match b[i]? with
  | none => none
  | some c =>
    if c = byte '"' then some (skipString b i)
    else if c = byte '\x7b' ∨ c = byte '[' then skipNested b (b.length + 1) i 0
    else some (i + ((b.drop i).takeWhile (!endsScalar ·)).length)

def isModelKey (quoted : List UInt8) : Bool :=
  if quoted = Utf8.ofText "\"model\"" then true
  else if byte '\\' ∉ quoted then false
  else
    match Json.unmarshal quoted with
    | some (.str k) => k = "model"
    | _ => false

/-- The loop of `replaceTopLevelModel` over the members, with the value found so far. -/
def findModel : ℕ → ℕ → Option (ℕ × ℕ) → Except ReplaceError (Option (ℕ × ℕ))
  | 0, _, _ => .error .malformedObject
  | fuel + 1, i, val =>
    let i := skipWS b i
    if b[i]? = some (byte '\x7d') then .ok val
    else if b[i]? ≠ some (byte '"') then .error .malformedObject
    else
      let keyStart := i
      let i := skipString b i
      let key := (b.take i).drop keyStart
      let i := skipWS b i
      if b[i]? ≠ some (byte ':') then .error .malformedObject
      else
        let vs := skipWS b (i + 1)
        match skipValue b vs with
        | none => .error .malformedValue
        | some i =>
          let val := if isModelKey key then some (vs, i) else val
          let i := skipWS b i
          if b[i]? = some (byte ',') then findModel fuel (i + 1) val
          else if b[i]? = some (byte '\x7d') then .ok val
          else .error .malformedObject

def replaceTopLevelModel (model : String) : Except ReplaceError (List UInt8) :=
  let i := skipWS b 0
  if b[i]? ≠ some (byte '\x7b') then .error .notObject
  else
    match findModel b b.length (i + 1) none with
    | .error err => .error err
    | .ok none => .error .noModel
    | .ok (some (valStart, valEnd)) => .ok (b.take valStart ++ Json.quote model ++ b.drop valEnd)

end Scanner

/-!
## What the scanner accepts

`replaceTopLevelModel` does not parse: it skips a string by looking for its quote, a nested value by
counting brackets, and any other value up to a comma, a bracket or space. So it also goes through
bodies that are no JSON texts. What it goes through is described here for all bodies, in two
directions.

* `findModel_scanned`, `replaceTopLevelModel_scanned`: **what a scanned text gives**, the value of
  the last member whose key is taken for `model`.
* `scanned_of_findModel`, `scannedBody_of_replaced`: **a scan that succeeds has gone through such a
  text**. What is skipped in one body is skipped in every other one (`exists_skipsString`,
  `exists_endsNested`, `exists_skipsValue`), which is what makes the text a description of the bytes
  alone.

The value that was found can be exchanged (`ScannedBody.exchange`): a second scan then finds the new
one.
-/

open List Option Nat

open Json (Space Headed headed_cons)

variable {b : List UInt8} {i : ℕ} {sp s : List UInt8} {fuel : ℕ} {q : List UInt8} {c : UInt8}

/-! ### Indices and what is left -/

/-- `s` is what is left of the body at the index `i`. -/
structure At (b : List UInt8) (i : ℕ) (s : List UInt8) : Prop where
  le : i ≤ b.length
  drop : b.drop i = s

namespace At

variable {w : List UInt8}

theorem zero (b : List UInt8) : At b 0 b := ⟨Nat.zero_le _, rfl⟩

theorem length (h : At b i s) : i + s.length = b.length := by
  rw [← h.drop, length_drop]
  exact add_sub_of_le h.le

theorem get (h : At b i s) : b[i]? = s.head? := by
  rw [← h.drop, head?_drop]

theorem append (h : At b i (w ++ s)) : At b (i + w.length) s := by
  have hlength := h.length
  rw [length_append] at hlength
  refine ⟨by omega, ?_⟩
  rw [← drop_drop, h.drop, drop_left]

theorem cons (h : At b i (c :: s)) : At b (i + 1) s := append (w := [c]) h

theorem slice (h : At b i (w ++ s)) : (b.take (i + w.length)).drop i = w := by
  rw [drop_take, h.drop, Nat.add_sub_cancel_left, take_left]

/-- The byte at an index is the first one that is left. -/
theorem exists_cons (h : At b i s) (hget : b[i]? = some c) : ∃ s', s = c :: s' := by
  rw [h.get] at hget
  exact head?_eq_some_iff.mp hget

end At

/-! ### Space -/

theorem skipWS_space (hsp : Space sp) (hs : Headed (isSpace · = false) s)
    (h : At b i (sp ++ s)) : skipWS b i = i + sp.length := by
  rw [skipWS, h.drop, (Json.takeWhile_append_headed hsp hs).1]

theorem exists_skipWS (h : At b i s) :
    ∃ sp s', s = sp ++ s' ∧ Space sp ∧ Headed (isSpace · = false) s' ∧
      skipWS b i = i + sp.length := by
  obtain ⟨sp, hsp, hsplit⟩ := Json.exists_space s
  have hs : Headed (isSpace · = false) (Json.skipSpace s) := by
    intro c hc
    have hnot := head?_dropWhile_not isSpace s
    rw [show s.dropWhile isSpace = Json.skipSpace s from rfl, hc] at hnot
    simpa using hnot
  refine ⟨sp, Json.skipSpace s, hsplit, hsp, hs, ?_⟩
  rw [hsplit] at h
  exact skipWS_space hsp hs h

/-- Behind a value the scanner stops. -/
def Stops (s : List UInt8) : Prop := Headed (endsScalar · = true) s

theorem stops_space (hsp : Space sp) (hc : endsScalar c = true) (s : List UInt8) :
    Stops (sp ++ c :: s) := by
  cases sp with
  | nil => exact headed_cons.mpr hc
  | cons a =>
    have hspace : ∀ a : UInt8, isSpace a = true → endsScalar a = true :=
      Json.forall_byte (by decide +kernel)
    exact headed_cons.mpr (hspace a (hsp a mem_cons_self))

/-! ### Strings -/

/-- `q` begins with a quote, and `skipString` ends behind `q` wherever `q` stands. -/
structure SkipsString (q : List UInt8) : Prop where
  quote : ∃ q', q = byte '"' :: q'
  skip : ∀ {b i s}, At b i (q ++ s) → skipString b i = i + q.length

/-- The loop of `skipString` ends behind `q` wherever `q` stands. -/
def EndsString (q : List UInt8) : Prop :=
  ∀ (b : List UInt8) (fuel i : ℕ) (s : List UInt8), q.length ≤ fuel → At b i (q ++ s) →
    skipStringFrom b fuel i = i + q.length

theorem skipStringFrom_of_le (h : b.length ≤ i) : skipStringFrom b fuel i = b.length := by
  cases fuel with
  | zero => rfl
  | succ => rw [skipStringFrom, getElem?_eq_none h]

theorem EndsString.quote : EndsString [byte '"'] := by
  intro b fuel i s hfuel h
  obtain ⟨fuel, rfl⟩ := exists_eq_succ_of_ne_zero (Nat.ne_zero_of_lt hfuel)
  have hget : b[i]? = some (byte '"') := h.get
  have hne : byte '"' ≠ byte '\\' := by decide
  rw [skipStringFrom, hget]
  dsimp only
  rw [if_neg hne, if_pos rfl, length_singleton]

theorem EndsString.escape (e : UInt8) (hq : EndsString q) : EndsString (byte '\\' :: e :: q) := by
  intro b fuel i s hfuel h
  obtain ⟨fuel, rfl⟩ := exists_eq_succ_of_ne_zero (Nat.ne_zero_of_lt hfuel)
  have hget : b[i]? = some (byte '\\') := h.get
  simp only [length_cons] at hfuel ⊢
  rw [skipStringFrom, hget]
  dsimp only
  rw [if_pos rfl, hq b fuel (i + 2) s (by omega) h.cons.cons]
  omega

theorem EndsString.cons (hback : c ≠ byte '\\') (hquote : c ≠ byte '"') (hq : EndsString q) :
    EndsString (c :: q) := by
  intro b fuel i s hfuel h
  obtain ⟨fuel, rfl⟩ := exists_eq_succ_of_ne_zero (Nat.ne_zero_of_lt hfuel)
  have hget : b[i]? = some c := h.get
  simp only [length_cons] at hfuel ⊢
  rw [skipStringFrom, hget]
  dsimp only
  rw [if_neg hback, if_neg hquote, hq b fuel (i + 1) s (by omega) h.cons]
  omega

/-- A string that ends before the body does ends at a quote of its own. -/
theorem exists_endsString (h : At b i s) (hend : skipStringFrom b fuel i < b.length) :
    ∃ q s', s = q ++ s' ∧ EndsString q ∧ skipStringFrom b fuel i = i + q.length := by
  induction fuel generalizing i s with
  | zero => exact absurd hend (Nat.lt_irrefl _)
  | succ fuel ih =>
    cases s with
    -- the body ends within the string
    | nil =>
      have hlength := h.length
      rw [length_nil, Nat.add_zero] at hlength
      rw [skipStringFrom_of_le hlength.ge] at hend
      exact absurd hend (Nat.lt_irrefl _)
    | cons c s =>
      have hget : b[i]? = some c := h.get
      rw [skipStringFrom, hget] at hend ⊢
      dsimp only at hend ⊢
      split_ifs at hend ⊢ with hback hquote
      · -- the byte behind a backslash is jumped over, so it has to be there
        cases s with
        | nil =>
          have hlength := h.length
          rw [length_singleton] at hlength
          rw [skipStringFrom_of_le (by omega)] at hend
          exact absurd hend (Nat.lt_irrefl _)
        | cons e =>
          obtain ⟨q, s', rfl, hq, heq⟩ := ih h.cons.cons hend
          refine ⟨c :: e :: q, s', rfl, hback ▸ hq.escape e, ?_⟩
          rw [heq, List.length_cons, List.length_cons]
          omega
      · -- the closing quote
        exact ⟨[c], s, rfl, hquote ▸ EndsString.quote, rfl⟩
      · obtain ⟨q, s', rfl, hq, heq⟩ := ih h.cons hend
        refine ⟨c :: q, s', rfl, hq.cons hback hquote, ?_⟩
        rw [heq, List.length_cons]
        omega

theorem EndsString.skips (hq : EndsString q) : SkipsString (byte '"' :: q) := by
  refine ⟨⟨q, rfl⟩, fun {b i s} h => ?_⟩
  have hlength := h.length
  simp only [cons_append, length_cons, length_append] at hlength ⊢
  rw [skipString, hq b b.length (i + 1) s (by omega) h.cons]
  omega

/-- **What `skipString` skips in one body it skips in every body.** -/
theorem exists_skipsString (h : At b i s) (hget : b[i]? = some (byte '"'))
    (hend : skipString b i < b.length) :
    ∃ q s', s = q ++ s' ∧ SkipsString q ∧ skipString b i = i + q.length := by
  obtain ⟨s, rfl⟩ := h.exists_cons hget
  obtain ⟨q, s', rfl, hq, -⟩ := exists_endsString h.cons hend
  exact ⟨byte '"' :: q, s', rfl, hq.skips, hq.skips.skip h⟩

/-! ### Nested values -/

/-- The loop of `skipValue`, at the depth `depth`, ends behind `w` wherever `w` stands. -/
def EndsNested (depth : ℕ) (w : List UInt8) : Prop :=
  ∀ (b : List UInt8) (fuel i : ℕ) (s : List UInt8), w.length ≤ fuel → At b i (w ++ s) →
    skipNested b fuel i depth = some (i + w.length)

variable {depth : ℕ} {w raw t : List UInt8}

theorem skipNested_of_le (h : b.length ≤ i) : skipNested b fuel i depth = none := by
  cases fuel with
  | zero => rfl
  | succ => rw [skipNested, getElem?_eq_none h]

theorem skipNested_open (hc : c = byte '{' ∨ c = byte '[') (hget : b[i]? = some c) :
    skipNested b (fuel + 1) i depth = skipNested b fuel (i + 1) (depth + 1) := by
  have hquote : c ≠ byte '"' := by
    obtain rfl | rfl := hc <;> decide
  rw [skipNested, hget]
  dsimp only
  rw [if_neg hquote, if_pos hc]

theorem skipNested_close (hc : c = byte '}' ∨ c = byte ']') (hget : b[i]? = some c) :
    skipNested b (fuel + 1) i depth =
      if depth = 1 then some (i + 1) else skipNested b fuel (i + 1) (depth - 1) := by
  have hother : c ≠ byte '"' ∧ ¬ (c = byte '{' ∨ c = byte '[') := by
    obtain rfl | rfl := hc <;> decide
  rw [skipNested, hget]
  dsimp only
  rw [if_neg hother.1, if_neg hother.2, if_pos hc]

/-- A byte that the loop does not look for. -/
def Inert (c : UInt8) : Prop :=
  c ≠ byte '"' ∧ ¬ (c = byte '{' ∨ c = byte '[') ∧ ¬ (c = byte '}' ∨ c = byte ']')

instance (c : UInt8) : Decidable (Inert c) := inferInstanceAs (Decidable (_ ∧ _))

theorem skipNested_inert (hc : Inert c) (hget : b[i]? = some c) :
    skipNested b (fuel + 1) i depth = skipNested b fuel (i + 1) depth := by
  rw [skipNested, hget]
  dsimp only
  rw [if_neg hc.1, if_neg hc.2.1, if_neg hc.2.2]

theorem EndsNested.string (hq : SkipsString q) (hw : EndsNested depth w) :
    EndsNested depth (q ++ w) := by
  intro b fuel i s hfuel h
  obtain ⟨q', rfl⟩ := hq.quote
  rw [append_assoc] at h
  obtain ⟨fuel, rfl⟩ := exists_eq_succ_of_ne_zero (Nat.ne_zero_of_lt hfuel)
  have hget : b[i]? = some (byte '"') := h.get
  simp only [length_append, length_cons] at hfuel
  rw [skipNested, hget]
  dsimp only
  rw [if_pos rfl, hq.skip h, hw b fuel _ s (by omega) h.append, length_append, add_assoc]

/-- One byte that the loop passes, and the rest at the depth behind it. -/
theorem EndsNested.cons {depth' : ℕ}
    (hstep : ∀ {b : List UInt8} {fuel i : ℕ}, b[i]? = some c → skipNested b (fuel + 1) i depth =
      skipNested b fuel (i + 1) depth')
    (hw : EndsNested depth' w) : EndsNested depth (c :: w) := by
  intro b fuel i s hfuel h
  obtain ⟨fuel, rfl⟩ := exists_eq_succ_of_ne_zero (Nat.ne_zero_of_lt hfuel)
  simp only [length_cons] at hfuel ⊢
  rw [hstep h.get, hw b fuel (i + 1) s (by omega) h.cons]
  congr 1
  omega

/-- The bracket that closes the value. -/
theorem EndsNested.close {c : UInt8} (hc : c = byte '}' ∨ c = byte ']') : EndsNested 1 [c] := by
  intro b fuel i s hfuel h
  obtain ⟨fuel, rfl⟩ := exists_eq_succ_of_ne_zero (Nat.ne_zero_of_lt hfuel)
  rw [skipNested_close hc h.get, if_pos rfl, length_singleton]

/-- **What the loop skips in one body it skips in every body.** -/
theorem exists_endsNested {j : ℕ} (h : At b i s) (hskip : skipNested b fuel i depth = some j) :
    ∃ w s', s = w ++ s' ∧ EndsNested depth w ∧ j = i + w.length := by
  induction fuel generalizing i depth s with
  | zero => cases hskip
  | succ fuel ih =>
    cases s with
    | nil =>
      have hlength := h.length
      rw [length_nil, Nat.add_zero] at hlength
      rw [skipNested_of_le hlength.ge] at hskip
      cases hskip
    | cons c s =>
      have hget : b[i]? = some c := h.get
      -- a byte that is passed: the rest is skipped from the next index
      have hnext : ∀ {depth' : ℕ}, (∀ {b : List UInt8} {fuel i : ℕ}, b[i]? = some c →
          skipNested b (fuel + 1) i depth = skipNested b fuel (i + 1) depth') →
          ∃ w s', c :: s = w ++ s' ∧ EndsNested depth w ∧ j = i + w.length := by
        intro depth' hstep
        rw [hstep hget] at hskip
        obtain ⟨w, s', rfl, hw, rfl⟩ := ih h.cons hskip
        refine ⟨c :: w, s', rfl, hw.cons hstep, ?_⟩
        rw [List.length_cons]
        omega
      by_cases hquote : c = byte '"'
      · rw [skipNested, hget] at hskip
        dsimp only at hskip
        rw [if_pos hquote] at hskip
        have hend : skipString b i < b.length := by
          by_contra hend
          rw [skipNested_of_le (Nat.not_lt.mp hend)] at hskip
          cases hskip
        obtain ⟨q, s', hsplit, hq, heq⟩ := exists_skipsString h (hquote ▸ hget) hend
        rw [hsplit] at h
        rw [heq] at hskip
        obtain ⟨w, s'', rfl, hw, rfl⟩ := ih h.append hskip
        refine ⟨q ++ w, s'', by rw [hsplit, List.append_assoc], hw.string hq, ?_⟩
        rw [List.length_append, Nat.add_assoc]
      by_cases hopen : c = byte '{' ∨ c = byte '['
      · exact hnext (skipNested_open hopen)
      by_cases hclose : c = byte '}' ∨ c = byte ']'
      · by_cases hdepth : depth = 1
        · subst hdepth
          rw [skipNested_close hclose hget, if_pos rfl] at hskip
          obtain rfl := some.inj hskip
          exact ⟨[c], s, rfl, .close hclose, rfl⟩
        · exact hnext fun hget => by rw [skipNested_close hclose hget, if_neg hdepth]
      · exact hnext (skipNested_inert ⟨hquote, hopen, hclose⟩)

/-! ### Values -/

/-- `skipValue` ends behind `raw` wherever `raw` stands before a byte that ends a value. -/
def SkipsValue (raw : List UInt8) : Prop :=
  ∀ (b : List UInt8) (i : ℕ) (s : List UInt8), s ≠ [] → Stops s → At b i (raw ++ s) →
    skipValue b i = some (i + raw.length)

theorem SkipsString.value (hq : SkipsString q) : SkipsValue q := by
  intro b i s _ _ h
  obtain ⟨q', rfl⟩ := hq.quote
  have hget : b[i]? = some (byte '"') := h.get
  rw [skipValue, hget]
  dsimp only
  rw [if_pos rfl, hq.skip h]

theorem EndsNested.value {c : UInt8} {w : List UInt8} (hquote : c ≠ byte '"')
    (hopen : c = byte '{' ∨ c = byte '[') (hw : EndsNested 0 (c :: w)) : SkipsValue (c :: w) := by
  intro b i s _ _ h
  have hlength := h.length
  rw [length_append] at hlength
  have hget : b[i]? = some c := h.get
  rw [skipValue, hget]
  dsimp only
  rw [if_neg hquote, if_pos hopen, hw b _ i s (by omega) h]

/-- Bytes without one that ends a value, which do not begin a string or a nested value. There may be
none at all. -/
theorem skipsValue_scalar {raw : List UInt8} (hall : ∀ c ∈ raw, endsScalar c = false)
    (hhead : Headed (fun c => c ≠ byte '"' ∧
      ¬ (c = byte '{' ∨ c = byte '[')) raw) : SkipsValue raw := by
  intro b i s hne hs h
  have htake : (raw ++ s).takeWhile (!endsScalar ·) = raw :=
    (Json.takeWhile_append_headed (fun c hc => by rw [hall c hc]; rfl)
      (hs.mono fun c hc => by rw [hc]; rfl)).1
  have hends : ∀ c : UInt8, endsScalar c = true → c ≠ byte '"' ∧ ¬ (c = byte '{' ∨ c = byte '[') :=
    Json.forall_byte (by decide +kernel)
  have hhead' := hhead.append (hs.mono hends)
  obtain ⟨c, t, ht⟩ := exists_cons_of_ne_nil (append_ne_nil_of_right_ne_nil raw hne)
  rw [ht] at hhead'
  have hget : b[i]? = some c := by rw [h.get, ht]; rfl
  obtain ⟨hquote, hopen⟩ := headed_cons.mp hhead'
  rw [skipValue, hget]
  dsimp only
  rw [if_neg hquote, if_neg hopen, h.drop, htake]

/-- **What `skipValue` skips in one body it skips in every body.** -/
theorem exists_skipsValue {j : ℕ} (h : At b i s) (hskip : skipValue b i = some j)
    (hend : j < b.length) :
    ∃ raw s', s = raw ++ s' ∧ SkipsValue raw ∧ j = i + raw.length := by
  cases s with
  | nil =>
    have hget : b[i]? = none := h.get
    rw [skipValue, hget] at hskip
    cases hskip
  | cons c s =>
    have hget : b[i]? = some c := h.get
    rw [skipValue, hget] at hskip
    dsimp only at hskip
    split_ifs at hskip with hquote hopen
    · obtain rfl := some.inj hskip
      obtain ⟨q, s', hsplit, hq, heq⟩ := exists_skipsString h (hquote ▸ hget) hend
      exact ⟨q, s', hsplit, hq.value, heq⟩
    · obtain ⟨w, s', hsplit, hw, rfl⟩ := exists_endsNested h hskip
      cases w with
      | nil =>
        -- at the depth zero at least the opening bracket is skipped
        rw [hsplit] at h
        have hnone := hw [] 0 0 [] (Nat.le_refl _) (At.zero [])
        cases hnone
      | cons c' w =>
        obtain ⟨rfl, rfl⟩ := List.cons.inj hsplit
        exact ⟨c :: w, s', rfl, hw.value hquote hopen, rfl⟩
    · rw [h.drop] at hskip
      refine ⟨(c :: s).takeWhile (!endsScalar ·), (c :: s).dropWhile (!endsScalar ·),
        takeWhile_append_dropWhile.symm, skipsValue_scalar ?_ ?_, (some.inj hskip).symm⟩
      · intro d hd
        have htrue := all_eq_true.mp all_takeWhile d hd
        simpa using htrue
      · intro d hd
        rw [takeWhile_cons] at hd
        split_ifs at hd
        · obtain rfl := some.inj hd
          exact ⟨hquote, hopen⟩
        · cases hd

/-! ### Members -/

/-- A key with the colon behind it, up to where the value begins. -/
inductive Key (q : List UInt8) : List UInt8 → Prop
  | mk {sp₁ sp₂ : List UInt8} (skips : SkipsString q) (space₁ : Space sp₁) (space₂ : Space sp₂) :
    Key q (q ++ (sp₁ ++ byte ':' :: sp₂))

/-- A value in a text, with the bytes before and behind it. -/
@[ext]
structure Found where
  pre : List UInt8
  raw : List UInt8
  post : List UInt8

namespace Found

/-- The same value behind more bytes. -/
def behind (x : List UInt8) (p : Found) : Found := { p with pre := x ++ p.pre }

/-- Where the value begins and ends, in a text at the index `start`. -/
def span (start : ℕ) (p : Found) : ℕ × ℕ :=
  (start + p.pre.length, start + p.pre.length + p.raw.length)

theorem span_behind (start : ℕ) (x : List UInt8) (p : Found) :
    (p.behind x).span start = p.span (start + x.length) := by
  simp only [span, behind, length_append, add_assoc]

end Found

/-- What a member counts for. -/
def found (q pre raw post : List UInt8) : Option Found :=
  if isModelKey q then some ⟨pre, raw, post⟩ else none

/-- The members of an object as the scanner goes through them, up to the brace at the end, with the
value that is found. A brace may stand behind a comma, and a value may be any bytes that are
skipped. -/
inductive Scanned : List UInt8 → Option Found → Prop
  | close : Scanned [byte '}'] none
  | last {q k raw sp : List UInt8} (key : Key q k) (value : SkipsValue raw) (space : Space sp)
    (start : Headed (isSpace · = false) (raw ++ (sp ++ [byte '}']))) :
    Scanned (k ++ (raw ++ (sp ++ [byte '}']))) (found q k raw (sp ++ [byte '}']))
  | more {q k raw sp t : List UInt8} {place : Option Found} (key : Key q k) (value : SkipsValue raw)
    (space : Space sp) (start : Headed (isSpace · = false) (raw ++ (sp ++ [byte ','])))
      {sp' : List UInt8}
    (space' : Space sp') (members : Scanned t place) :
    Scanned (k ++ (raw ++ (sp ++ byte ',' :: (sp' ++ t))))
      ((place.map (·.behind (k ++ (raw ++ (sp ++ byte ',' :: sp'))))).or
        (found q k raw (sp ++ byte ',' :: (sp' ++ t))))

theorem headed_mid {P : UInt8 → Prop} (h : Headed P (raw ++ (sp ++ [c]))) (s : List UInt8) :
    Headed P (raw ++ (sp ++ c :: s)) := by
  cases raw with
  | nil =>
    cases sp with
    | nil | cons => exact headed_cons.mpr (headed_cons.mp h)
  | cons => exact headed_cons.mpr (headed_cons.mp h)

/-- One pass of the loop: from a member to what is behind its value. -/
theorem findModel_member {k sp₃ : List UInt8} (fuel : ℕ) (val : Option (ℕ × ℕ)) (hsp : Space sp)
    (hkey : Key q k) (hv : SkipsValue raw) (hsp₃ : Space sp₃) (hc : endsScalar c = true)
    (hspace : isSpace c = false)
    (hstart : Headed (isSpace · = false) (raw ++ (sp₃ ++ [c])))
    (h : At b i (sp ++ (k ++ (raw ++ (sp₃ ++ c :: s))))) :
    let vs := i + sp.length + k.length
    findModel b (fuel + 1) i val =
      (let val := if isModelKey q then some (vs, vs + raw.length) else val
      if c = byte ',' then findModel b fuel (vs + raw.length + sp₃.length + 1) val
      else if c = byte '}' then .ok val
      else .error .malformedObject) := by
  intro vs
  obtain ⟨hq, hsp₁, hsp₂⟩ := hkey
  rename_i sp₁ sp₂
  have hsplit : sp ++ (q ++ (sp₁ ++ byte ':' :: sp₂) ++ (raw ++ (sp₃ ++ c :: s))) =
      sp ++ (q ++ (sp₁ ++ ([byte ':'] ++ (sp₂ ++ (raw ++ (sp₃ ++ c :: s)))))) := by simp
  rw [hsplit] at h
  -- the index and what is left, from token to token
  have hat₁ := h.append
  have hat₂ := hat₁.append
  have hat₃ := hat₂.append
  have hat₄ := hat₃.append
  have hat₅ := hat₄.append
  have hat₆ := hat₅.append
  have hvs : i + sp.length + q.length + sp₁.length + [byte ':'].length + sp₂.length = vs := by
    simp only [vs, length_append, length_cons, length_nil]
    omega
  have hstring := hq.skip hat₁
  obtain ⟨q', hquote⟩ := hq.quote
  have hbegin : Headed (isSpace · = false)
      (q ++ (sp₁ ++ ([byte ':'] ++ (sp₂ ++ (raw ++ (sp₃ ++ c :: s)))))) := by
    rw [hquote]
    exact headed_cons.mpr (by decide)
  have hcolon : Headed (isSpace · = false)
      ([byte ':'] ++ (sp₂ ++ (raw ++ (sp₃ ++ c :: s)))) := headed_cons.mpr (by decide)
  have hget₁ : b[i + sp.length]? = some (byte '"') := by
    rw [hat₁.get, hquote]
    rfl
  have hget₃ : b[i + sp.length + q.length + sp₁.length]? = some (byte ':') := hat₃.get
  have hget₆ : b[vs + raw.length + sp₃.length]? = some c := by
    rw [hvs] at hat₆
    exact hat₆.append.get
  have hvalue := hv b _ _ (append_ne_nil_of_right_ne_nil _ (cons_ne_nil c s))
    (stops_space hsp₃ hc s) hat₅
  have hbehind := skipWS_space hsp₃ (headed_cons.mpr hspace) hat₆
  have hne : byte '"' ≠ byte '}' := by decide
  rw [hvs] at hvalue hbehind
  rw [findModel]
  dsimp only
  rw [skipWS_space hsp hbegin h, hget₁, if_neg (by simpa using hne), if_neg (not_not.mpr rfl),
    hstring,
    hat₁.slice, skipWS_space hsp₁ hcolon hat₂, hget₃, if_neg (not_not.mpr rfl),
    show i + sp.length + q.length + sp₁.length + 1 = i + sp.length + q.length + sp₁.length +
      [byte ':'].length from rfl,
    skipWS_space hsp₂ (headed_mid hstart s) hat₄, hvs, hvalue]
  dsimp only
  rw [hbehind, hget₆]
  simp only [some.injEq]

theorem found_span (q pre raw post : List UInt8) (start : ℕ) (val : Option (ℕ × ℕ)) :
    ((found q pre raw post).map (Found.span start)).or val =
      if isModelKey q then some (start + pre.length, start + pre.length + raw.length) else val := by
  unfold found
  split <;> rfl

/-- **The loop finds the value that the text says.** -/
theorem findModel_scanned {place : Option Found} (ht : Scanned t place) (val : Option (ℕ × ℕ))
    (hsp : Space sp) (hfuel : t.length ≤ fuel) (h : At b i (sp ++ (t ++ s))) :
    findModel b fuel i val = .ok ((place.map (Found.span (i + sp.length))).or val) := by
  induction ht generalizing fuel i sp val with
  | close =>
    obtain ⟨fuel, rfl⟩ := Nat.exists_eq_succ_of_ne_zero (Nat.ne_zero_of_lt hfuel)
    have hget : b[i + sp.length]? = some (byte '}') := h.append.get
    rw [findModel]
    dsimp only
    rw [skipWS_space hsp (headed_cons.mpr (by decide)) h, hget, if_pos rfl]
    rfl
  | @last q k raw sp₃ hkey hv hsp₃ hstart =>
    have hne : (k ++ (raw ++ (sp₃ ++ [byte '}']))).length ≠ 0 := by simp
    obtain ⟨fuel, rfl⟩ := Nat.exists_eq_succ_of_ne_zero (Nat.ne_zero_of_lt
      (Nat.lt_of_lt_of_le (Nat.pos_of_ne_zero hne) hfuel))
    have hsplit : k ++ (raw ++ (sp₃ ++ [byte '}'])) ++ s =
        k ++ (raw ++ (sp₃ ++ byte '}' :: s)) := by simp
    rw [hsplit] at h
    rw [findModel_member fuel val hsp hkey hv hsp₃ (by decide) (by decide) hstart h, found_span,
      if_neg (by decide), if_pos rfl]
  | @more q k raw sp₃ t place hkey hv hsp₃ hstart sp₄ hsp₄ _ ih =>
    have hlength : (k ++ (raw ++ (sp₃ ++ byte ',' :: (sp₄ ++ t)))).length =
        (k ++ (raw ++ (sp₃ ++ byte ',' :: sp₄))).length + t.length := by
      simp only [length_append, length_cons]
      omega
    have hpos : (k ++ (raw ++ (sp₃ ++ byte ',' :: sp₄))).length ≠ 0 := by simp
    obtain ⟨fuel, rfl⟩ := exists_eq_succ_of_ne_zero (show fuel ≠ 0 by omega)
    have hsplit : k ++ (raw ++ (sp₃ ++ byte ',' :: (sp₄ ++ t))) ++ s =
        k ++ (raw ++ (sp₃ ++ byte ',' :: (sp₄ ++ (t ++ s)))) := by simp
    rw [hsplit] at h
    -- the members behind it are found from there, and the last one counts
    have hat : At b (i + sp.length + k.length + raw.length + sp₃.length + 1) (sp₄ ++ (t ++ s)) :=
      h.append.append.append.append.cons
    have hindex : i + sp.length + k.length + raw.length + sp₃.length + 1 + sp₄.length =
        i + sp.length + (k ++ (raw ++ (sp₃ ++ byte ',' :: sp₄))).length := by
      simp only [length_append, length_cons]
      omega
    rw [findModel_member fuel val hsp hkey hv hsp₃ (by decide) (by decide) hstart h, if_pos rfl,
      ih _ hsp₄ (by omega) hat, hindex, map_or, Option.or_assoc, found_span, Option.map_map]
    simp only [Function.comp_def, Found.span_behind]

/-- A test of the scanner that did not fail. -/
theorem ite_error_eq_ok {ε α : Type} {P : Prop} [Decidable P] {e : ε} {x : Except ε α} {a : α}
    (h : (if ¬ P then .error e else x) = .ok a) : P ∧ x = .ok a := by
  by_cases hP : P
  · rw [if_neg (not_not.mpr hP)] at h
    exact ⟨hP, h⟩
  · rw [if_pos hP] at h
    cases h

/-- **A loop that succeeds has gone through such a text.** -/
theorem scanned_of_findModel {val val' : Option (ℕ × ℕ)} (h : At b i s)
    (hfind : findModel b fuel i val = .ok val') :
    ∃ sp t s' place, s = sp ++ (t ++ s') ∧ Space sp ∧ Scanned t place := by
  induction fuel generalizing i val s with
  | zero => cases hfind
  | succ fuel ih =>
    obtain ⟨sp, s, rfl, hsp, -, hws⟩ := exists_skipWS h
    have hat := h.append
    rw [findModel] at hfind
    dsimp only at hfind
    rw [hws] at hfind
    by_cases hbrace : b[i + sp.length]? = some (byte '}')
    · obtain ⟨s', rfl⟩ := hat.exists_cons hbrace
      exact ⟨sp, [byte '}'], s', none, rfl, hsp, .close⟩
    · rw [if_neg hbrace] at hfind
      obtain ⟨hquote, hfind⟩ := ite_error_eq_ok hfind
      obtain ⟨hcolon, hfind⟩ := ite_error_eq_ok hfind
      -- the key ends before the body does, since a colon is behind it
      have hcolonlt := (List.getElem?_eq_some_iff.mp hcolon).1
      have hend : skipString b (i + sp.length) < b.length :=
        Nat.lt_of_le_of_lt (Nat.le_add_right _ _) hcolonlt
      obtain ⟨q, s, rfl, hq, hkeyend⟩ := exists_skipsString hat hquote hend
      have hat₁ := hat.append
      rw [hkeyend] at hcolon hfind
      obtain ⟨sp₁, s, rfl, hsp₁, -, hws₁⟩ := exists_skipWS hat₁
      have hat₂ := hat₁.append
      rw [hws₁] at hcolon hfind
      obtain ⟨s, rfl⟩ := hat₂.exists_cons hcolon
      have hat₃ := hat₂.cons
      obtain ⟨sp₂, s, rfl, hsp₂, hstart, hws₂⟩ := exists_skipWS hat₃
      have hat₄ := hat₃.append
      rw [hws₂] at hfind
      split at hfind
      · cases hfind
      · next j hvalue =>
        have hkey : Key q (q ++ (sp₁ ++ byte ':' :: sp₂)) := .mk hq hsp₁ hsp₂
        -- a byte is behind the value, so the value ends before the body does
        have hbehind : ∀ c, b[skipWS b j]? = some c → endsScalar c = true → ∃ raw sp₃ s',
            s = raw ++ (sp₃ ++ c :: s') ∧ SkipsValue raw ∧ Space sp₃ ∧
              Headed (isSpace · = false) (raw ++ (sp₃ ++ [c])) ∧
              At b (skipWS b j + 1) s' := by
          intro c hget _
          have hlt : j < b.length :=
            Nat.lt_of_le_of_lt (Nat.le_add_right _ _) (List.getElem?_eq_some_iff.mp hget).1
          obtain ⟨raw, s', rfl, hraw, rfl⟩ := exists_skipsValue hat₄ hvalue hlt
          have hat₅ := hat₄.append
          obtain ⟨sp₃, s', rfl, hsp₃, -, hws₃⟩ := exists_skipWS hat₅
          have hat₆ := hat₅.append
          rw [hws₃] at hget ⊢
          obtain ⟨s', rfl⟩ := hat₆.exists_cons hget
          refine ⟨raw, sp₃, s', rfl, hraw, hsp₃, ?_, hat₆.cons⟩
          have hsplit : raw ++ (sp₃ ++ c :: s') = raw ++ (sp₃ ++ [c]) ++ s' := by simp
          rw [hsplit] at hstart
          exact hstart.of_append
        by_cases hcomma : b[skipWS b j]? = some (byte ',')
        · rw [if_pos hcomma] at hfind
          obtain ⟨raw, sp₃, s', rfl, hraw, hsp₃, hstart', hat₅⟩ := hbehind _ hcomma (by decide)
          obtain ⟨sp₄, t, s'', place, rfl, hsp₄, ht⟩ := ih hat₅ hfind
          exact ⟨sp, _, s'', _, by simp, hsp, .more hkey hraw hsp₃ hstart' hsp₄ ht⟩
        · rw [if_neg hcomma] at hfind
          have hclose : b[skipWS b j]? = some (byte '}') := by
            by_contra hclose
            rw [if_neg hclose] at hfind
            cases hfind
          obtain ⟨raw, sp₃, s', rfl, hraw, hsp₃, hstart', -⟩ := hbehind _ hclose (by decide)
          exact ⟨sp, _, s', _, by simp, hsp, .last hkey hraw hsp₃ hstart'⟩

/-! ### The value that is found -/

variable {p : Found}

theorem found_eq_some {pre post : List UInt8} (h : found q pre raw post = some p) :
    isModelKey q = true ∧ p = ⟨pre, raw, post⟩ := by
  obtain ⟨hkey, h⟩ := ite_none_right_eq_some.mp h
  exact ⟨hkey, (some.inj h).symm⟩

/-- The value is in the text, is skipped there, and **can be exchanged**: the new one is then
found. -/
structure Exchange (t : List UInt8) (p : Found) : Prop where
  text : t = p.pre ++ (p.raw ++ p.post)
  skips : SkipsValue p.raw
  start : ∀ s, Headed (isSpace · = false) (p.raw ++ (p.post ++ s))
  fill : ∀ raw, SkipsValue raw → (∀ s, Headed (isSpace · = false) (raw ++ s)) →
    Scanned (p.pre ++ (raw ++ p.post)) (some { p with raw := raw })

theorem Scanned.exchange (h : Scanned t (some p)) : Exchange t p := by
  generalize hplace : some p = place at h
  induction h generalizing p with
  | close => cases hplace
  | last hkey hv hsp hstart =>
    -- the last member is the one that was found
    obtain ⟨hmodel, rfl⟩ := found_eq_some hplace.symm
    refine ⟨rfl, hv, fun s => by simpa using headed_mid hstart s, fun raw hv' hstart' => ?_⟩
    have hnew := Scanned.last hkey hv' hsp (hstart' _)
    rwa [found, if_pos hmodel] at hnew
  | @more q k raw sp t place hkey hv hsp hstart sp' hsp' hmembers ih =>
    cases place with
    | none =>
      -- no later member counts, so that it is this one
      obtain ⟨hmodel, rfl⟩ := found_eq_some hplace.symm
      refine ⟨rfl, hv, fun s => by simpa using headed_mid hstart _, fun raw hv' hstart' => ?_⟩
      have hnew := Scanned.more hkey hv' hsp (hstart' _) hsp' hmembers
      rwa [found, if_pos hmodel] at hnew
    | some =>
      obtain rfl := some.inj hplace
      -- a later member counts: this one is scanned as it was
      have hex := ih rfl
      refine ⟨by rw [hex.text]; simp [Found.behind], hex.skips, hex.start,
        fun raw' hv' hstart' => ?_⟩
      have hnew := Scanned.more hkey hv hsp hstart hsp' (hex.fill raw' hv' hstart')
      simpa [Found.behind] using hnew

/-! ### Bodies -/

/-- A body that the scanner goes through: the members behind a brace, and any bytes behind them. -/
inductive ScannedBody : List UInt8 → Option Found → Prop
  | mk {sp sp₁ t s : List UInt8} {place : Option Found} (space : Space sp) (space₁ : Space sp₁)
    (members : Scanned t place) :
    ScannedBody (sp ++ byte '{' :: (sp₁ ++ (t ++ s)))
      (place.map fun p => ⟨sp ++ byte '{' :: (sp₁ ++ p.pre), p.raw, p.post ++ s⟩)

namespace ScannedBody

variable {place place' : Option Found}

theorem findModel (h : ScannedBody b place) : b[skipWS b 0]? = some (byte '{') ∧
    findModel b b.length (skipWS b 0 + 1) none = .ok (place.map (Found.span 0)) := by
  obtain ⟨hsp, hsp₁, ht⟩ := h
  rename_i sp sp₁ t s place
  have hat := At.zero (sp ++ byte '{' :: (sp₁ ++ (t ++ s)))
  have hws := skipWS_space hsp (headed_cons.mpr (by decide)) hat
  have hat₁ := hat.append
  rw [hws]
  refine ⟨hat₁.get, ?_⟩
  have hfuel : t.length ≤ (sp ++ byte '{' :: (sp₁ ++ (t ++ s))).length := by
    simp only [length_append, length_cons]
    omega
  rw [findModel_scanned ht none hsp₁ hfuel hat₁.cons, or_none, Option.map_map]
  congr 2
  funext p
  simp only [Function.comp_apply, Found.span, length_append, length_cons, Prod.mk.injEq]
  omega

/-- The value is in the body, is skipped there, and **can be exchanged**. -/
theorem exchange (h : ScannedBody b (some p)) : b = p.pre ++ (p.raw ++ p.post) ∧ SkipsValue p.raw ∧
    Headed (isSpace · = false) (p.raw ++ p.post) ∧
    ∀ raw, SkipsValue raw → (∀ s, Headed (isSpace · = false) (raw ++ s)) →
      ScannedBody (p.pre ++ (raw ++ p.post)) (some { p with raw := raw }) := by
  generalize hplace : some p = place at h
  obtain @⟨sp, sp₁, t, s, place, hsp, hsp₁, ht⟩ := h
  obtain ⟨p', rfl, rfl⟩ := map_eq_some_iff.mp hplace.symm
  have hex := ht.exchange
  refine ⟨by rw [hex.text]; simp, hex.skips, hex.start s, fun raw hv hstart => ?_⟩
  have hnew := ScannedBody.mk (s := s) hsp hsp₁ (hex.fill raw hv hstart)
  simpa using hnew

theorem unique (h : ScannedBody b place) (h' : ScannedBody b place') : place = place' := by
  have hspan : place.map (Found.span 0) = place'.map (Found.span 0) :=
    Except.ok.inj (h.findModel.2.symm.trans h'.findModel.2)
  cases place with
  | none =>
    cases place' with
    | none => rfl
    | some => cases hspan
  | some =>
    cases place' with
    | none => cases hspan
    | some =>
      have hlengths := some.inj hspan
      simp only [Found.span, Prod.mk.injEq, zero_add] at hlengths
      obtain ⟨hpre, hraw⟩ := hlengths
      obtain ⟨hpre', hrest⟩ := append_inj (h.exchange.1.symm.trans h'.exchange.1) hpre
      obtain ⟨hraw', hpost⟩ := append_inj hrest (by omega)
      exact congrArg some (Found.ext hpre' hraw' hpost)

end ScannedBody

/-- **What a scanned body gives**: the model stands for the value that was found. -/
theorem replaceTopLevelModel_scanned (h : ScannedBody b (some p)) (model : String) :
    replaceTopLevelModel b model = .ok (p.pre ++ (Json.quote model ++ p.post)) := by
  obtain ⟨hget, hfind⟩ := h.findModel
  have htext := h.exchange.1
  unfold replaceTopLevelModel
  dsimp only
  rw [hget, if_neg (not_not.mpr rfl), hfind]
  simp only [map_some, Found.span, zero_add, Except.ok.injEq]
  have hat : At b 0 (p.pre ++ (p.raw ++ p.post)) := htext ▸ At.zero b
  have hpost := hat.append.append.drop
  rw [zero_add] at hpost
  rw [hpost, append_assoc]
  congr 1
  rw [htext, take_left]

theorem replaceTopLevelModel_scanned_none (h : ScannedBody b none) (model : String) :
    replaceTopLevelModel b model = .error .noModel := by
  obtain ⟨hget, hfind⟩ := h.findModel
  unfold replaceTopLevelModel
  dsimp only
  rw [hget, if_neg (not_not.mpr rfl), hfind]
  rfl

/-- **A scan that succeeds has gone through such a body.** -/
theorem scannedBody_of_findModel {val : Option (ℕ × ℕ)} (hget : b[skipWS b 0]? = some (byte '{'))
    (hfind : findModel b b.length (skipWS b 0 + 1) none = .ok val) :
    ∃ place, ScannedBody b place ∧ val = place.map (Found.span 0) := by
  obtain ⟨sp, s, hb, hsp, -, hws⟩ := exists_skipWS (At.zero b)
  have hat : At b (skipWS b 0) s := by
    have hat := At.zero b
    nth_rewrite 2 [hb] at hat
    rw [hws]
    exact hat.append
  obtain ⟨s, rfl⟩ := hat.exists_cons hget
  obtain ⟨sp₁, t, s', place, rfl, hsp₁, ht⟩ := scanned_of_findModel hat.cons hfind
  have hbody := ScannedBody.mk (s := s') hsp hsp₁ ht
  rw [← hb] at hbody
  exact ⟨_, hbody, Except.ok.inj (hfind.symm.trans hbody.findModel.2)⟩

/-- **A body in which the model could be replaced is scanned.** -/
theorem scannedBody_of_replaced {model : String} {out : List UInt8}
    (h : replaceTopLevelModel b model = .ok out) :
    ∃ p, ScannedBody b (some p) ∧ out = p.pre ++ (Json.quote model ++ p.post) := by
  have hok := h
  unfold replaceTopLevelModel at h
  dsimp only at h
  split_ifs at h with hget
  split at h
  · cases h
  · cases h
  · next hfind =>
    obtain ⟨place, hbody, hplace⟩ := scannedBody_of_findModel (not_not.mp hget) hfind
    obtain ⟨p, rfl, -⟩ := map_eq_some_iff.mp hplace.symm
    refine ⟨p, hbody, ?_⟩
    rw [replaceTopLevelModel_scanned hbody] at hok
    exact (Except.ok.inj hok).symm

end HivenetRouter.Api
