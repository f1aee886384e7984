import HivenetRouter.Framework.Utf8

/-!
# JSON texts

The value that a JSON text stands for, read from its bytes. `parse` reads one value from
the front of a byte string and returns what follows it; an object keeps its members in the
order of the text, with duplicate keys, and beside each member's value the bytes it was
read from. A number stays the literal it was written as.

The reader is recursive over a bound on its nested calls (`fuel`). Every second call
consumes a byte, so twice the length of the text is always enough: with it, every text of
the grammar is read (`parseValue_of_value`).
-/

namespace HivenetRouter

open Option Utf8

/-- A JSON value. A member of an object is its key, the bytes of its value, and the
value. -/
inductive Json where
  | null
  | bool (b : Bool)
  | num (lit : List UInt8)
  | str (s : String)
  | arr (elems : List Json)
  | obj (members : List (String × List UInt8 × Json))

namespace Json

/-! ### Lexical elements -/

def byte (c : Char) : UInt8 := c.toNat.toUInt8

def isSpace (b : UInt8) : Bool := b = byte ' ' || b = byte '\t' || b = byte '\r' || b = byte '\n'

def skipSpace (bs : List UInt8) : List UInt8 := bs.dropWhile isSpace

/-- What follows the character `c`, if the text starts with it. -/
def eat (c : Char) : List UInt8 → Option (List UInt8)
  | [] => none
  | b :: bs => if b = byte c then some bs else none

/-- What follows the word `cs`, if the text starts with it. -/
def eatWord (cs : List Char) (bs : List UInt8) : Option (List UInt8) :=
  cs.foldlM (fun rest c => eat c rest) bs

def isDigit (b : UInt8) : Bool := byte '0' ≤ b && b ≤ byte '9'

def hexDigit (b : UInt8) : Option ℕ :=
  if byte '0' ≤ b ∧ b ≤ byte '9' then some (b.toNat - 48)
  else if byte 'a' ≤ b ∧ b ≤ byte 'f' then some (b.toNat - 97 + 10)
  else if byte 'A' ≤ b ∧ b ≤ byte 'F' then some (b.toNat - 65 + 10)
  else none

def hex4 : List UInt8 → Option ℕ
  | a :: b :: c :: d :: _ => do
    let a ← hexDigit a
    let b ← hexDigit b
    let c ← hexDigit c
    let d ← hexDigit d
    some (((a * 16 + b) * 16 + c) * 16 + d)
  | _ => none

def escaped (b : UInt8) : Option Char :=
  if b = byte '"' then some '"'
  else if b = byte '\\' then some '\\'
  else if b = byte '/' then some '/'
  else if b = byte 'b' then some '\x08'
  else if b = byte 'f' then some '\x0c'
  else if b = byte 'n' then some '\n'
  else if b = byte 'r' then some '\r'
  else if b = byte 't' then some '\t'
  else none

/-- How many bytes an escape takes after its backslash. -/
def escapeWidth : List UInt8 → Option ℕ
  | [] => none
  | e :: es => if e = byte 'u' then (hex4 es).map fun _ => 5 else (escaped e).map fun _ => 1

/-- The bytes of a string up to its closing quote, and what follows the quote; the first
`skip` bytes belong to an escape. -/
def scanStringFrom : ℕ → List UInt8 → Option (List UInt8 × List UInt8)
  | _, [] => none
  | skip + 1, b :: bs => (scanStringFrom skip bs).map fun r => (b :: r.1, r.2)
  | 0, b :: bs =>
    if b = byte '"' then some ([], bs)
    else if b = byte '\\' then
      match escapeWidth bs with
      | some skip => (scanStringFrom skip bs).map fun r => (b :: r.1, r.2)
      | none => none
    -- a control character has to be escaped
    else if b < 0x20 then none
    else (scanStringFrom 0 bs).map fun r => (b :: r.1, r.2)

def scanString (bs : List UInt8) : Option (List UInt8 × List UInt8) := scanStringFrom 0 bs

/-- The character of a pair of UTF-16 surrogates. -/
def surrogatePair (hi lo : ℕ) : Option Char :=
  if 0xd800 ≤ hi ∧ hi < 0xdc00 ∧ 0xdc00 ≤ lo ∧ lo < 0xe000 then
    some (Char.ofNat ((hi - 0xd800) * 0x400 + (lo - 0xdc00) + 0x10000))
  else none

/-- The character of the escape `\uXXXX` whose digits are at the front, and the bytes that
the escape takes after its backslash. A surrogate that is not half of a pair is replaced. -/
def unicodeEscape (es : List UInt8) : Option (Char × ℕ) := do
  let rr ← hex4 es
  if 0xd800 ≤ rr ∧ rr < 0xe000 then
    match (eatWord ['\\', 'u'] (es.drop 4) >>= hex4) >>= surrogatePair rr with
    | some c => some (c, 11)
    | none => some (runeError, 5)
  else some (Char.ofNat rr, 5)

/-- The first character of a string's bytes, and how many bytes it takes after the first. -/
def unquoteRune (b : UInt8) (bs : List UInt8) : Option (Char × ℕ) :=
  if b = byte '\\' then
    match bs with
    | [] => none
    | e :: es => if e = byte 'u' then unicodeEscape es else (escaped e).map fun c => (c, 1)
  else if b < 0x80 then some (Char.ofNat b.toNat, 0)
  else some ((decodeRune (b :: bs)).1, (decodeRune (b :: bs)).2 - 1)

/-- The text of a string's bytes after the first `skip`. -/
def unquoteFrom : ℕ → List UInt8 → Option (List Char)
  | _, [] => some []
  | skip + 1, _ :: bs => unquoteFrom skip bs
  | 0, b :: bs => do
    let (c, skip) ← unquoteRune b bs
    let cs ← unquoteFrom skip bs
    some (c :: cs)

/-- `unquote`: the text of the bytes between the quotes of a string. -/
def unquote (content : List UInt8) : Option String := (unquoteFrom 0 content).map String.ofList

/-- A string, from its opening quote. -/
def parseString (bs : List UInt8) : Option (String × List UInt8) := do
  let bs ← eat '"' bs
  let (content, rest) ← scanString bs
  let s ← unquote content
  some (s, rest)

def scanDigits (bs : List UInt8) : Option (List UInt8 × List UInt8) :=
  if bs.takeWhile isDigit = [] then none
  else some (bs.takeWhile isDigit, bs.dropWhile isDigit)

/-- The digits before the decimal point: no leading zero. -/
def scanInteger : List UInt8 → Option (List UInt8 × List UInt8)
  | [] => none
  | b :: bs => if b = byte '0' then some ([b], bs) else scanDigits (b :: bs)

/-- One of `signs`, if the text goes on with it. -/
def scanSign (signs : List Char) : List UInt8 → List UInt8 × List UInt8
  | [] => ([], [])
  | b :: bs => if b ∈ signs.map byte then ([b], bs) else ([], b :: bs)

/-- One of `marks`, an optional sign and digits, if the text goes on with a mark. -/
def scanTail (marks signs : List Char) (bs : List UInt8) : Option (List UInt8 × List UInt8) :=
  match scanSign marks bs with
  | ([], _) => some ([], bs)
  | (mark, bs) =>
    (scanDigits (scanSign signs bs).2).map fun r => (mark ++ (scanSign signs bs).1 ++ r.1, r.2)

/-- A number: an optional minus, digits, an optional fraction and an optional exponent. -/
def scanNumber (bs : List UInt8) : Option (List UInt8 × List UInt8) := do
  let sign := scanSign ['-'] bs
  let int ← scanInteger sign.2
  let frac ← scanTail ['.'] [] int.2
  let exp ← scanTail ['e', 'E'] ['+', '-'] frac.2
  some (sign.1 ++ int.1 ++ frac.1 ++ exp.1, exp.2)

/-- The bytes that were read: those of `bs` before `rest`. -/
def consumed (bs rest : List UInt8) : List UInt8 := bs.take (bs.length - rest.length)

/-! ### Values -/

/-- A value that is neither an object nor an array. -/
def parseScalar (bs : List UInt8) : Option (Json × List UInt8) :=
  match parseString bs with
  | some (s, rest) => some (.str s, rest)
  | none =>
    match eatWord ['t', 'r', 'u', 'e'] bs with
    | some rest => some (.bool true, rest)
    | none =>
      match eatWord ['f', 'a', 'l', 's', 'e'] bs with
      | some rest => some (.bool false, rest)
      | none =>
        match eatWord ['n', 'u', 'l', 'l'] bs with
        | some rest => some (.null, rest)
        | none => (scanNumber bs).map fun r => (.num r.1, r.2)

/-- What stands between an opening bracket and `close`: nothing, or what `items` reads. -/
def enclosed {α : Type} (close : Char) (depth : ℕ)
    (items : List UInt8 → Option (List α × List UInt8)) (bs : List UInt8) :
    Option (List α × List UInt8) :=
  if depth = 0 then none
  else
    match eat close (skipSpace bs) with
    | some rest => some ([], rest)
    | none => items (skipSpace bs)

/-- The item `a` and, after a comma, those that `items` reads; else `close`. -/
def separated {α : Type} (close : Char) (items : List UInt8 → Option (List α × List UInt8))
    (a : α) (rest : List UInt8) : Option (List α × List UInt8) :=
  match eat ',' (skipSpace rest) with
  | some rest => (items (skipSpace rest)).map fun r => (a :: r.1, r.2)
  | none => (eat close (skipSpace rest)).map fun rest => ([a], rest)

mutual

/-- One value, at the front of the bytes; `depth` more levels of nesting are allowed. -/
def parseValue : ℕ → ℕ → List UInt8 → Option (Json × List UInt8)
  | 0, _, _ => none
  | fuel + 1, depth, bs =>
    match eat '{' bs with
    | some bs =>
      (enclosed '}' depth (parseMembers fuel (depth - 1)) bs).map fun r => (.obj r.1, r.2)
    | none =>
      match eat '[' bs with
      | some bs =>
        (enclosed ']' depth (parseElems fuel (depth - 1)) bs).map fun r => (.arr r.1, r.2)
      | none => parseScalar bs

/-- The members of an object, from the first key to the closing brace. -/
def parseMembers : ℕ → ℕ → List UInt8 → Option (List (String × List UInt8 × Json) × List UInt8)
  | 0, _, _ => none
  | fuel + 1, depth, bs => do
    let (key, bs) ← parseString bs
    let bs ← eat ':' (skipSpace bs)
    let (v, rest) ← parseValue fuel depth (skipSpace bs)
    separated '}' (parseMembers fuel depth) (key, consumed (skipSpace bs) rest, v) rest

/-- The elements of an array, from the first to the closing bracket. -/
def parseElems : ℕ → ℕ → List UInt8 → Option (List Json × List UInt8)
  | 0, _, _ => none
  | fuel + 1, depth, bs => do
    let (v, rest) ← parseValue fuel depth bs
    separated ']' (parseElems fuel depth) v rest

end

def maxNestingDepth : ℕ := 10000

/-- The first value of the bytes, and what follows it. -/
def parse (bs : List UInt8) : Option (Json × List UInt8) :=
  parseValue (2 * bs.length + 1) maxNestingDepth (skipSpace bs)

/-! ### Writing -/

/-- A digit of the escapes that `Marshal` writes. -/
def lowerHexDigit (n : ℕ) : UInt8 := if n < 10 then (48 + n).toUInt8 else (97 + (n - 10)).toUInt8

/-- The escape `\uXXXX` of a character. -/
def unicodeEscapeOf (c : Char) : List UInt8 :=
  ofText "\\u" ++ [c.toNat / 4096 % 16, c.toNat / 256 % 16, c.toNat / 16 % 16,
    c.toNat % 16].map lowerHexDigit

/-- A character of a string as `json.Marshal` writes it, with its escapes for HTML. -/
def quoteRune (c : Char) : List UInt8 :=
  if c = '"' ∨ c = '\\' then [byte '\\', byte c]
  else if c = '\n' then ofText "\\n"
  else if c = '\r' then ofText "\\r"
  else if c = '\t' then ofText "\\t"
  else if c = '\x08' then ofText "\\b"
  else if c = '\x0c' then ofText "\\f"
  else if c.toNat < 0x20 ∨ c ∈ ['<', '>', '&', '\u2028', '\u2029'] then unicodeEscapeOf c
  else String.utf8EncodeChar c

/-- `json.Marshal` of a string. -/
def quote (s : String) : List UInt8 := byte '"' :: s.toList.flatMap quoteRune ++ [byte '"']

/-- The value of a text that is one value and nothing else. -/
def unmarshal (bs : List UInt8) : Option Json :=
  (parse bs).bind fun (v, rest) => if skipSpace rest = [] then some v else none

/-! ### What is read -/

variable {bs rest : List UInt8} {r : List UInt8 × List UInt8}

theorem eat_eq_some {c : Char} (h : eat c bs = some rest) : bs = byte c :: rest := by
  cases bs with
  | nil => exact absurd h (by simp [eat])
  | cons =>
    rw [eat] at h
    split at h
    · next hb =>
      rw [hb, some.inj h]
    · exact absurd h (by simp)

theorem scanStringFrom_eq_some {skip : ℕ} (h : scanStringFrom skip bs = some r) :
    bs = r.1 ++ byte '"' :: r.2 := by
  induction bs generalizing skip r with
  | nil => cases skip <;> exact absurd h (by simp [scanStringFrom])
  | cons b bs ih =>
    -- every branch but the closing quote puts `b` in front of what the rest gives
    have hcons : ∀ {skip : ℕ}, (scanStringFrom skip bs).map (fun r => (b :: r.1, r.2)) = some r →
          b :: bs = r.1 ++ byte '"' :: r.2 := by
      intro skip hmap
      obtain ⟨r', hr', rfl⟩ := map_eq_some_iff.mp hmap
      rw [List.cons_append, ← ih hr']
    cases skip with
    | succ => exact hcons h
    | zero =>
      rw [scanStringFrom] at h
      split_ifs at h with hquote hback hctl
      · rw [← some.inj h, hquote, List.nil_append]
      · -- a backslash takes what it escapes with it
        split at h
        · exact hcons h
        · exact absurd h (by simp)
      · exact hcons h

def IsScalar : Json → Prop
  | obj _ | arr _ => False
  | _ => True

theorem parseScalar_isScalar {r : Json × List UInt8} (h : parseScalar bs = some r) :
    r.1.IsScalar := by
  rw [parseScalar] at h
  split at h
  · rw [← some.inj h]
    trivial
  split at h
  · rw [← some.inj h]
    trivial
  split at h
  · rw [← some.inj h]
    trivial
  split at h
  · rw [← some.inj h]
    trivial
  · obtain ⟨r', -, rfl⟩ := map_eq_some_iff.mp h
    trivial

/-- The value, if it is an array, has at most `n` elements. -/
def AtMost (n : ℕ) : Json → Prop
  | arr elems => elems.length ≤ n
  | _ => True

theorem AtMost.mono {n m : ℕ} (h : n ≤ m) {v : Json} (hv : v.AtMost n) : v.AtMost m := by
  cases v with
  | arr => exact Nat.le_trans hv h
  | _ => trivial

theorem IsScalar.atMost {v : Json} (h : v.IsScalar) (n : ℕ) : v.AtMost n := by
  cases v with
  | arr => exact h.elim
  | _ => trivial

end Json

end HivenetRouter

/-!
## Tokens of a JSON text

A token is read the same whatever stands behind it, as long as that does not go on with it: a reader
that takes `w` off the front of a text takes `w` off the front of every text that begins with it
(`Reads`). For a string and a word anything may follow; a number ends before a byte that is not one
of a number (`EndsNumber`).

`parseString_quote` is the round trip of strings: what `quote` writes is read back.
-/

namespace HivenetRouter.Json

open List Nat Prod
open Option (bind_eq_some_iff map_eq_some_iff map_eq_bind)

/-- A statement about the elements of a list that is given. -/
theorem forall_mem_of_all {α : Type} {P : α → Prop} [DecidablePred P] {l : List α}
    (h : l.all (P ·) = true) : ∀ a ∈ l, P a := by
  intro a ha
  exact of_decide_eq_true (all_eq_true.mp h a ha)

variable {P : UInt8 → Prop} {b : UInt8} {bs w rest : List UInt8} {c : Char} {signs : List Char}

/-- A statement about a byte is one about 256 of them. -/
theorem forall_byte (h : ∀ n : Fin 256, P (UInt8.ofNat n.val)) (b : UInt8) : P b := by
  have hb := h ⟨b.toNat, b.toNat_lt⟩
  rwa [UInt8.ofNat_toNat] at hb

/-- The next byte, if there is one, is one of `P`. -/
def Headed (P : UInt8 → Prop) (bs : List UInt8) : Prop := ∀ b ∈ bs.head?, P b

theorem headed_nil (P : UInt8 → Prop) : Headed P [] := fun _ h => nomatch h

theorem headed_cons : Headed P (b :: bs) ↔ P b :=
  ⟨fun h => h b rfl, fun h _ hb => Option.some.inj hb ▸ h⟩

theorem Headed.mono {Q : UInt8 → Prop} (h : ∀ b, P b → Q b) (hbs : Headed P bs) : Headed Q bs :=
  fun b hb => h b (hbs b hb)

theorem Headed.append (hw : Headed P w) (hrest : Headed P rest) : Headed P (w ++ rest) := by
  cases w with
  | nil => exact hrest
  | cons => exact headed_cons.mpr (headed_cons.mp hw)

theorem Headed.of_append (h : Headed P (w ++ rest)) : Headed P w := by
  cases w with
  | nil => exact headed_nil P
  | cons => exact headed_cons.mpr (headed_cons.mp h)

/-- `scan` takes the bytes `w` off a text, whatever is behind them that begins with one of
`stop`. -/
def Reads (scan : List UInt8 → Option (List UInt8 × List UInt8)) (stop : UInt8 → Prop)
    (w : List UInt8) : Prop :=
  ∀ rest, Headed stop rest → scan (w ++ rest) = some (w, rest)

/-! ### Digits -/

theorem takeWhile_append_headed {p : UInt8 → Bool} (hw : ∀ b ∈ w, p b = true)
    (hrest : Headed (p · = false) rest) :
    (w ++ rest).takeWhile p = w ∧ (w ++ rest).dropWhile p = rest := by
  have hend : rest.takeWhile p = [] ∧ rest.dropWhile p = rest := by
    cases rest with
    | nil => exact ⟨rfl, rfl⟩
    | cons =>
      have hb := headed_cons.mp hrest
      rw [takeWhile_cons_of_neg (by simp [hb]), dropWhile_cons_of_neg (by simp [hb])]
      exact ⟨rfl, rfl⟩
  rw [takeWhile_append_of_pos hw, dropWhile_append_of_pos hw, hend.1, hend.2, append_nil]
  exact ⟨rfl, rfl⟩

def NotDigit (b : UInt8) : Prop := isDigit b = false

instance (b : UInt8) : Decidable (NotDigit b) := inferInstanceAs (Decidable (_ = _))

theorem scanDigits_eq_some (h : scanDigits bs = some (w, rest)) :
    bs = w ++ rest ∧ w ≠ [] ∧ (∀ b ∈ w, isDigit b = true) ∧ Reads scanDigits NotDigit w := by
  obtain ⟨hne, h⟩ := Option.ite_none_left_eq_some.mp h
  obtain ⟨rfl, rfl⟩ := mk.inj (Option.some.inj h)
  have hall : ∀ b ∈ bs.takeWhile isDigit, isDigit b = true :=
    fun b hb => all_eq_true.mp all_takeWhile b hb
  refine ⟨takeWhile_append_dropWhile.symm, hne, hall, fun rest hrest => ?_⟩
  obtain ⟨htake, hdrop⟩ := takeWhile_append_headed hall hrest
  rw [scanDigits, htake, hdrop, if_neg hne]

theorem scanInteger_eq_some (h : scanInteger bs = some (w, rest)) :
    bs = w ++ rest ∧ w ≠ [] ∧ (∀ b ∈ w, isDigit b = true) ∧ Reads scanInteger NotDigit w := by
  cases bs with
  | nil => cases h
  | cons =>
    rw [scanInteger] at h
    split at h
    · next hzero =>
      obtain ⟨rfl, rfl⟩ := mk.inj (Option.some.inj h)
      refine ⟨rfl, cons_ne_nil _ _, ?_, fun rest _ => if_pos hzero⟩
      intro c hc
      rw [mem_singleton.mp hc, hzero]
      decide
    · next hzero =>
      obtain ⟨hbs, hne, hall, hreads⟩ := scanDigits_eq_some h
      refine ⟨hbs, hne, hall, fun rest hrest => ?_⟩
      obtain ⟨c, w, rfl⟩ := exists_cons_of_ne_nil hne
      obtain rfl := (cons.inj hbs).1
      rw [cons_append, scanInteger, if_neg hzero]
      exact hreads rest hrest

/-! ### Signs and marks -/

/-- A sign is one byte of the list, or nothing. -/
theorem scanSign_eq (h : scanSign signs bs = (w, rest)) :
    bs = w ++ rest ∧ (w = [] ∨ ∃ b ∈ signs.map byte, w = [b]) := by
  cases bs with
  | nil =>
    obtain ⟨rfl, rfl⟩ := mk.inj h
    exact ⟨rfl, .inl rfl⟩
  | cons b =>
    rw [scanSign] at h
    split at h
    · next hb =>
      obtain ⟨rfl, rfl⟩ := mk.inj h
      exact ⟨rfl, .inr ⟨b, hb, rfl⟩⟩
    · obtain ⟨rfl, rfl⟩ := mk.inj h
      exact ⟨rfl, .inl rfl⟩

/-- The sign is read again before a text that does not begin with one. -/
theorem scanSign_append (hw : w = [] ∨ ∃ b ∈ signs.map byte, w = [b])
    (hrest : Headed (· ∉ signs.map byte) rest) :
    scanSign signs (w ++ rest) = (w, rest) := by
  obtain rfl | ⟨b, hb, rfl⟩ := hw
  · cases rest with
    | nil => rfl
    | cons => exact if_neg (headed_cons.mp hrest)
  · exact if_pos hb

def NotTail (marks : List Char) (b : UInt8) : Prop := NotDigit b ∧ b ∉ marks.map byte

instance (marks : List Char) (b : UInt8) : Decidable (NotTail marks b) :=
  inferInstanceAs (Decidable (_ ∧ _))

variable {marks : List Char} {skip : ℕ} {content : List UInt8} {s : String}

theorem scanTail_eq_some (hsigns : ∀ b ∈ signs.map byte, isDigit b = false)
    (h : scanTail marks signs bs = some (w, rest)) :
    bs = w ++ rest ∧ (∀ b ∈ w, isDigit b = true ∨ b ∈ marks.map byte ∨ b ∈ signs.map byte) ∧
      Headed (· ∈ marks.map byte) w ∧ Reads (scanTail marks signs) (NotTail marks) w := by
  rw [scanTail] at h
  split at h
  · next bs' hsign =>
    -- no mark
    obtain ⟨rfl, rfl⟩ := mk.inj (Option.some.inj h)
    refine ⟨rfl, fun _ hb => absurd hb not_mem_nil, headed_nil _, fun rest hrest => ?_⟩
    have hmark : Headed (· ∉ marks.map byte) rest := hrest.mono fun _ hb => hb.2
    have hnone := scanSign_append (.inl rfl) hmark
    rw [nil_append] at hnone ⊢
    rw [scanTail, hnone]
  · next mark bs' hne hsign =>
    obtain ⟨⟨ds, rest'⟩, hdigits, heq⟩ := map_eq_some_iff.mp h
    obtain ⟨rfl, rfl⟩ := Prod.mk.inj heq
    obtain ⟨rfl, hmark⟩ := scanSign_eq hsign
    obtain ⟨b, hb, rfl⟩ : ∃ b ∈ marks.map byte, mark = [b] := hmark.resolve_left hne
    rcases hs : scanSign signs bs' with ⟨sign, bs''⟩
    rw [hs] at hdigits
    dsimp only at hdigits ⊢
    obtain ⟨rfl, hsgn⟩ := scanSign_eq hs
    obtain ⟨rfl, hdsne, hall, hreads⟩ := scanDigits_eq_some hdigits
    refine ⟨by simp, ?_, headed_cons.mpr hb, fun rest hrest => ?_⟩
    · intro c hc
      rw [List.append_assoc, mem_append, mem_singleton, mem_append] at hc
      obtain rfl | hc | hc := hc
      · exact .inr (.inl hb)
      · obtain rfl | ⟨s, hmem, rfl⟩ := hsgn
        · exact absurd hc not_mem_nil
        · exact .inr (.inr (mem_singleton.mp hc ▸ hmem))
      · exact .inl (hall c hc)
    · -- the digits behind the sign are none
      have hdigit : Headed (· ∉ signs.map byte) (ds ++ rest) := by
        obtain ⟨d, ds, rfl⟩ := exists_cons_of_ne_nil hdsne
        refine headed_cons.mpr fun hd => ?_
        have htrue := hall d mem_cons_self
        rw [hsigns d hd] at htrue
        exact Bool.false_ne_true htrue
      have hsign' := scanSign_append hsgn hdigit
      have hmark' : scanSign marks (b :: (sign ++ (ds ++ rest))) = ([b], sign ++ (ds ++ rest)) :=
        if_pos hb
      have hread := hreads rest (hrest.mono fun _ hb => hb.1)
      simp only [cons_append, nil_append, List.append_assoc]
      rw [scanTail, hmark']
      dsimp only
      rw [hsign', hread]
      simp

/-! ### Numbers -/

def IsNumber (b : UInt8) : Prop := isDigit b = true ∨ b ∈ ['-', '+', '.', 'e', 'E'].map byte

instance (b : UInt8) : Decidable (IsNumber b) := inferInstanceAs (Decidable (_ ∨ _))

/-- A byte that does not go on with a number. -/
def EndsNumber (b : UInt8) : Prop := ¬ IsNumber b

instance (b : UInt8) : Decidable (EndsNumber b) := inferInstanceAs (Decidable (¬ _))

theorem EndsNumber.notTail (h : EndsNumber b)
    (hmarks : ∀ c ∈ marks, c ∈ ['-', '+', '.', 'e', 'E']) : NotTail marks b := by
  refine ⟨Bool.eq_false_iff.mpr fun hdigit => h (.inl hdigit), fun hmark => h (.inr ?_)⟩
  obtain ⟨c, hc, rfl⟩ := mem_map.mp hmark
  exact mem_map_of_mem (hmarks c hc)

theorem scanNumber_eq_some (h : scanNumber bs = some (w, rest)) :
    bs = w ++ rest ∧ w ≠ [] ∧ (∀ b ∈ w, IsNumber b) ∧ Reads scanNumber EndsNumber w := by
  obtain ⟨⟨int, bs₁⟩, hint, h⟩ := bind_eq_some_iff.mp h
  obtain ⟨⟨frac, bs₂⟩, hfrac, h⟩ := bind_eq_some_iff.mp h
  obtain ⟨⟨exp, bs₃⟩, hexp, h⟩ := bind_eq_some_iff.mp h
  obtain ⟨rfl, rfl⟩ := mk.inj (Option.some.inj h)
  rcases hs : scanSign ['-'] bs with ⟨sign, bs₀⟩
  rw [hs] at hint
  dsimp only at hint hfrac hexp ⊢
  obtain ⟨rfl, hsign⟩ := scanSign_eq hs
  obtain ⟨rfl, hintne, hintall, hintreads⟩ := scanInteger_eq_some hint
  obtain ⟨rfl, hfracall, hfrachead, hfracreads⟩ := scanTail_eq_some (forall_mem_of_all rfl) hfrac
  obtain ⟨rfl, hexpall, hexphead, hexpreads⟩ := scanTail_eq_some (forall_mem_of_all rfl) hexp
  have hfracmark : ∀ b ∈ ['.'].map byte, NotDigit b := forall_mem_of_all rfl
  have hexpmark : ∀ b ∈ ['e', 'E'].map byte, NotTail ['.'] b := forall_mem_of_all rfl
  refine ⟨by simp, by simp [hintne], ?_, fun rest hrest => ?_⟩
  · -- a byte of one of the four parts
    have hsub : ∀ signs : List Char, signs ⊆ ['-', '+', '.', 'e', 'E'] →
        ∀ b ∈ signs.map byte, IsNumber b := fun _ h b hb => .inr (map_subset byte h hb)
    intro b hb
    simp only [mem_append, or_assoc] at hb
    obtain hb | hb | hb | hb := hb
    · obtain rfl | ⟨c, hc, rfl⟩ := hsign
      · exact absurd hb not_mem_nil
      · rw [mem_singleton.mp hb]
        exact hsub ['-'] (by decide) c hc
    · exact .inl (hintall b hb)
    · obtain hb | hb | hb := hfracall b hb
      · exact .inl hb
      · exact hsub ['.'] (by decide) b hb
      · exact absurd hb not_mem_nil
    · obtain hb | hb | hb := hexpall b hb
      · exact .inl hb
      · exact hsub ['e', 'E'] (by decide) b hb
      · exact hsub ['+', '-'] (by decide) b hb
  · -- each part ends where the next one begins
    have hrest₃ : Headed (NotTail ['e', 'E']) rest :=
      hrest.mono fun _ hb => hb.notTail (forall_mem_of_all rfl)
    have hrest₂ : Headed (NotTail ['.']) (exp ++ rest) :=
      (hexphead.mono hexpmark).append (hrest.mono fun _ hb => hb.notTail (forall_mem_of_all rfl))
    have hrest₁ : Headed NotDigit (frac ++ (exp ++ rest)) :=
      (hfrachead.mono hfracmark).append (hrest₂.mono fun _ hb => hb.1)
    have hrest₀ : Headed (· ∉ ['-'].map byte) (int ++ (frac ++ (exp ++ rest))) := by
      obtain ⟨d, int, rfl⟩ := exists_cons_of_ne_nil hintne
      refine headed_cons.mpr fun hd => ?_
      have htrue := hintall d mem_cons_self
      rw [mem_singleton.mp hd] at htrue
      exact absurd htrue (by decide)
    have hsign' := scanSign_append hsign hrest₀
    simp only [List.append_assoc]
    rw [scanNumber, hsign']
    show (scanInteger _).bind _ = _
    rw [hintreads _ hrest₁]
    show (scanTail _ _ _).bind _ = _
    rw [hfracreads _ hrest₂]
    show (scanTail _ _ _).bind _ = _
    rw [hexpreads _ hrest₃]
    simp

/-! ### Strings -/

/-- An escape is decided by the bytes that it takes. -/
theorem escapeWidth_take {bs' : List UInt8} {k : ℕ} (h : escapeWidth bs = some k)
    (heq : bs'.take k = bs.take k) : escapeWidth bs' = some k := by
  cases bs with
  | nil => cases h
  | cons e es =>
    rw [escapeWidth] at h
    split at h
    · next hu =>
      obtain ⟨n, hhex, rfl⟩ := map_eq_some_iff.mp h
      -- `u` and its four digits
      match es, hhex with
      | a :: b :: c :: d :: es, hhex =>
        have hbs' : bs' = e :: a :: b :: c :: d :: bs'.drop 5 := by
          rw [← take_append_drop 5 bs', heq]
          rfl
        have hhex' : hex4 (a :: b :: c :: d :: bs'.drop 5) = some n := hhex
        rw [hbs', escapeWidth, if_pos hu, hhex']
        rfl
    · next hu =>
      obtain ⟨c, hescaped, rfl⟩ := map_eq_some_iff.mp h
      have hbs' : bs' = e :: bs'.drop 1 := by
        rw [← take_append_drop 1 bs', heq]
        rfl
      rw [hbs', escapeWidth, if_neg hu, hescaped]
      rfl

section

variable (h : scanStringFrom skip bs = some (content, rest))

include h

theorem scanStringFrom_length : skip ≤ content.length := by
  induction skip generalizing bs content with
  | zero => exact zero_le _
  | succ skip ih =>
    cases bs with
    | nil => cases h
    | cons =>
      obtain ⟨⟨content', rest'⟩, hscan, heq⟩ := map_eq_some_iff.mp h
      obtain ⟨rfl, rfl⟩ := mk.inj heq
      exact succ_le_succ (ih hscan)

/-- **A string is read the same whatever follows its closing quote.** -/
theorem scanStringFrom_append (rest' : List UInt8) :
    scanStringFrom skip (content ++ byte '"' :: rest') = some (content, rest') := by
  induction bs generalizing skip content with
  | nil => cases skip <;> cases h
  | cons b bs ih =>
    cases skip with
    | succ =>
      -- within an escape, whatever the byte is
      obtain ⟨⟨content', rest'⟩, hscan, heq⟩ := map_eq_some_iff.mp h
      obtain ⟨rfl, rfl⟩ := Prod.mk.inj heq
      rw [cons_append, scanStringFrom, ih hscan]
      rfl
    | zero =>
      rw [scanStringFrom] at h
      split_ifs at h with hquote hback hctl
      · -- the closing quote
        obtain ⟨rfl, rfl⟩ := mk.inj (Option.some.inj h)
        rw [nil_append, scanStringFrom, if_pos rfl]
      · -- an escape: the bytes that it takes are in the content
        split at h
        · next skip hwidth =>
          obtain ⟨⟨content', rest''⟩, hscan, heq⟩ := map_eq_some_iff.mp h
          obtain ⟨rfl, rfl⟩ := mk.inj heq
          have hlength := scanStringFrom_length hscan
          have hwidth' : escapeWidth (content' ++ byte '"' :: rest') = some skip := by
            refine escapeWidth_take hwidth ?_
            rw [scanStringFrom_eq_some hscan, take_append_of_le_length hlength,
              take_append_of_le_length hlength]
          rw [cons_append, scanStringFrom, if_neg hquote, if_pos hback, hwidth']
          dsimp only
          rw [ih hscan]
          rfl
        · cases h
      · -- an ordinary byte
        obtain ⟨⟨content', rest''⟩, hscan, heq⟩ := map_eq_some_iff.mp h
        obtain ⟨rfl, rfl⟩ := mk.inj heq
        rw [cons_append, scanStringFrom, if_neg hquote, if_neg hback, if_neg hctl, ih hscan]
        rfl

end

def quoted (content : List UInt8) : List UInt8 := byte '"' :: (content ++ [byte '"'])

theorem quoted_append (content rest : List UInt8) :
    quoted content ++ rest = byte '"' :: (content ++ byte '"' :: rest) := by
  unfold quoted
  rw [cons_append, append_assoc, singleton_append]

theorem parseString_quoted (hscan : scanString (content ++ byte '"' :: rest) = some (content, rest))
    (hs : unquote content = some s) : parseString (quoted content ++ rest) = some (s, rest) := by
  rw [quoted_append, parseString]
  show (eat '"' (byte '"' :: _)).bind _ = _
  show (scanString _).bind _ = _
  rw [hscan]
  show (unquote content).bind _ = _
  rw [hs]
  rfl

theorem parseString_eq_some (h : parseString bs = some (s, rest)) :
    ∃ content, bs = quoted content ++ rest ∧ unquote content = some s ∧
      ∀ rest', scanString (content ++ byte '"' :: rest') = some (content, rest') := by
  obtain ⟨bs', heat, h⟩ := bind_eq_some_iff.mp h
  obtain ⟨⟨content, rest''⟩, hscan, h⟩ := bind_eq_some_iff.mp h
  obtain ⟨s', hs, h⟩ := bind_eq_some_iff.mp h
  obtain ⟨rfl, rfl⟩ := mk.inj (Option.some.inj h)
  refine ⟨content, ?_, hs, scanStringFrom_append hscan⟩
  rw [eat_eq_some heat, scanStringFrom_eq_some hscan, quoted_append]

/-! ### Words and scalars -/

theorem eatWord_eq_some_iff {cs : List Char} :
    eatWord cs bs = some rest ↔ bs = cs.map byte ++ rest := by
  induction cs generalizing bs with
  | nil => exact Option.some_inj
  | cons c cs ih =>
    rw [eatWord, foldlM_cons, map_cons, cons_append]
    constructor
    · intro h
      obtain ⟨mid, hmid, hrest⟩ := bind_eq_some_iff.mp h
      rw [eat_eq_some hmid, ih.mp hrest]
    · rintro rfl
      refine bind_eq_some_iff.mpr ⟨_, if_pos rfl, ih.mpr rfl⟩

def IsPlain (b : UInt8) : Prop := IsNumber b ∨ b ∈ "truefalsn".toList.map byte

instance (b : UInt8) : Decidable (IsPlain b) := inferInstanceAs (Decidable (_ ∨ _))

theorem eat_eq_none (h : b ≠ byte c) (bs : List UInt8) : eat c (b :: bs) = none := if_neg h

theorem eatWord_eq_none (h : b ≠ byte c) (cs : List Char) (bs : List UInt8) :
    eatWord (c :: cs) (b :: bs) = none := by
  rw [eatWord, foldlM_cons, eat_eq_none h]
  rfl

theorem parseString_eq_none (h : b ≠ byte '"') (bs : List UInt8) :
    parseString (b :: bs) = none := by
  rw [parseString, eat_eq_none h]
  rfl

/-- No byte of a number begins a string or a word. -/
theorem IsNumber.ne (h : IsNumber b) (hc : c ∈ ['"', 't', 'f', 'n']) : b ≠ byte c := by
  rintro rfl
  exact forall_mem_of_all (P := fun c => ¬ IsNumber (byte c)) rfl c hc h

/-- **A scalar**: a string in its quotes, or bytes that are none of the punctuation. -/
theorem parseScalar_token {v : Json} (h : parseScalar bs = some (v, rest)) :
    ∃ w, bs = w ++ rest ∧ ((∃ content, w = quoted content ∧
        ∀ rest', scanString (content ++ byte '"' :: rest') = some (content, rest')) ∨
        w ≠ [] ∧ ∀ b ∈ w, IsPlain b) ∧
      ∀ rest', Headed EndsNumber rest' → parseScalar (w ++ rest') = some (v, rest') := by
  rw [parseScalar] at h
  split at h
  · next s rest' hstring =>
    obtain ⟨rfl, rfl⟩ := mk.inj (Option.some.inj h)
    obtain ⟨content, rfl, hs, hscan⟩ := parseString_eq_some hstring
    refine ⟨quoted content, rfl, .inl ⟨content, rfl, hscan⟩, fun rest' _ => ?_⟩
    rw [parseScalar, parseString_quoted (hscan rest') hs]
  -- the three words
  iterate 3
    split at h
    · next rest' hword =>
      obtain ⟨rfl, rfl⟩ := mk.inj (Option.some.inj h)
      exact ⟨_, eatWord_eq_some_iff.mp hword,
        .inr ⟨by decide, fun b hb => .inr (forall_mem_of_all rfl b hb)⟩,
        fun rest' _ => rfl⟩
  · obtain ⟨⟨w, rest'⟩, hnumber, heq⟩ := map_eq_some_iff.mp h
    obtain ⟨rfl, rfl⟩ := Prod.mk.inj heq
    obtain ⟨rfl, hne, hall, hreads⟩ := scanNumber_eq_some hnumber
    refine ⟨w, rfl, .inr ⟨hne, fun b hb => .inl (hall b hb)⟩, fun rest' hrest => ?_⟩
    have hread := hreads rest' hrest
    obtain ⟨b, w, rfl⟩ := exists_cons_of_ne_nil hne
    have hb := hall b mem_cons_self
    rw [cons_append] at hread ⊢
    rw [parseScalar, parseString_eq_none (hb.ne (by decide)), eatWord_eq_none (hb.ne (by decide)),
      eatWord_eq_none (hb.ne (by decide)), eatWord_eq_none (hb.ne (by decide)), hread]
    rfl

/-! ### The round trip of strings -/

/-- How a piece of a string is read: as the character `c`, whatever follows it. -/
structure Writes (piece : List UInt8) (c : Char) : Prop where
  scan : ∀ bs, scanStringFrom 0 (piece ++ bs) =
    (scanStringFrom 0 bs).map fun r => (piece ++ r.1, r.2)
  unquote : ∀ bs, unquoteFrom 0 (piece ++ bs) = (unquoteFrom 0 bs).map (c :: ·)

theorem scanStringFrom_skip (skipped bs : List UInt8) :
    scanStringFrom skipped.length (skipped ++ bs) =
      (scanStringFrom 0 bs).map fun r => (skipped ++ r.1, r.2) := by
  induction skipped with
  | nil => simp
  | cons b skipped ih =>
    rw [cons_append, length_cons, scanStringFrom, ih, Option.map_map]
    rfl

theorem unquoteFrom_skip (skipped bs : List UInt8) :
    unquoteFrom skipped.length (skipped ++ bs) = unquoteFrom 0 bs := by
  induction skipped with
  | nil => rfl
  | cons b skipped ih => exact ih

/-- An escape that takes the bytes `es` and is read as `c`. -/
theorem writes_escape {es : List UInt8} (hwidth : ∀ bs, escapeWidth (es ++ bs) = some es.length)
    (hrune : ∀ bs, unquoteRune (byte '\\') (es ++ bs) = some (c, es.length)) :
    Writes (byte '\\' :: es) c where
  scan bs := by
    rw [cons_append, scanStringFrom, if_neg (by decide), if_pos rfl, hwidth]
    dsimp only
    rw [scanStringFrom_skip, Option.map_map]
    rfl
  unquote bs := by
    rw [cons_append, unquoteFrom]
    show (unquoteRune _ _).bind _ = _
    rw [hrune]
    show (unquoteFrom es.length (es ++ bs)).bind _ = _
    rw [unquoteFrom_skip, map_eq_bind]
    rfl

theorem writes_escaped {e : UInt8} (hu : e ≠ byte 'u') (h : escaped e = some c) :
    Writes [byte '\\', e] c := by
  refine writes_escape (fun bs => ?_) fun bs => ?_
  · rw [singleton_append, escapeWidth, if_neg hu, h]
    rfl
  · unfold unquoteRune
    show (if e = byte 'u' then _ else _) = _
    rw [if_neg hu, h]
    rfl

theorem hexDigit_lowerHexDigit : ∀ n < 16, hexDigit (lowerHexDigit n) = some n := by decide

/-- The digits of an escape are those of the character. -/
theorem hex4_unicodeEscapeOf {n : ℕ} (hn : n < 65536) (bs : List UInt8) :
    hex4 (lowerHexDigit (n / 4096 % 16) :: lowerHexDigit (n / 256 % 16) ::
      lowerHexDigit (n / 16 % 16) :: lowerHexDigit (n % 16) :: bs) = some n := by
  have hdigit : ∀ m, hexDigit (lowerHexDigit (m % 16)) = some (m % 16) := fun m =>
    hexDigit_lowerHexDigit _ (mod_lt _ (by decide))
  rw [hex4, hdigit, hdigit, hdigit, hdigit]
  show some _ = some n
  congr 1
  omega

theorem writes_unicodeEscapeOf (hc : c.toNat < 0xd800) : Writes (unicodeEscapeOf c) c := by
  have hsplit : unicodeEscapeOf c = byte '\\' :: byte 'u' :: lowerHexDigit (c.toNat / 4096 % 16) ::
      lowerHexDigit (c.toNat / 256 % 16) :: lowerHexDigit (c.toNat / 16 % 16) ::
      [lowerHexDigit (c.toNat % 16)] := by
    have hu : Utf8.ofText "\\u" = [byte '\\', byte 'u'] := by decide
    rw [unicodeEscapeOf, hu]
    rfl
  have hhex := hex4_unicodeEscapeOf (show c.toNat < 65536 by omega)
  rw [hsplit]
  refine writes_escape (fun bs => ?_) fun bs => ?_
  · simp only [cons_append, nil_append]
    rw [escapeWidth, if_pos rfl, hhex]
    rfl
  · simp only [cons_append, nil_append]
    unfold unquoteRune
    rw [if_pos rfl]
    dsimp only
    rw [if_pos rfl, unicodeEscape, hhex]
    show (if _ then _ else _) = _
    rw [if_neg (by omega), Char.ofNat_toNat]
    rfl

def Literal (b : UInt8) : Prop := b ≠ byte '"' ∧ b ≠ byte '\\' ∧ ¬ b < 0x20

theorem scanStringFrom_literal (hw : ∀ b ∈ w, Literal b) (bs : List UInt8) :
    scanStringFrom 0 (w ++ bs) = (scanStringFrom 0 bs).map fun r => (w ++ r.1, r.2) := by
  induction w with
  | nil => simp
  | cons b w ih =>
    obtain ⟨hquote, hback, hctl⟩ := hw b mem_cons_self
    rw [cons_append, scanStringFrom, if_neg hquote, if_neg hback, if_neg hctl,
      ih fun b hb => hw b (mem_cons_of_mem _ hb), Option.map_map]
    rfl

theorem writes_utf8EncodeChar (hquote : c ≠ '"') (hback : c ≠ '\\') (hctl : 0x20 ≤ c.toNat) :
    Writes (String.utf8EncodeChar c) c := by
  obtain hascii | hascii := Nat.lt_or_ge c.toNat 0x80
  · -- one byte
    rw [Utf8.utf8EncodeChar_ascii hascii]
    have hnat : c.toNat.toUInt8.toNat = c.toNat :=
      UInt8.toNat_ofNat_of_lt' (Nat.lt_trans hascii (by decide))
    have hne : ∀ {d : Char}, d.toNat < 0x80 → c ≠ d → c.toNat.toUInt8 ≠ byte d := by
      intro d hd hcd heq
      have hnat' : (byte d).toNat = d.toNat :=
        UInt8.toNat_ofNat_of_lt' (Nat.lt_trans hd (by decide))
      have heq' : c.toNat = d.toNat := by rw [← hnat, ← hnat', heq]
      exact hcd (Char.toNat_inj.mp heq')
    have hback' := hne (by decide) hback
    have hctl' : ¬ c.toNat.toUInt8 < 0x20 := by
      rw [UInt8.lt_iff_toNat_lt, hnat]
      exact Nat.not_lt_of_le hctl
    refine ⟨scanStringFrom_literal ?_, fun bs => ?_⟩
    · intro b hb
      rw [mem_singleton.mp hb]
      exact ⟨hne (by decide) hquote, hback', hctl'⟩
    · have hrune : unquoteRune c.toNat.toUInt8 bs = some (c, 0) := by
        have hlt : c.toNat.toUInt8 < 0x80 := by
          rw [UInt8.lt_iff_toNat_lt, hnat]
          exact hascii
        unfold unquoteRune
        rw [if_neg hback', if_pos hlt, hnat, Char.ofNat_toNat]
      rw [singleton_append, unquoteFrom]
      show (unquoteRune _ _).bind _ = _
      rw [hrune, map_eq_bind]
      rfl
  · -- several bytes, none of them ASCII
    have hbytes := Utf8.le_of_mem_utf8EncodeChar hascii
    refine ⟨scanStringFrom_literal fun b hb => ?_, fun bs => ?_⟩
    · have hle := hbytes b hb
      refine ⟨?_, ?_, ?_⟩
      · rintro rfl
        exact absurd hle (by decide)
      · rintro rfl
        exact absurd hle (by decide)
      · rw [UInt8.not_lt]
        exact UInt8.le_trans (by decide) hle
    · obtain ⟨b, rest, hrest⟩ := exists_cons_of_ne_nil (String.utf8EncodeChar_ne_nil (c := c))
      have hrune := Utf8.decodeRune_append c bs
      have hsize : c.utf8Size = rest.length + 1 := by
        rw [← String.length_utf8EncodeChar, hrest, length_cons]
      have hle := hbytes b (hrest ▸ mem_cons_self)
      have hback' : b ≠ byte '\\' := by
        rintro rfl
        exact absurd hle (by decide)
      have hread : unquoteRune b (rest ++ bs) = some (c, rest.length) := by
        rw [hrest, cons_append] at hrune
        unfold unquoteRune
        rw [if_neg hback', if_neg (UInt8.not_lt.mpr hle), hrune, hsize, Nat.add_sub_cancel]
      rw [hrest, cons_append, unquoteFrom]
      show (unquoteRune _ _).bind _ = _
      rw [hread]
      show (unquoteFrom rest.length (rest ++ bs)).bind _ = _
      rw [unquoteFrom_skip, map_eq_bind]
      rfl

/-- **A character as it is written** is read back. -/
theorem writes_quoteRune (c : Char) : Writes (quoteRune c) c := by
  unfold quoteRune
  split
  · next hc =>
    obtain rfl | rfl := hc
    all_goals exact writes_escaped (by decide) (by decide)
  next hquote =>
  obtain ⟨hquote, hback⟩ := not_or.mp hquote
  iterate 5
    split
    · next hc => exact hc ▸ writes_escaped (by decide) (by decide)
  split
  · next hc =>
    obtain hctl | hmem := hc
    · exact writes_unicodeEscapeOf (Nat.lt_trans hctl (by decide))
    · have hplane : ∀ c ∈ ['<', '>', '&', '\u2028', '\u2029'], c.toNat < 0xd800 :=
        forall_mem_of_all rfl
      exact writes_unicodeEscapeOf (hplane c hmem)
  · next hc =>
    obtain ⟨hctl, -⟩ := not_or.mp hc
    exact writes_utf8EncodeChar hquote hback (Nat.le_of_not_lt hctl)

/-- **A string that is written is read back**, whatever follows it. -/
theorem parseString_quote (s : String) (rest : List UInt8) :
    parseString (quote s ++ rest) = some (s, rest) := by
  have hscan : ∀ cs : List Char, scanString (cs.flatMap quoteRune ++ byte '"' :: rest) =
      some (cs.flatMap quoteRune, rest) := by
    intro cs
    induction cs with
    | nil => rfl
    | cons c cs ih =>
      unfold scanString at ih ⊢
      rw [flatMap_cons, List.append_assoc, (writes_quoteRune c).scan, ih]
      rfl
  have hunquote : ∀ cs : List Char, unquoteFrom 0 (cs.flatMap quoteRune) = some cs := by
    intro cs
    induction cs with
    | nil => rfl
    | cons c cs ih =>
      rw [flatMap_cons, (writes_quoteRune c).unquote, ih]
      rfl
  have hs : unquote (s.toList.flatMap quoteRune) = some s := by
    rw [Json.unquote, hunquote, Option.map_some, String.ofList_toList]
  exact parseString_quoted (hscan s.toList) hs

end HivenetRouter.Json
