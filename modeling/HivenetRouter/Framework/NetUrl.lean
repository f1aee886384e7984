import HivenetRouter.Framework.Go
import HivenetRouter.Framework.Utf8

/-!
# Escaping in URLs

Percent-escapes as `net/url` reads and writes them. `unescape` decodes a part of a URL; what it
accepts depends on the part (`Encoding`). `queryEscape` writes one for a query: what it writes
reads back as itself (`unescape_queryEscape`) and has none of the bytes that separate the parts of
a URL (`isQueryByte_of_mem_queryEscape`).

Decoding goes from left to right and can be done in pieces: after a piece that decodes, the rest is
decoded on its own (`unescape_append`).
-/

namespace HivenetRouter.NetUrl

open List

/-! ### Bytes -/

def isLower (c : UInt8) : Bool := 'a'.toUInt8 ≤ c && c ≤ 'z'.toUInt8

def isUpper (c : UInt8) : Bool := 'A'.toUInt8 ≤ c && c ≤ 'Z'.toUInt8

def isDigit (c : UInt8) : Bool := '0'.toUInt8 ≤ c && c ≤ '9'.toUInt8

def isAlpha (c : UInt8) : Bool := isLower c || isUpper c

def isAlnum (c : UInt8) : Bool := isAlpha c || isDigit c

def isControl (c : UInt8) : Bool := c < ' '.toUInt8 || c = 0x7f

def oneOf (chars : List Char) (c : UInt8) : Bool := (chars.map Char.toUInt8).contains c

/-- `strings.ToLower` for ASCII. -/
def toLowerByte (c : UInt8) : UInt8 := if isUpper c then c + 32 else c

def isHex (c : UInt8) : Bool :=
  isDigit c || ('a'.toUInt8 ≤ c && c ≤ 'f'.toUInt8) || ('A'.toUInt8 ≤ c && c ≤ 'F'.toUInt8)

def unhex (c : UInt8) : ℕ :=
  if isDigit c then (c - '0'.toUInt8).toNat
  else if 'a'.toUInt8 ≤ c && c ≤ 'f'.toUInt8 then (c - 'a'.toUInt8).toNat + 10
  else if 'A'.toUInt8 ≤ c && c ≤ 'F'.toUInt8 then (c - 'A'.toUInt8).toNat + 10
  else 0

def upperHex (n : ℕ) : UInt8 :=
  if n < 10 then '0'.toUInt8 + n.toUInt8 else 'A'.toUInt8 + (n - 10).toUInt8

/-- The byte with two hexadecimal digits. -/
def ofHex (a b : UInt8) : UInt8 := (unhex a * 16 + unhex b).toUInt8

/-! ### Escapes -/

/-- The part of a URL that a text stands in. -/
inductive Encoding where
  | path
  | userPassword
  | host
  | zone
  | queryComponent
  | fragment
  deriving DecidableEq

inductive UrlError where
  | control
  | missingScheme
  | firstSegmentColon
  | escape (text : GoString)
  | invalidHostByte (c : UInt8)
  | invalidPort (text : GoString)
  | missingBracket
  | invalidLiteral
  | invalidAddress (text : GoString)
  | invalidUserinfo

def shouldEscape (c : UInt8) (mode : Encoding) : Bool :=
  if isAlnum c then false
  else if (mode = .host || mode = .zone) &&
      oneOf ['!', '$', '&', '\'', '(', ')', '*', '+', ',', ';', '=', ':', '[', ']', '<', '>', '"'] c
    then false
  else if oneOf ['-', '_', '.', '~'] c then false
  else if oneOf ['$', '&', '+', ',', '/', ':', ';', '=', '?', '@'] c && mode = .path then
    c = '?'.toUInt8
  else if oneOf ['$', '&', '+', ',', '/', ':', ';', '=', '?', '@'] c && mode = .userPassword then
    oneOf ['@', '/', '?', ':'] c
  else if oneOf ['$', '&', '+', ',', '/', ':', ';', '=', '?', '@'] c && mode = .fragment then false
  else if mode = .fragment && oneOf ['!', '(', ')', '*'] c then false
  else true

/-- What `%ab` stands for. In a host, only bytes that are not ASCII are escaped, and `%` itself in
a zone; in a zone, no other byte that a host could not have. -/
def unescapeByte (mode : Encoding) (a b : UInt8) : Except UrlError UInt8 :=
  let text := ['%'.toUInt8, a, b]
  let percent : Bool := a = '2'.toUInt8 ∧ b = '5'.toUInt8
  if !isHex a || !isHex b then .error (.escape text)
  else if mode = .host && unhex a < 8 && !percent then .error (.escape text)
  else if mode = .zone && !percent && ofHex a b ≠ ' '.toUInt8 && shouldEscape (ofHex a b) .host then
    .error (.escape text)
  else .ok (ofHex a b)

def plainByte (mode : Encoding) (c : UInt8) : Except UrlError UInt8 :=
  if mode = .queryComponent && c = '+'.toUInt8 then .ok ' '.toUInt8
  else if (mode = .host || mode = .zone) && c < 0x80 && shouldEscape c mode then
    .error (.invalidHostByte c)
  else .ok c

/-- The text goes on after a byte that was decoded. -/
def consByte (c : Except UrlError UInt8) (rest : Except UrlError GoString) :
    Except UrlError GoString :=
  c.bind fun c => rest.map (c :: ·)

def unescape (mode : Encoding) : GoString → Except UrlError GoString
  | [] => .ok []
  | c :: rest =>
    if c = '%'.toUInt8 then
      match rest with
      | a :: b :: rest => consByte (unescapeByte mode a b) (unescape mode rest)
      | _ => .error (.escape (c :: rest))
    else consByte (plainByte mode c) (unescape mode rest)

def escapeByte (c : UInt8) : GoString :=
  if c = ' '.toUInt8 then ['+'.toUInt8]
  else if shouldEscape c .queryComponent then
    ['%'.toUInt8, upperHex (c.toNat / 16), upperHex (c.toNat % 16)]
  else [c]

def queryEscape (s : GoString) : GoString := s.flatMap escapeByte

/-! ### Decoding in pieces -/

section Unescape

variable {mode : Encoding} {t s : GoString}

theorem consByte_eq_ok {c : Except UrlError UInt8} {rest : Except UrlError GoString} :
    consByte c rest = .ok t ↔ ∃ b t', c = .ok b ∧ rest = .ok t' ∧ t = b :: t' := by
  cases c <;> cases rest <;> simp [consByte, Except.bind, Except.map, eq_comm]

theorem unescape_cons {c : UInt8} (h : c ≠ '%'.toUInt8) (rest : GoString) :
    unescape mode (c :: rest) = consByte (plainByte mode c) (unescape mode rest) := by
  conv_lhs => unfold unescape
  rw [if_neg h]

theorem unescape_percent (a b : UInt8) (rest : GoString) :
    unescape mode ('%'.toUInt8 :: a :: b :: rest) =
      consByte (unescapeByte mode a b) (unescape mode rest) := by
  rw [unescape, if_pos rfl]

/-- After a piece that decodes, the rest is decoded on its own. -/
theorem unescape_append (h : unescape mode s = .ok t) (rest : GoString) :
    unescape mode (s ++ rest) = (unescape mode rest).map (t ++ ·) := by
  induction s using unescape.induct generalizing t with
  | case1 =>
    cases h
    rw [nil_append]
    cases unescape mode rest <;> rfl
  | case2 a b s ih =>
    obtain ⟨c, t', hc, ht', rfl⟩ := consByte_eq_ok.mp h
    rw [cons_append, cons_append, cons_append, unescape_percent, hc, ih ht']
    cases unescape mode rest <;> rfl
  | case3 s hs =>
    rw [unescape, if_pos rfl] at h
    · cases h
    · exact hs
  | case4 c s hc ih =>
    rw [unescape_cons hc] at h
    obtain ⟨b, t', hb, ht', rfl⟩ := consByte_eq_ok.mp h
    rw [cons_append, unescape_cons hc, hb, ih ht']
    cases unescape mode rest <;> rfl

/-- A text without `%` is read as it stands in a path. -/
theorem unescape_path_of_forall (h : '%'.toUInt8 ∉ s) : unescape .path s = .ok s := by
  induction s with
  | nil => rfl
  | cons c s ih =>
    obtain ⟨hc, hs⟩ := not_or.mp (mem_cons.not.mp h)
    rw [unescape_cons (Ne.symm hc), ih hs]
    rfl

/-- A `/` ends every escape before it. -/
theorem unescape_path_append_slash (h : unescape .path (s ++ ['/'.toUInt8]) = .ok t) :
    ∃ t', unescape .path s = .ok t' ∧ t = t' ++ ['/'.toUInt8] := by
  induction s using unescape.induct generalizing t with
  | case1 =>
    cases h
    exact ⟨[], rfl, rfl⟩
  | case2 a b s ih =>
    obtain ⟨c, t', hc, ht', rfl⟩ := consByte_eq_ok.mp h
    obtain ⟨t'', ht'', rfl⟩ := ih ht'
    rw [unescape_percent, hc, ht'']
    exact ⟨c :: t'', rfl, rfl⟩
  -- an escape that the slash would have to complete
  | case3 s hs =>
    match s, hs with
    | [], _ => cases h
    | [a], _ =>
      obtain ⟨c, t', hc, -, -⟩ := consByte_eq_ok.mp h
      unfold unescapeByte at hc
      rw [if_pos (by rw [show isHex '/'.toUInt8 = false from rfl]; simp)] at hc
      cases hc
    | a :: b :: s, hs => exact absurd rfl (hs a b s)
  | case4 c s hc ih =>
    rw [cons_append, unescape_cons hc] at h
    obtain ⟨b, t', hb, ht', rfl⟩ := consByte_eq_ok.mp h
    obtain ⟨t'', ht'', rfl⟩ := ih ht'
    rw [unescape_cons hc, hb, ht'']
    exact ⟨b :: t'', rfl, rfl⟩

theorem unescape_eq_ok_nil (h : unescape mode s = .ok []) : s = [] := by
  cases s using unescape.induct with
  | case1 => rfl
  | case2 =>
    obtain ⟨_, _, -, -, hcons⟩ := consByte_eq_ok.mp h
    cases hcons
  | case3 s hs =>
    rw [unescape, if_pos rfl] at h
    · cases h
    · exact hs
  | case4 c s hc =>
    rw [unescape_cons hc] at h
    obtain ⟨_, _, -, -, hcons⟩ := consByte_eq_ok.mp h
    cases hcons

end Unescape

/-! ### Escaped texts -/

def isQueryByte (c : UInt8) : Bool := isAlnum c || oneOf ['-', '_', '.', '~', '+', '%'] c

theorem isHex_upperHex : ∀ n < 16, isHex (upperHex n) = true ∧ isAlnum (upperHex n) = true ∧
    unhex (upperHex n) = n := by
  decide

section

variable {c : UInt8}

theorem shouldEscape_query (h : shouldEscape c .queryComponent = false) :
    (isAlnum c || oneOf ['-', '_', '.', '~'] c) = true := by
  unfold shouldEscape at h
  split_ifs at h <;> simp_all

theorem isQueryByte_of_mem_queryEscape {s : GoString} {b : UInt8} (h : b ∈ queryEscape s) :
    isQueryByte b = true := by
  obtain ⟨c, -, hb⟩ := mem_flatMap.mp h
  have hlt : c.toNat < 256 := c.toNat_lt
  unfold escapeByte at hb
  split_ifs at hb with hspace hescape
  · rw [mem_singleton.mp hb]
    rfl
  · have hdigit : ∀ n < 16, isQueryByte (upperHex n) = true := by decide
    simp only [mem_cons, not_mem_nil, or_false] at hb
    rcases hb with rfl | rfl | rfl
    · rfl
    all_goals exact hdigit _ (by omega)
  · rw [mem_singleton.mp hb, isQueryByte]
    have hplain := shouldEscape_query (eq_false_of_ne_true hescape)
    rw [Bool.or_eq_true] at hplain ⊢
    refine hplain.imp id fun hmark => ?_
    simp only [oneOf, map_cons, map_nil, contains_cons, Bool.or_eq_true] at hmark ⊢
    tauto

theorem not_isControl_of_isQueryByte (h : isQueryByte c = true) : isControl c = false := by
  have hall : ∀ n < 256, isQueryByte (.ofNat n) = true → isControl (.ofNat n) = false := by
    decide +kernel
  have hc := hall c.toNat c.toNat_lt
  rw [UInt8.ofNat_toNat] at hc
  exact hc h

theorem unescape_escapeByte (c : UInt8) (rest : GoString) :
    unescape .queryComponent (escapeByte c ++ rest) =
      consByte (.ok c) (unescape .queryComponent rest) := by
  have hlt : c.toNat < 256 := c.toNat_lt
  unfold escapeByte
  split_ifs with hspace hescape
  · -- a space is written as `+`
    rw [hspace, singleton_append, unescape_cons (by decide)]
    rfl
  · obtain ⟨hhigh, -, hhigh'⟩ := isHex_upperHex (c.toNat / 16) (by omega)
    obtain ⟨hlow, -, hlow'⟩ := isHex_upperHex (c.toNat % 16) (by omega)
    have hbyte : unescapeByte .queryComponent (upperHex (c.toNat / 16)) (upperHex (c.toNat % 16)) =
        .ok c := by
      unfold unescapeByte
      rw [if_neg (by rw [hhigh, hlow]; decide), if_neg (by simp), if_neg (by simp), ofHex, hhigh',
        hlow', Nat.div_add_mod']
      exact congrArg Except.ok UInt8.ofNat_toNat
    rw [cons_append, cons_append, cons_append, nil_append, unescape_percent, hbyte]
  · -- a byte that stands for itself is neither `%` nor `+`
    have hplain := shouldEscape_query (eq_false_of_ne_true hescape)
    have hpercent : c ≠ '%'.toUInt8 := by
      rintro rfl
      exact absurd hplain (by decide)
    have hplus : c ≠ '+'.toUInt8 := by
      rintro rfl
      exact absurd hplain (by decide)
    rw [singleton_append, unescape_cons hpercent, plainByte, if_neg (by simp [hplus]),
      if_neg (by simp)]

/-- What is escaped for a query reads back. -/
theorem unescape_queryEscape (s : GoString) : unescape .queryComponent (queryEscape s) = .ok s := by
  induction s with
  | nil => rfl
  | cons c s ih =>
    rw [queryEscape, flatMap_cons, unescape_escapeByte]
    unfold queryEscape at ih
    rw [ih]
    rfl

end

/-!
## Parsing URLs

`url.Parse` of `net/url`, on bytes. Addresses in brackets are recognised by `netip.ParseAddr`,
which is a parameter.

A URL with an authority is read in four cuts, each at the first byte of its kind: the fragment at
`#`, the scheme at `:`, the query at `?` and the authority at `/`. `Parts` are texts that can be
put together so that these cuts find them again: they parse to what each of them stands for
(`Parts.parse_text`). In the other direction, every text that parses to a URL with a scheme and a
host is made of such parts (`exists_parts`).
-/

/-- `strings.Cut` at a byte. -/
def cut (sep : UInt8) (s : GoString) : GoString × GoString :=
  (s.takeWhile (· ≠ sep), (s.dropWhile (· ≠ sep)).tail)

/-- What is before and what is after the last `sep`, if there is one. -/
def cutLast (sep : UInt8) (s : GoString) : Option (GoString × GoString) :=
  if sep ∈ s then
    some (((s.reverse.dropWhile (· ≠ sep)).tail).reverse, (s.reverse.takeWhile (· ≠ sep)).reverse)
  else none

structure Userinfo where
  username : GoString
  password : Option GoString

/-- `url.URL`, without the fields that only printing it reads. -/
structure URL where
  scheme : GoString
  opaquePart : GoString
  user : Option Userinfo
  host : GoString
  path : GoString
  forceQuery : Bool
  rawQuery : GoString
  fragment : GoString

/-- `netip.ParseAddr`: whether the text is an address, and whether it is one of version 4. -/
abbrev ParseAddr := GoString → Option Bool

def isSchemeByte (c : UInt8) : Bool := isAlnum c || oneOf ['+', '-', '.'] c

/-- `getScheme`: the scheme and what follows it. -/
def getScheme (raw : GoString) : Except UrlError (GoString × GoString) :=
  match raw.takeWhile isSchemeByte, raw.dropWhile isSchemeByte with
  | [], c :: _ => if c = ':'.toUInt8 then .error .missingScheme else .ok ([], raw)
  | s :: scheme, c :: rest =>
    if isAlpha s && c = ':'.toUInt8 then .ok (s :: scheme, rest) else .ok ([], raw)
  | _, [] => .ok ([], raw)

/-- The query is cut off: what is left, `ForceQuery` and `RawQuery`. -/
def splitQuery (rest : GoString) : GoString × Bool × GoString :=
  if rest.getLast? = some '?'.toUInt8 ∧ rest.count '?'.toUInt8 = 1 then (rest.dropLast, true, [])
  else ((cut '?'.toUInt8 rest).1, false, (cut '?'.toUInt8 rest).2)

def validOptionalPort : GoString → Bool
  | [] => true
  | c :: port => c = ':'.toUInt8 && port.all isDigit

/-- The end of `parseHost` for an address in brackets. -/
def bracketed (parseAddr : ParseAddr) (hostname colonPort : GoString) : Except UrlError GoString :=
  match parseAddr hostname with
  | none => .error (.invalidAddress hostname)
  | some true => .error .invalidLiteral
  | some false => .ok ('['.toUInt8 :: hostname ++ ']'.toUInt8 :: colonPort)

/-- The name in brackets, whose zone starts at `%25`. -/
def unescapeName (name : GoString) : Except UrlError GoString :=
  let zone := ['%'.toUInt8, '2'.toUInt8, '5'.toUInt8]
  match (range name.length).find? fun i => zone <+: name.drop i with
  | some i => do
    let host ← unescape .host (name.take i)
    let zone ← unescape .zone (name.drop i)
    return host ++ zone
  | none => unescape .host name

def parseHost (parseAddr : ParseAddr) (scheme host : GoString) : Except UrlError GoString :=
  match cutLast '['.toUInt8 host, cutLast ']'.toUInt8 host, cutLast ':'.toUInt8 host with
  | some (_ :: _, _), _, _ => .error .invalidLiteral
  | some ([], _), none, _ => .error .missingBracket
  | some ([], _), some (name, colonPort), _ =>
    if validOptionalPort colonPort then do
      let colonPort ← unescape .host colonPort
      let name ← unescapeName name.tail
      bracketed parseAddr name colonPort
    else .error (.invalidPort colonPort)
  | none, _, some (name, port) =>
    let several : Bool := ':'.toUInt8 ∈ name
    if several && (scheme = Utf8.ofText "http" || scheme = Utf8.ofText "https") then
      .error (.invalidPort ((host.dropWhile (· ≠ ':'.toUInt8))))
    else if validOptionalPort (':'.toUInt8 :: port) then unescape .host host
    else .error (.invalidPort (':'.toUInt8 :: port))
  | none, _, none => unescape .host host

def validUserinfo (s : GoString) : Bool :=
  s.all fun c => isAlnum c || oneOf ['-', '.', '_', ':', '~', '!', '$', '&', '\'', '(', ')', '*',
    '+',
    ',', ';', '=', '%', '@'] c

def parseUserinfo (userinfo : GoString) : Except UrlError Userinfo :=
  if !validUserinfo userinfo then .error .invalidUserinfo
  else if ':'.toUInt8 ∈ userinfo then do
    let username ← unescape .userPassword (cut ':'.toUInt8 userinfo).1
    let password ← unescape .userPassword (cut ':'.toUInt8 userinfo).2
    return ⟨username, some password⟩
  else (unescape .userPassword userinfo).map (⟨·, none⟩)

def parseAuthority (parseAddr : ParseAddr) (scheme authority : GoString) :
    Except UrlError (Option Userinfo × GoString) :=
  match cutLast '@'.toUInt8 authority with
  | none => (parseHost parseAddr scheme authority).map (none, ·)
  | some (userinfo, host) => do
    let host ← parseHost parseAddr scheme host
    let user ← parseUserinfo userinfo
    return (some user, host)

def URL.setPath (u : URL) (path : GoString) : Except UrlError URL :=
  (unescape .path path).map fun path => { u with path }

def URL.setFragment (u : URL) (fragment : GoString) : Except UrlError URL :=
  (unescape .fragment fragment).map fun fragment => { u with fragment }

def slashes (n : ℕ) : GoString := replicate n '/'.toUInt8

/-- The end of `parse`: what is between the scheme and the query. -/
def parseHier (parseAddr : ParseAddr) (u : URL) (rest : GoString) : Except UrlError URL :=
  if rest.head? ≠ some '/'.toUInt8 then
    if u.scheme ≠ [] then .ok { u with opaquePart := rest }
    else if ':'.toUInt8 ∈ (cut '/'.toUInt8 rest).1 then .error .firstSegmentColon
    else u.setPath rest
  else if (u.scheme ≠ [] ∨ ¬slashes 3 <+: rest) ∧ slashes 2 <+: rest then
    let authority := (rest.drop 2).takeWhile (· ≠ '/'.toUInt8)
    (parseAuthority parseAddr u.scheme authority).bind fun (user, host) =>
      { u with user, host }.setPath ((rest.drop 2).dropWhile (· ≠ '/'.toUInt8))
  else u.setPath rest

/-- `parse`, of a URL whose fragment was cut off. -/
def parseNoFragment (parseAddr : ParseAddr) (raw : GoString) : Except UrlError URL :=
  let empty : URL := ⟨[], [], none, [], [], false, [], []⟩
  if raw.any isControl then .error .control
  else if raw = ['*'.toUInt8] then .ok { empty with path := raw }
  else (getScheme raw).bind fun (scheme, rest) =>
    let (rest, forceQuery, rawQuery) := splitQuery rest
    parseHier parseAddr { empty with scheme := scheme.map toLowerByte, forceQuery, rawQuery } rest

def parse (parseAddr : ParseAddr) (raw : GoString) : Except UrlError URL :=
  (parseNoFragment parseAddr (cut '#'.toUInt8 raw).1).bind fun u =>
    if (cut '#'.toUInt8 raw).2 = [] then .ok u else u.setFragment (cut '#'.toUInt8 raw).2

/-! ### Cuts -/

/-- `sep` and what follows it, if anything does. -/
def after (sep : UInt8) : Option GoString → GoString
  | none => []
  | some s => sep :: s

section

variable {sep : UInt8} {s raw rest : GoString} {u u' : URL} {parseAddr : ParseAddr}

theorem takeWhile_ne_append (h : sep ∉ s) (rest : GoString)
    (hrest : rest = [] ∨ rest.head? = some sep) :
    (s ++ rest).takeWhile (· ≠ sep) = s ∧ (s ++ rest).dropWhile (· ≠ sep) = rest := by
  have hs : ∀ c ∈ s, decide (c ≠ sep) = true := by
    intro c hc
    refine decide_eq_true ?_
    rintro rfl
    exact h hc
  rw [takeWhile_append_of_pos hs, dropWhile_append_of_pos hs]
  cases rest with
  | nil => simp
  | cons c =>
    obtain rfl : c = sep := by simpa using hrest
    simp

theorem cut_append (h : sep ∉ s) (o : Option GoString) :
    cut sep (s ++ after sep o) = (s, o.getD []) := by
  cases o with
  | none =>
    obtain ⟨htake, hdrop⟩ := takeWhile_ne_append h [] (.inl rfl)
    rw [cut, after, htake, hdrop]
    rfl
  | some q =>
    obtain ⟨htake, hdrop⟩ := takeWhile_ne_append h (sep :: q) (.inr rfl)
    rw [cut, after, htake, hdrop]
    rfl

theorem exists_eq_append_after (sep : UInt8) (s : GoString) :
    ∃ a o, s = a ++ after sep o ∧ sep ∉ a := by
  induction s with
  | nil => exact ⟨[], none, rfl, not_mem_nil⟩
  | cons c s ih =>
    by_cases hc : c = sep
    · subst hc
      exact ⟨[], some s, rfl, not_mem_nil⟩
    · obtain ⟨a, o, rfl, ha⟩ := ih
      refine ⟨c :: a, o, rfl, fun hmem => ?_⟩
      rcases mem_cons.mp hmem with rfl | hmem
      · exact hc rfl
      · exact ha hmem

theorem splitQuery_append (h : '?'.toUInt8 ∉ s) (o : Option GoString) :
    splitQuery (s ++ after '?'.toUInt8 o) = (s, decide (o = some []), o.getD []) := by
  have hzero : s.count '?'.toUInt8 = 0 := count_eq_zero.mpr h
  unfold splitQuery
  rw [cut_append h]
  match o with
  | none =>
    rw [if_neg]
    · rfl
    · -- without a query the text does not end with `?`
      rintro ⟨hlast, -⟩
      rw [after, append_nil] at hlast
      exact h (mem_of_getLast? hlast)
  | some [] =>
    rw [if_pos]
    · rw [after, dropLast_concat]
      rfl
    · rw [after, getLast?_concat, count_append, hzero]
      exact ⟨rfl, rfl⟩
  | some (c :: q) =>
    rw [if_neg]
    · rfl
    · -- `forceQuery` is for one `?` alone
      rintro ⟨hlast, hcount⟩
      rw [after, count_append, hzero, count_cons_self] at hcount
      have hmem : '?'.toUInt8 ∈ c :: q := by
        rw [after, getLast?_append_of_ne_nil _ (cons_ne_nil _ _), getLast?_cons_cons] at hlast
        exact mem_of_getLast? hlast
      have := count_pos_iff.mpr hmem
      omega

/-! ### URLs with an authority -/

/-- The parts of a URL with a scheme and an authority, as they stand in the text. -/
structure Parts where
  scheme : GoString
  authority : GoString
  path : GoString
  query : Option GoString
  fragment : Option GoString
  isAlpha_head : (scheme.head?.any isAlpha) = true
  isSchemeByte_of_mem : ∀ c ∈ scheme, isSchemeByte c = true
  slash_not_mem : '/'.toUInt8 ∉ authority
  question_not_mem : '?'.toUInt8 ∉ authority
  number_not_mem : '#'.toUInt8 ∉ authority
  head_path : path = [] ∨ path.head? = some '/'.toUInt8
  question_not_mem_path : '?'.toUInt8 ∉ path
  number_not_mem_path : '#'.toUInt8 ∉ path
  number_not_mem_query : ∀ q, query = some q → '#'.toUInt8 ∉ q

namespace Parts

def hier (p : Parts) : GoString := '/'.toUInt8 :: '/'.toUInt8 :: (p.authority ++ p.path)

def body (p : Parts) : GoString := p.scheme ++ ':'.toUInt8 :: (p.hier ++ after '?'.toUInt8 p.query)

def text (p : Parts) : GoString := p.body ++ after '#'.toUInt8 p.fragment

def url (p : Parts) (parseAddr : ParseAddr) : Except UrlError URL :=
  (parseAuthority parseAddr (p.scheme.map toLowerByte) p.authority).bind fun (user, host) =>
    (unescape .path p.path).bind fun path =>
      (unescape .fragment (p.fragment.getD [])).map fun fragment =>
        ⟨p.scheme.map toLowerByte, [], user, host, path, decide (p.query = some []),
          p.query.getD [], fragment⟩

def setQuery (p : Parts) (query : GoString) (h : '#'.toUInt8 ∉ query) : Parts :=
  { p with
    query := some query
    number_not_mem_query := fun _ hq => Option.some.inj hq ▸ h }

def appendPath (p : Parts) (path : GoString) (hhead : path.head? = some '/'.toUInt8)
    (hquestion : '?'.toUInt8 ∉ path) (hnumber : '#'.toUInt8 ∉ path) : Parts :=
  { p with
    path := p.path ++ path
    head_path := by
      cases hp : p.path with
      | nil => exact .inr hhead
      | cons c rest =>
        have h := p.head_path
        rw [hp] at h
        exact .inr (h.resolve_left (cons_ne_nil _ _))
    question_not_mem_path := fun h =>
      (mem_append.mp h).elim p.question_not_mem_path hquestion
    number_not_mem_path := fun h => (mem_append.mp h).elim p.number_not_mem_path hnumber }

variable (p : Parts)

theorem exists_scheme_cons : ∃ c s, p.scheme = c :: s ∧ isAlpha c = true := by
  have h := p.isAlpha_head
  cases hs : p.scheme with
  | nil => rw [hs] at h; cases h
  | cons c s => rw [hs] at h; exact ⟨c, s, rfl, h⟩

theorem getScheme_append (rest : GoString) :
    getScheme (p.scheme ++ ':'.toUInt8 :: rest) = .ok (p.scheme, rest) := by
  obtain ⟨c, s, hs, hc⟩ := p.exists_scheme_cons
  have htake : (p.scheme ++ ':'.toUInt8 :: rest).takeWhile isSchemeByte = p.scheme := by
    rw [takeWhile_append_of_pos p.isSchemeByte_of_mem,
      takeWhile_cons_of_neg (by decide), append_nil]
  have hdrop : (p.scheme ++ ':'.toUInt8 :: rest).dropWhile isSchemeByte = ':'.toUInt8 :: rest := by
    rw [dropWhile_append_of_pos p.isSchemeByte_of_mem, dropWhile_cons_of_neg (by decide)]
  unfold getScheme
  rw [htake, hdrop, hs]
  simp [hc]

theorem question_not_mem_hier : '?'.toUInt8 ∉ p.hier := by
  unfold hier
  simp only [mem_cons, mem_append, not_or]
  exact ⟨by decide, by decide, p.question_not_mem, p.question_not_mem_path⟩

theorem number_not_mem_body : '#'.toUInt8 ∉ p.body := by
  have hscheme : '#'.toUInt8 ∉ p.scheme := fun hmem =>
    absurd (p.isSchemeByte_of_mem _ hmem) (by decide)
  have hquery : '#'.toUInt8 ∉ after '?'.toUInt8 p.query := by
    cases hq : p.query with
    | none => exact not_mem_nil
    | some q =>
      rw [after, mem_cons, not_or]
      exact ⟨by decide, p.number_not_mem_query q hq⟩
  unfold body hier
  simp only [mem_cons, mem_append, not_or]
  exact ⟨hscheme, by decide, ⟨by decide, by decide, p.number_not_mem, p.number_not_mem_path⟩,
    hquery⟩

theorem parseHier_hier (parseAddr : ParseAddr) (u : URL) (hu : u.scheme ≠ []) :
    parseHier parseAddr u p.hier =
      (parseAuthority parseAddr u.scheme p.authority).bind fun (user, host) =>
        { u with user, host }.setPath p.path := by
  obtain ⟨htake, hdrop⟩ := takeWhile_ne_append p.slash_not_mem p.path p.head_path
  have hslashes : slashes 2 <+: p.hier := ⟨p.authority ++ p.path, rfl⟩
  have htail : p.hier.drop 2 = p.authority ++ p.path := rfl
  unfold parseHier
  rw [if_neg (by simp [hier]), if_pos ⟨.inl hu, hslashes⟩, htail, htake, hdrop]

/-- **A text made of parts parses to them.** -/
theorem parse_text (parseAddr : ParseAddr) (h : p.body.any isControl = false) :
    parse parseAddr p.text = p.url parseAddr := by
  have hscheme : p.scheme.map toLowerByte ≠ [] := by
    obtain ⟨c, s, hs, -⟩ := p.exists_scheme_cons
    rw [hs]
    exact cons_ne_nil _ _
  -- the text has a slash, so that it is not the request `*`
  have hstar : p.body ≠ ['*'.toUInt8] := by
    intro heq
    have hmem : '/'.toUInt8 ∈ p.body := by
      unfold body hier
      simp
    rw [heq] at hmem
    exact absurd hmem (by decide)
  have hbody : parseNoFragment parseAddr p.body =
      (parseAuthority parseAddr (p.scheme.map toLowerByte) p.authority).bind fun (user, host) =>
        (unescape .path p.path).map fun path =>
          ⟨p.scheme.map toLowerByte, [], user, host, path, decide (p.query = some []),
            p.query.getD [], []⟩ := by
    unfold parseNoFragment
    rw [if_neg (by rw [h]; exact Bool.false_ne_true), if_neg hstar, body, p.getScheme_append]
    show (match splitQuery (p.hier ++ after '?'.toUInt8 p.query) with
      | (rest, forceQuery, rawQuery) => parseHier parseAddr
          ⟨p.scheme.map toLowerByte, [], none, [], [], forceQuery, rawQuery, []⟩ rest) = _
    rw [splitQuery_append p.question_not_mem_hier]
    exact p.parseHier_hier parseAddr _ hscheme
  unfold parse
  rw [text, cut_append p.number_not_mem_body, hbody, url]
  cases parseAuthority parseAddr (p.scheme.map toLowerByte) p.authority with
  | error => rfl
  | ok =>
    cases unescape .path p.path with
    | error => rfl
    | ok =>
      show (if p.fragment.getD [] = [] then Except.ok _ else URL.setFragment _ _) = _
      split_ifs with hfragment
      · rw [hfragment]
        rfl
      · rfl

/-- What the parts of a URL stand for. -/
theorem url_eq_ok {p : Parts} {parseAddr : ParseAddr} {u : URL} (h : p.url parseAddr = .ok u) :
    parseAuthority parseAddr (p.scheme.map toLowerByte) p.authority = .ok (u.user, u.host) ∧
      unescape .path p.path = .ok u.path ∧
      unescape .fragment (p.fragment.getD []) = .ok u.fragment ∧
      u.scheme = p.scheme.map toLowerByte ∧ u.rawQuery = p.query.getD [] := by
  obtain ⟨⟨user, host⟩, hauthority, h⟩ := bind_eq_ok.mp h
  obtain ⟨path, hpath, h⟩ := bind_eq_ok.mp h
  cases hfragment : unescape .fragment (p.fragment.getD []) with
  | error => rw [hfragment] at h; cases h
  | ok =>
    rw [hfragment] at h
    cases h
    exact ⟨hauthority, hpath, rfl, rfl, rfl⟩

end Parts

theorem getScheme_eq_ok {scheme : GoString} (h : getScheme raw = .ok (scheme, rest))
    (hne : scheme ≠ []) :
    raw = scheme ++ ':'.toUInt8 :: rest ∧ scheme.head?.any isAlpha = true ∧
      ∀ c ∈ scheme, isSchemeByte c = true := by
  have hraw := takeWhile_append_dropWhile (p := isSchemeByte) (l := raw)
  have hbytes : ∀ c ∈ raw.takeWhile isSchemeByte, isSchemeByte c = true :=
    all_eq_true.mp all_takeWhile
  unfold getScheme at h
  split at h
  · -- the text begins with a colon, or has no scheme
    split_ifs at h
    cases h
    exact absurd rfl hne
  · rename_i c s d rest' htake hdrop
    split_ifs at h with hcond
    · cases h
      obtain ⟨halpha, hcolon⟩ := Bool.and_eq_true_iff.mp hcond
      rw [htake, hdrop, of_decide_eq_true hcolon] at hraw
      rw [htake] at hbytes
      exact ⟨hraw.symm, halpha, hbytes⟩
    · cases h
      exact absurd rfl hne
  · cases h
    exact absurd rfl hne

theorem URL.setPath_eq_ok {path : GoString} (h : u.setPath path = .ok u') :
    u'.scheme = u.scheme ∧ u'.host = u.host := by
  unfold URL.setPath at h
  cases hpath : unescape .path path <;> rw [hpath] at h <;> cases h
  exact ⟨rfl, rfl⟩

theorem URL.setFragment_eq_ok {fragment : GoString} (h : u.setFragment fragment = .ok u') :
    u'.scheme = u.scheme ∧ u'.host = u.host := by
  unfold URL.setFragment at h
  cases hfragment : unescape .fragment fragment <;> rw [hfragment] at h <;> cases h
  exact ⟨rfl, rfl⟩

/-- A host comes from an authority. -/
theorem parseHier_eq_ok (h : parseHier parseAddr u rest = .ok u') (hu : u.host = []) :
    u'.scheme = u.scheme ∧ (u'.host ≠ [] → slashes 2 <+: rest) := by
  unfold parseHier at h
  split_ifs at h with hslash hscheme hcolon hauthority
  · cases h
    exact ⟨rfl, fun hne => absurd hu hne⟩
  · obtain ⟨hs, hh⟩ := URL.setPath_eq_ok h
    exact ⟨hs, fun hne => absurd (hh.trans hu) hne⟩
  · obtain ⟨⟨user, host⟩, -, h⟩ := bind_eq_ok.mp h
    exact ⟨(URL.setPath_eq_ok h).1, fun _ => hauthority.2⟩
  · obtain ⟨hs, hh⟩ := URL.setPath_eq_ok h
    exact ⟨hs, fun hne => absurd (hh.trans hu) hne⟩

/-- **A text with a scheme and a host is made of parts.** -/
theorem exists_parts (h : parse parseAddr raw = .ok u) (hscheme : u.scheme ≠ [])
    (hhost : u.host ≠ []) :
    ∃ p : Parts, p.text = raw ∧ p.body.any isControl = false := by
  obtain ⟨body, fragment, rfl, hnumber⟩ := exists_eq_append_after '#'.toUInt8 raw
  unfold parse at h
  rw [cut_append hnumber] at h
  obtain ⟨u₀, hu₀, h⟩ := bind_eq_ok.mp h
  -- the fragment changes neither of the two
  obtain ⟨hscheme₀, hhost₀⟩ : u.scheme = u₀.scheme ∧ u.host = u₀.host := by
    split_ifs at h
    · cases h
      exact ⟨rfl, rfl⟩
    · exact URL.setFragment_eq_ok h
  rw [hscheme₀] at hscheme
  rw [hhost₀] at hhost
  unfold parseNoFragment at hu₀
  dsimp only at hu₀
  split_ifs at hu₀ with hcontrol hstar
  · cases hu₀
    exact absurd rfl hhost
  · obtain ⟨⟨scheme, rest⟩, hget, hu₀⟩ := bind_eq_ok.mp hu₀
    obtain ⟨hier, query, rfl, hquestion⟩ := exists_eq_append_after '?'.toUInt8 rest
    rw [splitQuery_append hquestion] at hu₀
    obtain ⟨hs, hslashes⟩ := parseHier_eq_ok hu₀ rfl
    obtain ⟨t, rfl⟩ := hslashes hhost
    have hne : scheme ≠ [] := by
      rintro rfl
      exact hscheme hs
    obtain ⟨rfl, halpha, hbytes⟩ := getScheme_eq_ok hget hne
    -- the authority ends at the first slash, or with the text
    obtain ⟨authority, path, rfl, hslash⟩ := exists_eq_append_after '/'.toUInt8 t
    simp only [mem_append, mem_cons, not_or] at hnumber hquestion
    obtain ⟨-, -, ⟨-, hnumber₁, hnumber₂⟩, hnumber₃⟩ := hnumber
    refine ⟨⟨scheme, authority, after '/'.toUInt8 path, query, fragment, halpha, hbytes, hslash,
      hquestion.2.1, hnumber₁, ?_, hquestion.2.2, hnumber₂, ?_⟩, ?_, ?_⟩
    · cases path with
      | none => exact .inl rfl
      | some => exact .inr rfl
    · rintro q rfl hmem
      exact hnumber₃ (.tail _ hmem)
    · rfl
    · exact eq_false_of_ne_true hcontrol

end

/-!
## Query parameters

`url.Values`: the parameters of a query, each a list of values. `Values.encode` writes them in the
order of their keys, and `parseQuery` reads them. What was written reads back, parameter by
parameter (`all_parseQuery_encode`).
-/

open Finmap

abbrev Values := GoMap GoString (List GoString)

namespace Values

def all (m : Values) (key : GoString) : List GoString := (m.lookup key).getD []

/-- `Get`: the first value, or the empty string. -/
def get (m : Values) (key : GoString) : GoString := (m.all key).headD []

def set (m : Values) (key value : GoString) : Values := m.insert key [value]

/-- `m[key] = append(m[key], value)`. -/
def add (m : Values) (p : GoString × GoString) : Values := m.insert p.1 (m.all p.1 ++ [p.2])

/-- The parameters in the order in which `Encode` writes them. -/
def pairs (m : Values) : List (GoString × GoString) :=
  m.sortedKeys.flatMap fun key => (m.all key).map (key, ·)

end Values

def encodePair (p : GoString × GoString) : GoString :=
  queryEscape p.1 ++ '='.toUInt8 :: queryEscape p.2

def Values.encode (m : Values) : GoString := ['&'.toUInt8].intercalate (m.pairs.map encodePair)

/-- One parameter of a query, unless `ParseQuery` skips it. -/
def parsePair (field : GoString) : Option (GoString × GoString) :=
  if ';'.toUInt8 ∈ field ∨ field = [] then none
  else
    match unescape .queryComponent (cut '='.toUInt8 field).1,
      unescape .queryComponent (cut '='.toUInt8 field).2 with
    | .ok key, .ok value => some (key, value)
    | _, _ => none

/-- `ParseQuery`, whose error `URL.Query` drops. -/
def parseQuery (query : GoString) : Values :=
  ((query.splitOn '&'.toUInt8).filterMap parsePair).foldl Values.add ∅

def URL.query (u : URL) : Values := parseQuery u.rawQuery

/-! ### Reading back -/

theorem not_mem_queryEscape {c : UInt8} (h : isQueryByte c = false) (s : GoString) :
    c ∉ queryEscape s := by
  intro hmem
  rw [isQueryByte_of_mem_queryEscape hmem] at h
  cases h

theorem parsePair_encodePair (p : GoString × GoString) : parsePair (encodePair p) = some p := by
  have hkey := not_mem_queryEscape (c := '='.toUInt8) rfl p.1
  have hcut : cut '='.toUInt8 (encodePair p) = (queryEscape p.1, queryEscape p.2) :=
    cut_append hkey (some (queryEscape p.2))
  unfold parsePair
  rw [hcut, if_neg]
  · rw [unescape_queryEscape, unescape_queryEscape]
  · rintro (hmem | hnil)
    · rw [encodePair, mem_append, mem_cons] at hmem
      rcases hmem with hmem | hmem | hmem
      · exact not_mem_queryEscape rfl _ hmem
      · exact absurd hmem (by decide)
      · exact not_mem_queryEscape rfl _ hmem
    · rw [encodePair] at hnil
      exact cons_ne_nil _ _ (append_eq_nil_iff.mp hnil).2

theorem ampersand_not_mem_encodePair (p : GoString × GoString) : '&'.toUInt8 ∉ encodePair p := by
  rw [encodePair, mem_append, mem_cons, not_or, not_or]
  exact ⟨not_mem_queryEscape rfl _, by decide, not_mem_queryEscape rfl _⟩

/-- The parameters are read in the order in which they were written. -/
theorem filterMap_parsePair_encode (m : Values) :
    (m.encode.splitOn '&'.toUInt8).filterMap parsePair = m.pairs := by
  unfold Values.encode
  cases hpairs : m.pairs with
  | nil => rfl
  | cons =>
    rw [splitOn_intercalate]
    · rw [filterMap_map, ← hpairs]
      have hsome : parsePair ∘ encodePair = some := funext parsePair_encodePair
      rw [hsome, filterMap_some]
    · intro field hfield
      obtain ⟨q, -, rfl⟩ := mem_map.mp hfield
      exact ampersand_not_mem_encodePair q
    · exact cons_ne_nil _ _

theorem Values.all_add (m : Values) (p : GoString × GoString) (key : GoString) :
    (m.add p).all key = if key = p.1 then m.all key ++ [p.2] else m.all key := by
  unfold Values.add Values.all
  split_ifs with h
  · rw [h, lookup_insert]
    rfl
  · rw [lookup_insert_of_ne _ h]

/-- The values of a parameter, of those that are read one after the other. -/
theorem all_foldl_add (l : List (GoString × GoString)) (m : Values) (key : GoString) :
    (l.foldl Values.add m).all key = m.all key ++ (l.filter (·.1 = key)).map Prod.snd := by
  induction l generalizing m with
  | nil => exact (append_nil _).symm
  | cons p l ih =>
    rw [foldl_cons, ih, Values.all_add]
    by_cases h : key = p.1
    · rw [if_pos h, filter_cons_of_pos (by exact decide_eq_true h.symm), map_cons, append_assoc]
      rfl
    · rw [if_neg h, filter_cons_of_neg]
      exact fun heq => h (of_decide_eq_true heq).symm

theorem filter_flatMap_pairs (f : GoString → List GoString) (key : GoString) {keys : List GoString}
    (h : keys.Nodup) :
    ((keys.flatMap fun k => (f k).map (k, ·)).filter (·.1 = key)).map Prod.snd =
      if key ∈ keys then f key else [] := by
  induction keys with
  | nil => rfl
  | cons k keys ih =>
    obtain ⟨hk, hkeys⟩ := nodup_cons.mp h
    rw [flatMap_cons, filter_append, map_append, ih hkeys]
    by_cases heq : k = key
    · subst heq
      rw [if_neg hk, if_pos mem_cons_self, append_nil, filter_eq_self.mpr]
      · rw [map_map]
        exact map_id _
      · intro p hp
        obtain ⟨v, -, rfl⟩ := mem_map.mp hp
        exact decide_eq_true rfl
    · rw [filter_eq_nil_iff.mpr]
      · simp only [mem_cons, Ne.symm heq, false_or, map_nil, nil_append]
      · intro p hp
        obtain ⟨v, -, rfl⟩ := mem_map.mp hp
        exact fun hdec => heq (of_decide_eq_true hdec)

/-- The parameters that are written with a key are its values. -/
theorem Values.filter_pairs (m : Values) (key : GoString) :
    (m.pairs.filter (·.1 = key)).map Prod.snd = m.all key := by
  unfold Values.pairs
  rw [filter_flatMap_pairs _ _ m.nodup_sortedKeys]
  split_ifs with h
  · rfl
  · rw [GoMap.mem_sortedKeys] at h
    unfold Values.all
    rw [lookup_eq_none.mpr h]
    rfl

/-- **What was written reads back.** -/
theorem all_parseQuery_encode (m : Values) (key : GoString) :
    (parseQuery m.encode).all key = m.all key := by
  unfold parseQuery
  rw [all_foldl_add, filterMap_parsePair_encode, Values.filter_pairs]
  rfl

theorem get_parseQuery_encode_set (m : Values) (key value : GoString) :
    (parseQuery (m.set key value).encode).get key = value := by
  unfold Values.get
  rw [all_parseQuery_encode, Values.all, Values.set, lookup_insert]
  rfl

theorem mem_intercalate {sep c : UInt8} : ∀ {ls : List GoString}, c ∈ [sep].intercalate ls →
    c = sep ∨ ∃ l ∈ ls, c ∈ l
  | [], h => absurd h not_mem_nil
  | [l], h => .inr ⟨l, .head _, by simpa [intercalate] using h⟩
  | l :: l' :: ls, h => by
    have hcons : [sep].intercalate (l :: l' :: ls) = l ++ sep :: [sep].intercalate (l' :: ls) := by
      simp [intercalate]
    rw [hcons, mem_append, mem_cons] at h
    rcases h with h | h | h
    · exact .inr ⟨l, .head _, h⟩
    · exact .inl h
    · exact (mem_intercalate h).imp id fun ⟨x, hx, hc⟩ => ⟨x, .tail _ hx, hc⟩

theorem mem_encode {m : Values} {c : UInt8} (h : c ∈ m.encode) :
    isQueryByte c = true ∨ c = '='.toUInt8 ∨ c = '&'.toUInt8 := by
  rcases mem_intercalate h with h | ⟨field, hfield, hc⟩
  · exact .inr (.inr h)
  · obtain ⟨p, -, rfl⟩ := mem_map.mp hfield
    rw [encodePair, mem_append, mem_cons] at hc
    rcases hc with hc | hc | hc
    · exact .inl (isQueryByte_of_mem_queryEscape hc)
    · exact .inr (.inl hc)
    · exact .inl (isQueryByte_of_mem_queryEscape hc)

end HivenetRouter.NetUrl
