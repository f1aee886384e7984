import HivenetRouter.Api.LooseScan

/-!
# The scanner never leaves the body

The scanner as the source has it: a loop that takes at most `n` passes, an index that is checked, a
slice whose bounds are checked. A run that needs more passes or that is out of range ends in a
`Fault`. `replaceTopLevelModel_checked` says that with more passes than the body has bytes no run
does, on any body, and that the result is that of `replaceTopLevelModel`.
-/

namespace HivenetRouter.Api

open List Option Nat

open Json (byte)

/-- What may go wrong besides the errors that are returned. -/
inductive Fault where
  /-- More passes of a loop than allowed. -/
  | running
  /-- `index out of range`. -/
  | index
  /-- `slice bounds out of range`. -/
  | slice
  /-- `makeslice: cap out of range`. -/
  | cap
  deriving DecidableEq

namespace Checked

variable (b : List UInt8) (n : ℕ)

/-- `b[i]`. -/
def index (i : ℕ) : Except Fault UInt8 :=
  match b[i]? with
  | some c => .ok c
  | none => .error .index

/-- `b[lo:hi]`. -/
def slice (lo hi : ℕ) : Except Fault (List UInt8) :=
  if lo ≤ hi ∧ hi ≤ b.length then .ok ((b.take hi).drop lo) else .error .slice

/-- `i < len(b) && b[i] == c`. -/
def isByte (i : ℕ) (c : Char) : Except Fault Bool :=
  if i < b.length then (index b i).map fun d => decide (d = byte c) else .ok false

def skipWS : ℕ → ℕ → Except Fault ℕ
  | 0, _ => .error .running
  | passes + 1, i =>
    if i < b.length then do
      let c ← index b i
      if Json.isSpace c then skipWS passes (i + 1) else .ok i
    else .ok i

/-- The loop of `skipString`. -/
def skipStringFrom : ℕ → ℕ → Except Fault ℕ
  | 0, _ => .error .running
  | passes + 1, i =>
    if i < b.length then do
      let c ← index b i
      if c = byte '\\' then skipStringFrom passes (i + 1 + 1)
      else if c = byte '"' then .ok (i + 1)
      else skipStringFrom passes (i + 1)
    else .ok b.length

def skipString (i : ℕ) : Except Fault ℕ := skipStringFrom b n (i + 1)

/-- The loop of `skipValue` over an object or an array. -/
def skipNested : ℕ → ℕ → ℤ → Except Fault (Option ℕ)
  | 0, _, _ => .error .running
  | passes + 1, i, depth =>
    if i < b.length then do
      let c ← index b i
      if c = byte '"' then do
        let j ← skipString b n i
        skipNested passes (j - 1 + 1) depth
      else if c = byte '{' ∨ c = byte '[' then skipNested passes (i + 1) (depth + 1)
      else if c = byte '}' ∨ c = byte ']' then
        if depth - 1 = 0 then .ok (some (i + 1)) else skipNested passes (i + 1) (depth - 1)
      else skipNested passes (i + 1) depth
    else .ok none

/-- The loop of `skipValue` over a number or a word. -/
def skipScalar : ℕ → ℕ → Except Fault ℕ
  | 0, _ => .error .running
  | passes + 1, i =>
    if i < b.length then do
      let c ← index b i
      if endsScalar c then .ok i else skipScalar passes (i + 1)
    else .ok i

def skipValue (i : ℕ) : Except Fault (Option ℕ) :=
  if i ≥ b.length then .ok none
  else do
    let c ← index b i
    if c = byte '"' then (skipString b n i).map some
    else if c = byte '{' ∨ c = byte '[' then skipNested b n n i 0
    else (skipScalar b n i).map some

/-- The loop of `replaceTopLevelModel`. -/
def findModel : ℕ → ℕ → Option (ℕ × ℕ) → Except Fault (Except ReplaceError (Option (ℕ × ℕ)))
  | 0, _, _ => .error .running
  | passes + 1, i, val => do
    let i ← skipWS b n i
    let ends ← isByte b i '}'
    if ends then .ok (.ok val)
    else
      let begins ← isByte b i '"'
      if ¬ begins then .ok (.error .malformedObject)
      else
        let keyStart := i
        let i ← skipString b n i
        let key ← slice b keyStart i
        let i ← skipWS b n i
        let colon ← isByte b i ':'
        if ¬ colon then .ok (.error .malformedObject)
        else
          let vs ← skipWS b n (i + 1)
          match ← skipValue b n vs with
          | none => .ok (.error .malformedValue)
          | some i =>
            let val := if isModelKey key then some (vs, i) else val
            let i ← skipWS b n i
            let comma ← isByte b i ','
            if comma then findModel passes (i + 1) val
            else
              let ends ← isByte b i '}'
              if ends then .ok (.ok val) else .ok (.error .malformedObject)

def replaceTopLevelModel (model : String) : Except Fault (Except ReplaceError (List UInt8)) := do
  let i ← skipWS b n 0
  let object ← isByte b i '{'
  if ¬ object then .ok (.error .notObject)
  else
    match ← findModel b n n (i + 1) none with
    | .error err => .ok (.error err)
    | .ok none => .ok (.error .noModel)
    | .ok (some (valStart, valEnd)) =>
      let quoted := Json.quote model
      if (b.length : ℤ) - (valEnd - valStart) + quoted.length < 0 then .error .cap
      else
        let before ← slice b 0 valStart
        let after ← slice b valEnd b.length
        .ok (.ok (before ++ quoted ++ after))

end Checked

/-! ### Indices -/

section

variable {b : List UInt8} {n i passes fuel depth j : ℕ}

theorem index_of_lt (h : i < b.length) : ∃ c, b[i]? = some c ∧ Checked.index b i = .ok c :=
  ⟨b[i], getElem?_eq_getElem h, by rw [Checked.index, getElem?_eq_getElem h]⟩

theorem isByte_eq (i : ℕ) (c : Char) :
    Checked.isByte b i c = .ok (decide (b[i]? = some (byte c))) := by
  unfold Checked.isByte
  split
  · next h =>
    obtain ⟨d, hget, hindex⟩ := index_of_lt h
    rw [hindex, hget, Except.map]
    simp
  · next h =>
    rw [getElem?_eq_none (Nat.le_of_not_lt h)]
    simp

/-! ### Space, scalars and strings -/

/-- A loop that goes on while a byte is of some kind. -/
theorem takeWhile_succ {p : UInt8 → Bool} {c : UInt8} (hget : b[i]? = some c) :
    i + ((b.drop i).takeWhile p).length =
      if p c then i + 1 + ((b.drop (i + 1)).takeWhile p).length else i := by
  obtain ⟨h, rfl⟩ := List.getElem?_eq_some_iff.mp hget
  rw [drop_eq_getElem_cons h]
  split
  · next hp =>
    rw [takeWhile_cons_of_pos hp, length_cons]
    omega
  · next hp =>
    rw [takeWhile_cons_of_neg hp]
    rfl

section

variable (h : b.length - i < passes)

include h

theorem skipWS_checked : Checked.skipWS b passes i = .ok (skipWS b i) := by
  induction passes generalizing i with
  | zero => exact absurd h (not_lt_zero _)
  | succ passes ih =>
    unfold Checked.skipWS skipWS
    split
    · next hlt =>
      obtain ⟨c, hget, hindex⟩ := index_of_lt hlt
      rw [hindex, takeWhile_succ hget]
      show (if _ then _ else _) = _
      split
      · exact ih (by omega)
      · rfl
    · next hge =>
      rw [drop_eq_nil_of_le (Nat.le_of_not_lt hge)]
      rfl

theorem skipScalar_checked :
    Checked.skipScalar b passes i = .ok (i + ((b.drop i).takeWhile (!endsScalar ·)).length) := by
  induction passes generalizing i with
  | zero => exact absurd h (not_lt_zero _)
  | succ passes ih =>
    unfold Checked.skipScalar
    split
    · next hlt =>
      obtain ⟨c, hget, hindex⟩ := index_of_lt hlt
      rw [hindex, takeWhile_succ hget]
      show (if _ then _ else _) = _
      split
      · next hends => rw [hends]; rfl
      · next hends =>
        rw [Bool.not_eq_true] at hends
        rw [hends]
        exact ih (by omega)
    · next hge =>
      rw [drop_eq_nil_of_le (Nat.le_of_not_lt hge)]
      rfl

theorem skipStringFrom_checked (hfuel : b.length - i ≤ fuel) :
    Checked.skipStringFrom b passes i = .ok (skipStringFrom b fuel i) := by
  induction passes generalizing fuel i with
  | zero => exact absurd h (not_lt_zero _)
  | succ passes ih =>
    unfold Checked.skipStringFrom
    split
    · next hlt =>
      obtain ⟨c, hget, hindex⟩ := index_of_lt hlt
      -- the loop of the source has a pass for every byte, as the fuel has
      obtain ⟨fuel, rfl⟩ : ∃ k, fuel = k + 1 := ⟨fuel - 1, by omega⟩
      rw [hindex, skipStringFrom, hget]
      show (if _ then _ else _) = _
      dsimp only
      split
      · exact ih (by omega) (by omega)
      split
      · rfl
      · exact ih (by omega) (by omega)
    · next hge =>
      cases fuel with
      | zero => rfl
      | succ => rw [skipStringFrom, getElem?_eq_none (Nat.le_of_not_lt hge)]

end

theorem skipString_checked (hi : i < b.length) (hn : b.length < n) :
    Checked.skipString b n i = .ok (skipString b i) :=
  skipStringFrom_checked (by omega) (by omega)

/-- A string ends in the body, behind where it begins. -/
theorem skipStringFrom_range (fuel i : ℕ) :
    min i b.length ≤ skipStringFrom b fuel i ∧ skipStringFrom b fuel i ≤ b.length := by
  induction fuel generalizing i with
  | zero => exact ⟨Nat.min_le_right _ _, le_refl _⟩
  | succ fuel ih =>
    rw [skipStringFrom]
    split
    · exact ⟨Nat.min_le_right _ _, le_refl _⟩
    · next c hget =>
      obtain ⟨hlt, -⟩ := List.getElem?_eq_some_iff.mp hget
      split_ifs
      · have := ih (i + 2)
        omega
      · omega
      · have := ih (i + 1)
        omega

theorem skipString_range (hi : i < b.length) : i < skipString b i ∧ skipString b i ≤ b.length := by
  have hrange := skipStringFrom_range b.length (i + 1) (b := b)
  unfold skipString
  omega

theorem skipWS_range (hi : i ≤ b.length) : i ≤ skipWS b i ∧ skipWS b i ≤ b.length := by
  have htake := IsPrefix.length_le <| takeWhile_prefix Json.isSpace (l := b.drop i)
  rw [length_drop] at htake
  unfold skipWS
  omega

/-! ### Values -/

theorem skipNested_checked (hn : b.length < n) (h : b.length - i < passes)
    (hfuel : b.length - i < fuel) (hdepth : depth ≠ 0) :
    Checked.skipNested b n passes i depth = .ok (skipNested b fuel i depth) := by
  induction passes generalizing fuel i depth with
  | zero => exact absurd h (not_lt_zero _)
  | succ passes ih =>
    obtain ⟨fuel, rfl⟩ : ∃ k, fuel = k + 1 := ⟨fuel - 1, by omega⟩
    unfold Checked.skipNested
    split
    · next hlt =>
      obtain ⟨c, hget, hindex⟩ := index_of_lt hlt
      rw [hindex, skipNested, hget]
      show (if _ then _ else _) = _
      dsimp only
      split
      · -- a string: the loop goes on behind it
        obtain ⟨hgt, hle⟩ := skipString_range hlt
        rw [skipString_checked hlt hn]
        show Checked.skipNested b n passes (skipString b i - 1 + 1) depth = _
        rw [Nat.sub_add_cancel (one_le_of_lt hgt)]
        exact ih (by omega) (by omega) hdepth
      split
      · -- the depth is a Go `int` here, and positive throughout
        have hopen : Checked.skipNested b n passes (i + 1) ((depth + 1 : ℕ) : ℤ) =
            .ok (skipNested b fuel (i + 1) (depth + 1)) :=
          ih (by omega) (by omega) (succ_ne_zero depth)
        rw [← hopen]
        rfl
      split
      · by_cases hone : depth = 1
        · rw [if_pos hone, if_pos (by omega)]
        · rw [if_neg hone, if_neg (by omega), ← ih (by omega) (by omega) (by omega)]
          congr 1
          omega
      · exact ih (by omega) (by omega) hdepth
    · next hge => rw [skipNested, getElem?_eq_none (Nat.le_of_not_lt hge)]

theorem skipNested_range (h : skipNested b fuel i depth = some j) : i < j ∧ j ≤ b.length := by
  have hi : i ≤ b.length := by
    by_contra hi
    rw [skipNested_of_le (by omega)] at h
    cases h
  have hat : At b i (b.drop i) := ⟨hi, rfl⟩
  obtain ⟨w, s, hsplit, hw, rfl⟩ := exists_endsNested hat h
  have hlength := hat.length
  rw [hsplit, length_append] at hlength
  cases w with
  | nil => cases hw [] 0 0 [] (le_refl _) (At.zero [])
  | cons => exact ⟨Nat.lt_add_of_pos_right (succ_pos _), by omega⟩

theorem skipValue_checked (hn : b.length < n) (i : ℕ) :
    Checked.skipValue b n i = .ok (skipValue b i) := by
  unfold Checked.skipValue
  split
  · next hge => rw [skipValue, getElem?_eq_none hge]
  · next hlt =>
    replace hlt : i < b.length := Nat.lt_of_not_le hlt
    obtain ⟨c, hget, hindex⟩ := index_of_lt hlt
    rw [hindex, skipValue, hget]
    show (if _ then _ else _) = _
    dsimp only
    split
    · rw [skipString_checked hlt hn]
      rfl
    split
    · next hquote hopen =>
      -- the first pass opens the value
      obtain ⟨passes, rfl⟩ : ∃ k, n = k + 1 := ⟨n - 1, by omega⟩
      have hrest : Checked.skipNested b (passes + 1) passes (i + 1) ((0 + 1 : ℕ) : ℤ) =
          .ok (skipNested b b.length (i + 1) (0 + 1)) :=
        skipNested_checked hn (by omega) (by omega) (by decide)
      unfold Checked.skipNested skipNested
      rw [if_pos hlt, hindex, hget]
      show (if _ then _ else _) = _
      dsimp only
      rw [if_neg hquote, if_pos hopen, if_neg hquote, if_pos hopen, ← hrest]
      rfl
    · rw [skipScalar_checked (by omega)]
      rfl

theorem skipValue_range (h : skipValue b i = some j) : i ≤ j ∧ j ≤ b.length := by
  unfold skipValue at h
  split at h
  · cases h
  · next c hget =>
    obtain ⟨hlt, -⟩ := List.getElem?_eq_some_iff.mp hget
    split_ifs at h
    · obtain rfl := some.inj h
      have := skipString_range hlt
      omega
    · have := skipNested_range h
      omega
    · obtain rfl := some.inj h
      have htake := IsPrefix.length_le <| takeWhile_prefix (!endsScalar ·) (l := b.drop i)
      rw [length_drop] at htake
      omega

/-! ### The loop over the members -/

theorem findModel_checked {val : Option (ℕ × ℕ)} (hn : b.length < n) (hi : i ≤ b.length)
    (h : b.length - i < passes) (hfuel : b.length - i < fuel) :
    Checked.findModel b n passes i val = .ok (findModel b fuel i val) := by
  induction passes generalizing fuel i val with
  | zero => exact absurd h (not_lt_zero _)
  | succ passes ih =>
    obtain ⟨fuel, rfl⟩ : ∃ k, fuel = k + 1 := ⟨fuel - 1, by omega⟩
    have hws := skipWS_range hi
    unfold Checked.findModel findModel
    simp only [skipWS_checked (show b.length - i < n by omega), isByte_eq, bind, Except.bind,
      decide_eq_true_eq]
    generalize skipWS b i = k at hws ⊢
    by_cases hends : b[k]? = some (byte '}')
    · rw [if_pos hends, if_pos hends]
    rw [if_neg hends, if_neg hends]
    by_cases hbegins : b[k]? = some (byte '"')
    swap
    · rw [if_pos hbegins, if_pos hbegins]
    rw [if_neg (not_not.mpr hbegins), if_neg (not_not.mpr hbegins)]
    -- the key
    obtain ⟨hlt, -⟩ := List.getElem?_eq_some_iff.mp hbegins
    have hstring := skipString_range hlt
    rw [skipString_checked hlt hn]
    dsimp only
    generalize skipString b k = e at hstring ⊢
    have hws' := skipWS_range hstring.2
    rw [Checked.slice, if_pos ⟨Nat.le_of_lt hstring.1, hstring.2⟩]
    rw [skipWS_checked (by omega)]
    dsimp only
    generalize skipWS b e = c at hws' ⊢
    by_cases hcolon : b[c]? = some (byte ':')
    swap
    · rw [if_pos hcolon, if_pos hcolon]
    rw [if_neg (not_not.mpr hcolon), if_neg (not_not.mpr hcolon)]
    -- the value
    obtain ⟨hclt, -⟩ := List.getElem?_eq_some_iff.mp hcolon
    have hvs := skipWS_range (show c + 1 ≤ b.length from hclt)
    rw [skipWS_checked (by omega)]
    dsimp only
    rw [skipValue_checked hn]
    cases hvalue : skipValue b (skipWS b (c + 1)) with
    | none => rfl
    | some j =>
      have hj := skipValue_range hvalue
      have hws'' := skipWS_range hj.2
      dsimp only
      rw [skipWS_checked (by omega)]
      dsimp only
      generalize skipWS b j = k' at hws'' ⊢
      by_cases hcomma : b[k']? = some (byte ',')
      · obtain ⟨hclt', -⟩ := List.getElem?_eq_some_iff.mp hcomma
        rw [if_pos hcomma, if_pos hcomma]
        exact ih hclt' (by omega) (by omega)
      · rw [if_neg hcomma, if_neg hcomma]
        split <;> rfl

/-- **The scanner ends and stays in the body**, whatever the body is. -/
theorem replaceTopLevelModel_checked (b : List UInt8) (model : String) {n : ℕ} (hn : b.length < n) :
    Checked.replaceTopLevelModel b n model = .ok (replaceTopLevelModel b model) := by
  unfold Checked.replaceTopLevelModel replaceTopLevelModel
  simp only [skipWS_checked (show b.length - 0 < n by omega), isByte_eq, bind, Except.bind,
    decide_eq_true_eq]
  by_cases hobject : b[skipWS b 0]? = some (byte '{')
  swap
  · rw [if_pos hobject, if_pos hobject]
  obtain ⟨hlt, -⟩ := List.getElem?_eq_some_iff.mp hobject
  rw [if_neg (not_not.mpr hobject), if_neg (not_not.mpr hobject),
    findModel_checked hn hlt (by omega) (show b.length - (skipWS b 0 + 1) < b.length by omega)]
  cases hfind : findModel b b.length (skipWS b 0 + 1) none with
  | error => rfl
  | ok =>
    obtain ⟨place, hbody, rfl⟩ := scannedBody_of_findModel hobject hfind
    cases place with
    | none => rfl
    | some =>
      -- the value that was found is in the body
      have htext := congrArg length hbody.exchange.1
      simp only [length_append] at htext
      simp only [map_some, Found.span]
      rw [if_neg (by omega), Checked.slice, if_pos ⟨Nat.zero_le _, by omega⟩, Checked.slice,
        if_pos ⟨by omega, le_refl _⟩, drop_zero, take_length]

end

/-!
## The scanner on valid texts

On the texts of the grammar the scanner skips exactly the strings and the values. Each part of a
text is passed by the loop of `skipValue` at the depth it began at (`Passes`), by induction over the
grammar, and `skipsValue_value` follows. So an object's text is scanned, and what is found is the
hole of the last member whose key is `model` (`Hole.scanned`).
-/

open Json (Space Headed Value Valid Items Enclosed Member Hole quoted)

variable {b bs content q : List UInt8} {key : String}

/-! ### Strings -/

/-- A byte that neither ends a string nor escapes another one. -/
def Ordinary (c : UInt8) : Prop := c ≠ byte '"' ∧ c ≠ byte '\\'

instance (c : UInt8) : Decidable (Ordinary c) := inferInstanceAs (Decidable (_ ∧ _))

theorem ordinary_of_hexDigit {c : UInt8} {n : ℕ} (h : Json.hexDigit c = some n) : Ordinary c := by
  have hall : ∀ c : UInt8, (Json.hexDigit c).isSome = true → Ordinary c :=
    Json.forall_byte (by decide +kernel)
  exact hall c (by rw [h]; rfl)

/-- An escape: the byte behind the backslash, and ordinary ones. -/
theorem escapeWidth_eq_some {k : ℕ} (h : Json.escapeWidth bs = some k) :
    ∃ e es k', bs = e :: es ∧ k = k' + 1 ∧ ∀ c ∈ es.take k', Ordinary c := by
  cases bs with
  | nil => cases h
  | cons e es =>
    rw [Json.escapeWidth] at h
    split at h
    · -- `\u` takes four digits, any other escape one byte
      obtain ⟨n, hhex, rfl⟩ := Option.map_eq_some_iff.mp h
      refine ⟨e, es, 4, rfl, rfl, ?_⟩
      unfold Json.hex4 at hhex
      split at hhex
      · next c₁ c₂ c₃ c₄ es =>
        obtain ⟨n₁, h₁, hhex⟩ := bind_eq_some_iff.mp hhex
        obtain ⟨n₂, h₂, hhex⟩ := bind_eq_some_iff.mp hhex
        obtain ⟨n₃, h₃, hhex⟩ := bind_eq_some_iff.mp hhex
        obtain ⟨n₄, h₄, -⟩ := bind_eq_some_iff.mp hhex
        intro c hc
        simp only [take_succ_cons, take_zero, mem_cons, not_mem_nil, or_false] at hc
        obtain rfl | rfl | rfl | rfl := hc
        · exact ordinary_of_hexDigit h₁
        · exact ordinary_of_hexDigit h₂
        · exact ordinary_of_hexDigit h₃
        · exact ordinary_of_hexDigit h₄
      · cases hhex
    · obtain ⟨c, -, rfl⟩ := Option.map_eq_some_iff.mp h
      exact ⟨e, es, 0, rfl, rfl, fun c hc => absurd hc not_mem_nil⟩

/-- **The scanner finds the end of a string**: it takes the digits of an escape for ordinary
bytes. -/
theorem endsString_content {n skip : ℕ} {rest : List UInt8} (hn : bs.length ≤ n)
    (hscan : Json.scanStringFrom skip bs = some (content, rest))
    (hskip : ∀ c ∈ bs.take skip, Ordinary c) : EndsString (content ++ [byte '"']) := by
  -- by induction on the length, since the scanner jumps over the byte behind a backslash
  induction n generalizing skip bs content with
  | zero =>
    rw [length_eq_zero_iff.mp (Nat.le_zero.mp hn)] at hscan
    cases skip <;> cases hscan
  | succ n ih =>
    cases bs with
    | nil => cases skip <;> cases hscan
    | cons c bs =>
      have hlength : bs.length ≤ n := Nat.le_of_succ_le_succ hn
      -- an ordinary byte: the scanner and the reader go on behind it
      have hnext : ∀ {skip : ℕ}, Ordinary c → (∀ c ∈ bs.take skip, Ordinary c) →
          (Json.scanStringFrom skip bs).map (fun r => (c :: r.1, r.2)) = some (content, rest) →
          EndsString (content ++ [byte '"']) := by
        intro skip hc hskip hmap
        obtain ⟨⟨content', rest'⟩, hscan', heq⟩ := Option.map_eq_some_iff.mp hmap
        obtain ⟨rfl, rfl⟩ := Prod.mk.inj heq
        exact (ih hlength hscan' hskip).cons hc.2 hc.1
      cases skip with
      | succ =>
        rw [take_succ_cons] at hskip
        exact hnext (hskip c mem_cons_self) (fun d hd => hskip d (mem_cons_of_mem _ hd)) hscan
      | zero =>
        rw [Json.scanStringFrom] at hscan
        split_ifs at hscan with hquote hback hctl
        · obtain ⟨rfl, rfl⟩ := Prod.mk.inj (some.inj hscan)
          exact EndsString.quote
        · split at hscan
          · next k hwidth =>
            obtain ⟨e, es, k, rfl, rfl, hes⟩ := escapeWidth_eq_some hwidth
            rw [Json.scanStringFrom, Option.map_map] at hscan
            obtain ⟨⟨content', rest'⟩, hscan', heq⟩ := Option.map_eq_some_iff.mp hscan
            obtain ⟨rfl, rfl⟩ := Prod.mk.inj heq
            rw [hback]
            exact (ih (Nat.le_of_succ_le hlength) hscan' hes).escape e
          · cases hscan
        · exact hnext ⟨hquote, hback⟩ (fun d hd => absurd hd not_mem_nil) hscan

theorem skipsString_quoted
    (hscan : ∀ rest, Json.scanString (content ++ byte '"' :: rest) = some (content, rest)) :
    SkipsString (quoted content) :=
  (endsString_content le_rfl (hscan []) fun _ hc => absurd hc not_mem_nil).skips

theorem skipsString_key (h : Json.parseString q = some (key, [])) : SkipsString q := by
  obtain ⟨content, hq, -, hscan⟩ := Json.parseString_eq_some h
  rw [append_nil] at hq
  rw [hq]
  exact skipsString_quoted hscan

/-! ### Passing nested values -/

/-- The loop of `skipValue` passes `w` at the depth `depth` and is then at the depth `depth'`: what
ends behind `w` ends with `w` before it. -/
def Passes (w : List UInt8) (depth depth' : ℕ) : Prop :=
  ∀ w', EndsNested depth' w' → EndsNested depth (w ++ w')

namespace Passes

variable {w w' : List UInt8} {depth depth' depth'' : ℕ} {c : UInt8} {α : Type} {close op : Char}

theorem append (h : Passes w depth depth') (h' : Passes w' depth' depth'') :
    Passes (w ++ w') depth depth'' := by
  intro w'' hw''
  rw [append_assoc]
  exact h _ (h' _ hw'')

theorem opening (hc : c = byte '{' ∨ c = byte '[') : Passes [c] depth (depth + 1) :=
  fun _ hw' => hw'.cons (skipNested_open hc)

theorem closing (hc : c = byte '}' ∨ c = byte ']') (hdepth : depth ≠ 0) : Passes [c]
    (depth + 1) depth := by
  refine fun _ hw' => hw'.cons fun hget => ?_
  rw [skipNested_close hc hget, if_neg (by omega), Nat.add_sub_cancel]

/-- Bytes that the loop does not look for. -/
theorem inert (hw : ∀ c ∈ w, Inert c) : Passes w depth depth := by
  induction w with
  | nil => exact fun _ hw' => hw'
  | cons c w ih =>
    obtain ⟨hc, hw⟩ := forall_mem_cons.mp hw
    exact fun _ hw' => (ih hw _ hw').cons (skipNested_inert hc)

theorem string (hq : SkipsString w) : Passes w depth depth := fun _ hw' => hw'.string hq

theorem space (hsp : Space w) : Passes w depth depth := by
  have hall : ∀ c : UInt8, Json.isSpace c = true → Inert c := Json.forall_byte (by decide +kernel)
  exact inert fun c hc => hall c (hsp c hc)

theorem scalar {v : Json} (h : Json.parseScalar w = some (v, [])) : Passes w depth depth := by
  obtain ⟨w', hw, hkind, -⟩ := Json.parseScalar_token h
  rw [append_nil] at hw
  subst hw
  obtain ⟨content, rfl, hscan⟩ | ⟨-, hall⟩ := hkind
  · exact string (skipsString_quoted hscan)
  · have hplain : ∀ c : UInt8, Json.IsPlain c → Inert c := Json.forall_byte (by decide +kernel)
    exact inert fun c hc => hplain c (hall c hc)

variable {Item : List UInt8 → α → Prop} {t : List UInt8} {as : List α}

section

variable (hitem : ∀ w a, Item w a → Passes w depth depth)

include hitem

/-- Items are passed up to the bracket that closes them. -/
theorem items (h : Items close Item t as) :
    ∃ t', t = t' ++ [byte close] ∧ Passes t' depth depth := by
  induction h with
  | @last w sp a ha hsp => exact ⟨w ++ sp, by simp, (hitem w a ha).append (space hsp)⟩
  | @more w sp sp' t a as ha hsp hsp' _ ih =>
    obtain ⟨t', rfl, ht'⟩ := ih
    have hcomma : Passes [byte ','] depth depth := inert (Json.forall_mem_of_all rfl)
    refine ⟨w ++ (sp ++ ([byte ','] ++ (sp' ++ t'))), by simp, ?_⟩
    exact (hitem w a ha).append ((space hsp).append (hcomma.append ((space hsp').append ht')))

theorem enclosed (h : Enclosed op close Item w as) :
    ∃ t, w = byte op :: (t ++ [byte close]) ∧ Passes t depth depth := by
  cases h with
  | nil hsp => exact ⟨_, rfl, space hsp⟩
  | cons hsp ht =>
    obtain ⟨t', rfl, ht'⟩ := items hitem ht
    exact ⟨_, by rw [append_assoc], (space hsp).append ht'⟩

end

theorem member {V : List UInt8 → Json → Prop} {m : String × List UInt8 × Json}
    (hvalue : ∀ w v, V w v → Passes w depth depth) (h : Member V w m) : Passes w depth depth := by
  obtain ⟨hkey, hsp, hsp', hv⟩ := h
  have hcolon : Passes [byte ':'] depth depth := inert (Json.forall_mem_of_all rfl)
  exact (string (skipsString_key hkey)).append ((space hsp).append
    (append (w := [byte ':']) hcolon ((space hsp').append (hvalue _ _ hv))))

/-- **A value is passed at any depth but zero**, by induction on how deep it is itself. -/
theorem value {d : ℕ} {v : Json} (h : Value d w v) (hdepth : depth ≠ 0) : Passes w depth depth := by
  induction d generalizing w v depth with
  | zero => exact scalar h
  | succ d ih =>
    have hvalue : ∀ w v, Value d w v → Passes w (depth + 1) (depth + 1) := fun _ _ hv =>
      ih hv (Nat.succ_ne_zero depth)
    have hbracket : ∀ {op close : Char} {t : List UInt8},
        (byte op = byte '{' ∨ byte op = byte '[') →
        (byte close = byte '}' ∨ byte close = byte ']') → Passes t (depth + 1) (depth + 1) →
        Passes (byte op :: (t ++ [byte close])) depth depth := fun hop hclose ht =>
      append (w := [byte _]) (opening hop) (ht.append (closing hclose hdepth))
    obtain h | ⟨members, rfl, h⟩ | ⟨elems, rfl, h⟩ := h
    · exact scalar h
    · obtain ⟨t, rfl, ht⟩ := enclosed (fun _ _ hm => member hvalue hm) h
      exact hbracket (.inl rfl) (.inl rfl) ht
    · obtain ⟨t, rfl, ht⟩ := enclosed hvalue h
      exact hbracket (.inr rfl) (.inr rfl) ht

/-- At the depth zero the loop ends behind the bracket that closes the value. -/
theorem skips (hquote : byte op ≠ byte '"')
    (hop : byte op = byte '{' ∨ byte op = byte '[') (hclose : byte close = byte '}' ∨ byte close =
      byte ']')
    (ht : Passes t 1 1) :
    SkipsValue (byte op :: (t ++ [byte close])) :=
  EndsNested.value hquote hop (opening hop _ (ht _ (.close hclose)))

end Passes

/-! ### Values -/

/-- **The scanner skips exactly the value.** -/
theorem skipsValue_value {d : ℕ} {w : List UInt8} {v : Json} (hv : Value d w v) : SkipsValue w := by
  -- a string is skipped to its quote, another scalar to a byte that ends it
  have hscalar : Json.parseScalar w = some (v, []) → SkipsValue w := by
    intro hv
    obtain ⟨w', hw, hkind, -⟩ := Json.parseScalar_token hv
    rw [append_nil] at hw
    subst hw
    obtain ⟨content, rfl, hscan⟩ | ⟨hne, hall⟩ := hkind
    · exact (skipsString_quoted hscan).value
    · -- no byte of a number or a word ends a scalar or opens anything
      have hplain : ∀ c : UInt8, Json.IsPlain c → endsScalar c = false ∧ c ≠ byte '"' ∧
          ¬ (c = byte '{' ∨ c = byte '[') := Json.forall_byte (by decide +kernel)
      exact skipsValue_scalar (fun c hc => (hplain c (hall c hc)).1)
        fun c hc => (hplain c (hall c (mem_of_mem_head? hc))).2
  cases d with
  | zero => exact hscalar hv
  | succ d =>
    have hvalue : ∀ w v, Value d w v → Passes w 1 1 := fun _ _ hv => Passes.value hv Nat.one_ne_zero
    obtain hv | ⟨members, rfl, hv⟩ | ⟨elems, rfl, hv⟩ := hv
    · exact hscalar hv
    · obtain ⟨t, rfl, ht⟩ := Passes.enclosed (fun _ _ hm => Passes.member hvalue hm) hv
      exact Passes.skips (by decide) (.inl rfl) (.inl rfl) ht
    · obtain ⟨t, rfl, ht⟩ := Passes.enclosed hvalue hv
      exact Passes.skips (by decide) (.inr rfl) (.inr rfl) ht

/-! ### Keys -/

/-- A string without escapes whose text is ASCII is its text. -/
theorem eq_map_byte_of_unquoteFrom {cs : List Char} (hback : byte '\\' ∉ content)
    (hcs : ∀ c ∈ cs, c.toNat < 0x80) (h : Json.unquoteFrom 0 content = some cs) :
    content = cs.map byte := by
  induction content generalizing cs with
  | nil => rw [← some.inj h]; rfl
  | cons b content ih =>
    obtain ⟨hb, hback⟩ := not_or.mp (mt mem_cons.mpr hback)
    obtain ⟨⟨c, skip⟩, hrune, h⟩ := bind_eq_some_iff.mp h
    obtain ⟨cs', hcs', h⟩ := bind_eq_some_iff.mp h
    obtain rfl := some.inj h
    have hc := hcs c mem_cons_self
    unfold Json.unquoteRune at hrune
    rw [if_neg (Ne.symm hb)] at hrune
    split at hrune
    · -- the text is ASCII, so that no other byte begins a character of it
      next hascii =>
      obtain ⟨rfl, rfl⟩ := Prod.mk.inj (some.inj hrune)
      have hbyte : ∀ b : UInt8, b < 0x80 → byte (Char.ofNat b.toNat) = b :=
        Json.forall_byte (by decide +kernel)
      rw [map_cons, hbyte b hascii, ih hback (fun d hd => hcs d (mem_cons_of_mem _ hd)) hcs']
    · next hascii =>
      obtain ⟨rfl, rfl⟩ := Prod.mk.inj (some.inj hrune)
      exact absurd hc
        (Nat.not_lt_of_le (Utf8.decodeRune_not_ascii (UInt8.not_lt.mp hascii) content))

/-- **A key is taken for `model` exactly if that is what it decodes to.** -/
theorem isModelKey_iff (h : Json.parseString q = some (key, [])) :
    isModelKey q = true ↔ key = "model" := by
  have hmodel : Json.parseString (Utf8.ofText "\"model\"") = some ("model", []) := by decide +kernel
  unfold isModelKey
  split
  · next hq =>
    rw [hq, hmodel] at h
    exact iff_of_true rfl (Prod.mk.inj (some.inj h)).1.symm
  split
  · -- without an escape only one spelling is left
    next hne hback =>
    refine iff_of_false Bool.false_ne_true ?_
    rintro rfl
    obtain ⟨content, hq, hs, -⟩ := Json.parseString_eq_some h
    rw [append_nil] at hq
    subst hq
    obtain ⟨cs, hcs, htext⟩ := Option.map_eq_some_iff.mp hs
    have hcs' : cs = "model".toList := by rw [← htext, String.toList_ofList]
    have hcontent := eq_map_byte_of_unquoteFrom
      (fun hmem => hback (mem_cons_of_mem _ (mem_append_left _ hmem)))
      (by rw [hcs']; exact Json.forall_mem_of_all rfl) hcs
    rw [hcs'] at hcontent
    exact hne (by rw [hcontent]; decide +kernel)
  · -- with an escape the key is decoded
    have hscalar : Json.parseScalar q = some (.str key, []) := by rw [Json.parseScalar, h]
    have hread : Json.unmarshal q = some (.str key) :=
      Json.unmarshal_eq_some_iff.mpr ⟨[], q, [], fun _ hb => absurd hb not_mem_nil,
        .of_scalar hscalar _, fun _ hb => absurd hb not_mem_nil, by simp⟩
    rw [hread]
    exact decide_eq_true_iff

/-! ### Members -/

section Members

variable {d : ℕ} {t pre raw post rest : List UInt8}
  {members before after : List (String × List UInt8 × Json)}

theorem scanned_items (h : Items '}' (Member (Value d)) t members) (hnone :
    ∀ m ∈ members, m.1 ≠ "model") :
    Scanned t none := by
  induction h with
  | last hm hsp =>
    obtain ⟨hkey, hsp₁, hsp₂, hv⟩ := hm
    have hfound := mt (isModelKey_iff hkey).mp (hnone _ mem_cons_self)
    have hscanned := Scanned.last (.mk (skipsString_key hkey) hsp₁ hsp₂) (skipsValue_value hv) hsp
      (hv.begins.headed _)
    rw [found, if_neg hfound] at hscanned
    simpa using hscanned
  | more hm hsp hsp' _ ih =>
    obtain ⟨hkey, hsp₁, hsp₂, hv⟩ := hm
    obtain ⟨hne, hnone⟩ := forall_mem_cons.mp hnone
    have hfound := mt (isModelKey_iff hkey).mp hne
    have hscanned := Scanned.more (.mk (skipsString_key hkey) hsp₁ hsp₂) (skipsValue_value hv) hsp
      (hv.begins.headed _) hsp' (ih hnone)
    rw [found, if_neg hfound] at hscanned
    simpa using hscanned

/-- **What is found is the hole of the last member whose key is `model`**, whatever fills it that
the scanner skips. -/
theorem Hole.scanned (h : Hole (Value d) pre post before "model" after)
    (hnone : ∀ m ∈ after, m.1 ≠ "model") (hv : SkipsValue raw)
    (hstart : Headed (Json.isSpace · = false) (raw ++ post)) :
    Scanned (pre ++ (raw ++ post)) (some ⟨pre, raw, post⟩) := by
  generalize hmodel : "model" = key at h
  induction h with
  | last hkey hsp₁ hsp₂ hsp =>
    have hscanned := Scanned.last (.mk (skipsString_key hkey) hsp₁ hsp₂) hv hsp hstart
    rwa [found, if_pos ((isModelKey_iff hkey).mpr hmodel.symm)] at hscanned
  | @first _ _ _ sp sp' t _ _ hkey hsp₁ hsp₂ hsp hsp' ht =>
    -- the comma is what ends the value
    have hsplit : raw ++ (sp ++ byte ',' :: (sp' ++ t)) = raw ++ (sp ++ [byte ',']) ++
        (sp' ++ t) := by simp
    have hstart' : Headed (Json.isSpace · = false) (raw ++ (sp ++ [byte ','])) := by
      rw [hsplit] at hstart
      exact hstart.of_append
    have hscanned := Scanned.more (.mk (skipsString_key hkey) hsp₁ hsp₂) hv hsp hstart' hsp'
      (scanned_items ht hnone)
    rwa [found, if_pos ((isModelKey_iff hkey).mpr hmodel.symm)] at hscanned
  -- a member before the hole is skipped whole
  | more hm hsp hsp' _ ih =>
    obtain ⟨hkey, hsp₁, hsp₂, hv'⟩ := hm
    have hscanned := Scanned.more (.mk (skipsString_key hkey) hsp₁ hsp₂) (skipsValue_value hv') hsp
      (hv'.begins.headed _) hsp' (ih hnone hstart hmodel)
    simpa [Found.behind] using hscanned

end Members

/-! ### Objects -/

/-- A body around the value of a member whose key is `model`, with `rest` behind the object. -/
inductive BodyHole (d : ℕ) (rest : List UInt8) : List UInt8 → List UInt8 →
    List (String × List UInt8 × Json) → List (String × List UInt8 × Json) → Prop
  | mk {sp sp₁ pre post : List UInt8} {before after : List (String × List UInt8 × Json)}
    (space : Space sp) (space₁ : Space sp₁) (hole : Hole (Value d) pre post before "model" after) :
    BodyHole d rest (sp ++ byte '{' :: (sp₁ ++ pre)) (post ++ rest) before after

section Body

variable {d : ℕ} {sp w pre raw post rest : List UInt8}
  {members before after : List (String × List UInt8 × Json)} {v : Json}

theorem BodyHole.scanned (h : BodyHole d rest pre post before after) (hnone : ∀ m ∈ after,
    m.1 ≠ "model")
    (hv : SkipsValue raw) (hstart : Headed (Json.isSpace · = false) (raw ++ post)) :
    ScannedBody (pre ++ (raw ++ post)) (some ⟨pre, raw, post⟩) := by
  obtain ⟨hsp, hsp₁, hhole⟩ := h
  rw [← append_assoc] at hstart
  have hbody := ScannedBody.mk (s := rest) hsp hsp₁ (Hole.scanned hhole hnone hv hstart.of_append)
  simpa using hbody

theorem BodyHole.value (h : BodyHole d rest pre post before after) (hv : Value d raw v) :
    ∃ sp w, Space sp ∧ Value (d + 1) w (.obj (before ++ ("model", raw, v) :: after)) ∧
      pre ++ (raw ++ post) = sp ++ (w ++ rest) := by
  obtain ⟨hsp, hsp₁, hhole⟩ := h
  exact ⟨_, _, hsp, .inr (.inl ⟨_, rfl, .cons hsp₁ (hhole.fill hv)⟩), by simp⟩

/-- The last member with a property. -/
theorem exists_last {α : Type} (p : α → Prop) [DecidablePred p] (as : List α) : (∀ a ∈ as, ¬ p a) ∨
    ∃ before a after, as = before ++ a :: after ∧ p a ∧ ∀ x ∈ after, ¬ p x := by
  induction as with
  | nil => exact .inl fun _ ha => absurd ha not_mem_nil
  | cons a as ih =>
    obtain hnone | ⟨before, a', after, rfl, ha', hafter⟩ := ih
    · by_cases ha : p a
      · exact .inr ⟨[], a, as, rfl, ha, hnone⟩
      · exact .inl (forall_mem_cons.mpr ⟨ha, hnone⟩)
    · exact .inr ⟨a :: before, a', after, rfl, ha', hafter⟩

/-- **The text of an object is scanned**: nothing is found in it, or the hole of a member. -/
theorem scanned_obj (rest : List UInt8) (hsp : Space sp) (hw : Value d w (.obj members)) :
    (∀ m ∈ members, m.1 ≠ "model") ∧ ScannedBody (sp ++ (w ++ rest)) none ∨
    ∃ d' before raw v after pre post, d = d' + 1 ∧ members = before ++ ("model", raw, v) :: after ∧
      (∀ m ∈ after, m.1 ≠ "model") ∧ sp ++ (w ++ rest) = pre ++ (raw ++ post) ∧ Value d' raw v ∧
      BodyHole d' rest pre post before after := by
  obtain ⟨d, rfl, henclosed⟩ := hw.enclosed
  cases henclosed with
  | nil hsp₁ =>
    refine .inl ⟨fun m hm => absurd hm not_mem_nil, ?_⟩
    have hbody := ScannedBody.mk (s := rest) hsp hsp₁ .close
    simpa using hbody
  | cons hsp₁ ht =>
    obtain hnone | ⟨before, ⟨_, raw, v⟩, after, rfl, rfl, hnone⟩ :=
      exists_last (·.1 = "model") members
    · refine .inl ⟨hnone, ?_⟩
      have hbody := ScannedBody.mk (s := rest) hsp hsp₁ (scanned_items ht hnone)
      simpa using hbody
    · obtain ⟨pre, post, rfl, hhole, hv⟩ := ht.hole rfl
      exact .inr ⟨d, before, raw, v, after, _, _, rfl, rfl, hnone, by simp, hv, .mk hsp hsp₁ hhole⟩

end Body

/-- **`replaceTopLevelModel` on every body.** It ends and stays in the body. In the text of an
object it replaces the value of the last member whose key decodes to `model`, and nothing else: what
is left is the text of the object with that value. Without such a member it fails. -/
theorem replaceTopLevelModel_correct (b : List UInt8) (model : String) : (∀ n, b.length < n →
      Checked.replaceTopLevelModel b n model = .ok (replaceTopLevelModel b model)) ∧
    ∀ members, Valid b (.obj members) →
      ((∃ m ∈ members, m.1 = "model") → ∃ before raw v after pre post,
        members = before ++ ("model", raw, v) :: after ∧ (∀ m ∈ after, m.1 ≠ "model") ∧
        b = pre ++ (raw ++ post) ∧
        replaceTopLevelModel b model = .ok (pre ++ (Json.quote model ++ post)) ∧
        Valid (pre ++ (Json.quote model ++ post))
          (.obj (before ++ ("model", Json.quote model, .str model) :: after))) ∧
      ((∀ m ∈ members, m.1 ≠ "model") → replaceTopLevelModel b model = .error .noModel) := by
  refine ⟨fun n hn => replaceTopLevelModel_checked b model hn, ?_⟩
  rintro members ⟨d, sp, w, sp', hsp, hw, hsp', rfl⟩
  obtain ⟨hnone, hscanned⟩ | ⟨d, before, raw, v, after, pre, post, rfl, rfl, hnone, htext, hv,
    hhole⟩ :=
    scanned_obj sp' hsp hw
  · -- no key decodes to `model`
    refine ⟨fun ⟨m, hm, hmodel⟩ => ?_, fun _ => replaceTopLevelModel_scanned_none hscanned model⟩
    exact absurd hmodel (hnone m hm)
  · refine ⟨fun _ => ?_, fun hall => ?_⟩
    · -- the hole is filled with the old value, which the scanner finds, and with the new one
      have hscanned := hhole.scanned hnone (skipsValue_value hv) (hv.begins.headed _)
      obtain ⟨sp₁, w', hsp₁, hw', htext'⟩ := hhole.value (Json.value_quote model d)
      rw [htext]
      exact ⟨before, raw, v, after, pre, post, rfl, hnone, rfl,
        replaceTopLevelModel_scanned hscanned model,
        d + 1, sp₁, w', sp', hsp₁, hw', hsp', htext'⟩
    · exact absurd rfl (hall ("model", raw, v) (mem_append_right _ mem_cons_self))

/-- **The last rewriting of the model wins**, and the others leave no trace. -/
theorem replaceTopLevelModel_twice (b : List UInt8) (model model' : String) :
    (replaceTopLevelModel b model).bind (replaceTopLevelModel · model') =
      replaceTopLevelModel b model' := by
  cases h : replaceTopLevelModel b model with
  | error err =>
    -- what is wrong with a body does not depend on the model
    unfold replaceTopLevelModel at h ⊢
    grind [Except.bind]
  | ok out =>
    obtain ⟨p, hbody, rfl⟩ := scannedBody_of_replaced h
    have hquote := Json.value_quote model 0
    have hout := hbody.exchange.2.2.2 _ (skipsValue_value hquote) hquote.begins.headed
    exact (replaceTopLevelModel_scanned hout model').trans
      (replaceTopLevelModel_scanned hbody model').symm

/-- A body with `model` twice, once in escapes, and in a nested object. -/
def twiceModel : List UInt8 :=
  Utf8.ofText "\x7b\"model\":\"a\",\"x\":[\x7b\"model\":1\x7d], \"mod\\u0065l\" : \"b\"\x7d"

/-- The value is an object with a member `model`. -/
def hasModel : Json → Bool
  | .obj members => members.any fun m => m.1 = "model"
  | _ => false

theorem replaceTopLevelModel_twiceModel :
    ∃ members out members', Valid twiceModel (.obj members) ∧ (∃ m ∈ members, m.1 = "model") ∧
      replaceTopLevelModel twiceModel "m" = .ok out ∧ Valid out (.obj members') := by
  have hread : (Json.unmarshal twiceModel).any hasModel = true := by decide +kernel
  obtain ⟨v, hobj, hmodel⟩ := (any_eq_true _ _).mp hread
  cases v with
  | obj members =>
    obtain ⟨m, hm, hmodel⟩ := any_eq_true.mp hmodel
    have hmem : ∃ m ∈ members, m.1 = "model" := ⟨m, hm, of_decide_eq_true hmodel⟩
    have hvalid := Json.valid_of_unmarshal hobj
    obtain ⟨_, _, _, _, _, _, -, -, -, hok, hvalid'⟩ :=
      ((replaceTopLevelModel_correct twiceModel "m").2 members hvalid).1 hmem
    exact ⟨members, _, _, hvalid, hmem, hok, hvalid'⟩
  | _ => cases hmodel

end HivenetRouter.Api
