import Mathlib.Data.List.Lex

/-!
# Strings

A Go `string` is a string of bytes, of any bytes: it need not be UTF-8. Strings are compared
byte by byte, which is the order of lists.
-/

namespace HivenetRouter

instance linearOrderUInt8 : LinearOrder UInt8 where
  le_refl := UInt8.le_refl
  le_trans _ _ _ := UInt8.le_trans
  le_antisymm _ _ := UInt8.le_antisymm
  le_total := UInt8.le_total
  lt_iff_le_not_ge a b := by
    rw [UInt8.not_le]
    exact ⟨fun h => ⟨UInt8.le_of_lt h, h⟩, fun h => h.2⟩
  toDecidableLE := inferInstance

/-- A Go `string`. -/
abbrev GoString := List UInt8

end HivenetRouter

/-!
## UTF-8, with replacement of what is not UTF-8

Strings of bytes read as text. `decodeRune` reads the first character, and answers
`runeError` of width one where the bytes are not the encoding of a character; `decode`
reads all of them. The test of a single character is the one of the standard library.

A byte string that goes through a text, such as a JSON document, comes back as
`ofText (toText bs)`; it is unchanged exactly if it is UTF-8 (`IsText`).
-/

namespace HivenetRouter.Utf8

open List Nat UInt8

def runeError : Char := '�'

def decodeRune (bs : List UInt8) : Char × ℕ :=
  match (bs.take 4).toByteArray.utf8DecodeChar? 0 with
  | some c => (c, c.utf8Size)
  | none => (runeError, 1)

def decodeFrom : ℕ → List UInt8 → List Char
  | _, [] => []
  | skip + 1, _ :: bs => decodeFrom skip bs
  | 0, b :: bs => (decodeRune (b :: bs)).1 :: decodeFrom ((decodeRune (b :: bs)).2 - 1) bs

def decode (bs : List UInt8) : List Char := decodeFrom 0 bs

def encode (cs : List Char) : List UInt8 := cs.flatMap String.utf8EncodeChar

/-- The text of a byte string, where what is not UTF-8 is replaced. -/
def toText (bs : List UInt8) : String := String.ofList (decode bs)

def ofText (s : String) : List UInt8 := encode s.toList

theorem ofText_append (s t : String) : ofText (s ++ t) = ofText s ++ ofText t := by
  unfold ofText encode
  rw [String.toList_append, flatMap_append]

/-- The bytes of a literal, of which the kernel knows the characters. -/
theorem ofText_ofList (cs : List Char) : ofText (String.ofList cs) = encode cs :=
  congrArg encode String.toList_ofList

/-- The bytes are the UTF-8 encoding of a text. -/
def IsText (bs : List UInt8) : Prop := ofText (toText bs) = bs

instance (bs : List UInt8) : Decidable (IsText bs) := inferInstanceAs (Decidable (_ = _))

/-! ### Texts come back -/

theorem decodeRune_append (c : Char) (bs : List UInt8) :
    decodeRune (String.utf8EncodeChar c ++ bs) = (c, c.utf8Size) := by
  have hlength : (String.utf8EncodeChar c).length ≤ 4 := by
    rw [String.length_utf8EncodeChar]
    exact c.utf8Size_le_four
  unfold decodeRune
  rw [take_append, take_of_length_le hlength, toByteArray_append,
    ByteArray.utf8DecodeChar?_utf8EncodeChar_append]

theorem decodeFrom_append (skipped bs : List UInt8) :
    decodeFrom skipped.length (skipped ++ bs) = decodeFrom 0 bs := by
  induction skipped with
  | nil => rfl
  | cons b skipped ih => exact ih

theorem decode_encode (cs : List Char) : decode (encode cs) = cs := by
  induction cs with
  | nil => rfl
  | cons c cs ih =>
    obtain ⟨b, bs, hbs⟩ := exists_cons_of_ne_nil (String.utf8EncodeChar_ne_nil (c := c))
    have hrune := decodeRune_append c (encode cs)
    have hsize : c.utf8Size = bs.length + 1 := by
      rw [← String.length_utf8EncodeChar, hbs, length_cons]
    change decode (String.utf8EncodeChar c ++ encode cs) = c :: cs
    rw [hbs, cons_append] at hrune ⊢
    -- the first byte gives the character, and the others of its encoding are skipped
    rw [decode, decodeFrom, hrune, hsize, Nat.add_sub_cancel, decodeFrom_append]
    exact congrArg (c :: ·) ih

theorem isText_ofText (s : String) : IsText (ofText s) := by
  unfold IsText ofText toText
  rw [decode_encode, String.toList_ofList]

/-! ### ASCII -/

/-- An ASCII character is one byte. -/
theorem utf8EncodeChar_ascii {c : Char} (hc : c.toNat < 0x80) :
    String.utf8EncodeChar c = [c.toNat.toUInt8] := by
  have hle : c.val.toNat ≤ 0x7f := le_of_lt_succ hc
  exact if_pos hle

/-- No byte of another character is an ASCII one. -/
theorem le_of_mem_utf8EncodeChar {c : Char} (hc : 0x80 ≤ c.toNat) :
    ∀ b ∈ String.utf8EncodeChar c, 0x80 ≤ b := by
  have hfirst : ∀ n k m : ℕ, 0 < k ∧ 0x80 ≤ m ∧ m + k ≤ 256 → 0x80 ≤ ofNat (n % k + m) := by
    intro n k m ⟨hk, hm, hm'⟩
    have hlt := mod_lt n hk
    rw [le_iff_toNat_le, toNat_ofNat_of_lt' (by show _ < 256; omega)]
    exact Nat.le_trans hm (le_add_left _ _)
  have hne : ¬ c.val.toNat ≤ 0x7f := Nat.not_le_of_lt hc
  unfold String.utf8EncodeChar
  dsimp only
  have hnext : ∀ n : ℕ, 0x80 ≤ ofNat (n % 0x40 + 0x80) := fun n =>
    hfirst n _ _ (by decide)
  split_ifs
  · simp only [forall_mem_cons, not_mem_nil, false_imp_iff, implies_true, and_true]
    exact ⟨hfirst _ _ _ (by decide), hnext _⟩
  · simp only [forall_mem_cons, not_mem_nil, false_imp_iff, implies_true, and_true]
    exact ⟨hfirst _ _ _ (by decide), hnext _, hnext _⟩
  · simp only [forall_mem_cons, not_mem_nil, false_imp_iff, implies_true, and_true]
    exact ⟨hfirst _ _ _ (by decide), hnext _, hnext _, hnext _⟩

/-- What begins with another byte is not read as an ASCII character. -/
theorem decodeRune_not_ascii {b : UInt8} (hb : 0x80 ≤ b) (bs : List UInt8) :
    0x80 ≤ (decodeRune (b :: bs)).1.toNat := by
  unfold decodeRune
  split
  · next c hc =>
    show 0x80 ≤ c.toNat
    by_contra hascii
    have hlt : c.toNat < 0x80 := Nat.lt_of_not_le hascii
    obtain ⟨l, hl⟩ := ByteArray.exists_of_utf8DecodeChar?_eq_some hc
    rw [utf8EncodeChar_ascii hlt] at hl
    -- the first byte is that of the character
    have hfirst := congrArg (fun a => a.data.toList.head?) hl
    have hbyte : b = c.toNat.toUInt8 := by simpa using hfirst
    have hnat : c.toNat.toUInt8.toNat = c.toNat := toNat_ofNat_of_lt' (Nat.lt_trans hlt (by decide))
    rw [hbyte, le_iff_toNat_le, hnat] at hb
    exact hascii hb
  · decide

/-!
## Blanks around a string

`strings.TrimSpace` and `bytes.TrimSpace`. What is a blank is decided by the characters: from the
front they are read one after the other, and from the back by `decodeLastRune`, which finds the last
one without reading the others.
-/

def isSpace (c : Char) : Bool :=
  let n := c.toNat
  (0x09 ≤ n && n ≤ 0x0D) || n = 0x20 || n = 0x85 || n = 0xA0 || n = 0x1680 ||
    (0x2000 ≤ n && n ≤ 0x200A) || n = 0x2028 || n = 0x2029 || n = 0x202F || n = 0x205F || n = 0x3000

/-- `utf8.DecodeLastRune`: the last character and its width in bytes. -/
def decodeLastRune (bs : List UInt8) : Char × ℕ :=
  let last (n : ℕ) := decodeRune (bs.drop (bs.length - n))
  match [4, 3, 2].find? fun n => n ≤ bs.length && (last n).2 = n with
  | some n => last n
  | none => last 1

/-- `strings.TrimLeftFunc`, after the first `skip` bytes. -/
def trimLeftFrom : ℕ → GoString → GoString
  | _, [] => []
  | skip + 1, _ :: bs => trimLeftFrom skip bs
  | 0, b :: bs =>
    if isSpace (decodeRune (b :: bs)).1 then trimLeftFrom ((decodeRune (b :: bs)).2 - 1) bs
    else b :: bs

/-- `strings.TrimRightFunc`, with a bound on the characters that are removed. -/
def trimRightFrom : ℕ → GoString → GoString
  | 0, bs => bs
  | fuel + 1, bs =>
    if bs = [] then []
    else if isSpace (decodeLastRune bs).1 then
      trimRightFrom fuel (bs.take (bs.length - (decodeLastRune bs).2))
    else bs

def trimSpace (bs : GoString) : GoString :=
  let rest := trimLeftFrom 0 bs
  trimRightFrom rest.length rest

example : trimSpace (ofText " \t k m \n") = ofText "k m" := by decide +kernel

end HivenetRouter.Utf8
