import HivenetRouter.Framework.Json.Token
import HivenetRouter.Framework.Go

/-!
# The grammar of JSON texts

Which bytes spell a value. `Value d w v` says that `w` is a text of the value `v`, with nothing
around it, of at most `d` levels of nesting; `Valid` that a text is one value with space around it.
The grammar does not say how a text is read. The reader reads the texts of the grammar
(`parseValue_of_value`) and no others (`value_of_parseValue`).

The members of an object around the value of one of them are a text with a hole (`Hole`), which any
value fills (`Hole.fill`).
-/

namespace HivenetRouter.Json

open List Option Nat Prod

def Space (sp : List UInt8) : Prop := ∀ b ∈ sp, isSpace b = true

/-- Items, with a comma between two of them, and `close` at the end. -/
inductive Items {α : Type} (close : Char) (Item : List UInt8 → α → Prop) :
    List UInt8 → List α → Prop
  | last {w sp : List UInt8} {a : α} (item : Item w a) (space : Space sp) :
    Items close Item (w ++ (sp ++ [byte close])) [a]
  | more {w sp sp' t : List UInt8} {a : α} {as : List α} (item : Item w a) (space : Space sp)
    (space' : Space sp') (items : Items close Item t as) :
    Items close Item (w ++ (sp ++ byte ',' :: (sp' ++ t))) (a :: as)

inductive Enclosed {α : Type} (op close : Char) (Item : List UInt8 → α → Prop) :
    List UInt8 → List α → Prop
  | nil {sp : List UInt8} (space : Space sp) :
    Enclosed op close Item (byte op :: (sp ++ [byte close])) []
  | cons {sp t : List UInt8} {as : List α} (space : Space sp) (items : Items close Item t as) :
    Enclosed op close Item (byte op :: (sp ++ t)) as

/-- A member: its key in quotes, a colon, and a text of its value. -/
inductive Member (V : List UInt8 → Json → Prop) : List UInt8 → String × List UInt8 × Json → Prop
  | mk {q sp sp' raw : List UInt8} {key : String} {v : Json} (key_eq : parseString q =
    some (key, []))
    (space : Space sp) (space' : Space sp') (value : V raw v) :
    Member V (q ++ (sp ++ byte ':' :: (sp' ++ raw))) (key, raw, v)

/-- The bytes of a value, with at most so many levels of nesting. -/
def Value : ℕ → List UInt8 → Json → Prop
  | 0, w, v => parseScalar w = some (v, [])
  | d + 1, w, v =>
    parseScalar w = some (v, []) ∨
      (∃ members, v = obj members ∧ Enclosed '{' '}' (Member (Value d)) w members) ∨
      ∃ elems, v = arr elems ∧ Enclosed '[' ']' (Value d) w elems

def Valid (bs : List UInt8) (v : Json) : Prop :=
  ∃ d sp w sp', Space sp ∧ Value d w v ∧ Space sp' ∧ bs = sp ++ (w ++ sp')

/-! ### Space -/

section

variable {bs w rest : List UInt8} {v : Json} {d : ℕ} {α : Type} {close : Char} {as : List α}

variable {sp t : List UInt8} {V : List UInt8 → Json → Prop} {m : String × List UInt8 × Json}
  {items : List UInt8 → Option (List α × List UInt8)}

theorem skipSpace_append (hsp : Space sp) (hbs : Headed (isSpace · = false) bs) :
    skipSpace (sp ++ bs) = bs :=
  (takeWhile_append_headed hsp hbs).2

theorem exists_space (bs : List UInt8) : ∃ sp, Space sp ∧ bs = sp ++ skipSpace bs :=
  ⟨bs.takeWhile isSpace, fun b hb => all_eq_true.mp all_takeWhile b hb,
    takeWhile_append_dropWhile.symm⟩

theorem eat_byte (c : Char) (bs : List UInt8) : eat c (byte c :: bs) = some bs := if_pos rfl

/-! ### The first byte of a value -/

/-- A byte that neither is space nor ends an item. -/
def Begins (b : UInt8) : Prop := isSpace b = false ∧ b ≠ byte ',' ∧ b ≠ byte '}' ∧ b ≠ byte ']'

instance (b : UInt8) : Decidable (Begins b) := inferInstanceAs (Decidable (_ ∧ _))

/-- A byte of a number or a word begins a value. -/
theorem IsPlain.begins {b : UInt8} : IsPlain b → Begins b ∧ b ≠ byte '{' ∧ b ≠ byte '[' :=
  forall_byte (P := fun b => IsPlain b → Begins b ∧
    b ≠ byte '{' ∧ b ≠ byte '[') (by decide +kernel) b

/-- The text begins with a byte that begins a value. -/
def BeginsItem (w : List UInt8) : Prop := ∃ b w', w = b :: w' ∧ Begins b

theorem BeginsItem.headed (h : BeginsItem w) (rest : List UInt8) :
    Headed (isSpace · = false) (w ++ rest) := by
  obtain ⟨b, w', rfl, hb⟩ := h
  exact headed_cons.mpr hb.1

/-- A scalar does not begin with a bracket either. -/
theorem parseScalar_begins (h : parseScalar w = some (v, [])) :
    ∃ b w', w = b :: w' ∧ Begins b ∧ b ≠ byte '{' ∧ b ≠ byte '[' := by
  obtain ⟨w', hw, hkind, -⟩ := parseScalar_token h
  rw [append_nil] at hw
  subst hw
  obtain ⟨content, rfl, -⟩ | ⟨hne, hall⟩ := hkind
  · exact ⟨byte '"', _, rfl, by decide⟩
  · obtain ⟨b, w', rfl⟩ := exists_cons_of_ne_nil hne
    exact ⟨b, w', rfl, (hall b mem_cons_self).begins⟩

theorem Value.begins (h : Value d w v) : BeginsItem w := by
  have hscalar : parseScalar w = some (v, []) → BeginsItem w := by
    intro h
    obtain ⟨b, w', hw, hb, -⟩ := parseScalar_begins h
    exact ⟨b, w', hw, hb⟩
  cases d with
  | zero => exact hscalar h
  | succ =>
    obtain h | ⟨_, -, h⟩ | ⟨_, -, h⟩ := h
    · exact hscalar h
    · cases h <;> exact ⟨byte '{', _, rfl, by decide⟩
    · cases h <;> exact ⟨byte '[', _, rfl, by decide⟩

theorem Member.begins (h : Member V w m) : BeginsItem w := by
  obtain ⟨hkey, -, -, -⟩ := h
  obtain ⟨content, rfl, -⟩ := parseString_eq_some hkey
  exact ⟨byte '"', _, rfl, by decide⟩

variable {Item : List UInt8 → α → Prop} {members : List (String × List UInt8 × Json)}

theorem Items.begins (hitem : ∀ w a, Item w a → BeginsItem w) (h : Items close Item t as) :
    BeginsItem t := by
  cases h with
  | last item _ | more item _ _ _ =>
    obtain ⟨b, w', rfl, hb⟩ := hitem _ _ item
    exact ⟨b, _, rfl, hb⟩

theorem Items.length_le (h : Items close Item t as) : as.length ≤ t.length := by
  induction h with
  | last => simp only [length_append, length_singleton]; omega
  | more => simp only [length_append, length_cons]; omega

/-! ### The reader reads the grammar only -/

/-- What `items` reads is spelled by the grammar. -/
def Sound {α : Type} (items : List UInt8 → Option (List α × List UInt8))
    (Spells : List UInt8 → List α → Prop) : Prop :=
  ∀ bs as rest, items bs = some (as, rest) → ∃ t, bs = t ++ rest ∧ Spells t as

theorem separated_sound (hitems : Sound items (Items close Item)) {a : α} (ha : Item w a)
    (h : separated close items a bs = some (as, rest)) :
    ∃ t, w ++ bs = t ++ rest ∧ Items close Item t as := by
  obtain ⟨sp, hsp, hbs⟩ := exists_space bs
  rw [separated] at h
  split at h
  · next bs₁ hcomma =>
    obtain ⟨⟨as', rest'⟩, hmore, heq⟩ := map_eq_some_iff.mp h
    obtain ⟨rfl, rfl⟩ := mk.inj heq
    obtain ⟨sp', hsp', hbs₁⟩ := exists_space bs₁
    obtain ⟨t, ht, htas⟩ := hitems _ _ _ hmore
    refine ⟨_, ?_, .more ha hsp hsp' htas⟩
    rw [hbs, eat_eq_some hcomma, hbs₁, ht]
    simp
  · obtain ⟨rest', hclose, heq⟩ := map_eq_some_iff.mp h
    obtain ⟨rfl, rfl⟩ := mk.inj heq
    refine ⟨_, ?_, .last ha hsp⟩
    rw [hbs, eat_eq_some hclose]
    simp

theorem enclosed_sound {op : Char} {depth : ℕ} (hitems : Sound items (Items close Item))
    (h : enclosed close depth items bs = some (as, rest)) :
    depth ≠ 0 ∧ ∃ w, byte op :: bs = w ++ rest ∧ Enclosed op close Item w as := by
  obtain ⟨sp, hsp, hbs⟩ := exists_space bs
  obtain ⟨hdepth, h⟩ := ite_none_left_eq_some.mp h
  refine ⟨hdepth, ?_⟩
  split at h
  · next rest' hclose =>
    obtain ⟨rfl, rfl⟩ := mk.inj (some.inj h)
    refine ⟨_, ?_, .nil hsp⟩
    rw [hbs, eat_eq_some hclose]
    simp
  · obtain ⟨t, ht, htas⟩ := hitems _ _ _ h
    refine ⟨_, ?_, .cons hsp htas⟩
    rw [hbs, ht]
    simp

theorem consumed_append (w rest : List UInt8) : consumed (w ++ rest) rest = w := by
  rw [consumed, length_append, Nat.add_sub_cancel, take_left]

/-- A token that is read before `rest` is one by itself. -/
theorem parseString_self {s : String} (h : parseString bs = some (s, rest)) :
    ∃ q, bs = q ++ rest ∧ parseString q = some (s, []) ∧
      ∀ rest', parseString (q ++ rest') = some (s, rest') := by
  obtain ⟨content, rfl, hs, hscan⟩ := parseString_eq_some h
  have hread := fun rest' => parseString_quoted (hscan rest') hs
  refine ⟨quoted content, rfl, ?_, hread⟩
  have hnil := hread []
  rwa [append_nil] at hnil

theorem parseScalar_self (h : parseScalar bs = some (v, rest)) :
    ∃ w, bs = w ++ rest ∧ parseScalar w = some (v, []) := by
  obtain ⟨w, rfl, -, hread⟩ := parseScalar_token h
  have hnil := hread [] (headed_nil _)
  rw [append_nil] at hnil
  exact ⟨w, rfl, hnil⟩

theorem Value.of_scalar (h : parseScalar w = some (v, [])) (d : ℕ) : Value d w v := by
  cases d with
  | zero => exact h
  | succ => exact .inl h

/-- The three readers with `fuel` calls. -/
structure ReadsGrammar (fuel : ℕ) : Prop where
  value : ∀ d bs v rest, parseValue fuel d bs = some (v, rest) → ∃ w, bs = w ++ rest ∧ Value d w v
  members : ∀ d, Sound (parseMembers fuel d) (Items '}' (Member (Value d)))
  elems : ∀ d, Sound (parseElems fuel d) (Items ']' (Value d))

theorem readsGrammar (fuel : ℕ) : ReadsGrammar fuel := by
  -- by induction on the calls, for the three readers at once
  induction fuel with
  | zero =>
    exact ⟨fun d bs v rest h => by simp [parseValue] at h, fun d bs as rest h => by
      simp [parseMembers] at h, fun d bs as rest h => by simp [parseElems] at h⟩
  | succ fuel ih =>
    refine ⟨fun d bs v rest h => ?_, fun d bs as rest h => ?_, fun d bs as rest h => ?_⟩
    · rw [parseValue] at h
      split at h
      · next bs' heat =>
        obtain ⟨⟨ms, rest'⟩, hms, heq⟩ := map_eq_some_iff.mp h
        obtain ⟨rfl, rfl⟩ := mk.inj heq
        obtain ⟨hd, w, hw, hms⟩ := enclosed_sound (ih.members (d - 1)) hms
        obtain ⟨d, rfl⟩ := exists_eq_succ_of_ne_zero hd
        exact ⟨w, (eat_eq_some heat).trans hw, .inr (.inl ⟨ms, rfl, hms⟩)⟩
      split at h
      · next bs' heat =>
        obtain ⟨⟨es, rest'⟩, hes, heq⟩ := map_eq_some_iff.mp h
        obtain ⟨rfl, rfl⟩ := mk.inj heq
        obtain ⟨hd, w, hw, hes⟩ := enclosed_sound (ih.elems (d - 1)) hes
        obtain ⟨d, rfl⟩ := exists_eq_succ_of_ne_zero hd
        exact ⟨w, (eat_eq_some heat).trans hw, .inr (.inr ⟨es, rfl, hes⟩)⟩
      · obtain ⟨w, hw, hv⟩ := parseScalar_self h
        exact ⟨w, hw, .of_scalar hv d⟩
    · obtain ⟨⟨key, bs₁⟩, hkey, h⟩ := bind_eq_some_iff.mp h
      obtain ⟨bs₂, hcolon, h⟩ := bind_eq_some_iff.mp h
      obtain ⟨⟨v, bs₃⟩, hvalue, hmore⟩ := bind_eq_some_iff.mp h
      obtain ⟨q, hbs, hq, -⟩ := parseString_self hkey
      obtain ⟨sp, hsp, hbs₁⟩ := exists_space bs₁
      obtain ⟨sp', hsp', hbs₂⟩ := exists_space bs₂
      obtain ⟨raw, hraw, hv⟩ := ih.value _ _ _ _ hvalue
      dsimp only at hmore
      rw [hraw, consumed_append] at hmore
      obtain ⟨t, ht, htas⟩ := separated_sound (ih.members d) (Member.mk hq hsp hsp' hv) hmore
      refine ⟨t, ?_, htas⟩
      rw [← ht, hbs, hbs₁, eat_eq_some hcolon, hbs₂, hraw]
      simp
    · obtain ⟨⟨v, bs₁⟩, hvalue, hmore⟩ := bind_eq_some_iff.mp h
      obtain ⟨w, rfl, hv⟩ := ih.value _ _ _ _ hvalue
      exact separated_sound (ih.elems d) hv hmore

/-- **What the reader reads is spelled by the grammar.** -/
theorem value_of_parseValue {fuel : ℕ} (h : parseValue fuel d bs = some (v, rest)) :
    ∃ w, bs = w ++ rest ∧ Value d w v :=
  (readsGrammar fuel).value d bs v rest h

/-! ### The reader reads all of the grammar -/

theorem Space.headed (h : Space sp) : Headed EndsNumber sp := by
  have hspace : ∀ b : UInt8, isSpace b = true → EndsNumber b :=
    forall_byte (by unfold EndsNumber; decide +kernel)
  cases sp with
  | nil => exact headed_nil _
  | cons b => exact headed_cons.mpr (hspace b (h b mem_cons_self))

/-- A closing bracket is neither space nor a comma, and ends a number. -/
theorem closes {close : Char} (h : close ∈ ['}', ']']) :
    isSpace (byte close) = false ∧ byte close ≠ byte ',' ∧ EndsNumber (byte close) := by
  have hall : ∀ c ∈ ['}', ']'],
      isSpace (byte c) = false ∧ byte c ≠ byte ',' ∧ EndsNumber (byte c) :=
    forall_mem_of_all rfl
  exact hall close h

section Items

variable {op : Char} {item : ℕ → List UInt8 → Option (α × List UInt8)}

theorem separated_close {a : α} (hsp : Space sp) (hspace : isSpace (byte close) = false)
    (hcomma : byte close ≠ byte ',') :
    separated close items a (sp ++ byte close :: rest) = some ([a], rest) := by
  rw [separated, skipSpace_append hsp (headed_cons.mpr hspace), eat_eq_none hcomma, eat_byte]
  rfl

theorem separated_comma {a : α} {as : List α} {sp' bs : List UInt8} (hsp : Space sp)
    (hsp' : Space sp') (hbs : Headed (isSpace · = false) bs) (h : items bs = some (as, rest)) :
    separated close items a (sp ++ byte ',' :: (sp' ++ bs)) = some (a :: as, rest) := by
  have hcomma : isSpace (byte ',') = false := by decide
  rw [separated, skipSpace_append hsp (headed_cons.mpr hcomma), eat_byte]
  dsimp only
  rw [skipSpace_append hsp' hbs, h]
  rfl

theorem items_complete (items : ℕ → List UInt8 → Option (List α × List UInt8))
    (hclose : close ∈ ['}', ']'])
    (hstep : ∀ fuel bs, items (fuel + 1) bs =
      (item fuel bs).bind fun r => separated close (items fuel) r.1 r.2)
    (hbegins : ∀ w a, Item w a → BeginsItem w)
    (hitem : ∀ w a, Item w a → ∀ fuel rest, 2 * w.length < fuel → Headed EndsNumber rest →
      item fuel (w ++ rest) = some (a, rest))
    {t : List UInt8} {as : List α} (h : Items close Item t as) (fuel : ℕ) (rest : List UInt8)
    (hfuel : 2 * t.length < fuel) : items fuel (t ++ rest) = some (as, rest) := by
  obtain ⟨hspace, hne, hends⟩ := closes hclose
  -- each item takes one call, and at least one byte
  induction h generalizing fuel rest with
  | @last w sp a ha hsp =>
    obtain ⟨fuel, rfl⟩ := exists_eq_succ_of_ne_zero (Nat.ne_zero_of_lt hfuel)
    simp only [length_append, length_singleton] at hfuel
    have hread := hitem w a ha fuel (sp ++ byte close :: rest) (by omega)
      (hsp.headed.append (headed_cons.mpr hends))
    simp only [append_assoc, singleton_append]
    rw [hstep, hread]
    exact separated_close hsp hspace hne
  | @more w sp sp' t a as ha hsp hsp' ht ih =>
    obtain ⟨fuel, rfl⟩ := exists_eq_succ_of_ne_zero (Nat.ne_zero_of_lt hfuel)
    simp only [length_append, length_cons] at hfuel
    -- what follows an item is the comma or the bracket, at which a number ends
    have hcomma : EndsNumber (byte ',') := by unfold EndsNumber; decide
    have hread := hitem w a ha fuel (sp ++ byte ',' :: (sp' ++ (t ++ rest))) (by omega)
      (hsp.headed.append (headed_cons.mpr hcomma))
    simp only [append_assoc, cons_append]
    rw [hstep, hread]
    exact separated_comma hsp hsp' ((ht.begins hbegins).headed rest) (ih fuel rest (by omega))

theorem enclosed_complete {depth : ℕ} (hclose : close ∈ ['}', ']'])
    (hbegins : ∀ w a, Item w a → BeginsItem w) {fuel : ℕ}
    (hitems : ∀ t as rest, Items close Item t as → 2 * t.length < fuel →
      items (t ++ rest) = some (as, rest))
    {w rest : List UInt8} {as : List α} (h : Enclosed op close Item w as)
    (hfuel : 2 * w.length < fuel + 1) :
    ∃ bs, w ++ rest = byte op :: bs ∧ enclosed close (depth + 1) items bs = some (as, rest) := by
  obtain ⟨hspace, -, -⟩ := closes hclose
  cases h with
  | @nil sp hsp =>
    refine ⟨_, rfl, ?_⟩
    show enclosed close (depth + 1) items (sp ++ [byte close] ++ rest) = _
    rw [append_assoc, singleton_append, enclosed, if_neg (succ_ne_zero depth),
      skipSpace_append hsp (headed_cons.mpr hspace), eat_byte]
  | @cons sp t as hsp ht =>
    refine ⟨_, rfl, ?_⟩
    rw [length_cons, length_append] at hfuel
    have hbegin := ht.begins hbegins
    have hread := hitems t as rest ht (by omega)
    show enclosed close (depth + 1) items (sp ++ t ++ rest) = _
    rw [append_assoc, enclosed, if_neg (succ_ne_zero depth),
      skipSpace_append hsp (hbegin.headed rest)]
    -- the first item does not begin with the bracket
    obtain ⟨b, t, rfl, hb⟩ := hbegin
    have hnone : b ≠ byte close := by
      rw [mem_cons, mem_singleton] at hclose
      obtain rfl | rfl := hclose
      · exact hb.2.2.1
      · exact hb.2.2.2
    rw [cons_append, eat_eq_none hnone]
    exact hread

end Items

def parseMember (value : List UInt8 → Option (Json × List UInt8)) (bs : List UInt8) :
    Option ((String × List UInt8 × Json) × List UInt8) := do
  let (key, bs) ← parseString bs
  let bs ← eat ':' (skipSpace bs)
  let (v, rest) ← value (skipSpace bs)
  some ((key, consumed (skipSpace bs) rest, v), rest)

theorem parseMembers_succ (fuel d : ℕ) (bs : List UInt8) :
    parseMembers (fuel + 1) d bs = (parseMember (parseValue fuel d) bs).bind fun r =>
      separated '}' (parseMembers fuel d) r.1 r.2 := by
  rw [parseMembers, parseMember]
  simp [bind_assoc, bind]

theorem parseElems_succ (fuel d : ℕ) (bs : List UInt8) :
    parseElems (fuel + 1) d bs = (parseValue fuel d bs).bind fun r =>
      separated ']' (parseElems fuel d) r.1 r.2 := by
  rfl

theorem parseMember_complete {value : List UInt8 → Option (Json × List UInt8)}
    (hbegins : ∀ w v, V w v → BeginsItem w) (h : Member V w m)
    (hvalue : V m.2.1 m.2.2 → value (m.2.1 ++ rest) = some (m.2.2, rest)) :
    parseMember value (w ++ rest) = some (m, rest) := by
  obtain ⟨hkey, hsp, hsp', hv⟩ := h
  rename_i q sp sp' raw key v
  obtain ⟨q', hq', -, hread⟩ := parseString_self hkey
  rw [append_nil] at hq'
  subst hq'
  have hcolon : isSpace (byte ':') = false := by decide
  have hassoc : q ++ (sp ++ byte ':' :: (sp' ++ raw)) ++ rest =
      q ++ (sp ++ byte ':' :: (sp' ++ (raw ++ rest))) := by simp
  rw [hassoc, parseMember, hread]
  show (eat ':' _).bind _ = _
  rw [skipSpace_append hsp (headed_cons.mpr hcolon), eat_byte]
  show (value _).bind _ = _
  rw [skipSpace_append hsp' ((hbegins raw v hv).headed rest), hvalue hv]
  show some _ = _
  rw [consumed_append]

theorem parseValue_of_scalar (h : parseScalar w = some (v, [])) (fuel d : ℕ)
    (hrest : Headed EndsNumber rest) :
    parseValue (fuel + 1) d (w ++ rest) = some (v, rest) := by
  obtain ⟨w', hw, -, hread⟩ := parseScalar_token h
  rw [append_nil] at hw
  subst hw
  have hread := hread rest hrest
  obtain ⟨b, w', rfl, -, hobj, harr⟩ := parseScalar_begins h
  rw [cons_append] at hread ⊢
  rw [parseValue, eat_eq_none hobj, eat_eq_none harr]
  exact hread

/-- **The reader reads every text of the grammar**, whatever follows it that does not go on with a
number. Anything may follow an object. -/
theorem parseValue_of_value (h : Value d w v) (fuel : ℕ) (rest : List UInt8)
    (hfuel : 2 * w.length < fuel) (hrest : (∀ members, v ≠ obj members) → Headed EndsNumber rest) :
    parseValue fuel d (w ++ rest) = some (v, rest) := by
  have hscalar : parseScalar w = some (v, []) → Headed EndsNumber rest := fun h =>
    hrest fun members heq => by rw [heq] at h; exact parseScalar_isScalar h
  clear hrest
  -- by induction on the depth: the items of an object or an array are of a smaller one
  induction d generalizing w v fuel rest with
  | zero =>
    obtain ⟨fuel, rfl⟩ := Nat.exists_eq_succ_of_ne_zero (Nat.ne_zero_of_lt hfuel)
    exact parseValue_of_scalar h fuel 0 (hscalar h)
  | succ d ih =>
    obtain ⟨fuel, rfl⟩ := Nat.exists_eq_succ_of_ne_zero (Nat.ne_zero_of_lt hfuel)
    have hbegins : ∀ w v, Value d w v → BeginsItem w := fun _ _ hv => hv.begins
    obtain h | ⟨members, rfl, h⟩ | ⟨elems, rfl, h⟩ := h
    · exact parseValue_of_scalar h fuel (d + 1) (hscalar h)
    · have hitem : ∀ w m, Member (Value d) w m → ∀ fuel rest, 2 * w.length < fuel →
          Headed EndsNumber rest → parseMember (parseValue fuel d) (w ++ rest) =
            some (m, rest) := by
        intro w m hm fuel rest hfuel hrest
        refine parseMember_complete hbegins hm fun hv => ih hv fuel rest ?_ fun _ => hrest
        obtain ⟨-, -, -, -⟩ := hm
        simp only [length_append, length_cons] at hfuel
        dsimp only
        omega
      have hitems : ∀ t as rest, Items '}' (Member (Value d)) t as → 2 * t.length < fuel →
          parseMembers fuel d (t ++ rest) = some (as, rest) := fun t as rest ht hlen =>
        items_complete (fun fuel => parseMembers fuel d) (by decide)
          (fun fuel bs => parseMembers_succ fuel d bs) (fun _ _ hm => hm.begins) hitem ht fuel rest
            hlen
      obtain ⟨bs, hbs, hread⟩ :=
        enclosed_complete (by decide) (fun _ _ hm => hm.begins) hitems h hfuel
      rw [hbs, parseValue, eat_byte]
      exact congrArg (Option.map fun r => (obj r.1, r.2)) hread
    · have hitems : ∀ t as rest, Items ']' (Value d) t as → 2 * t.length < fuel →
          parseElems fuel d (t ++ rest) = some (as, rest) := fun t as rest ht hlen =>
        items_complete (fun fuel => parseElems fuel d) (by decide)
          (fun fuel bs => parseElems_succ fuel d bs) hbegins
          (fun w v hv fuel rest hfuel hrest => ih hv fuel rest hfuel fun _ => hrest) ht fuel rest
            hlen
      obtain ⟨bs, hbs, hread⟩ := enclosed_complete (by decide) hbegins hitems h hfuel
      rw [hbs, parseValue, eat_eq_none (by decide), eat_byte]
      exact congrArg (Option.map fun r => (arr r.1, r.2)) hread

/-! ### Whole texts -/

theorem skipSpace_space (h : Space sp) : skipSpace sp = [] := by
  have hskip := skipSpace_append h (headed_nil _)
  rwa [append_nil] at hskip

/-- **`unmarshal` reads the valid texts** of at most `maxNestingDepth` levels. -/
theorem unmarshal_eq_some_iff :
    unmarshal bs = some v ↔ ∃ sp w sp', Space sp ∧ Value maxNestingDepth w v ∧ Space sp' ∧
      bs = sp ++ (w ++ sp') := by
  constructor
  · intro h
    obtain ⟨⟨v', rest⟩, hparse, hend⟩ := bind_eq_some_iff.mp h
    obtain ⟨hnil, heq⟩ := ite_none_right_eq_some.mp hend
    obtain rfl := some.inj heq
    obtain ⟨w, hw, hv⟩ := value_of_parseValue hparse
    obtain ⟨sp, hsp, hbs⟩ := exists_space bs
    obtain ⟨sp', hsp', hrest⟩ := exists_space rest
    rw [hnil, append_nil] at hrest
    exact ⟨sp, w, sp', hsp, hv, hsp', by rw [hbs, hw, hrest]⟩
  · rintro ⟨sp, w, sp', hsp, hv, hsp', rfl⟩
    have hskip := skipSpace_append hsp (hv.begins.headed sp')
    have hread := parseValue_of_value hv (2 * (sp ++ (w ++ sp')).length + 1) sp'
      (by simp only [length_append]; omega) fun _ => hsp'.headed
    rw [unmarshal, parse, hskip, hread]
    exact if_pos (skipSpace_space hsp')

theorem valid_of_unmarshal (h : unmarshal bs = some v) : Valid bs v := by
  obtain ⟨sp, w, sp', hsp, hv, hsp', hbs⟩ := unmarshal_eq_some_iff.mp h
  exact ⟨maxNestingDepth, sp, w, sp', hsp, hv, hsp', hbs⟩

/-- **An object is read off the front of a text**, whatever follows it. -/
theorem parse_obj_iff : parse bs = some (obj members, rest) ↔
      ∃ sp w, Space sp ∧ Value maxNestingDepth w (obj members) ∧ bs = sp ++ (w ++ rest) := by
  constructor
  · intro h
    obtain ⟨w, hw, hv⟩ := value_of_parseValue h
    obtain ⟨sp, hsp, hbs⟩ := exists_space bs
    exact ⟨sp, w, hsp, hv, by rw [hbs, hw]⟩
  · rintro ⟨sp, w, hsp, hv, rfl⟩
    rw [parse, skipSpace_append hsp (hv.begins.headed rest)]
    refine parseValue_of_value hv _ rest ?_ fun hobj => absurd rfl (hobj members)
    simp only [length_append]
    omega

/-- The text of an object: a brace, space, and the members if there are any. -/
theorem Value.enclosed (h : Value d w (obj members)) :
    ∃ d', d = d' + 1 ∧ Enclosed '{' '}' (Member (Value d')) w members := by
  have hscalar : parseScalar w ≠ some (obj members, []) := parseScalar_isScalar
  cases d with
  | zero => exact absurd h hscalar
  | succ d =>
    obtain h | ⟨members', heq, h⟩ | ⟨elems, heq, -⟩ := h
    · exact absurd h hscalar
    · obtain rfl := obj.inj heq
      exact ⟨d, rfl, h⟩
    · cases heq

/-! ### Arrays are no longer than their text -/

theorem Items.exists_of_mem {a : α} (h : Items close Item t as) (ha : a ∈ as) :
    ∃ w, Item w a ∧ w.length ≤ t.length := by
  induction h with
  | last item _ =>
    obtain rfl := mem_singleton.mp ha
    exact ⟨_, item, (sublist_append_left _ _).length_le⟩
  | more item _ _ _ ih =>
    obtain rfl | ha := mem_cons.mp ha
    · exact ⟨_, item, (sublist_append_left _ _).length_le⟩
    · obtain ⟨w, hw, hle⟩ := ih ha
      refine ⟨w, hw, Nat.le_trans hle ?_⟩
      simp only [length_append, length_cons]
      omega

theorem Value.atMost (h : Value d w v) : v.AtMost w.length := by
  cases d with
  | zero => exact (parseScalar_isScalar h).atMost _
  | succ =>
    obtain h | ⟨members, rfl, -⟩ | ⟨elems, rfl, h⟩ := h
    · exact (parseScalar_isScalar h).atMost _
    · trivial
    · cases h with
      | nil _ => exact zero_le _
      | cons _ items =>
        refine Nat.le_trans items.length_le ?_
        simp only [length_append, length_cons]
        omega

/-- In an object read from a text, no member is an array longer than the text. -/
theorem parse_obj_atMost (h : parse bs = some (obj members, rest)) :
    ∀ m ∈ members, m.2.2.AtMost bs.length := by
  intro m hm
  obtain ⟨sp, w, -, hw, rfl⟩ := parse_obj_iff.mp h
  obtain ⟨d, -, henclosed⟩ := hw.enclosed
  cases henclosed with
  | nil => exact absurd hm not_mem_nil
  | cons _ items =>
    -- the member's text is part of the object's, and its value's of the member's
    obtain ⟨w', ⟨_, _, _, hvalue⟩, hle⟩ := items.exists_of_mem hm
    refine hvalue.atMost.mono ?_
    simp only [length_append, length_cons] at hle ⊢
    omega

/-! ### A text with a hole -/

/-- The members of an object around the value of one of them: the text before and behind the value,
the members before and behind its member, and its key. -/
inductive Hole (V : List UInt8 → Json → Prop) : List UInt8 → List UInt8 →
    List (String × List UInt8 × Json) → String → List (String × List UInt8 × Json) → Prop
  | last {q sp sp' sp₁ : List UInt8} {key : String} (key_eq : parseString q = some (key, []))
    (space : Space sp) (space' : Space sp') (space₁ : Space sp₁) :
    Hole V (q ++ (sp ++ byte ':' :: sp')) (sp₁ ++ [byte '}']) [] key []
  | first {q sp sp' sp₁ sp₂ t : List UInt8} {key : String}
    {after : List (String × List UInt8 × Json)}
    (key_eq : parseString q = some (key, [])) (space : Space sp) (space' : Space sp')
    (space₁ : Space sp₁) (space₂ : Space sp₂) (items : Items '}' (Member V) t after) :
    Hole V (q ++ (sp ++ byte ':' :: sp')) (sp₁ ++ byte ',' :: (sp₂ ++ t)) [] key after
  | more {w sp₁ sp₂ pre post : List UInt8} {m : String × List UInt8 × Json} {key : String}
    {before after : List (String × List UInt8 × Json)} (member : Member V w m) (space₁ : Space sp₁)
    (space₂ : Space sp₂) (hole : Hole V pre post before key after) :
    Hole V (w ++ (sp₁ ++ byte ',' :: (sp₂ ++ pre))) post (m :: before) key after

/-- **Any value fills the hole**, and the other members stay as they are. -/
theorem Hole.fill {V : List UInt8 → Json → Prop} {pre post raw : List UInt8} {key : String}
    {before after : List (String × List UInt8 × Json)} {v : Json}
      (h : Hole V pre post before key after)
    (hv : V raw v) :
    Items '}' (Member V) (pre ++ (raw ++ post)) (before ++ (key, raw, v) :: after) := by
  induction h with
  | last hkey hsp hsp' hsp₁ =>
    have hitems : Items '}' (Member V) _ _ := .last (Member.mk hkey hsp hsp' hv) hsp₁
    simpa using hitems
  | first hkey hsp hsp' hsp₁ hsp₂ ht =>
    have hitems := Items.more (Member.mk hkey hsp hsp' hv) hsp₁ hsp₂ ht
    simpa using hitems
  | more hm hsp₁ hsp₂ _ ih =>
    have hitems := Items.more hm hsp₁ hsp₂ ih
    simpa using hitems

theorem Items.hole {V : List UInt8 → Json → Prop} {t raw : List UInt8} {key : String} {v : Json}
    {members before after : List (String × List UInt8 × Json)} (h : Items '}' (Member V) t members)
    (hsplit : members = before ++ (key, raw, v) :: after) :
    ∃ pre post, t = pre ++ (raw ++ post) ∧ Hole V pre post before key after ∧ V raw v := by
  induction h generalizing before with
  | last hm hsp₁ =>
    cases before with
    | nil =>
      obtain ⟨rfl, rfl⟩ := cons.inj hsplit
      obtain ⟨hkey, hsp, hsp', hv⟩ := hm
      exact ⟨_, _, by simp, .last hkey hsp hsp' hsp₁, hv⟩
    -- there is no member after the last
    | cons m before => cases before <;> cases hsplit
  | more hm hsp₁ hsp₂ ht ih =>
    cases before with
    | nil =>
      obtain ⟨rfl, rfl⟩ := cons.inj hsplit
      obtain ⟨hkey, hsp, hsp', hv⟩ := hm
      exact ⟨_, _, by simp, .first hkey hsp hsp' hsp₁ hsp₂ ht, hv⟩
    | cons =>
      obtain ⟨rfl, hrest⟩ := cons.inj hsplit
      obtain ⟨pre, post, rfl, hhole, hv⟩ := ih hrest
      exact ⟨_, post, by simp, .more hm hsp₁ hsp₂ hhole, hv⟩

/-- What is written for a string is a text of it. -/
theorem value_quote (s : String) (d : ℕ) : Value d (quote s) (.str s) := by
  refine .of_scalar ?_ d
  have hstring := parseString_quote s []
  rw [append_nil] at hstring
  rw [parseScalar, hstring]

end

/-!
## Decoding JSON values into records

`encoding/json`'s decoder on parsed values. A decoder of a type takes the value that is
already there, since a later duplicate of a key decodes over an earlier one, and gives
`none` where `Unmarshal` returns an error.

A member goes to the field that has exactly its key or, failing that, to one that has its
key up to case (`lookupField`). The names of fields are ASCII, so `foldRune` only has to
identify the characters that some ASCII letter is equal to up to case.
-/

/-- `foldRune`, on the characters that are an ASCII letter up to case. -/
def foldRune (c : Char) : Char := if c = 'ſ' then 'S' else if c = 'K' then 'K' else c.toUpper

def foldName (s : String) : List Char := s.toList.map foldRune

def lookupField {F : Type} (fields : List (String × F)) (key : String) : Option F :=
  match fields.find? fun f => f.1 = key with
  | some f => some f.2
  | none => (fields.find? fun f => foldName f.1 = foldName key).map (·.2)

/-- A struct: its fields, and how the value of a member is decoded into one of them.
Members that no field takes are skipped, and `null` changes nothing. -/
def decodeStruct {F S : Type} (fields : List (String × F))
    (set : F → List UInt8 → Json → S → Option S) (cur : S) : Json → Option S
  | null => some cur
  | obj members => members.foldlM (fun s m =>
      match lookupField fields m.1 with
      | some f => set f m.2.1 m.2.2 s
      | none => some s) cur
  | _ => none

def decodeString (cur : String) : Json → Option String
  | null => some cur
  | str s => some s
  | _ => none

def decodeBool (cur : Bool) : Json → Option Bool
  | null => some cur
  | bool b => some b
  | _ => none

def ofDigits (ds : List UInt8) : ℕ := ds.foldl (fun n d => n * 10 + (d.toNat - 48)) 0

/-- `strconv.ParseInt` on the literal of a number: digits only, in the range of `int64`. -/
def parseInt (lit : List UInt8) : Option ℤ :=
  let sign := scanSign ['-'] lit
  let x : ℤ := if sign.1 = [] then ofDigits sign.2 else -ofDigits sign.2
  if sign.2.all isDigit ∧ Fits64 x then some x else none

def decodeInt (cur : ℤ) : Json → Option ℤ
  | null => some cur
  | num lit => parseInt lit
  | _ => none

def magnitude (lit : List UInt8) : ℚ :=
  let bs := (scanSign ['-'] lit).2
  let int := bs.takeWhile isDigit
  let bs := (scanSign ['.'] (bs.dropWhile isDigit)).2
  let frac := bs.takeWhile isDigit
  let sign := scanSign ['+', '-'] (scanSign ['e', 'E'] (bs.dropWhile isDigit)).2
  let exp : ℤ := if sign.1 = [byte '-'] then -ofDigits sign.2 else ofDigits sign.2
  ofDigits (int ++ frac) * 10 ^ (exp - frac.length)

/-- Whether a value decodes into a `float64`: a number that does not round to infinity. -/
def checkFloat : Json → Option Unit
  | null => some ()
  | num lit => if magnitude lit < 2 ^ 1024 - 2 ^ 970 then some () else none
  | _ => none

/-- A slice: the elements of an array, each decoded into a zero value. -/
def decodeSlice {α : Type} (elem : Json → Option α) : Json → Option (List α)
  | null => some []
  | arr elems => elems.mapM elem
  | _ => none

variable {F : Type} {fields : List (String × F)} {S : Type} {v : Json} {f : F} {α : Type}

variable {set : F → List UInt8 → Json → S → Option S} {m : String × List UInt8 × Json}
  {members : List (String × List UInt8 × Json)} {as : List α}

/-- What every assignment to a field preserves, decoding preserves; `Q` is what the
assignments may use of the members' values. -/
theorem decodeStruct_preserves {P : S → Prop} {Q : Json → Prop}
    (hset : ∀ {f raw v s s'}, Q v → P s → set f raw v s = some s' → P s') {cur s : S}
    (hv : ∀ members, v = obj members → ∀ m ∈ members, Q m.2.2) (hcur : P cur)
    (h : decodeStruct fields set cur v = some s) : P s := by
  cases v with
  | null =>
    rw [← some.inj h]
    exact hcur
  | obj members =>
    rw [decodeStruct] at h
    replace hv := hv members rfl
    -- by induction on the members, from any current value
    induction members generalizing cur with
    | nil =>
      rw [← some.inj h]
      exact hcur
    | cons m members ih =>
      rw [foldlM_cons] at h
      obtain ⟨mid, hmid, h⟩ := bind_eq_some_iff.mp h
      refine ih ?_ h fun m' hm' => hv m' (mem_cons_of_mem m hm')
      split at hmid
      · exact hset (hv m mem_cons_self) hcur hmid
      · rw [← some.inj hmid]
        exact hcur
  | _ => exact absurd h (by simp [decodeStruct])

/-- **An object decodes exactly if every member that a field takes does**, where whether a value
decodes does not depend on what is there already. -/
theorem decodeStruct_isSome_iff
    (hset : ∀ f raw v s s', (set f raw v s).isSome = (set f raw v s').isSome) (cur zero : S)
    (members : List (String × List UInt8 × Json)) :
    (decodeStruct fields set cur (obj members)).isSome ↔
      ∀ m ∈ members, ∀ f ∈ lookupField fields m.1, (set f m.2.1 m.2.2 zero).isSome := by
  rw [decodeStruct]
  induction members generalizing cur with
  | nil => exact iff_of_true rfl fun _ hm => absurd hm not_mem_nil
  | cons m members ih =>
    rw [foldlM_cons, forall_mem_cons]
    cases hf : lookupField fields m.1 with
    | none =>
      have hnone : ∀ f ∈ (none : Option F), (set f m.2.1 m.2.2 zero).isSome :=
        fun _ hf => nomatch hf
      exact (ih cur).trans (and_iff_right hnone).symm
    | some f =>
      have hfield : (∀ g ∈ some f, (set g m.2.1 m.2.2 zero).isSome) ↔
          (set f m.2.1 m.2.2 cur).isSome := by
        -- whether it decodes may be asked with any current value
        rw [hset f _ _ cur zero]
        exact ⟨fun h => h f rfl, fun h g hg => some.inj hg ▸ h⟩
      rw [hfield]
      dsimp only
      cases hmid : set f m.2.1 m.2.2 cur with
      | none => exact iff_of_false Bool.false_ne_true fun h => Bool.false_ne_true h.1
      | some mid => exact (ih mid).trans (and_iff_right rfl).symm

/-! ### Which member a field is read from -/

/-- A field takes the members whose key is its name up to case, if no two fields agree up
to case. -/
theorem lookupField_eq_some_iff (hnames : (fields.map fun f => foldName f.1).Nodup)
    (hfields : (fields.map (·.2)).Nodup) {name : String} (hf : (name, f) ∈ fields) (key : String) :
    lookupField fields key = some f ↔ foldName key = foldName name := by
  have hname : ∀ g ∈ fields, foldName g.1 = foldName name → g = (name, f) :=
    fun g hg hfold => inj_on_of_nodup_map hnames hg hf hfold
  have hfield : ∀ g ∈ fields, g.2 = f → g = (name, f) :=
    fun g hg hgf => inj_on_of_nodup_map hfields hg hf hgf
  unfold lookupField
  -- a field whose name is the key is preferred; if there is one, no other field agrees with it
  cases hexact : fields.find? fun f => f.1 = key with
  | some g =>
    have hg := mem_of_find?_eq_some hexact
    have hkey : g.1 = key := by simpa using find?_some hexact
    constructor
    · intro h
      rw [← hkey, hfield g hg (some.inj h)]
    · intro h
      rw [← hkey] at h
      rw [hname g hg h]
  | none =>
    constructor
    · intro h
      obtain ⟨g, hfind, hgf⟩ := map_eq_some_iff.mp h
      have hkey : foldName g.1 = foldName key := by simpa using find?_some hfind
      rw [← hkey, hfield g (mem_of_find?_eq_some hfind) hgf]
    · intro h
      cases hfind : fields.find? fun f => foldName f.1 = foldName key with
      | some g =>
        have hkey : foldName g.1 = foldName key := by simpa using find?_some hfind
        rw [hname g (mem_of_find?_eq_some hfind) (hkey.trans h)]
        rfl
      | none =>
        -- the field itself would have been found
        have := find?_eq_none.mp hfind (name, f) hf
        exact absurd (decide_eq_true h.symm) this

/-- The values of the members that the field `f` takes, in order. -/
def valuesFor {F : Type} [DecidableEq F] (fields : List (String × F)) (f : F)
    (members : List (String × List UInt8 × Json)) : List Json :=
  (members.filter fun m => lookupField fields m.1 = some f).map (·.2.2)

theorem valuesFor_cons_of_eq [DecidableEq F] (hm : lookupField fields m.1 = some f)
    (members : List (String × List UInt8 × Json)) :
    valuesFor fields f (m :: members) = m.2.2 :: valuesFor fields f members := by
  unfold valuesFor
  rw [filter_cons_of_pos (by simpa using hm), map_cons]

theorem valuesFor_cons_of_ne [DecidableEq F] (hm : lookupField fields m.1 ≠ some f)
    (members : List (String × List UInt8 × Json)) :
    valuesFor fields f (m :: members) = valuesFor fields f members := by
  unfold valuesFor
  rw [filter_cons_of_neg (by simpa using hm)]

theorem valuesFor_append [DecidableEq F] (fields : List (String × F)) (f : F)
    (as bs : List (String × List UInt8 × Json)) :
    valuesFor fields f (as ++ bs) = valuesFor fields f as ++ valuesFor fields f bs := by
  unfold valuesFor
  rw [filter_append, map_append]

def asString : Json → Option String
  | str s => some s
  | _ => none

/-- The last string among the values. -/
def lastString : List Json → Option String
  | [] => none
  | v :: vs => (lastString vs).or v.asString

theorem lastString_append (as bs : List Json) :
    lastString (as ++ bs) = (lastString bs).or (lastString as) := by
  induction as with
  | nil => exact or_none.symm
  | cons a as ih => rw [cons_append, lastString, ih, lastString, Option.or_assoc]

/-- What decoding a string leaves in its place: the string, or what was there. -/
theorem lastString_getD_cons {cur s : String} (h : decodeString cur v = some s) (vs : List Json) :
    (lastString (v :: vs)).getD cur = (lastString vs).getD s := by
  rw [lastString]
  cases lastString vs with
  | some => rfl
  | none =>
    cases v with
    | null | str => exact some.inj h
    | _ => exact absurd h (by simp [decodeString])

/-- **A string field is read from the last of its members that is a string.** The field is
decoded with `decodeString`, and no other field writes to it. -/
theorem decodeStruct_string [DecidableEq F] {get : S → String}
    (hset : ∀ {raw v s s'}, set f raw v s = some s' → decodeString (get s) v = some (get s'))
    (hother : ∀ {f' raw v s s'}, f' ≠ f → set f' raw v s = some s' → get s' = get s) {cur s : S}
    (h : decodeStruct fields set cur (obj members) = some s) :
    get s = (lastString (valuesFor fields f members)).getD (get cur) := by
  rw [decodeStruct] at h
  induction members generalizing cur with
  | nil =>
    rw [← some.inj h]
    rfl
  | cons m members ih =>
    rw [foldlM_cons] at h
    obtain ⟨mid, hmid, h⟩ := bind_eq_some_iff.mp h
    rw [ih h]
    by_cases hf : lookupField fields m.1 = some f
    · -- a member of the field: its value is decoded first
      rw [hf] at hmid
      rw [valuesFor_cons_of_eq hf, lastString_getD_cons (hset hmid)]
    · -- a member of another field, or of none
      have hget : get mid = get cur := by
        split at hmid
        · next f' hf' => exact hother (fun heq => hf (heq ▸ hf')) hmid
        · rw [← some.inj hmid]
      rw [valuesFor_cons_of_ne hf, hget]

/-! ### A reader that compares keys exactly -/

/-- The value of the last member with exactly this key, and the members after it. -/
def lastMember (key : String) : List (String × List UInt8 × Json) →
    Option (Json × List (String × List UInt8 × Json))
  | [] => none
  | m :: members =>
    match lastMember key members with
    | some r => some r
    | none => if m.1 = key then some (m.2.2, members) else none

theorem lastMember_eq_some {key : String} {r : Json × List (String × List UInt8 × Json)}
    (h : lastMember key members = some r) :
    ∃ before raw, members = before ++ (key, raw, r.1) :: r.2 := by
  induction members with
  | nil => exact absurd h (by simp [lastMember])
  | cons m members ih =>
    rw [lastMember] at h
    split at h
    · next r' hr' =>
      obtain ⟨before, raw, hmembers⟩ := ih (hr'.trans h)
      exact ⟨m :: before, raw, by rw [hmembers, cons_append]⟩
    · obtain ⟨hkey, hr⟩ := ite_none_right_eq_some.mp h
      exact ⟨[], m.2.1, by rw [← some.inj hr, ← hkey, nil_append]⟩

/-! ### Numbers and slices -/

theorem parseInt_fits {lit : List UInt8} {x : ℤ} (h : parseInt lit = some x) : Fits64 x := by
  obtain ⟨⟨-, hfits⟩, hx⟩ := ite_none_right_eq_some.mp h
  rw [← some.inj hx]
  exact hfits

theorem decodeInt_fits {cur : ℤ} (hcur : Fits64 cur) {x : ℤ} (h : decodeInt cur v = some x) :
    Fits64 x := by
  cases v with
  | null =>
    rw [← some.inj h]
    exact hcur
  | num => exact parseInt_fits h
  | _ => exact absurd h (by simp [decodeInt])

theorem mapM_length {β : Type} {f : α → Option β} {bs : List β} (h : as.mapM f = some bs) :
    bs.length = as.length := by
  induction as generalizing bs with
  | nil =>
    rw [← some.inj h]
    rfl
  | cons a as ih =>
    rw [mapM_cons] at h
    obtain ⟨b, -, h⟩ := bind_eq_some_iff.mp h
    obtain ⟨bs', hbs', h⟩ := bind_eq_some_iff.mp h
    rw [← some.inj h, length_cons, length_cons, ih hbs']

theorem decodeSlice_length {elem : Json → Option α} {n : ℕ} (hv : v.AtMost n)
    (h : decodeSlice elem v = some as) : as.length ≤ n := by
  cases v with
  | null =>
    rw [← some.inj h]
    exact Nat.zero_le _
  | arr =>
    rw [mapM_length h]
    exact hv
  | _ => exact absurd h (by simp [decodeSlice])

end HivenetRouter.Json
