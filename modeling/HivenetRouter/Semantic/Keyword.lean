import HivenetRouter.Api.ModelScan

/-!
# Keywords at word boundaries

`containsKeyword`, with the slices checked and a bound on the passes of its loop. After an
occurrence that is refused the loop goes on one byte behind its start, so that it meets every
occurrence (`containsKeywordFrom_ok`). How runes are decoded, and which of them are letters and
digits, is left open.
-/

namespace HivenetRouter.Semantic

open List Api

/-- The functions of `unicode/utf8` and `unicode`. -/
structure Unicode where
  decodeRune : GoString → ℕ
  decodeLastRune : GoString → ℕ
  isLetter : ℕ → Bool
  isDigit : ℕ → Bool

def index (s kw : GoString) : Option ℕ :=
  (range (s.length + 1)).find? fun i => kw.isPrefixOf (s.drop i)

namespace Unicode

variable (U : Unicode) (text kw : GoString)

def isWordRune (r : ℕ) : Bool := U.isLetter r || U.isDigit r || r = '_'.toNat

def boundaryBefore (i : ℕ) : Except Fault Bool :=
  if i = 0 then .ok true
  else (Checked.slice text 0 i).map fun s => !U.isWordRune (U.decodeLastRune s)

def boundaryAfter (i : ℕ) : Except Fault Bool :=
  if i ≥ text.length then .ok true
  else (Checked.slice text i text.length).map fun s => !U.isWordRune (U.decodeRune s)

def bounded (i : ℕ) : Except Fault Bool := do
  if ← U.boundaryBefore text i then U.boundaryAfter text (i + kw.length) else .ok false

/-- The loop of `containsKeyword`. -/
def containsKeywordFrom : ℕ → ℕ → Except Fault Bool
  | 0, _ => .error .running
  | passes + 1, start => do
    let s ← Checked.slice text start text.length
    match index s kw with
    | none => .ok false
    | some i =>
      if ← U.bounded text kw (start + i) then .ok true
      else if start + i + 1 ≥ text.length then .ok false
      else containsKeywordFrom passes (start + i + 1)

def containsKeyword (passes : ℕ) : Except Fault Bool :=
  if kw = [] then .ok false else U.containsKeywordFrom text kw passes 0

/-- **The keyword stands at the position as a word.** -/
structure Word (i : ℕ) : Prop where
  occurs : kw <+: text.drop i
  before : i ≠ 0 → U.isWordRune (U.decodeLastRune (text.take i)) = false
  after : i + kw.length < text.length →
    U.isWordRune (U.decodeRune (text.drop (i + kw.length))) = false

end Unicode

variable {text kw s : GoString} {i : ℕ}

theorem slice_from (h : i ≤ text.length) :
    Checked.slice text i text.length = .ok (text.drop i) := by
  rw [Checked.slice, if_pos ⟨h, le_rfl⟩, take_length]

theorem lt_length_of_occurs (hkw : kw ≠ []) (h : kw <+: s.drop i) :
    i + kw.length ≤ s.length ∧ 0 < kw.length := by
  have hpos := length_pos_of_ne_nil hkw
  have hle := h.length_le
  rw [length_drop] at hle
  omega

theorem index_eq_none (hkw : kw ≠ []) (h : index s kw = none) (i : ℕ) : ¬kw <+: s.drop i := by
  intro hi
  have hlt := lt_length_of_occurs hkw hi
  exact find?_eq_none.mp h i (mem_range.mpr (by omega)) <|
    isPrefixOf_iff_prefix.mpr hi

theorem index_eq_some (h : index s kw = some i) : kw <+: s.drop i ∧ ∀ j < i, ¬kw <+: s.drop j := by
  obtain ⟨hi, -, hleast⟩ := find?_range_eq_some.mp h
  have hoccurs := isPrefixOf_iff_prefix.mp hi
  refine ⟨hoccurs, fun j hj hj' => ?_⟩
  have htrue := isPrefixOf_iff_prefix.mpr hj'
  have hnot := hleast j hj
  rw [htrue] at hnot
  cases hnot

namespace Unicode

variable {U : Unicode} {passes start : ℕ}

theorem boundaryBefore_eq (h : i ≤ text.length) : U.boundaryBefore text i =
    .ok (decide (i ≠ 0 → U.isWordRune (U.decodeLastRune (text.take i)) = false)) := by
  unfold boundaryBefore
  split_ifs with hi
  · simp [hi]
  · simp [hi, Checked.slice, h, Except.map]

theorem boundaryAfter_eq (h : i ≤ text.length) : U.boundaryAfter text i =
    .ok (decide (i < text.length → U.isWordRune (U.decodeRune (text.drop i)) = false)) := by
  unfold boundaryAfter
  split_ifs with hi
  · simp [not_lt.mpr hi]
  · simp [not_le.mp hi, slice_from h, Except.map]

theorem bounded_iff (hkw : kw ≠ []) (h : kw <+: text.drop i) :
    ∃ found, U.bounded text kw i = .ok found ∧ (found = true ↔ U.Word text kw i) := by
  have hle := lt_length_of_occurs hkw h
  rw [bounded, boundaryBefore_eq (by omega)]
  by_cases hbefore : i ≠ 0 → U.isWordRune (U.decodeLastRune (text.take i)) = false
  · rw [decide_eq_true hbefore]
    refine ⟨_, boundaryAfter_eq hle.1, ?_⟩
    rw [decide_eq_true_iff]
    exact ⟨fun hafter => ⟨h, hbefore, hafter⟩, Word.after⟩
  · rw [decide_eq_false hbefore]
    exact ⟨false, rfl, iff_of_false nofun fun hword => hbefore hword.before⟩

theorem containsKeywordFrom_ok (hkw : kw ≠ []) (hstart : start ≤ text.length)
    (hpasses : text.length < start + passes) :
    ∃ found, U.containsKeywordFrom text kw passes start = .ok found ∧
      (found = true ↔ ∃ i, start ≤ i ∧ U.Word text kw i) := by
  induction passes generalizing start with
  | zero => omega
  | succ passes ih =>
    -- an occurrence behind the start, seen from there
    have hdrop : ∀ {i}, start ≤ i → text.drop i = (text.drop start).drop (i - start) := by
      intro i hi
      rw [drop_drop, Nat.add_sub_cancel' hi]
    simp only [containsKeywordFrom, slice_from hstart, bind, Except.bind]
    cases hindex : index (text.drop start) kw with
    | none =>
      refine ⟨false, rfl, iff_of_false nofun ?_⟩
      rintro ⟨i, hi, hword⟩
      exact index_eq_none hkw hindex _ (hdrop hi ▸ hword.occurs)
    | some i =>
      obtain ⟨hoccurs, hleast⟩ := index_eq_some hindex
      rw [drop_drop] at hoccurs
      obtain ⟨found, hfound, hword⟩ := bounded_iff (U := U) hkw hoccurs
      simp only [hfound]
      cases found with
      | true => exact ⟨true, rfl, iff_of_true rfl ⟨start + i, Nat.le_add_right _ _, hword.mp rfl⟩⟩
      | false =>
        -- no word before the occurrence, and none at it
        have hnext : ∀ j, start ≤ j ∧ U.Word text kw j ↔ start + i + 1 ≤ j ∧ U.Word text kw j := by
          refine fun j => and_congr_left fun hj => ⟨fun hle => ?_, fun hle => by omega⟩
          have hnot : ¬j - start < i := fun hlt => hleast _ hlt (hdrop hle ▸ hj.occurs)
          have hne : j ≠ start + i := fun heq => nomatch hword.mpr (heq ▸ hj)
          omega
        simp only [hnext, Bool.false_eq_true, if_false]
        split_ifs with hend
        · refine ⟨false, rfl, iff_of_false nofun ?_⟩
          rintro ⟨j, hj, hword⟩
          have hlt := lt_length_of_occurs hkw hword.occurs
          omega
        · exact ih (by omega) (by omega)

end Unicode

/-- **A keyword is found exactly if it stands somewhere as a word**, and no run is out of range
or needs more passes than the text has bytes, and one. -/
theorem containsKeyword_iff (U : Unicode) (text : GoString) {kw : GoString} (hkw : kw ≠ [])
    {passes : ℕ} (hpasses : text.length < passes) :
    ∃ found, U.containsKeyword text kw passes = .ok found ∧
      (found = true ↔ ∃ i, U.Word text kw i) := by
  rw [Unicode.containsKeyword, if_neg hkw]
  obtain ⟨found, hfound, hiff⟩ :=
    Unicode.containsKeywordFrom_ok (U := U) hkw (Nat.zero_le _) (by rwa [zero_add])
  exact ⟨found, hfound, hiff.trans (by simp only [Nat.zero_le, true_and])⟩

def ascii : Unicode where
  decodeRune s := (s.head?.map UInt8.toNat).getD 0
  decodeLastRune s := (s.getLast?.map UInt8.toNat).getD 0
  isLetter r := (Char.ofNat r).isAlpha
  isDigit r := (Char.ofNat r).isDigit

/-- `prpr pr`. -/
def demoText : GoString := [112, 114, 112, 114, 32, 112, 114]

theorem containsKeyword_demoText : ascii.containsKeyword demoText [112, 114] 8 = .ok true ∧
    ∃ i, ascii.Word demoText [112, 114] i := by
  have htrue : ascii.containsKeyword demoText [112, 114] 8 = .ok true := by decide +kernel
  obtain ⟨found, hfound, hiff⟩ := containsKeyword_iff ascii demoText
    (by decide : ([112, 114] : GoString) ≠ []) (by decide : demoText.length < 8)
  exact ⟨htrue, hiff.mp (Except.ok.inj (hfound.symm.trans htrue))⟩

end HivenetRouter.Semantic
