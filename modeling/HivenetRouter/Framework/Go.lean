import Mathlib.Data.Rat.Floor
import Mathlib.Data.Int.Log
import Mathlib.Data.Finmap
import Mathlib.Algebra.BigOperators.Ring.Finset

/-!
# Go: integers, floats, sorting, maps

Go's `int` and `int64` on a 64-bit platform, as integers with an explicit wrap-around:
an arithmetic result is `wrap64` of the exact one. `Fits64` is the range in which
nothing wraps (`wrap64_of_fits`), and the image of `wrap64` (`wrap64_fits`).
-/

namespace HivenetRouter

/-- Reduction modulo `2^64` to a signed 64-bit value. -/
def wrap64 (x : ℤ) : ℤ := Int.bmod x (2 ^ 64)

def Fits64 (x : ℤ) : Prop := -2 ^ 63 ≤ x ∧ x < 2 ^ 63

instance (x : ℤ) : Decidable (Fits64 x) := inferInstanceAs (Decidable (_ ∧ _))

theorem wrap64_of_fits {x : ℤ} (h : Fits64 x) : wrap64 x = x := by
  obtain ⟨hlo, hhi⟩ := h
  unfold wrap64 Int.bmod
  dsimp only
  split <;> omega

theorem wrap64_fits (x : ℤ) : Fits64 (wrap64 x) := by
  unfold wrap64 Int.bmod Fits64
  dsimp only
  split <;> omega

/-- A sum of two 64-bit values that is too large comes out negative: it is off by
`2^64`. -/
theorem wrap64_of_ge {x : ℤ} (hlo : 2 ^ 63 ≤ x) (hhi : x < 2 ^ 64) : wrap64 x = x - 2 ^ 64 := by
  unfold wrap64 Int.bmod
  dsimp only
  split <;> omega

/-- Wrapping around makes a sum smaller, unless it is too small. -/
theorem wrap64_le {x : ℤ} (h : -2 ^ 63 ≤ x) : wrap64 x ≤ x := by
  by_cases hfits : x < 2 ^ 63
  · rw [wrap64_of_fits ⟨h, hfits⟩]
  · have := (wrap64_fits x).2
    omega

/-- A 64-bit value grows by a non-negative one exactly when the sum is representable. -/
theorem le_wrap64_add_iff {x y : ℤ} (hx : Fits64 x) (hy : 0 ≤ y) (hy' : y < 2 ^ 63) :
    x ≤ wrap64 (x + y) ↔ x + y < 2 ^ 63 := by
  obtain ⟨hlo, hhi⟩ := hx
  constructor
  · intro hle
    by_contra hge
    rw [wrap64_of_ge (by omega) (by omega)] at hle
    omega
  · intro hlt
    rw [wrap64_of_fits ⟨by omega, hlt⟩]
    omega

/-!
## Floating-point numbers

A Go `float64` as an arbitrary type with the operations that the language gives it. No law is
assumed: sums are rounded, a comparison with a NaN is false, and the conversion of a number
that is out of range depends on the processor. What is proved for an arbitrary `GoFloat` holds
for all of these.

`GoFloat.exact` are the rational numbers with their own operations. In `GoFloat.float64` the
conversions round to 53 binary digits, the even number of two that are equally near (`nearest`).
-/

structure GoFloat (F : Type*) where
  lit : ℚ → F
  add : F → F → F
  sub : F → F → F
  mul : F → F → F
  div : F → F → F
  abs : F → F
  lt : F → F → Bool
  le : F → F → Bool
  eq : F → F → Bool
  ofInt : ℤ → F
  toInt : F → ℤ

/-- Exact arithmetic. -/
def GoFloat.exact : GoFloat ℚ where
  lit := id
  add := (· + ·)
  sub := (· - ·)
  mul := (· * ·)
  div := (· / ·)
  abs x := if x < 0 then -x else x
  lt x y := x < y
  le x y := x ≤ y
  eq x y := x = y
  ofInt n := n
  toInt x := if x < 0 then ⌈x⌉ else ⌊x⌋

/-- The nearest integer, the even one of two. -/
def roundEven (x : ℚ) : ℤ :=
  if x - ⌊x⌋ < 1 / 2 ∨ (x - ⌊x⌋ = 1 / 2 ∧ ⌊x⌋ % 2 = 0) then ⌊x⌋ else ⌊x⌋ + 1

/-- The `float64` that is nearest to a number in the normal range; zero for zero. -/
def nearest (x : ℚ) : ℚ :=
  let ulp : ℚ := 2 ^ (Int.log 2 x - 52)
  roundEven (x / ulp) * ulp

theorem roundEven_intCast (n : ℤ) : roundEven n = n := by simp [roundEven]

theorem roundEven_mono {x y : ℚ} (h : x ≤ y) : roundEven x ≤ roundEven y := by
  unfold roundEven
  rcases (Int.floor_mono h).lt_or_eq with hlt | heq
  · split_ifs <;> omega
  · rw [heq]
    split_ifs with hx hy <;> grind

/-- Within one binade the unit is the same. -/
theorem nearest_le_of_log_eq {x y : ℚ} (hlog : Int.log 2 x = Int.log 2 y) (h : x ≤ y) :
    nearest x ≤ nearest y := by
  unfold nearest
  rw [hlog]
  have hulp : (0 : ℚ) ≤ 2 ^ (Int.log 2 y - 52) := zpow_nonneg zero_le_two _
  exact mul_le_mul_of_nonneg_right
    (Int.cast_le.mpr (roundEven_mono (div_le_div_of_nonneg_right h hulp))) hulp

/-- A number is not rounded past the ends of its binade, which are multiples of the unit. -/
theorem nearest_mem_binade {x : ℚ} (hx : 0 < x) :
    2 ^ Int.log 2 x ≤ nearest x ∧ nearest x ≤ 2 ^ (Int.log 2 x + 1) := by
  -- in units of the last place the binade reaches from `2 ^ 52` to `2 ^ 53`
  have hulp : (0 : ℚ) < 2 ^ (Int.log 2 x - 52) := zpow_pos zero_lt_two _
  have hlow : (2 : ℚ) ^ Int.log 2 x = ((2 ^ 52 : ℤ) : ℚ) * 2 ^ (Int.log 2 x - 52) := by
    rw [zpow_sub₀ two_ne_zero]
    norm_num [mul_div_cancel₀]
  have hhigh : (2 : ℚ) ^ (Int.log 2 x + 1) = ((2 ^ 53 : ℤ) : ℚ) * 2 ^ (Int.log 2 x - 52) := by
    rw [zpow_add₀ two_ne_zero, hlow]
    push_cast
    ring
  have hle := Int.zpow_log_le_self Nat.one_lt_two hx
  have hlt := (Int.lt_zpow_succ_log_self Nat.one_lt_two x).le
  rw [Nat.cast_ofNat] at hle hlt
  constructor
  · rw [hlow] at hle ⊢
    have hround := roundEven_mono ((le_div_iff₀ hulp).mpr hle)
    rw [roundEven_intCast] at hround
    exact mul_le_mul_of_nonneg_right (Int.cast_le.mpr hround) hulp.le
  · rw [hhigh] at hlt ⊢
    have hround := roundEven_mono ((div_le_iff₀ hulp).mpr hlt)
    rw [roundEven_intCast] at hround
    exact mul_le_mul_of_nonneg_right (Int.cast_le.mpr hround) hulp.le

theorem nearest_zero : nearest 0 = 0 := by simp [nearest, roundEven]

/-- **Rounding is monotone.** Two numbers of different binades are kept apart by the power of two
between them. -/
theorem nearest_mono : Monotone nearest := by
  intro x y h
  rcases eq_or_ne (Int.log 2 x) (Int.log 2 y) with hlog | hlog
  · exact nearest_le_of_log_eq hlog h
  have hy : 0 < y := by
    by_contra hy
    rw [Int.log_of_right_le_zero _ (h.trans (not_lt.mp hy)),
      Int.log_of_right_le_zero _ (not_lt.mp hy)] at hlog
    exact hlog rfl
  refine le_trans ?_ (nearest_mem_binade hy).1
  rcases le_or_gt x 0 with hx | hx
  · have hle := nearest_le_of_log_eq (by rw [Int.log_of_right_le_zero _ hx, Int.log_zero_right]) hx
    exact (hle.trans nearest_zero.le).trans (zpow_nonneg zero_le_two _)
  · exact (nearest_mem_binade hx).2.trans
      (zpow_le_zpow_right₀ one_le_two ((Int.log_mono_right hx h).lt_of_ne hlog))

theorem nearest_nonneg {x : ℚ} (hx : 0 ≤ x) : 0 ≤ nearest x := nearest_zero ▸ nearest_mono hx

/-- An integer below `2 ^ 53` is a `float64`. -/
theorem nearest_intCast {n : ℤ} (hn : 0 ≤ n) (hlt : n < 2 ^ 53) : nearest n = n := by
  obtain rfl | hpos := hn.eq_or_lt
  · exact_mod_cast nearest_zero
  have hlog : Int.log 2 (n : ℚ) < 53 :=
    (Int.lt_zpow_iff_log_lt Nat.one_lt_two (Int.cast_pos.mpr hpos)).mp (by exact_mod_cast hlt)
  obtain ⟨k, hk⟩ : ∃ k : ℕ, Int.log 2 (n : ℚ) - 52 = -k :=
    ⟨(52 - Int.log 2 (n : ℚ)).toNat, by omega⟩
  -- the unit is one over a power of two, and an integer is a whole number of them
  have hwhole : (n : ℚ) / 2 ^ (-k : ℤ) = (n * 2 ^ k : ℤ) := by
    rw [zpow_neg, zpow_natCast, div_inv_eq_mul]
    push_cast
    rfl
  unfold nearest
  dsimp only
  rw [hk, hwhole, roundEven_intCast, ← hwhole, div_mul_cancel₀ _ (zpow_ne_zero _ two_ne_zero)]

/-- Conversions that round; products and sums are exact. What a number that is out of the range of
`int` is converted to depends on the processor. -/
def GoFloat.float64 (outOfRange : ℤ) : GoFloat ℚ :=
  { GoFloat.exact with
    ofInt := fun n => if n < 0 then -nearest (-n) else nearest n
    toInt := fun x => if Fits64 (GoFloat.exact.toInt x) then GoFloat.exact.toInt x else outOfRange }

namespace GoFloat

variable {outOfRange : ℤ}

theorem float64_ofInt {n : ℤ} (hn : 0 ≤ n) : (float64 outOfRange).ofInt n = nearest n :=
  if_neg (not_lt.mpr hn)

theorem float64_toInt {x : ℚ} (hx : 0 ≤ x) (hlt : ⌊x⌋ < 2 ^ 63) :
    (float64 outOfRange).toInt x = ⌊x⌋ := by
  have hexact : exact.toInt x = ⌊x⌋ := if_neg (not_lt.mpr hx)
  have hfloor := Int.floor_nonneg.mpr hx
  show (if Fits64 (exact.toInt x) then exact.toInt x else outOfRange) = _
  rw [hexact, if_pos ⟨by omega, hlt⟩]

end GoFloat

/-!
## Sorting

`sort.SliceStable` sorts by a comparison. Where the comparison is not an order, as with a NaN, the
result is some permutation that the documentation does not fix; so a `StableSort` is any function
that permutes the elements, and where more is needed it has to be assumed.

`sort.Slice` need not be stable. A `SliceSort` is any function that permutes the elements and sorts
them if the comparison is that of a key. Where no two elements have the same key, the documentation
fixes the result (`SliceSort.eq_of_perm`).
-/

open List

/-- What `sort.SliceStable` may do. -/
structure StableSort where
  sort : {α : Type} → (α → α → Bool) → List α → List α
  perm : ∀ {α : Type} (less : α → α → Bool) (l : List α), (sort less l).Perm l

namespace StableSort

theorem mem_sort (s : StableSort) {α : Type} {less : α → α → Bool} {l : List α} {x : α} :
    x ∈ s.sort less l ↔ x ∈ l :=
  (s.perm less l).mem_iff

def insertion : StableSort where
  sort less l := l.insertionSort fun x y => ¬less y x
  perm _ l := perm_insertionSort _ l

end StableSort

/-- What `sort.Slice` may do. -/
structure SliceSort where
  sort : {α : Type} → (α → α → Bool) → List α → List α
  perm : ∀ {α : Type} (less : α → α → Bool) (l : List α), (sort less l).Perm l
  sorted : ∀ {α κ : Type} [LinearOrder κ] (key : α → κ) (less : α → α → Bool),
    (∀ x y, less x y = true ↔ key x < key y) → ∀ l, (sort less l).Pairwise fun x y => key x ≤ key y

namespace SliceSort

def insertion : SliceSort where
  sort less l := l.insertionSort fun x y => ¬less y x
  perm _ l := perm_insertionSort _ l
  sorted key less hless l := by
    have hle : ∀ x y, ¬less y x = true ↔ key x ≤ key y := fun x y => by rw [hless, not_lt]
    have htotal : Std.Total fun x y => ¬less y x = true := ⟨fun x y => by
      rw [hle, hle]
      exact le_total _ _⟩
    have htrans : IsTrans _ fun x y => ¬less y x = true := ⟨fun x y z => by
      rw [hle, hle, hle]
      exact le_trans⟩
    exact (pairwise_insertionSort _ l).imp fun h => (hle _ _).mp h

variable {α κ : Type} [LinearOrder κ] {key : α → κ} {less : α → α → Bool} {l l' : List α}

/-- There is one way to sort elements with different keys. -/
theorem eq_of_sorted (hkey : (l.map key).Nodup) (hl : l.Pairwise fun x y => key x ≤ key y)
    (hl' : l'.Pairwise fun x y => key x ≤ key y) (hperm : l.Perm l') : l = l' :=
  hperm.eq_of_pairwise (fun _ _ hx hy hxy hyx =>
    inj_on_of_nodup_map hkey hx (hperm.mem_iff.mpr hy) (le_antisymm hxy hyx)) hl hl'

/-- The result depends neither on the order of the elements nor on the implementation. -/
theorem eq_of_perm (S S' : SliceSort) (hless : ∀ x y, less x y = true ↔ key x < key y)
    (hkey : (l.map key).Nodup) (hperm : l.Perm l') : S.sort less l = S'.sort less l' := by
  refine eq_of_sorted (((S.perm less l).map key).nodup_iff.mpr hkey)
    (S.sorted key less hless l) (S'.sorted key less hless l') ?_
  exact (S.perm less l).trans (hperm.trans (S'.perm less l').symm)

/-- Before the first two, there are no two different elements. -/
theorem not_two_before {x y z : α} (S : SliceSort) (hless : ∀ x y, less x y = true ↔ key x < key y)
    (hz : z ∈ (S.sort less l).take 2) (hx : x ∈ l) (hy : y ∈ l) (hxy : x ≠ y) :
    ¬(key x < key z ∧ key y < key z) := by
  rintro ⟨hxz, hyz⟩
  have hsorted := S.sorted key less hless l
  rw [← (S.perm less l).mem_iff] at hx hy
  match hs : S.sort less l with
  | [] => rw [hs] at hx; exact absurd hx not_mem_nil
  | [a] =>
    rw [hs, mem_singleton] at hx hy
    exact hxy (hx.trans hy.symm)
  | a :: b :: rest =>
    rw [hs] at hx hy hz hsorted
    obtain ⟨hab, hrest⟩ := pairwise_cons.mp hsorted
    have hb := (pairwise_cons.mp hrest).1
    -- all but the first come after the second
    have hafter : ∀ w ∈ a :: b :: rest, w = a ∨ key b ≤ key w := by
      intro w hw
      rcases mem_cons.mp hw with rfl | hw
      · exact .inl rfl
      · rcases mem_cons.mp hw with rfl | hw
        · exact .inr le_rfl
        · exact .inr (hb w hw)
    have hzb : key z ≤ key b := by
      rcases mem_cons.mp hz with rfl | hz
      · exact hab b mem_cons_self
      · rw [mem_singleton.mp hz]
    have hfirst : ∀ w ∈ a :: b :: rest, key w < key z → w = a := fun w hw hlt =>
      (hafter w hw).resolve_right fun hbw => (hlt.trans_le hzb).not_ge hbw
    exact hxy ((hfirst x hx hxz).trans (hfirst y hy hyz).symm)

/-- An element is one of the first two unless there are two different ones before it. -/
theorem mem_take_two {z : α} (S : SliceSort) (hless : ∀ x y, less x y = true ↔ key x < key y)
    (hkey : (l.map key).Nodup) (hz : z ∈ l)
    (hbefore : ∀ x ∈ l, ∀ y ∈ l, x ≠ y → ¬(key x < key z ∧ key y < key z)) :
    z ∈ (S.sort less l).take 2 := by
  have hsorted := S.sorted key less hless l
  have hperm := S.perm less l
  rw [← (hperm.map key).nodup_iff] at hkey
  rw [← hperm.mem_iff] at hz
  simp only [← hperm.mem_iff] at hbefore
  match hs : S.sort less l with
  | [] | [a] => rw [hs] at hz; exact hz
  | a :: b :: rest =>
    rw [hs] at hz hbefore hsorted hkey
    obtain ⟨ha, hrest⟩ := pairwise_cons.mp hsorted
    have hb := (pairwise_cons.mp hrest).1
    obtain ⟨ha', hkey'⟩ := nodup_cons.mp hkey
    obtain ⟨hb', -⟩ := nodup_cons.mp hkey'
    rcases mem_cons.mp hz with rfl | hz
    · exact .head _
    · rcases mem_cons.mp hz with rfl | hz
      · exact .tail _ (.head _)
      · -- both of the first two would be before `z`
        have hab : a ≠ b := by
          rintro rfl
          exact ha' (.head _)
        have haz : key a < key z := lt_of_le_of_ne (ha z (.tail _ hz)) fun heq =>
          ha' (mem_map.mpr ⟨z, .tail _ hz, heq.symm⟩)
        have hbz : key b < key z := lt_of_le_of_ne (hb z hz) fun heq =>
          hb' (mem_map.mpr ⟨z, hz, heq.symm⟩)
        exact absurd ⟨haz, hbz⟩ (hbefore a (.head _) b (.tail _ (.head _)) hab)

/-- An element that comes after the first two does not change them. -/
theorem take_two_cons {x a b : α} (S S' : SliceSort)
    (hless : ∀ x y, less x y = true ↔ key x < key y) (hkey : ((x :: l).map key).Nodup)
    (hne : a ≠ b) (ha : a ∈ (S.sort less l).take 2) (hb : b ∈ (S.sort less l).take 2)
    (hxa : key a < key x) (hxb : key b < key x) (hl' : l'.Perm (x :: l)) :
    (S'.sort less l').take 2 = (S.sort less l).take 2 := by
  have hsorted := S.sorted key less hless l
  have hperm := S.perm less l
  match hs : S.sort less l with
  | [] => rw [hs] at ha; exact absurd ha not_mem_nil
  | [c] =>
    rw [hs] at ha hb
    exact absurd ((mem_singleton.mp ha).trans (mem_singleton.mp hb).symm) hne
  | c :: d :: rest =>
    rw [hs] at ha hb hsorted hperm
    obtain ⟨hc, hrest⟩ := pairwise_cons.mp hsorted
    have hd := (pairwise_cons.mp hrest).1
    have hdx : key d ≤ key x := by
      have hpair : d = a ∨ d = b := by
        simp only [take_succ_cons, take_zero, mem_cons, not_mem_nil, or_false] at ha hb
        rcases ha with rfl | rfl
        · exact .inr (hb.resolve_left (Ne.symm hne)).symm
        · exact .inl rfl
      rcases hpair with rfl | rfl
      · exact hxa.le
      · exact hxb.le
    have hcd : key c ≤ key d := hc d mem_cons_self
    -- the rest is sorted anew, with the new element
    have hmem : ∀ w ∈ S'.sort less (x :: rest), key d ≤ key w := by
      intro w hw
      rcases mem_cons.mp ((S'.perm less _).mem_iff.mp hw) with rfl | hw
      · exact hdx
      · exact hd w hw
    have hnew : (c :: d :: S'.sort less (x :: rest)).Pairwise fun x y => key x ≤ key y := by
      refine pairwise_cons.mpr ⟨fun w hw => ?_, pairwise_cons.mpr
        ⟨hmem, S'.sorted key less hless _⟩⟩
      rcases mem_cons.mp hw with rfl | hw
      · exact hcd
      · exact hcd.trans (hmem w hw)
    have hpermNew : (c :: d :: S'.sort less (x :: rest)).Perm (x :: l) := by
      refine (((S'.perm less _).cons d).cons c).trans ?_
      refine ((List.Perm.swap x d rest).cons c).trans ((List.Perm.swap x c _).trans ?_)
      exact hperm.cons x
    have heq : c :: d :: S'.sort less (x :: rest) = S'.sort less l' := by
      refine eq_of_sorted ((hpermNew.map key).nodup_iff.mpr hkey) hnew
        (S'.sorted key less hless l') ?_
      exact hpermNew.trans (hl'.symm.trans (S'.perm less l').symm)
    rw [← heq]
    rfl

end SliceSort

/-!
## Maps

A Go `map` is a finite map: `GoMap α β` is Mathlib's `Finmap` at a constant family, so
that two maps with the same entries are equal. Iterating over a map with `range` visits
every key once in an order that the language does not fix; where a function of the source
iterates, its model takes the order, and `RangeOrder` says that it is one.

A loop that writes at most one entry for each key it visits is `GoMap.extend`; what it leaves
at a key does not depend on the order of the visits (`lookup_extend`). Where the source sorts
the keys first, the order is that of `GoMap.sortedKeys`.
-/

open Finmap

/-- A Go `map[α]β`. -/
abbrev GoMap (α β : Type*) := Finmap fun _ : α => β

/-- `order` is an order in which `range` may visit the map. -/
def RangeOrder {α β : Type*} [DecidableEq α] (m : GoMap α β) (order : List α) : Prop :=
  order.Nodup ∧ order.toFinset = m.keys

instance {α β : Type*} [DecidableEq α] (m : GoMap α β) (order : List α) :
    Decidable (RangeOrder m order) :=
  inferInstanceAs (Decidable (_ ∧ _))

theorem RangeOrder.mem_iff {α β : Type*} [DecidableEq α] {m : GoMap α β} {order : List α}
    (h : RangeOrder m order) (k : α) : k ∈ order ↔ (m.lookup k).isSome := by
  rw [← mem_toFinset, h.2, Finmap.mem_keys, lookup_isSome]

namespace GoMap

variable {α β : Type*} [DecidableEq α]

/-- The entries that are left when a key is deleted. -/
theorem lookup_erase_eq_some {m : GoMap α β} {key k : α} {v : β} :
    (m.erase key).lookup k = some v ↔ k ≠ key ∧ m.lookup k = some v := by
  by_cases hk : k = key
  · subst hk
    rw [lookup_erase]
    exact iff_of_false nofun fun h => h.1 rfl
  · rw [lookup_erase_ne hk, and_iff_right hk]

/-- The entries when one is set. -/
theorem lookup_insert_eq_some {m : GoMap α β} {key k : α} {v w : β} :
    (m.insert key v).lookup k = some w ↔ (k = key ∧ w = v) ∨ (k ≠ key ∧ m.lookup k = some w) := by
  by_cases hk : k = key
  · subst hk
    rw [lookup_insert, Option.some_inj, eq_comm]
    exact ⟨fun h => .inl ⟨rfl, h⟩, fun h => h.elim And.right fun h => absurd rfl h.1⟩
  · rw [lookup_insert_of_ne _ hk, or_iff_right fun h => hk h.1, and_iff_right hk]

theorem mem_of_lookup {m : GoMap α β} {k : α} {v : β} (h : m.lookup k = some v) : k ∈ m := by
  rw [← lookup_isSome, h]
  rfl

/-- The loop `for k in order` that sets the entry of `k` to `f k`, where `f` gives one. -/
def extend (m : GoMap α β) (order : List α) (f : α → Option β) : GoMap α β :=
  order.foldl (fun m k => match f k with
    | some v => m.insert k v
    | none => m) m

theorem lookup_extend (m : GoMap α β) (order : List α) (f : α → Option β) (k : α) :
    (extend m order f).lookup k = if k ∈ order then (f k).or (m.lookup k) else m.lookup k := by
  induction order generalizing m with
  | nil => rfl
  | cons k' order ih =>
    rw [extend, foldl_cons]
    refine (ih _).trans ?_
    by_cases hk : k = k'
    · subst hk
      rw [if_pos mem_cons_self]
      cases f k with
      | none => split_ifs <;> rfl
      | some =>
        rw [lookup_insert]
        split_ifs <;> rfl
    · have hmem : k ∈ k' :: order ↔ k ∈ order := by
        rw [mem_cons, or_iff_right hk]
      cases f k' with
      | none => simp only [hmem]
      | some => simp only [hmem, lookup_insert_of_ne _ hk]

/-- The map of the items of a list by their keys; of two items with one key, the later one. -/
def indexBy {ι : Type*} (key : ι → α) (items : List ι) : GoMap α ι :=
  items.foldl (fun m x => m.insert (key x) x) ∅

/-- With different keys, every item is found under its own. -/
theorem lookup_indexBy_eq_some_iff {ι : Type*} {key : ι → α} {items : List ι}
    (hkeys : (items.map key).Nodup) {k : α} {x : ι} :
    (indexBy key items).lookup k = some x ↔ x ∈ items ∧ key x = k := by
  -- from the end, since a later item is put over an earlier one
  induction items using reverseRecOn with
  | nil =>
    constructor
    · intro h
      cases h
    · rintro ⟨hx, -⟩
      exact absurd hx not_mem_nil
  | append_singleton items y ih =>
    rw [map_append, map_singleton, nodup_append] at hkeys
    rw [indexBy, foldl_concat, ← indexBy]
    by_cases hk : k = key y
    · subst hk
      rw [lookup_insert, Option.some_inj]
      constructor
      · rintro rfl
        exact ⟨mem_append_right _ (mem_singleton_self _), rfl⟩
      · rintro ⟨hx, hkey⟩
        rcases mem_append.mp hx with hx | hx
        · have hne := hkeys.2.2 _ (mem_map_of_mem hx) _ (mem_singleton_self _)
          exact absurd hkey hne
        · exact (mem_singleton.mp hx).symm
    · rw [lookup_insert_of_ne _ hk, ih hkeys.1, mem_append, List.mem_singleton]
      constructor
      · rintro ⟨hx, hkey⟩
        exact ⟨.inl hx, hkey⟩
      · rintro ⟨hx | rfl, hkey⟩
        · exact ⟨hx, hkey⟩
        · exact absurd hkey.symm hk

def sortedKeys {α β : Type*} [LinearOrder α] (m : GoMap α β) : List α :=
  Quot.liftOn m.keys.val (fun l => l.insertionSort (· ≤ ·)) fun l l' hperm =>
    List.Perm.eq_of_pairwise' (pairwise_insertionSort _ l) (pairwise_insertionSort _ l')
      ((perm_insertionSort _ l).trans (hperm.trans (perm_insertionSort _ l').symm))

theorem exists_perm_sortedKeys {α β : Type*} [LinearOrder α] (m : GoMap α β) :
    ∃ l : List α, m.keys.val = l ∧ m.sortedKeys.Perm l := by
  obtain ⟨l, hl⟩ := Quot.exists_rep m.keys.val
  refine ⟨l, hl.symm, ?_⟩
  unfold sortedKeys
  rw [← hl]
  exact perm_insertionSort _ l

theorem mem_sortedKeys {α β : Type*} [LinearOrder α] {m : GoMap α β} {k : α} :
    k ∈ m.sortedKeys ↔ k ∈ m := by
  obtain ⟨l, hl, hperm⟩ := exists_perm_sortedKeys m
  rw [hperm.mem_iff, ← Finmap.mem_keys, Finset.mem_def, hl]
  rfl

theorem nodup_sortedKeys {α β : Type*} [LinearOrder α] (m : GoMap α β) : m.sortedKeys.Nodup := by
  obtain ⟨l, hl, hperm⟩ := exists_perm_sortedKeys m
  have hnodup := m.keys.nodup
  rw [hl] at hnodup
  exact hperm.nodup_iff.mpr hnodup

end GoMap

/-!
## Maps of objects

A Go map whose values are pointers is a map to the numbers of objects, and the objects are a
function of their number. A process that has read an entry keeps the object when the entry is
gone.

Objects are numbered as they are made: `Distinct m next` says that the entries of `m` have
been made, and that no object is under two keys. What the map shows, `(m.lookup k).map f`,
then changes at one key only when an object is changed in place (`map_update`) or made
(`map_insert`).
-/

open Function Option

/-- The objects of a map: each has been made, and is there once. -/
structure Distinct {α : Type*} [DecidableEq α] (m : GoMap α ℕ) (next : ℕ) : Prop where
  lt : ∀ key ref, m.lookup key = some ref → ref < next
  inj : ∀ key key' ref, m.lookup key = some ref → m.lookup key' = some ref → key = key'

namespace Distinct

variable {α : Type*} [DecidableEq α] {m : GoMap α ℕ} {next : ℕ}

theorem insert (h : Distinct m next) (key : α) : Distinct (m.insert key next) (next + 1) := by
  have hcases : ∀ k ref, (m.insert key next).lookup k = some ref →
      (k = key ∧ ref = next) ∨ (m.lookup k = some ref ∧ ref < next) := by
    intro k ref hk
    exact (GoMap.lookup_insert_eq_some.mp hk).imp_right fun hk => ⟨hk.2, h.lt k ref hk.2⟩
  constructor
  · intro k ref hk
    rcases hcases k ref hk with ⟨-, rfl⟩ | ⟨-, hlt⟩
    · exact Nat.lt_succ_self _
    · exact Nat.lt_succ_of_lt hlt
  · intro k k' ref hk hk'
    rcases hcases k ref hk with ⟨rfl, rfl⟩ | ⟨hk, hlt⟩
    · rcases hcases k' _ hk' with ⟨rfl, -⟩ | ⟨-, hlt⟩
      · rfl
      · exact absurd hlt (Nat.lt_irrefl _)
    · rcases hcases k' ref hk' with ⟨-, rfl⟩ | ⟨hk', -⟩
      · exact absurd hlt (Nat.lt_irrefl _)
      · exact h.inj k k' ref hk hk'

theorem erase (h : Distinct m next) (key : α) : Distinct (m.erase key) next := by
  have hof : ∀ k ref, (m.erase key).lookup k = some ref → m.lookup k = some ref :=
    fun k ref hk => (GoMap.lookup_erase_eq_some.mp hk).2
  exact ⟨fun k ref hk => h.lt k ref (hof k ref hk),
    fun k k' ref hk hk' => h.inj k k' ref (hof k ref hk) (hof k' ref hk')⟩

variable {β : Type*} (f : ℕ → β) (x : β)

/-- An object is changed in place. -/
theorem map_update (h : Distinct m next) {key : α} {ref : ℕ} (hkey : m.lookup key = some ref)
    (k : α) :
    (m.lookup k).map (update f ref x) = if k = key then some x else (m.lookup k).map f := by
  split_ifs with hk
  · rw [hk, hkey, map_some, update_self]
  · cases hlookup : m.lookup k with
    | none => rfl
    | some ref' =>
      have hne : ref' ≠ ref := fun heq => hk (h.inj k key ref' hlookup (heq ▸ hkey))
      rw [map_some, map_some, update_of_ne hne]

theorem map_insert (h : Distinct m next) (key k : α) :
    ((m.insert key next).lookup k).map (update f next x) =
      if k = key then some x else (m.lookup k).map f := by
  rw [(h.insert key).map_update f x (Finmap.lookup_insert m) k]
  split_ifs with hk
  · rfl
  · rw [Finmap.lookup_insert_of_ne _ hk]

theorem empty (next : ℕ) : Distinct (∅ : GoMap α ℕ) next :=
  ⟨fun _ _ h => (nomatch h), fun _ _ _ h => (nomatch h)⟩

end Distinct

/-!
## Maps that count

A Go map from keys to counters, in which a counter that comes down to zero is deleted. Such a map
is determined by what it counts: `GoMap.Counts m c` says that `m` has the counter `c k` for every
key that is counted, and no other. Counting one more and one less keep this (`Counts.inc`,
`Counts.dec`), and the keys, their number and the sum of the counters are those of `c`.

What is counted is often the members of a list with some property: `countP_modify` is how a count
moves when one member changes, and `countP_eq_sum` splits it by a key.
-/

open Finset

namespace GoMap

variable {κ : Type*} [DecidableEq κ]

/-- The counter of a key; a missing one is zero. -/
def count (m : GoMap κ ℤ) (k : κ) : ℤ := (m.lookup k).getD 0

/-- `m[k]++`. -/
def inc (m : GoMap κ ℤ) (k : κ) : GoMap κ ℤ := m.insert k (m.count k + 1)

/-- `if m[k]--; m[k] == 0 { delete(m, k) }`. -/
def dec (m : GoMap κ ℤ) (k : κ) : GoMap κ ℤ :=
  if m.count k - 1 = 0 then m.erase k else m.insert k (m.count k - 1)

/-- The map has the counters of `c`, and none that is zero. -/
def Counts (m : GoMap κ ℤ) (c : κ → ℕ) : Prop :=
  ∀ k, m.lookup k = if c k = 0 then none else some (c k : ℤ)

namespace Counts

variable {m : GoMap κ ℤ} {c : κ → ℕ}

theorem empty : Counts (∅ : GoMap κ ℤ) fun _ => 0 := fun _ => rfl

variable (h : m.Counts c)

include h

theorem congr {c' : κ → ℕ} (hc : ∀ k, c' k = c k) : m.Counts c' := by
  intro k
  rw [hc k]
  exact h k

theorem count_eq (k : κ) : m.count k = c k := by
  rw [count, h k]
  split_ifs with hzero
  · rw [hzero]
    rfl
  · rfl

theorem mem_keys {k : κ} : k ∈ m.keys ↔ c k ≠ 0 := by
  rw [Finmap.mem_keys, ← lookup_isSome, h k]
  split_ifs with hzero
  · exact iff_of_false nofun (not_not_intro hzero)
  · exact iff_of_true rfl hzero

theorem inc (k : κ) : (m.inc k).Counts (update c k (c k + 1)) := by
  intro k'
  unfold GoMap.inc
  rw [h.count_eq]
  by_cases hk : k' = k
  · subst hk
    rw [lookup_insert, update_self, if_neg (Nat.succ_ne_zero _)]
    rfl
  · rw [lookup_insert_of_ne _ hk, update_of_ne hk]
    exact h k'

theorem dec {k : κ} (hk : c k ≠ 0) : (m.dec k).Counts (update c k (c k - 1)) := by
  intro k'
  unfold GoMap.dec
  rw [h.count_eq]
  by_cases hk' : k' = k
  · subst hk'
    rw [update_self]
    split_ifs with hint hnat hnat
    · exact lookup_erase _ _
    · omega
    · omega
    · rw [lookup_insert]
      congr 1
      omega
  · rw [update_of_ne hk', ← h k']
    split_ifs with hint
    · exact lookup_erase_ne hk'
    · exact lookup_insert_of_ne _ hk'

/-- The counters add up to the counts of any set that has all that is counted. -/
theorem sum_count {s : Finset κ} (hs : ∀ k, c k ≠ 0 → k ∈ s) :
    ∑ k ∈ m.keys, m.count k = ((∑ k ∈ s, c k : ℕ) : ℤ) := by
  have hsub : m.keys ⊆ s := fun k hk => hs k (h.mem_keys.mp hk)
  calc ∑ k ∈ m.keys, m.count k
      = ∑ k ∈ m.keys, (c k : ℤ) := sum_congr rfl fun k _ => h.count_eq k
    _ = ∑ k ∈ s, (c k : ℤ) := by
        refine sum_subset hsub fun k _ hk => ?_
        rw [h.mem_keys, not_not] at hk
        rw [hk]
        rfl
    _ = ((∑ k ∈ s, c k : ℕ) : ℤ) := (Nat.cast_sum s c).symm

end Counts

end GoMap

/-! ### Counting in a list -/

section

variable {β κ : Type*}

/-- One member of a list changes. -/
theorem countP_modify (p : β → Bool) (u : β → β) : ∀ (l : List β) (i : ℕ) {y : β}, l[i]? = some y →
      (l.modify i u).countP p + (if p y then 1 else 0) = l.countP p + (if p (u y) then 1 else 0)
  | [], _, _, h => by simp at h
  | x :: l, 0, y, h => by
    obtain rfl : x = y := by simpa using h
    rw [modify_zero_cons, countP_cons, countP_cons]
    omega
  | x :: l, i + 1, y, h => by
    have ih := countP_modify p u l i (y := y) (by simpa using h)
    rw [modify_succ_cons, countP_cons, countP_cons]
    omega

theorem countP_eq_sum [DecidableEq κ] (p : β → Bool) (key : β → κ) {s : Finset κ} :
    ∀ l : List β, (∀ x ∈ l, p x = true → key x ∈ s) →
      l.countP p = ∑ k ∈ s, l.countP fun x => p x && decide (key x = k)
  | [], _ => by simp
  | x :: l, h => by
    obtain ⟨hx, hl⟩ := forall_mem_cons.mp h
    have ih := countP_eq_sum p key l hl
    have hsplit : ∑ k ∈ s, (x :: l).countP (fun x => p x && decide (key x = k)) =
        (∑ k ∈ s, l.countP fun x => p x && decide (key x = k)) +
          ∑ k ∈ s, if key x = k then (if p x then 1 else 0) else 0 := by
      rw [← sum_add_distrib]
      refine sum_congr rfl fun k _ => ?_
      by_cases hp : p x = true <;> by_cases hk : key x = k <;> simp [hp, hk]
    rw [hsplit, countP_cons, ← ih, sum_ite_eq]
    by_cases hp : p x = true
    · rw [if_pos (hx hp)]
    · simp [hp]

end

/-!
## Functions that may fail

A Go function that returns a value or an error is a function into `Except`, and its early
returns are the `bind` of that monad. These lemmas take apart a call that has returned without
an error.
-/

section

variable {ε α β : Type} {x : Except ε α} {b : β}

theorem bind_eq_ok {f : α → Except ε β} : (x >>= f) = .ok b ↔ ∃ a, x = .ok a ∧ f a = .ok b := by
  cases x with
  | error => exact iff_of_false nofun (fun ⟨_, h, _⟩ => nomatch h)
  | ok a => exact ⟨fun h => ⟨a, rfl, h⟩, fun ⟨_, h, hb⟩ => by cases h; exact hb⟩

theorem map_eq_ok {f : α → β} : x.map f = .ok b ↔ ∃ a, x = .ok a ∧ f a = b := by
  have hbind : x.map f = x >>= fun a => .ok (f a) := by cases x <;> rfl
  simp only [hbind, bind_eq_ok, Except.ok.injEq]

theorem exists_eq_ok (h : x.toOption.isSome) : ∃ a, x = .ok a := by
  cases x with
  | error => cases h
  | ok a => exact ⟨a, rfl⟩

theorem ok_unit_bind_eq_ok_iff {x y : Except ε Unit} :
    (do x; y) = .ok () ↔ x = .ok () ∧ y = .ok () := by
  rw [bind_eq_ok]
  exact ⟨fun ⟨(), h⟩ => h, fun h => ⟨(), h⟩⟩

end

end HivenetRouter
