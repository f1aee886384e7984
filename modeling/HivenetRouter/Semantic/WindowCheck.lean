import HivenetRouter.Semantic.Classify
import HivenetRouter.Framework.Json.Grammar

/-!
# The check of the context window

`checkEligible` compares the estimate of the prompt plus the reserved output with a part of the
model's window. The output that a client declares is an integer of any size: `jsonInt` decodes it
into a `float64` and converts that to an `int`, and the sum with the estimate may wrap around. A
declared output above `2 ^ 53` may be rounded down, and a sum that reaches `2 ^ 63` is negative and
passes.

`window_sound_iff` says for which sizes of the inputs the check keeps what it is for, whatever the
environment: no sum that exceeds the window reaches `2 ^ 63`, and no rounding moves one across the
limit (`SumsKept`). Outputs and windows below `2 ^ 53` are not rounded at all (`Small`).
-/

namespace HivenetRouter.Semantic

open Policy List Json GoFloat

/-! ### The declared output -/

/-- The fields of `rawRequest` that are checked or used here. The others take any value. -/
inductive RawField where
  | messages
  | reasoningEffort
  | stream
  | maxTokens
  | maxCompletionTokens

def rawFields : List (String × RawField) :=
  [("messages", .messages), ("reasoning_effort", .reasoningEffort), ("stream", .stream),
    ("max_tokens", .maxTokens), ("max_completion_tokens", .maxCompletionTokens)]

/-- `rawRequest`, as far as the reserved output depends on it. -/
structure RawRequest where
  maxTokens : List UInt8 := []
  maxCompletionTokens : List UInt8 := []
  deriving DecidableEq

/-- Whether a value decodes into a `rawMessage`, of two strings and a slice. -/
def checkRawMessage : Json → Option Unit :=
  decodeStruct [("role", true), ("tool_calls", false), ("tool_call_id", true)]
    (fun text _ v _ => if text then (decodeString "" v).map fun _ => ()
      else (decodeSlice some v).map fun _ => ()) ()

def setRawField (f : RawField) (raw : List UInt8) (v : Json) (r : RawRequest) : Option RawRequest :=
  match f with
  | .messages => (decodeSlice checkRawMessage v).map fun _ => r
  | .reasoningEffort => (decodeString "" v).map fun _ => r
  | .stream => (decodeBool false v).map fun _ => r
  | .maxTokens => some { r with maxTokens := raw }
  | .maxCompletionTokens => some { r with maxCompletionTokens := raw }

/-- The first step of `ParseView`; `none` is a body that is not accepted. -/
def parseRaw (body : List UInt8) : Option RawRequest :=
  (unmarshal body).bind (decodeStruct rawFields setRawField {})

variable (outOfRange : ℤ)

def jsonInt (r : List UInt8) : ℤ :=
  match unmarshal r with
  | some (.num lit) =>
    -- a literal that rounds to infinity is an error, and a negative one is zero
    if 2 ^ 1024 - 2 ^ 970 ≤ magnitude lit ∨ (scanSign ['-'] lit).1 ≠ [] then 0
    else (float64 outOfRange).toInt (nearest (magnitude lit))
  | _ => 0

/-- The field `MaxOutputTokens` of the view. -/
def RawRequest.maxOutputTokens (raw : RawRequest) : ℤ :=
  max (jsonInt outOfRange raw.maxTokens) (jsonInt outOfRange raw.maxCompletionTokens)

/-- A field that is absent, or an integer in the range of `int64` (or `null`), with the output that
it declares. -/
inductive Declares : List UInt8 → ℤ → Prop
  | absent : Declares [] 0
  | integer {r : List UInt8} {n : ℤ} (h : (unmarshal r).bind (decodeInt 0) = some n) :
    Declares r (max n 0)

/-- What becomes of an integer that is decoded into a `float64`. -/
def converted (n : ℤ) : ℤ := (float64 outOfRange).toInt ((float64 outOfRange).ofInt n)

variable {outOfRange}

theorem converted_eq {n : ℤ} (hn : 0 ≤ n) (hlt : ⌊nearest n⌋ < 2 ^ 63) :
    converted outOfRange n = ⌊nearest n⌋ := by
  rw [converted, float64_ofInt hn]
  exact float64_toInt (nearest_nonneg (Int.cast_nonneg hn)) hlt

theorem converted_zero : converted outOfRange 0 = 0 := by
  rw [converted_eq le_rfl] <;> simp [nearest_zero]

/-- The literal of an integer has neither a fraction nor an exponent. -/
theorem magnitude_of_parseInt {lit : List UInt8} {n : ℤ} (h : parseInt lit = some n) :
    ∃ ds : ℕ, magnitude lit = ds ∧ n = if (scanSign ['-'] lit).1 = [] then (ds : ℤ) else -ds := by
  obtain ⟨⟨hdigits, -⟩, hn⟩ := Option.ite_none_right_eq_some.mp h
  refine ⟨_, ?_, (Option.some.inj hn).symm⟩
  rw [magnitude]
  generalize (scanSign ['-'] lit).2 = ds at hdigits ⊢
  obtain ⟨htake, hdrop⟩ := takeWhile_append_headed (all_eq_true.mp hdigits) (headed_nil _)
  rw [append_nil] at htake hdrop
  rw [htake, hdrop]
  simp [scanSign, ofDigits]

theorem jsonInt_of_declares {r : List UInt8} {n : ℤ} (h : Declares r n) :
    jsonInt outOfRange r = converted outOfRange n := by
  cases h with
  | absent => rw [converted_zero]; rfl
  | @integer r n h =>
    obtain ⟨v, hr, hn⟩ := Option.bind_eq_some_iff.mp h
    rw [jsonInt, hr]
    cases v with
    | null =>
      obtain rfl := Option.some.inj hn
      exact converted_zero.symm
    | num lit =>
      obtain ⟨ds, hmagnitude, hds⟩ := magnitude_of_parseInt hn
      dsimp only
      by_cases hsign : (scanSign ['-'] lit).1 = []
      · rw [if_pos hsign] at hds
        -- an `int64` is far below the literals that round to infinity
        have hlt : (ds : ℚ) < 2 ^ 63 := by
          have hfits := (parseInt_fits hn).2
          rw [hds] at hfits
          exact_mod_cast hfits
        have hlarge : (2 : ℚ) ^ 63 ≤ 2 ^ 1024 - 2 ^ 970 := by decide +kernel
        rw [hmagnitude, if_neg (not_or.mpr ⟨not_le.mpr (hlt.trans_le hlarge), not_not.mpr hsign⟩),
          hds,
          max_eq_left (Int.natCast_nonneg ds), converted, float64_ofInt (Int.natCast_nonneg ds),
          Int.cast_natCast]
      · -- a negative output counts as none
        rw [if_neg hsign] at hds
        rw [if_pos (.inr hsign), max_eq_right (by omega), converted_zero]
    | _ => cases hn

/-! ### The property and its condition -/

/-- A body that `ParseView` accepts, with its view. -/
structure ParsedView (outOfRange : ℤ) where
  body : List UInt8
  raw : RawRequest
  view : RequestView
  accepted : parseRaw body = some raw
  maxOutputTokens_eq : view.maxOutputTokens = raw.maxOutputTokens outOfRange

section Sound

variable (c : ParsedView outOfRange) (spec : AliasSpec ℚ) (profiles : GoMap String (ModelProfile ℚ))
  (est : String → ℕ)

/-- The part of the window that a request may fill, without rounding. -/
def exactLimit (p : ModelProfile ℚ) : ℤ := ⌊p.contextWindow * spec.contextBuffer⌋

/-- **A model that is returned holds the prompt and the declared output**, whatever the
environment. -/
def WindowSound : Prop :=
  ∀ x y, Declares c.raw.maxTokens x → Declares c.raw.maxCompletionTokens y →
    ∀ (R : Resolver ℚ) (env : Env) (aliasName : String) (io : Interference) (store : PinStore),
      R.float = .float64 outOfRange → env.estimateTokens = some est →
      let result := (R.resolve aliasName spec profiles c.view env io store).2
      result.2 = none → ∀ p ∈ profiles.lookup result.1.model, 0 < p.contextWindow →
        ∀ n ∈ (estimateFor env spec).lookup result.1.model, n + max x y ≤ exactLimit spec p

/-- The condition, in the sizes of the inputs. Where the prompt and the larger output exceed the
window, their sum is below `2 ^ 63` when the output is a `float64`, and it exceeds the limit also
when the output and the window are. (The `float64` of an integer is an integer; the floor is for its
type.) -/
def SumsKept : Prop :=
  0 ≤ spec.contextBuffer ∧
    ∀ x y, Declares c.raw.maxTokens x → Declares c.raw.maxCompletionTokens y →
      ∀ m ∈ spec.models, ∀ p ∈ profiles.lookup m, 0 < p.contextWindow →
        exactLimit spec p < est m + max x y →
        est m + ⌊nearest (max x y : ℤ)⌋ < 2 ^ 63 ∧
          ⌊nearest p.contextWindow * spec.contextBuffer⌋ < est m + ⌊nearest (max x y : ℤ)⌋

/-- What is converted to an `int` is in its range: the integers from `2 ^ 63 - 512` on are rounded
to `2 ^ 63`, and what becomes of that depends on the processor. The loader bounds the buffer. -/
structure InRange : Prop where
  est : ∀ m, est m < 2 ^ 63
  buffer : spec.contextBuffer ∈ Set.Icc 0 1
  window : ∀ m, ∀ p ∈ profiles.lookup m, p.contextWindow < 2 ^ 63 - 512
  output : ∀ x y, Declares c.raw.maxTokens x → Declares c.raw.maxCompletionTokens y →
    max x y < 2 ^ 63 - 512

/-- Integers below `2 ^ 53` are converted exactly, and sums of such sizes do not wrap. -/
structure Small : Prop where
  buffer : 0 ≤ spec.contextBuffer
  est : ∀ m ∈ spec.models, est m < 2 ^ 62
  window : ∀ m ∈ spec.models, ∀ p ∈ profiles.lookup m, p.contextWindow < 2 ^ 53
  output : ∀ x y, Declares c.raw.maxTokens x → Declares c.raw.maxCompletionTokens y →
    max x y < 2 ^ 53

end Sound

variable {c : ParsedView outOfRange} {spec : AliasSpec ℚ} {profiles : GoMap String (ModelProfile ℚ)}
  {est : String → ℕ} {env : Env} {m : String} {x y : ℤ}

theorem ParsedView.maxOutputTokens (hx : Declares c.raw.maxTokens x)
    (hy : Declares c.raw.maxCompletionTokens y) :
    c.view.maxOutputTokens = max (converted outOfRange x) (converted outOfRange y) := by
  rw [c.maxOutputTokens_eq, RawRequest.maxOutputTokens, jsonInt_of_declares hx,
    jsonInt_of_declares hy]

theorem Declares.nonneg {r : List UInt8} (h : Declares r x) : 0 ≤ x := by
  cases h with
  | absent => exact le_rfl
  | integer => exact le_max_right _ _

theorem Small.sumsKept (h : Small c spec profiles est) : SumsKept c spec profiles est := by
  refine ⟨h.buffer, fun x y hx hy m hm p hp hwindow hexceeds => ?_⟩
  have houtput := h.output x y hx hy
  have hest := h.est m hm
  rw [nearest_intCast (hx.nonneg.trans (le_max_left _ _)) houtput,
    nearest_intCast hwindow.le (h.window m hm p hp), Int.floor_intCast]
  exact ⟨by omega, hexceeds⟩

/-- The larger output is converted to the larger `int`, since rounding is monotone. -/
theorem max_converted (hx : 0 ≤ x) (hy : 0 ≤ y) (hlt : ⌊nearest (max x y : ℤ)⌋ < 2 ^ 63) :
    max (converted outOfRange x) (converted outOfRange y) = ⌊nearest (max x y : ℤ)⌋ := by
  wlog hle : x ≤ y generalizing x y
  · rw [max_comm x] at hlt ⊢
    rw [max_comm]
    exact this hy hx hlt (le_of_not_ge hle)
  rw [max_eq_right hle] at hlt ⊢
  have hfloor := Int.floor_mono (nearest_mono (Int.cast_le.mpr hle))
  rw [converted_eq hx (hfloor.trans_lt hlt), converted_eq hy hlt, max_eq_right hfloor]

theorem windowLimit_eq {p : ModelProfile ℚ} (hwindow : 0 < p.contextWindow)
    (hbuffer : 0 ≤ spec.contextBuffer)
    (hlt : ⌊nearest p.contextWindow * spec.contextBuffer⌋ < 2 ^ 63) :
    windowLimit (.float64 outOfRange) spec p =
      ⌊nearest p.contextWindow * spec.contextBuffer⌋ := by
  show (float64 outOfRange).toInt ((float64 outOfRange).ofInt _ * spec.contextBuffer) = _
  rw [float64_ofInt hwindow.le]
  exact float64_toInt (mul_nonneg (nearest_nonneg (Int.cast_nonneg hwindow.le)) hbuffer) hlt

theorem floor_nearest_lt {k : ℤ} (hk : k < 2 ^ 63 - 512) : ⌊nearest k⌋ < 2 ^ 63 := by
  have hround : nearest ((2 ^ 63 - 513 : ℤ) : ℚ) < ((2 ^ 63 : ℤ) : ℚ) := by decide +kernel
  refine Int.floor_lt.mpr (lt_of_le_of_lt (nearest_mono (Int.cast_le.mpr ?_)) hround)
  omega

/-- The estimates are those of the candidates. -/
theorem lookup_estimateFor (henv : env.estimateTokens = some est) (hm : m ∈ spec.models) :
    (estimateFor env spec).lookup m = some (est m) := by
  have hfold : ∀ (models : List String) (e : Estimates), (models.foldl (fun e model =>
      if (e.lookup model).isSome then e else e.insert model (est model)) e).lookup m =
        (e.lookup m).or (if m ∈ models then some (est m) else none) := by
    intro models
    induction models with
    | nil => simp
    | cons k models ih =>
      intro e
      rw [foldl_cons, ih]
      by_cases hk : m = k
      · subst hk
        cases he : e.lookup m <;> simp [he]
      · by_cases he : (e.lookup k).isSome <;> simp [he, hk, Finmap.lookup_insert_of_ne]
  rw [estimateFor, henv]
  exact (hfold spec.models ∅).trans (by rw [if_pos hm]; rfl)

/-- No reason against a model: its profile gives none, and it is healthy. -/
theorem eligible_of_check {R : Resolver ℚ} {v : RequestView}
    (h : (R.check spec profiles v env m).2 = "") :
    profileReason R.float profiles spec
      (requirementsOf R.float (R.features spec v env) v.maxOutputTokens)
      (estimateFor env spec) m = none ∧ env.Serves m := by
  have hchecked := check_checked R spec profiles v env m
  have htrue : (R.check spec profiles v env m).1 = true := checkEligible_fst.mpr h
  generalize R.check spec profiles v env m = result at hchecked htrue
  cases hchecked with
  | eligible _ _ hprofile hserves => exact ⟨hprofile, hserves⟩
  | _ => cases htrue

def plainResolver (fl : GoFloat ℚ) : Resolver ℚ := { demoResolver with float := fl }

/-- An environment in which the model `m` alone is healthy. -/
def onlyHealthy (est : String → ℕ) (m : String) : Env where
  allowed := none
  healthy := some (· = m)
  estimateTokens := some est
  keyID := ""
  taskHeader := ""
  isAlias := none
  countOnly := false

theorem requirements_plain (fl : GoFloat ℚ) (hfl : fl.lt (fl.lit 0) (fl.lit 0) = false)
    (v : RequestView) :
      requirementsOf fl ((plainResolver fl).features spec v env) v.maxOutputTokens =
      ⟨false, false, false, false, v.maxOutputTokens⟩ := by
  have hnone : ∀ name, name ≠ "estimated_input_tokens" →
      fl.lt (fl.lit 0) (((plainResolver fl).features spec v env).value fl name) = false := by
    intro name hname
    have hlookup : ((plainResolver fl).features spec v env).values.lookup name = none :=
      Finmap.lookup_insert_of_ne _ hname
    rw [Features.value, hlookup]
    exact hfl
  simp [requirementsOf, hnone]

/-- **A candidate whose window is not exceeded is returned if it alone is healthy.** -/
theorem resolve_onlyHealthy (fl : GoFloat ℚ) (hfl : fl.lt (fl.lit 0) (fl.lit 0) = false)
    {std : Std ℚ}
    (a : LoadedAlias std) (v : RequestView) (est : String → ℕ) (hm : m ∈ a.spec.models)
    (hfits : ∀ p ∈ profiles.lookup m, ¬ windowLimit fl a.spec p <
      wrap64 (est m + v.maxOutputTokens)) :
    let result := ((plainResolver fl).resolve "" a.spec profiles v (onlyHealthy est m) demoIO
      (newPinStore 10 10)).2
    result.2 = none ∧ result.1.model = m := by
  intro result
  -- nothing else speaks against the candidate
  have hcheck : ((plainResolver fl).check a.spec profiles v (onlyHealthy est m) m).2 = "" := by
    have hprofile : profileReason fl profiles a.spec ⟨false, false, false, false, v.maxOutputTokens⟩
        (estimateFor (onlyHealthy est m) a.spec) m = none := by
      unfold profileReason
      split
      · rfl
      · next p hp =>
        rw [lookup_estimateFor rfl hm, Option.or_eq_none_iff]
        exact ⟨rfl, if_neg fun hlt => hfits p hp hlt.2⟩
    have halias : ¬ (onlyHealthy est m).Aliases m := by
      rintro ⟨_, h, -⟩
      cases h
    have hallows : (onlyHealthy est m).Allows m := nofun
    have hserves : (onlyHealthy est m).Serves m := by
      rintro _ ⟨⟩
      exact decide_eq_true rfl
    show (checkEligible fl _ _ (requirementsOf fl _ _) _ _ _).2 = ""
    rw [requirements_plain fl hfl, checkEligible, if_neg halias, if_neg (not_not.mpr hallows),
      hprofile]
    rw [if_neg (not_not.mpr hserves)]
  rcases Resolver.resolve_cases (R := plainResolver fl) a.routes_ne_nil
    (fun m hm => a.model_ne_empty hm) "" profiles v (onlyHealthy est m) demoIO
      (newPinStore 10 10) with
    ⟨hnone, -, -, -, -, hreason⟩ | ⟨-, -, -, -, -, -, hreasons⟩
  · -- what is returned is healthy, and that is this one alone
    refine ⟨hnone, ?_⟩
    have hserves := (eligible_of_check hreason).2
    exact of_decide_eq_true (hserves _ rfl)
  · exact absurd hcheck (hreasons m hm)

/-- **When the check of the window is sound**: if the sums are kept, as they are for small inputs;
and only then, as far as nothing is converted that is out of the range of `int`. -/
theorem window_sound_iff (c : ParsedView outOfRange) {std : Std ℚ} (a : LoadedAlias std)
    (profiles : GoMap String (ModelProfile ℚ)) (est : String → ℕ) :
    (SumsKept c a.spec profiles est → WindowSound c a.spec profiles est) ∧
      (Small c a.spec profiles est → SumsKept c a.spec profiles est) ∧
      (InRange c a.spec profiles est → WindowSound c a.spec profiles est →
        SumsKept c a.spec profiles est) := by
  have hnonneg {x y} (hx : Declares c.raw.maxTokens x) : 0 ≤ ⌊nearest (max x y : ℤ)⌋ :=
    Int.floor_nonneg.mpr (nearest_nonneg (Int.cast_nonneg (hx.nonneg.trans (le_max_left _ _))))
  refine ⟨?_, Small.sumsKept, ?_⟩
  · intro ⟨hbuffer, hsums⟩ x y hx hy R env aliasName io store hfloat henv result hnone p hp hwindow
      n hn
    obtain ⟨-, r, hr, -, hmem, hreason⟩ | ⟨herror, -⟩ := Resolver.resolve_cases (R := R)
      a.routes_ne_nil (fun m hm => a.model_ne_empty hm) aliasName profiles c.view env io store
    · have hm : result.1.model ∈ a.spec.models := mem_flatMap.mpr ⟨r, hr, hmem⟩
      have hprofile := (eligible_of_check hreason).1
      rw [profileReason, hp] at hprofile
      have hnot := (Option.or_eq_none_iff.mp hprofile).2
      rw [lookup_estimateFor henv hm] at hnot hn
      obtain rfl := Option.some.inj hn
      by_contra hlt
      -- the check would have found that the window is exceeded
      obtain ⟨hsum, hexceeds⟩ := hsums x y hx hy _ hm p hp hwindow (not_le.mp hlt)
      have houtput := hnonneg hx (y := y)
      rw [← windowLimit_eq hwindow hbuffer (hexceeds.trans hsum), ← wrap64_of_fits ⟨by omega, hsum⟩,
        ← max_converted hx.nonneg hy.nonneg (by omega), ← c.maxOutputTokens hx hy,
        ← hfloat] at hexceeds
      rw [exceedsWindow, if_pos ⟨hwindow, hexceeds⟩] at hnot
      cases hnot
    · exact absurd (herror.symm.trans hnone) nofun
  · intro hrange hsound
    refine ⟨hrange.buffer.1, fun x y hx hy m hm p hp hwindow hexceeds => ?_⟩
    have houtput := floor_nearest_lt (hrange.output x y hx hy)
    have hnearest : 0 ≤ nearest p.contextWindow := nearest_nonneg (Int.cast_nonneg hwindow.le)
    have hlimit : ⌊nearest p.contextWindow * a.spec.contextBuffer⌋ < 2 ^ 63 :=
      (Int.floor_mono (mul_le_of_le_one_right hnearest hrange.buffer.2)).trans_lt
        (floor_nearest_lt (hrange.window m p hp))
    have hcheck : windowLimit (.float64 outOfRange) a.spec p <
        wrap64 (est m + c.view.maxOutputTokens) := by
      -- else the model is returned where it alone is healthy
      by_contra hlt
      obtain ⟨hnone, hmodel⟩ := resolve_onlyHealthy (.float64 outOfRange) rfl a c.view est hm
        fun p' hp' => by
          obtain rfl := Option.mem_unique hp hp'
          exact hlt
      have hle := hsound x y hx hy _ _ "" _ _ rfl rfl hnone
      rw [hmodel] at hle
      have := hle p hp hwindow (est m) (lookup_estimateFor rfl hm)
      omega
    rw [windowLimit_eq hwindow hrange.buffer.1 hlimit, c.maxOutputTokens hx hy,
      max_converted hx.nonneg hy.nonneg houtput] at hcheck
    have hout := hnonneg hx (y := y)
    by_cases hsum : est m + ⌊nearest (max x y : ℤ)⌋ < 2 ^ 63
    · rw [wrap64_of_fits ⟨by omega, hsum⟩] at hcheck
      exact ⟨hsum, hcheck⟩
    · -- a sum that wraps around is negative, and exceeds no limit
      have hest := hrange.est m
      have hpos := Int.floor_nonneg.mpr (mul_nonneg hnearest hrange.buffer.1)
      rw [wrap64_of_ge (not_lt.mp hsum) (by omega)] at hcheck
      omega

/-- A request for `2 ^ 63 - 1024` tokens. -/
def hugeOutput : ParsedView (-2 ^ 63) where
  body := ("\x7b\"max_tokens\":9223372036854774784\x7d").toList.map byte
  raw := { maxTokens := ("9223372036854774784").toList.map byte }
  view := { demoView with
    requestBytes := 34
    maxOutputTokens := 9223372036854774784
    maxOutputTokens_fits := by decide }
  accepted := by decide +kernel
  maxOutputTokens_eq := by decide +kernel

/-- With a prompt of 2000 tokens the sum is negative, and a window of ten tokens holds it. -/
theorem not_windowSound_hugeOutput : ¬ ∀ (c : ParsedView (-2 ^ 63)) (a : LoadedAlias demoStd)
    (profiles : GoMap String (ModelProfile ℚ)) (est : String → ℕ),
      WindowSound c a.spec profiles est := by
  intro hall
  have hsmall : demoProfiles.lookup "small" = some ⟨10, 1, 1, {}⟩ := Finmap.lookup_insert _
  have hm : "small" ∈ demoAlias.spec.models := by decide
  have hmax : Declares hugeOutput.raw.maxTokens (max 9223372036854774784 0) :=
    .integer (by decide +kernel)
  have hest : (estimateFor (onlyHealthy (fun _ => 2000) "small") demoAlias.spec).lookup "small" =
      some 2000 := by decide +kernel
  obtain ⟨hnone, hmodel⟩ := resolve_onlyHealthy (.float64 (-2 ^ 63)) rfl demoAlias hugeOutput.view
    (fun _ => 2000) hm fun p hp => by
      obtain rfl := Option.mem_unique hsmall hp
      decide +kernel
  have hle :=
    hall hugeOutput demoAlias demoProfiles (fun _ => 2000) _ 0 hmax .absent _ _ "" _ _ rfl rfl
    hnone
  rw [hmodel] at hle
  have hcontra := hle _ hsmall (by decide) 2000 hest
  revert hcontra
  decide +kernel

end HivenetRouter.Semantic
