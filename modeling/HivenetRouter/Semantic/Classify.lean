import HivenetRouter.Semantic.Resolver

/-!
# The class of a failed resolution

When `Resolve` fails, `Classify` reads the class of the failure off the recorded reasons: the key
may use no candidate (`forbidden`), none that it may use has a window that is large enough
(`tooLong`) or all that the request needs (`unsupported`), or one may be there later
(`unavailable`).

On a failure every candidate has the reason that `checkEligible` gives, and what is recorded for
other models comes from pins and is marked as such (`recorded_of_resolve`). So the class depends on
the candidates only. It is the right one exactly when every candidate that is an alias is
allowed for the key (`classified_iff`): `checkEligible` looks for aliases before it looks at the
key, so that a candidate which is an alias counts as one that the key may use
(`not_classified_aliasCandidate`).
-/

namespace HivenetRouter.Semantic

open Policy List Option

variable {F : Type} {models : List String}

inductive Failure where
  | unavailable
  | forbidden
  | tooLong
  | unsupported
  deriving DecidableEq

/-- `strings.HasPrefix`. -/
def startsWith (s start : String) : Bool := start.toList.isPrefixOf s.toList

/-- The branches of the switch of `Classify`. -/
inductive Mark where
  | skip
  | tooLong
  | unsupported
  | other
  deriving DecidableEq

def mark (reason : String) : Mark :=
  if startsWith reason reasonPinnedPrefix then .skip
  else if reason = reasonNotAllowed then .skip
  else if startsWith reason reasonContextWindow then .tooLong
  else if reason ∈ capabilityReasons then .unsupported
  else .other

structure Counts where
  allowed : ℕ := 0
  tooLong : ℕ := 0
  unsupported : ℕ := 0

/-- The body of the loop. -/
def Counts.add (c : Counts) : Mark → Counts
  | .skip => c
  | .tooLong => { c with allowed := c.allowed + 1, tooLong := c.tooLong + 1 }
  | .unsupported => { c with allowed := c.allowed + 1, unsupported := c.unsupported + 1 }
  | .other => { c with allowed := c.allowed + 1 }

def Filtered.reason (filtered : Filtered) (model : String) : String :=
  (filtered.lookup model).getD ""

/-- `onlyPinReasons`, with the order of the iteration. -/
def onlyPinReasons (filtered : Filtered) (order : List String) : Bool :=
  order.all fun model => startsWith (filtered.reason model) reasonPinnedPrefix

/-- `Classify`, with the order of the iteration. -/
def classify (filtered : Filtered) (order : List String) : Failure :=
  let c : Counts := order.foldl (fun c model => c.add (mark (filtered.reason model))) {}
  if c.allowed = 0 ∧ 0 < filtered.keys.card ∧ ¬onlyPinReasons filtered order then .forbidden
  else if 0 < c.allowed ∧ c.tooLong = c.allowed then .tooLong
  else if 0 < c.allowed ∧ c.tooLong + c.unsupported = c.allowed then .unsupported
  else .unavailable

/-! ### Counting -/

theorem foldl_add (f : String → Mark) (order : List String) (c : Counts) :
    order.foldl (fun c model => c.add (f model)) c =
      ⟨c.allowed + order.countP (f · ≠ .skip), c.tooLong + order.countP (f · = .tooLong),
        c.unsupported + order.countP (f · = .unsupported)⟩ := by
  induction order generalizing c with
  | nil => rfl
  | cons model order ih =>
    rw [foldl_cons, ih]
    simp only [countP_cons]
    cases hmark : f model with
    | skip => simp [Counts.add]
    | tooLong | unsupported | other => simp [Counts.add, add_assoc, add_comm]

/-- Where one predicate implies another, they count the same exactly when they agree. -/
theorem countP_eq_iff_forall (order : List String) {p q : String → Bool}
    (hpq : ∀ m, p m = true → q m = true) :
    order.countP p = order.countP q ↔ ∀ m ∈ order, q m = true → p m = true := by
  induction order with
  | nil => exact iff_of_true rfl nofun
  | cons m order ih =>
    have hle : order.countP p ≤ order.countP q := countP_mono_left fun m _ => hpq m
    rw [countP_cons, countP_cons, forall_mem_cons, ← ih]
    by_cases hq : q m = true
    · by_cases hp : p m = true
      · simp [hq, hp]
      · simp [hq, hp]
        omega
    · have hp : ¬p m = true := fun hp => hq (hpq m hp)
      simp [hq, hp]

theorem countP_tooLong_add_unsupported (f : String → Mark) (order : List String) :
    order.countP (f · = .tooLong) + order.countP (f · = .unsupported) =
      order.countP fun m => decide (f m = .tooLong ∨ f m = .unsupported) := by
  induction order with
  | nil => rfl
  | cons m order ih =>
    simp only [countP_cons, ← ih]
    cases f m <;> simp <;> omega

def classOf (f : String → Mark) (models : List String) : Failure :=
  if ∀ m ∈ models, f m = .skip then .forbidden
  else if ∀ m ∈ models, f m ≠ .skip → f m = .tooLong then .tooLong
  else if ∀ m ∈ models, f m ≠ .skip → f m = .tooLong ∨ f m = .unsupported then .unsupported
  else .unavailable

variable {f : String → Mark} {order : List String} {reason : String}

theorem classOf_eq_forbidden_iff : classOf f models = .forbidden ↔ ∀ m ∈ models, f m = .skip := by
  unfold classOf
  split_ifs with hskip
  · exact iff_of_true rfl hskip
  all_goals exact iff_of_false nofun hskip

theorem eq_tooLong_of_classOf (h : classOf f models = .tooLong) :
    ∀ m ∈ models, f m ≠ .skip → f m = .tooLong := by
  unfold classOf at h
  split_ifs at h with _ htooLong
  exact htooLong

theorem eq_tooLong_or_of_classOf
    (h : classOf f models = .tooLong ∨ classOf f models = .unsupported) :
    ∀ m ∈ models, f m ≠ .skip → f m = .tooLong ∨ f m = .unsupported := by
  rcases h with h | h
  · exact fun m hm hne => .inl (eq_tooLong_of_classOf h m hm hne)
  · unfold classOf at h
    split_ifs at h with _ _ hunsupported
    exact hunsupported

/-- Unless all reasons are pins', `Classify` gives the class of the marks. -/
theorem classify_eq_classOf {filtered : Filtered} (hcard : 0 < filtered.keys.card)
    (hpins : ¬onlyPinReasons filtered order = true) :
    classify filtered order = classOf (fun m => mark (filtered.reason m)) order := by
  -- each test of the switch compares two counters: one counts all that the other counts
  have hskip : order.countP (fun m => decide (mark (filtered.reason m) ≠ .skip)) = 0 ↔
      ∀ m ∈ order, mark (filtered.reason m) = .skip := by
    simp only [countP_eq_zero, decide_eq_true_iff, not_not]
  have htooLong := countP_eq_iff_forall order (p := fun m => mark (filtered.reason m) = .tooLong)
    (q := fun m => mark (filtered.reason m) ≠ .skip)
    (fun m hm => by
      rw [decide_eq_true_iff] at hm ⊢
      rw [hm]
      exact nofun)
  have hunsupported := countP_eq_iff_forall order
    (p := fun m => mark (filtered.reason m) = .tooLong ∨ mark (filtered.reason m) = .unsupported)
    (q := fun m => mark (filtered.reason m) ≠ .skip)
    (fun m hm => by
      rw [decide_eq_true_iff] at hm ⊢
      rcases hm with hm | hm <;> rw [hm] <;> exact nofun)
  simp only [decide_eq_true_iff] at htooLong hunsupported
  unfold classify classOf
  dsimp only
  rw [foldl_add]
  dsimp only
  rw [Nat.zero_add, Nat.zero_add, Nat.zero_add, countP_tooLong_add_unsupported]
  by_cases hall : ∀ m ∈ order, mark (filtered.reason m) = .skip
  · rw [if_pos ⟨hskip.mpr hall, hcard, hpins⟩, if_pos hall]
  · have hpos : 0 < order.countP fun m => decide (mark (filtered.reason m) ≠ .skip) :=
      Nat.pos_of_ne_zero (mt hskip.mp hall)
    rw [if_neg (fun h => hall (hskip.mp h.1)), if_neg hall]
    exact if_congr ((and_iff_right hpos).trans htooLong) rfl
      (if_congr ((and_iff_right hpos).trans hunsupported) rfl rfl)

/-- The class depends on the marks that are not skipped, and on there being others. -/
theorem classOf_congr {g : String → Mark}
    (horder : ∀ m ∈ order, f m ≠ .skip → m ∈ models ∧ g m = f m)
    (hmodels : ∀ m ∈ models, m ∈ order ∧ f m = g m) : classOf f order = classOf g models := by
  -- both lists have the same marks, apart from those that are skipped
  have hforall : ∀ P : Mark → Prop,
      (∀ m ∈ order, f m ≠ .skip → P (f m)) ↔ ∀ m ∈ models, g m ≠ .skip → P (g m) := by
    intro P
    constructor
    · intro h m hm hne
      obtain ⟨hm', hfg⟩ := hmodels m hm
      rw [← hfg] at hne ⊢
      exact h m hm' hne
    · intro h m hm hne
      obtain ⟨hm', hfg⟩ := horder m hm hne
      rw [← hfg] at hne ⊢
      exact h m hm' hne
  have hskip : (∀ m ∈ order, f m = .skip) ↔ ∀ m ∈ models, g m = .skip := by
    have := hforall fun _ => False
    simpa only [imp_false, ne_eq, not_not] using this
  unfold classOf
  rw [if_congr hskip rfl rfl]
  simp only [hforall fun x => x = Mark.tooLong,
    hforall fun x => x = Mark.tooLong ∨ x = Mark.unsupported]

/-! ### The marks of the reasons -/

theorem startsWith_append (start text : String) : startsWith (start ++ text) start = true := by
  rw [startsWith, String.toList_append, isPrefixOf_iff_prefix]
  exact prefix_append _ _

theorem mark_pinned (text : String) : mark (reasonPinnedPrefix ++ text) = .skip :=
  if_pos (startsWith_append _ _)

theorem mark_notAllowed : mark reasonNotAllowed = .skip := by decide

theorem mark_capability (h : reason ∈ capabilityReasons) : mark reason = .unsupported := by
  revert reason
  decide

/-- A reason that starts with the window's is neither a pin's nor the key's. -/
theorem mark_window (text : String) : mark (reasonContextWindow ++ text) = .tooLong := by
  have hpin : startsWith (reasonContextWindow ++ text) reasonPinnedPrefix = false := by
    rw [startsWith, String.toList_append]
    rfl
  have hkey : reasonContextWindow ++ text ≠ reasonNotAllowed := by
    intro heq
    have hlist := congrArg String.toList heq
    rw [String.toList_append] at hlist
    cases hlist
  unfold mark
  rw [hpin, if_neg Bool.false_ne_true, if_neg hkey, if_pos (startsWith_append _ _)]

/-! ### A failed resolution -/

/-- The model is known to lack a capability that the request needs. -/
def Lacks (c : ModelCapabilities) (req : Requirements) : Prop :=
  (req.tools = true ∧ c.toolCalling = some false) ∨ (req.vision = true ∧ c.vision = some false) ∨
    (req.structured = true ∧ c.structuredOutput = some false) ∨
    (req.reasoning = true ∧ c.reasoning = some false)

theorem lacks_of_missingCapability {c : ModelCapabilities} {req : Requirements}
    (h : missingCapability c req = some reason) : Lacks c req := by
  unfold missingCapability at h
  simp only [Bool.and_eq_true, beq_iff_eq] at h
  split_ifs at h with htools hvision hstructured hreasoning
  · exact .inl htools
  · exact .inr (.inl hvision)
  · exact .inr (.inr (.inl hstructured))
  · exact .inr (.inr (.inr hreasoning))

section Failed

variable (R : Resolver F) (spec : AliasSpec F) (aliasName : String)
  (profiles : GoMap String (ModelProfile F)) (v : RequestView) (env : Env)

/-- The model lacks a capability, or its window cannot hold the prompt and the output: trying
again does not help. -/
def Unfit (model : String) : Prop :=
  ∃ p, profiles.lookup model = some p ∧
    (Lacks p.capabilities (requirementsOf R.float (R.features spec v env) v.maxOutputTokens) ∨
      ∃ n, (estimateFor env spec).lookup model = some n ∧
        windowLimit R.float spec p < n + v.maxOutputTokens)

/-- The failure `filteredOut` is classified by what the key may use. -/
structure Classified (filteredOut : Filtered) (order : List String) : Prop where
  not_allowed : ∀ m ∈ spec.models, ¬env.Allows m → filteredOut.lookup m = some reasonNotAllowed
  forbidden : classify filteredOut order = .forbidden ↔ ∀ m ∈ spec.models, ¬env.Allows m
  permanent : classify filteredOut order = .tooLong ∨ classify filteredOut order = .unsupported →
    ∀ m ∈ spec.models, env.Allows m → Unfit R spec profiles v env m
  tooLong : classify filteredOut order = .tooLong → ∀ m ∈ spec.models, env.Allows m →
    ∃ text, filteredOut.lookup m = some (reasonContextWindow ++ text)
  /-- The class is that of any other contents of the pin store. -/
  stale : ∀ io store order',
    let result := (R.resolve aliasName spec profiles v env io store).2
    result.2 = some .noEligibleModel ∧ (RangeOrder result.1.filteredOut order' →
      classify result.1.filteredOut order' = classify filteredOut order)

theorem check_checked (model : String) : Checked R.float profiles spec
    (requirementsOf R.float (R.features spec v env) v.maxOutputTokens) (estimateFor env spec) env
    model (R.check spec profiles v env model) :=
  checkEligible_checked

/-- What is recorded on a failure: the reasons of the candidates, and those of pins. -/
structure Recorded (filteredOut : Filtered) : Prop where
  ne_empty : ∀ m ∈ spec.models, (R.check spec profiles v env m).2 ≠ ""
  candidate : ∀ m ∈ spec.models, filteredOut.lookup m = some (R.check spec profiles v env m).2
  pin : ∀ m reason, m ∉ spec.models → filteredOut.lookup m = some reason →
    ∃ text, reason = reasonPinnedPrefix ++ text

variable {R spec aliasName profiles v env} {model : String}

theorem check_of_aliases (h : env.Aliases model) :
    R.check spec profiles v env model = (false, reasonIsAlias) :=
  if_pos h

/-- A reason that starts with the window's is another than the key's. -/
theorem window_ne_notAllowed (text : String) : reasonContextWindow ++ text ≠ reasonNotAllowed := by
  intro heq
  have hmark := mark_window text
  rw [heq, mark_notAllowed] at hmark
  cases hmark

/-- The key's reason is given for the models that the key may not use, aliases apart. -/
theorem check_eq_notAllowed_iff (halias : env.Aliases model → env.Allows model) :
    (R.check spec profiles v env model).2 = reasonNotAllowed ↔ ¬env.Allows model := by
  have hchecked := check_checked R spec profiles v env model
  generalize R.check spec profiles v env model = result at hchecked ⊢
  cases hchecked with
  | isAlias h => exact iff_of_false (by decide) (not_not_intro (halias h))
  | notAllowed h => exact iff_of_true rfl h
  | capability h _ hreason =>
    refine iff_of_false ?_ (not_not_intro h)
    rintro rfl
    exact absurd (missingCapability_mem hreason) (by decide)
  | window h _ _ _ => exact iff_of_false (window_ne_notAllowed _) (not_not_intro h)
  | unhealthy h _ | eligible _ h _ _ => exact iff_of_false (by decide) (not_not_intro h)

theorem mark_check (hne : (R.check spec profiles v env model).2 ≠ "") :
    let reason := (R.check spec profiles v env model).2
    (mark reason = .skip ↔ reason = reasonNotAllowed) ∧
      (mark reason = .tooLong → ∃ text, reason = reasonContextWindow ++ text) ∧
      (mark reason = .tooLong ∨ mark reason = .unsupported →
        Unfit R spec profiles v env model) := by
  dsimp only
  have hchecked := check_checked R spec profiles v env model
  generalize R.check spec profiles v env model = result at hchecked hne ⊢
  cases hchecked with
  | isAlias | unhealthy => exact ⟨iff_of_false nofun (by decide), nofun, nofun⟩
  | notAllowed => exact ⟨iff_of_true rfl rfl, nofun, nofun⟩
  | @capability _ p reason hp hreason =>
    -- the texts of the capabilities are none of the other reasons
    have hmem := missingCapability_mem hreason
    rw [mark_capability hmem]
    refine ⟨iff_of_false nofun ?_, nofun, fun _ => ⟨p, hp, .inl ?_⟩⟩
    · rintro rfl
      exact absurd hmem (by decide)
    · exact lacks_of_missingCapability hreason
  | @window _ p n text hp hn hlt =>
    rw [mark_window]
    refine ⟨iff_of_false nofun (window_ne_notAllowed text), fun _ => ⟨text, rfl⟩,
      fun _ => ⟨p, hp, .inr ⟨n, hn, lt_of_lt_of_le hlt (wrap64_le ?_)⟩⟩⟩
    -- the sum in Go is at most the sum, so that the window is exceeded indeed
    have hout : -2 ^ 63 ≤ v.maxOutputTokens := v.maxOutputTokens_fits.1
    show -2 ^ 63 ≤ (n : ℤ) + v.maxOutputTokens
    omega
  | eligible => exact absurd rfl hne

theorem recorded_of_resolve (hroutes : spec.routes ≠ []) (hnames : ∀ m ∈ spec.models, m ≠ "")
    {io : Interference} {store : PinStore}
    (h : (R.resolve aliasName spec profiles v env io store).2.2 = some .noEligibleModel) :
    Recorded R spec profiles v env
      (R.resolve aliasName spec profiles v env io store).2.1.filteredOut := by
  rcases Resolver.resolve_cases (R := R) hroutes hnames aliasName profiles v env io store with
    ⟨hnone, -⟩ | ⟨-, pins, models, hpins, hfiltered, hmem, hreasons⟩
  · rw [hnone] at h
    cases h
  · rw [hfiltered]
    refine ⟨hreasons, fun m hm => ?_, fun m reason hm hlookup => ?_⟩
    · rw [GoMap.lookup_extend, if_pos ((hmem m).mpr hm), some_or]
    · rw [GoMap.lookup_extend, if_neg (mt (hmem m).mp hm)] at hlookup
      exact hpins m reason hlookup

/-- The class of a failure is that of the candidates. -/
theorem Recorded.classify_eq {filteredOut : Filtered} {order : List String}
    (h : Recorded R spec profiles v env filteredOut) (hmodels : spec.models ≠ [])
    (horder : RangeOrder filteredOut order) :
    classify filteredOut order =
      classOf (fun m => mark (R.check spec profiles v env m).2) spec.models := by
  have hmem : ∀ m ∈ spec.models, m ∈ order := by
    intro m hm
    rw [horder.mem_iff, h.candidate m hm]
    rfl
  have hreason : ∀ m ∈ spec.models, filteredOut.reason m = (R.check spec profiles v env m).2 := by
    intro m hm
    rw [Filtered.reason, h.candidate m hm]
    rfl
  obtain ⟨m₀, hm₀⟩ := exists_mem_of_ne_nil _ hmodels
  rw [classify_eq_classOf]
  · refine classOf_congr (fun m hm hne => ?_) fun m hm => ⟨hmem m hm, by rw [hreason m hm]⟩
    -- what is not a candidate's comes from a pin, and is skipped
    by_cases hcandidate : m ∈ spec.models
    · exact ⟨hcandidate, by rw [hreason m hcandidate]⟩
    · obtain ⟨reason, hlookup⟩ := isSome_iff_exists.mp ((horder.mem_iff m).mp hm)
      obtain ⟨text, rfl⟩ := h.pin m reason hcandidate hlookup
      rw [Filtered.reason, hlookup] at hne
      exact absurd (mark_pinned text) hne
  · refine Finset.card_pos.mpr ⟨m₀, ?_⟩
    exact GoMap.mem_of_lookup (h.candidate m₀ hm₀)
  · intro hpins
    have hstart := all_eq_true.mp hpins m₀ (hmem m₀ hm₀)
    have hskip : mark (R.check spec profiles v env m₀).2 = .skip := by
      rw [← hreason m₀ hm₀]
      exact if_pos hstart
    -- a candidate's reason that is skipped is the key's, and that is not marked as a pin's
    rw [hreason m₀ hm₀, (mark_check (h.ne_empty m₀ hm₀)).1.mp hskip] at hstart
    exact absurd hstart (by decide)

end Failed

/-- **Failures are classified by what the caller may use**, exactly when every candidate that is
an alias is allowed for the key. -/
theorem classified_iff (R : Resolver F) {std : Std F} (a : LoadedAlias std) (aliasName : String)
    (profiles : GoMap String (ModelProfile F)) (v : RequestView) (env : Env) (io : Interference)
    (store : PinStore) (order : List String)
    (hfail : (R.resolve aliasName a.spec profiles v env io store).2.2 = some .noEligibleModel)
    (horder : RangeOrder (R.resolve aliasName a.spec profiles v env io store).2.1.filteredOut
      order) :
    Classified R a.spec aliasName profiles v env
        (R.resolve aliasName a.spec profiles v env io store).2.1.filteredOut order ↔
      ∀ m ∈ a.spec.models, env.Aliases m → env.Allows m := by
  have hrecorded := recorded_of_resolve a.routes_ne_nil (fun m hm => a.model_ne_empty hm) hfail
  generalize (R.resolve aliasName a.spec profiles v env io store).2.1.filteredOut = filteredOut
    at hrecorded horder ⊢
  have hclass := hrecorded.classify_eq a.models_ne_nil horder
  constructor
  · -- a candidate that is an alias and not allowed is recorded as an alias
    intro h m hm halias
    by_contra hallows
    have hlookup := h.not_allowed m hm hallows
    rw [hrecorded.candidate m hm, check_of_aliases halias] at hlookup
    exact absurd (some.inj hlookup) (by decide)
  · intro halias
    -- the mark of a candidate says whether the key may use it
    have hskip : ∀ m ∈ a.spec.models,
        (mark (R.check a.spec profiles v env m).2 = .skip ↔ ¬env.Allows m) := fun m hm =>
      (mark_check (hrecorded.ne_empty m hm)).1.trans (check_eq_notAllowed_iff (halias m hm))
    refine ⟨?_, ?_, ?_, ?_, ?_⟩
    · intro m hm hallows
      rw [hrecorded.candidate m hm, (check_eq_notAllowed_iff (halias m hm)).mpr hallows]
    · rw [hclass, classOf_eq_forbidden_iff]
      exact forall₂_congr hskip
    · intro h m hm hallows
      rw [hclass] at h
      have hmark := eq_tooLong_or_of_classOf h m hm fun hm' => (hskip m hm).mp hm' hallows
      exact (mark_check (hrecorded.ne_empty m hm)).2.2 hmark
    · intro h m hm hallows
      rw [hclass] at h
      have hmark := eq_tooLong_of_classOf h m hm fun hm' => (hskip m hm).mp hm' hallows
      obtain ⟨text, htext⟩ := (mark_check (hrecorded.ne_empty m hm)).2.1 hmark
      exact ⟨text, by rw [hrecorded.candidate m hm, htext]⟩
    · -- another pin store: the resolution fails as well, with the class of the candidates
      intro io' store' order'
      have hfail' : (R.resolve aliasName a.spec profiles v env io' store').2.2 =
          some .noEligibleModel := by
        rcases Resolver.resolve_cases (R := R) a.routes_ne_nil (fun m hm => a.model_ne_empty hm)
          aliasName profiles v env io' store' with ⟨-, r, hr, -, hm, hempty⟩ | ⟨herror, -⟩
        · exact absurd hempty (hrecorded.ne_empty _ (mem_flatMap.mpr ⟨r, hr, hm⟩))
        · exact herror
      refine ⟨hfail', fun horder' => ?_⟩
      have hrecorded' :=
        recorded_of_resolve a.routes_ne_nil (fun m hm => a.model_ne_empty hm) hfail'
      rw [hclass]
      exact hrecorded'.classify_eq a.models_ne_nil horder'

/-! ### An alias among the candidates -/

/-- The loader's functions, with exact numbers; no duration is given. -/
def demoStd : Std ℚ where
  float := .exact
  parseDuration _ := none
  trimSpace := id
  toLower := id
  quote := id
  formatG _ := ""

/-- An alias of one route with the candidates `other` and `small`. -/
def demoAlias : LoadedAlias demoStd where
  names := ["auto"]
  source :=
    { defaultRoute := "r", abstainBelow := 0, contextBuffer := 1, recentTurns := 3
      stripMarkers := none, affinityMargin := 1
      routes := [{ name := "r", minScore := 0, candidates := [⟨"other"⟩, ⟨"small"⟩] }] }
  spec :=
    { defaultRoute := "r", abstainBelow := 0, contextBuffer := 1, recentTurns := 3
      stripMarkers := some ["<system-reminder>", "</system-reminder>"], affinityMargin := 1
      routes := [{ name := "r", minScore := 0, candidates := [⟨"other"⟩, ⟨"small"⟩] }]
      pinMaxAgeDuration := defaultPinMaxAge }
  accepted := rfl

def demoResolver : Resolver ℚ where
  float := .exact
  sort := .insertion
  signals := []
  digest := id
  containsKeyword _ _ := false
  hash _ := 0

def demoView : RequestView where
  messages := []
  system := ""
  firstUserText := ""
  endUser := ""
  toolCount := 0
  structuredOut := false
  reasoningAsked := false
  requestBytes := 0
  maxOutputTokens := 0
  maxOutputTokens_fits := by decide

/-- A caller whose key may use the models in `allowed`, while the names in `aliases` are
aliases; every prompt is of 20 tokens. -/
def demoEnv (allowed aliases : List String) : Env where
  allowed := some (· ∈ allowed)
  healthy := none
  estimateTokens := some fun _ => 20
  keyID := "k"
  taskHeader := ""
  isAlias := some (· ∈ aliases)
  countOnly := false

def demoProfiles : GoMap String (ModelProfile ℚ) :=
  (∅ : GoMap String (ModelProfile ℚ)).insert "small" ⟨10, 1, 1, {}⟩

def demoIO : Interference := ⟨fun _ => 0, fun _ store => store⟩

def demoResolve (allowed aliases : List String) : Decision ℚ × Option ResolveError :=
  (demoResolver.resolve "auto" demoAlias.spec demoProfiles demoView (demoEnv allowed aliases)
    demoIO (newPinStore 10 10)).2

/-- The key may use `small` only, whose window is too small. -/
theorem classified_tooLong :
    classify (demoResolve ["small"] ["auto"]).1.filteredOut ["other", "small"] = .tooLong ∧
      Classified demoResolver demoAlias.spec "auto" demoProfiles demoView
        (demoEnv ["small"] ["auto"]) (demoResolve ["small"] ["auto"]).1.filteredOut
        ["other", "small"] :=
  ⟨by decide +kernel,
    (classified_iff demoResolver demoAlias "auto" demoProfiles demoView _ demoIO _ _
      (by decide +kernel) (by decide +kernel)).mpr (by decide +kernel)⟩

/-- The key may use no candidate, and one of them is an alias: the class is not `forbidden`. -/
theorem not_classified_aliasCandidate :
    (demoResolve [] ["auto", "other"]).2 = some .noEligibleModel ∧
      RangeOrder (demoResolve [] ["auto", "other"]).1.filteredOut ["other", "small"] ∧
      ¬Classified demoResolver demoAlias.spec "auto" demoProfiles demoView
        (demoEnv [] ["auto", "other"]) (demoResolve [] ["auto", "other"]).1.filteredOut
        ["other", "small"] := by
  refine ⟨by decide +kernel, by decide +kernel, fun h => ?_⟩
  have hforbidden := h.forbidden.mpr (by decide +kernel)
  revert hforbidden
  decide +kernel

end HivenetRouter.Semantic
