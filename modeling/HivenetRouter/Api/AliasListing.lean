import HivenetRouter.Semantic.Classify

/-!
# The aliases that are listed

`GET /v1/models` lists an alias if a candidate may be used and has a healthy agent. `Resolve`
also refuses candidates that are aliases, and a document may name the alias of another one.
-/

namespace HivenetRouter.Api

open List Policy Semantic

/-- `ModelObject`; of its agents, the number of the healthy ones. -/
structure ModelObject where
  id : String
  object : String
  capability : String
  info : String
  healthy : ℤ

section

variable {F : Type} {std : Std F} (sort : SliceSort) (R : Resolver F) {name : String}
  (aliases : GoMap String (LoadedAlias std)) {order : List String} {a : LoadedAlias std}
  (models : GoMap String ModelObject) (allowed : Option (List String)) {spec : AliasSpec F}
  (profiles : GoMap String (ModelProfile F)) (v : RequestView) (env : Env) {m : String}

/-- The model has a healthy agent, for the listing and for `healthyAgentCount`. -/
def healthy (m : String) : Bool := (models.lookup m).any (0 < ·.healthy)

def mayUse (m : String) : Bool := allowed.all (m ∈ ·)

/-- The entry of an alias, if it is visible. -/
def aliasModelObject (name : String) (a : LoadedAlias std) : Option ModelObject :=
  if a.spec.routes.any fun r => r.candidates.any fun cand =>
      mayUse allowed cand.model && healthy models cand.model then
    some ⟨name, "model", "llm",
      "semantic alias; routes: " ++ ", ".intercalate (a.spec.routes.map Route.name), 0⟩
  else none

/-- `aliasModelObjects`, where `order` is that of the range over the aliases. -/
def aliasModelObjects (order : List String) (applyAllowSet : Bool) : List ModelObject :=
  let allowed := if applyAllowSet then allowed else none
  sort.sort (fun x y => x.id < y.id)
    (order.filterMap fun name => (aliases.lookup name).bind (aliasModelObject models allowed name))

/-- The environment of a resolution for the key. -/
def aliasEnv : Env :=
  { env with
    allowed := some (mayUse allowed)
    isAlias := some fun m => (aliases.lookup m).isSome
    healthy := some (healthy models) }

/-- The request needs no capability, and fits the window of every candidate. -/
def Undemanding (spec : AliasSpec F) : Prop :=
  let req := requirementsOf R.float (R.features spec v env) v.maxOutputTokens
  (req.tools || req.vision || req.structured || req.reasoning) = false ∧
    ∀ m ∈ spec.models, ∀ p ∈ profiles.lookup m,
      exceedsWindow R.float spec p req ((estimateFor env spec).lookup m) = none

/-- A candidate that makes the alias visible. -/
def Usable (a : LoadedAlias std) (m : String) : Prop :=
  m ∈ a.spec.models ∧ mayUse allowed m = true ∧ healthy models m = true

variable {R aliases models allowed profiles v env}

theorem Undemanding.check_iff (h : Undemanding R profiles v env spec) (hm : m ∈ spec.models) :
    (R.check spec profiles v env m).2 = "" ↔ ¬env.Aliases m ∧ env.Allows m ∧ env.Serves m := by
  obtain ⟨hneeds, hfits⟩ := h
  simp only [Bool.or_eq_false_iff] at hneeds
  have hprofile : profileReason R.float profiles spec (requirementsOf R.float
      (R.features spec v env) v.maxOutputTokens) (estimateFor env spec) m = none := by
    unfold profileReason
    split
    · rfl
    · next p hp =>
      rw [hfits m hm p hp, Option.or_none]
      simp [missingCapability, hneeds]
  rw [Resolver.check, checkEligible, hprofile]
  split_ifs with halias hallows hserves
  · exact iff_of_false (by decide) fun h => h.1 halias
  · exact iff_of_true rfl ⟨halias, hallows, hserves⟩
  · exact iff_of_false (by decide) fun h => hserves h.2.2
  · exact iff_of_false (by decide) fun h => hallows h.2.1

theorem lists_iff (horder : RangeOrder aliases order) (ha : aliases.lookup name = some a) :
    (∃ o ∈ aliasModelObjects sort aliases models allowed order true, o.id = name) ↔
      ∃ m, Usable models allowed a m := by
  have hvisible : (a.spec.routes.any fun r => r.candidates.any fun cand =>
      mayUse allowed cand.model && healthy models cand.model) = true ↔
        ∃ m, Usable models allowed a m := by
    simp [Usable, AliasSpec.models, Route.models, and_assoc]
  rw [← hvisible]
  constructor
  · rintro ⟨o, ho, rfl⟩
    obtain ⟨n, -, hn⟩ := mem_filterMap.mp ((sort.perm _ _).mem_iff.mp ho)
    obtain ⟨a', ha', hn⟩ := Option.bind_eq_some_iff.mp hn
    obtain ⟨hn, heq⟩ := Option.ite_none_right_eq_some.mp hn
    cases heq
    rwa [Option.some.inj (ha.symm.trans ha')]
  · intro h
    have hobject := (congrArg (·.bind (aliasModelObject models allowed name)) ha).trans (if_pos h)
    refine ⟨_, (sort.perm _ _).mem_iff.mpr (mem_filterMap.mpr ⟨name, ?_, hobject⟩), rfl⟩
    exact (horder.mem_iff name).mpr (by rw [ha]; rfl)

theorem resolves_iff (h : Undemanding R profiles v (aliasEnv aliases models allowed env) a.spec)
    (io : Interference) (store : PinStore) : (R.resolve name a.spec profiles v
      (aliasEnv aliases models allowed env) io store).2.2 = none ↔
        ∃ m, Usable models allowed a m ∧ aliases.lookup m = none := by
  have hcheck : ∀ m ∈ a.spec.models, (R.check a.spec profiles v
      (aliasEnv aliases models allowed env) m).2 = "" ↔
        Usable models allowed a m ∧ aliases.lookup m = none := by
    intro m hm
    rw [h.check_iff hm]
    simp [Usable, hm, aliasEnv, Env.Aliases, Env.Allows, Env.Serves, and_comm]
  rcases Resolver.resolve_cases (R := R) a.routes_ne_nil (fun m hm => a.model_ne_empty hm) name
    profiles v (aliasEnv aliases models allowed env) io store with
    ⟨hnone, r, hr, -, hm, hreason⟩ | ⟨herror, -, -, -, -, -, hreasons⟩
  · exact iff_of_true hnone ⟨_, (hcheck _ (mem_flatMap.mpr ⟨r, hr, hm⟩)).mp hreason⟩
  · rw [herror]
    exact iff_of_false nofun fun ⟨m, hu⟩ => hreasons m hu.1.1 ((hcheck m hu.1.1).mpr hu)

/-- **The listing agrees with the resolution exactly where it does not rest on aliases alone.** -/
theorem lists_iff_resolves (horder : RangeOrder aliases order) (ha : aliases.lookup name = some a)
    (h : Undemanding R profiles v (aliasEnv aliases models allowed env) a.spec)
    (io : Interference) (store : PinStore) :
    ((∃ o ∈ aliasModelObjects sort aliases models allowed order true, o.id = name) ↔
      (R.resolve name a.spec profiles v (aliasEnv aliases models allowed env) io store).2.2 =
        none) ↔
    ((∃ m, Usable models allowed a m) →
      ∃ m, Usable models allowed a m ∧ aliases.lookup m = none) := by
  rw [lists_iff sort horder ha, resolves_iff h]
  refine ⟨Iff.mp, fun h => ⟨h, ?_⟩⟩
  rintro ⟨m, hu, -⟩
  exact ⟨m, hu⟩

end

/-! ### An alias of another document -/

def demoOther : LoadedAlias demoStd where
  names := ["other"]
  source := { demoAlias.source with
    routes := [{ name := "r", minScore := 0, candidates := [⟨"small"⟩] }] }
  spec := { demoAlias.spec with
    routes := [{ name := "r", minScore := 0, candidates := [⟨"small"⟩] }] }
  accepted := rfl

def demoAliases : GoMap String (LoadedAlias demoStd) :=
  ((∅ : GoMap String (LoadedAlias demoStd)).insert "auto" demoAlias).insert "other" demoOther

def demoModels (served : String) : GoMap String ModelObject :=
  (∅ : GoMap String ModelObject).insert served ⟨served, "model", "llm", "", 1⟩

/-- A key without restriction. -/
def demoAliasEnv (served : String) : Env :=
  aliasEnv demoAliases (demoModels served) none (demoEnv [] [])

def demoAuto (served : String) : Option ResolveError :=
  (demoResolver.resolve "auto" demoAlias.spec ∅ demoView (demoAliasEnv served) demoIO
    (newPinStore 10 10)).2.2

theorem lists_auto : (∃ o ∈ aliasModelObjects .insertion demoAliases (demoModels "small") none
    ["auto", "other"] true, o.id = "auto") ↔ demoAuto "small" = none :=
  (lists_iff_resolves .insertion (by decide +kernel) rfl
    (show Undemanding _ ∅ _ _ _ from ⟨rfl, nofun⟩) _ _).mpr fun _ =>
    ⟨"small", ⟨by decide +kernel, by decide +kernel, by decide +kernel⟩, rfl⟩

/-- **An alias that is listed and cannot be resolved**: of its candidates only `other` has an
agent, and `other` is an alias. -/
theorem lists_unresolved : RangeOrder demoAliases ["auto", "other"] ∧
    Undemanding demoResolver ∅ demoView (demoAliasEnv "other") demoAlias.spec ∧
    (∃ o ∈ aliasModelObjects .insertion demoAliases (demoModels "other") none ["auto", "other"]
      true, o.id = "auto") ∧ demoAuto "other" = some .noEligibleModel :=
  ⟨by decide +kernel, ⟨rfl, nofun⟩, by decide +kernel, by decide +kernel⟩

end HivenetRouter.Api
