import HivenetRouter.Framework.Machine
import HivenetRouter.Policy.Directory

/-!
# Reloading the policy directory

The policies of a running router: `Init` is the load of the policy directory at startup, and
the actions are `SetPolicy`, `SetNamedPolicy` and `DeleteNamedPolicy` of the admin API and
`reloadPolicyModelDir`. What lies outside is chosen by the action: the directory that a reload
finds, whether the admission check accepts its policies, and the order in which `range` visits
each map.

A reload keeps three kinds of documents apart. A loaded document is **accepted** unless its
file is new or changed and lists an established model, or its provider is not configured. A
held document whose file is there but gives no accepted document is **restored**. The models
of unchanged files and of files that no longer parse are established. The check of a changed
file against the established models is the only one that compares a loaded document with a
held one: an unchanged file is accepted without it, and a held document whose new version is
refused is restored without it. `Reloading.Compatible` says that neither case brings two
documents with one model together, and `Reloading.exclusive_named_iff` that a reload keeps the
documents exclusive exactly then. Over whole runs this is `owned_throughout_iff`;
`two_owners` is a run that is not compatible.
-/

namespace HivenetRouter.Router

open Policy Option GoMap

/-! ### Providers -/

def isSupported (name : String) : Bool := name = "openai" || name = "anthropic"

/-- `validateProviderPolicy`: the text of its error, for the engines with an API key. -/
def validateProviderPolicy (providers : List String) (p : PolicyDoc) : Option String :=
  match p.fallbackProvider with
  | none => none
  | some fp =>
    let declares := "policy declares fallback_provider engine " ++ fp.engine.quote
    if !isSupported fp.engine then
      some (declares ++ ": unknown engine — supported: openai, anthropic")
    else if fp.engine ∈ providers then none
    else if fp.engine.toLower = "openai" then
      some (declares ++ " but no API key is configured — set HIVENET_ROUTER_OPENAI_API_KEY")
    else if fp.engine.toLower = "anthropic" then
      some (declares ++ " but no API key is configured — set HIVENET_ROUTER_ANTHROPIC_API_KEY")
    else
      some (declares ++ " but this engine is not supported; supported engines: openai, anthropic")

/-! ### The documents after a reload -/

/-- What a reload reads: the stems and hashes of the files at the last reload and now, the
snapshot, the documents held, and the order in which it visits each of the two maps of
documents. -/
structure Reloading (Hash : Type) where
  providers : List String
  oldStemHashes : GoMap String Hash
  newStemHashes : GoMap String Hash
  snap : DirSnapshot Hash
  currentNamed : GoMap String PolicyDoc
  stems : List String
  heldStems : List String
  stems_order : RangeOrder snap.named stems
  heldStems_order : RangeOrder currentNamed heldStems

/-- The closure `stemHash`: of two files with one stem, the one visited last counts. -/
def stemHash {Hash : Type} (files : List String) (hashes : GoMap String Hash) : GoMap String Hash :=
  files.foldl (fun m filename =>
    if isDefault filename then m
    else match hashes.lookup filename with
      | some h => m.insert (stem filename) h
      | none => m) ∅

/-- The loop over `order` that records, for each model of a document of `docs`, the name of
the document. -/
def recordOwners (owners : GoMap String String) (order : List String)
    (docs : String → Option PolicyDoc) : GoMap String String :=
  order.foldl (fun owners name => match docs name with
    | some p => extend owners p.models fun _ => some name
    | none => owners) owners

namespace Reloading

variable {Hash : Type} [DecidableEq Hash] (R : Reloading Hash)

/-- The file is the one of the last reload. A loaded document has a file, so the second
lookup finds a hash whenever this is asked of one. -/
def unchanged (name : String) : Bool :=
  match R.oldStemHashes.lookup name with
  | some oldHash => R.newStemHashes.lookup name = some oldHash
  | none => false

/-- `yamlExists || ymlExists`. -/
def fileExists (name : String) : Bool :=
  (R.snap.hashes.lookup (name ++ ".yaml")).isSome || (R.snap.hashes.lookup (name ++ ".yml")).isSome

/-- A document of the first loop of `establishedOwners`. -/
def unchangedDoc (name : String) : Option PolicyDoc :=
  if R.unchanged name then R.snap.named.lookup name else none

/-- A document of its second loop: held, and its file is there but not loaded. -/
def brokenDoc (name : String) : Option PolicyDoc :=
  if (R.snap.named.lookup name).isSome then none
  else if R.fileExists name then R.currentNamed.lookup name
  else none

def establishedOwners : GoMap String String :=
  recordOwners (recordOwners ∅ R.stems R.unchangedDoc) R.heldStems R.brokenDoc

/-- One turn of the second pass. -/
def accept (name : String) : Option PolicyDoc :=
  match R.snap.named.lookup name with
  | none => none
  | some np =>
    if !R.unchanged name && np.models.any fun m => (R.establishedOwners.lookup m).isSome then none
    else if (validateProviderPolicy R.providers np).isSome then none
    else some np

/-- `valid` after the second pass. -/
def accepted : GoMap String PolicyDoc := extend ∅ R.stems R.accept

/-- One turn of the loop that restores held documents. -/
def restore (name : String) : Option PolicyDoc :=
  if (R.accepted.lookup name).isSome then none
  else if R.fileExists name then R.currentNamed.lookup name
  else none

/-- `valid`, the documents after the reload. -/
def named : GoMap String PolicyDoc := extend R.accepted R.heldStems R.restore

/-! ### When a reload keeps the documents exclusive -/

/-- A model of an unchanged file that is loaded, or of a held document whose file is there
but not loaded. -/
def Established (m : String) : Prop :=
  (∃ a ∈ R.stems, R.unchanged a = true ∧ ∃ np ∈ R.snap.named.lookup a, m ∈ np.models) ∨
    ∃ o ∈ R.heldStems, R.snap.named.lookup o = none ∧ R.fileExists o = true ∧
      ∃ held ∈ R.currentNamed.lookup o, m ∈ held.models

instance (m : String) : Decidable (R.Established m) := inferInstanceAs (Decidable (_ ∨ _))

/-- The loaded document can be taken over: its file is unchanged or lists no established
model, and its provider is configured. -/
def Acceptable (a : String) (np : PolicyDoc) : Prop :=
  (R.unchanged a = true ∨ ∀ m ∈ np.models, ¬R.Established m) ∧
    validateProviderPolicy R.providers np = none

instance (a : String) (np : PolicyDoc) : Decidable (R.Acceptable a np) :=
  inferInstanceAs (Decidable (_ ∧ _))

/-- No held document whose file is there but does not parse, or conflicts with another file
of the directory, lists a model of an acceptable unchanged file; and none whose file is
loaded but not acceptable lists a model of an acceptable file. -/
def Compatible : Prop :=
  ∀ o ∈ R.heldStems, ∀ held ∈ R.currentNamed.lookup o, R.fileExists o = true →
    ∀ a ∈ R.stems, ∀ np ∈ R.snap.named.lookup a, R.Acceptable a np →
      (R.snap.named.lookup o = none ∧ R.unchanged a = true ∨
        ∃ np' ∈ R.snap.named.lookup o, ¬R.Acceptable o np') →
      ∀ m ∈ held.models, m ∉ np.models

instance : Decidable R.Compatible := inferInstanceAs (Decidable (∀ o ∈ R.heldStems, _))

end Reloading

theorem isSome_lookup_recordOwners (owners : GoMap String String) (order : List String)
    (docs : String → Option PolicyDoc) (m : String) :
    ((recordOwners owners order docs).lookup m).isSome ↔
      (owners.lookup m).isSome ∨ ∃ name ∈ order, ∃ p ∈ docs name, m ∈ p.models := by
  -- by induction on the documents visited, whatever is recorded before them
  induction order generalizing owners with
  | nil => simp [recordOwners]
  | cons name order ih =>
    refine (ih _).trans ?_
    cases hp : docs name with
    | none => simp [hp]
    | some p =>
      simp only [lookup_extend, List.exists_mem_cons_iff, hp, mem_some_iff, exists_eq_left']
      by_cases hm : m ∈ p.models <;> simp [hm]

namespace Reloading

variable {Hash : Type} [DecidableEq Hash] {R : Reloading Hash} {a : String} {np held : PolicyDoc}

theorem isSome_establishedOwners (m : String) :
    (R.establishedOwners.lookup m).isSome ↔ R.Established m := by
  unfold establishedOwners Established
  rw [isSome_lookup_recordOwners, isSome_lookup_recordOwners]
  simp only [Finmap.lookup_empty, isSome_none, Bool.false_eq_true, false_or]
  -- the first loop records the unchanged files, the second one the broken files
  refine or_congr (exists_congr fun a => and_congr_right fun _ => ?_)
    (exists_congr fun o => and_congr_right fun _ => ?_)
  · unfold unchangedDoc
    split_ifs with h <;> simp [h]
  · unfold brokenDoc
    cases R.snap.named.lookup o with
    | some => simp
    | none => cases R.fileExists o <;> simp

theorem accept_eq_some_iff :
    R.accept a = some np ↔ R.snap.named.lookup a = some np ∧ R.Acceptable a np := by
  unfold accept Acceptable
  cases hload : R.snap.named.lookup a with
  | none => simp
  | some np' =>
    -- the two refusals of the second pass
    have hfree : (!R.unchanged a && np'.models.any fun m => (R.establishedOwners.lookup m).isSome)
        = true ↔ ¬(R.unchanged a = true ∨ ∀ m ∈ np'.models, ¬R.Established m) := by
      simp [isSome_establishedOwners]
    have hprovider : (validateProviderPolicy R.providers np').isSome = true ↔
        ¬validateProviderPolicy R.providers np' = none := by
      rw [isSome_iff_ne_none]
    rw [ite_none_left_eq_some, ite_none_left_eq_some, hfree, hprovider, not_not, not_not]
    constructor
    · rintro ⟨hfree, hprovider, heq⟩
      obtain rfl := some.inj heq
      exact ⟨rfl, hfree, hprovider⟩
    · rintro ⟨heq, hfree, hprovider⟩
      obtain rfl := some.inj heq
      exact ⟨hfree, hprovider, rfl⟩

theorem lookup_accepted (name : String) : R.accepted.lookup name = R.accept name := by
  unfold accepted
  rw [lookup_extend, Finmap.lookup_empty, or_none]
  split_ifs with hname
  · rfl
  · -- a name that is not visited has no document in the snapshot
    have hnone : R.snap.named.lookup name = none := by
      rwa [R.stems_order.mem_iff, Bool.not_eq_true, isSome_eq_false_iff,
        isNone_iff_eq_none] at hname
    rw [accept, hnone]

/-- The documents after a reload: those it accepts, and the held ones whose file is there. -/
theorem lookup_named_eq_some_iff {name : String} {p : PolicyDoc} :
    R.named.lookup name = some p ↔ R.accept name = some p ∨
      R.accept name = none ∧ R.fileExists name = true ∧ R.currentNamed.lookup name = some p := by
  unfold named
  rw [lookup_extend, lookup_accepted, restore, lookup_accepted]
  cases hacc : R.accept name with
  | some => simp
  | none =>
    cases hheld : R.currentNamed.lookup name with
    | none => simp
    | some held =>
      -- a held document is visited
      have hmem : name ∈ R.heldStems := (R.heldStems_order.mem_iff name).mpr (by rw [hheld]; rfl)
      cases R.fileExists name <;> simp [hmem]

omit [DecidableEq Hash] in
theorem mem_stems (h : R.snap.named.lookup a = some np) : a ∈ R.stems :=
  (R.stems_order.mem_iff a).mpr (by rw [h]; rfl)

variable {o : String}

omit [DecidableEq Hash] in
theorem mem_heldStems (h : R.currentNamed.lookup o = some held) : o ∈ R.heldStems :=
  (R.heldStems_order.mem_iff o).mpr (by rw [h]; rfl)

/-- In a compatible reload, a restored document and an accepted one have no common model. -/
theorem Compatible.apart (h : R.Compatible) (hacc : R.accept a = some np)
    (hrefused : R.accept o = none) (hfile : R.fileExists o = true)
    (hheld : R.currentNamed.lookup o = some held) : ∀ m ∈ held.models, m ∉ np.models := by
  intro m hm hm'
  obtain ⟨hload, hok⟩ := accept_eq_some_iff.mp hacc
  have happly := fun hcase =>
    h o (mem_heldStems hheld) held hheld hfile a (mem_stems hload) np hload hok hcase m hm hm'
  cases hload' : R.snap.named.lookup o with
  | some np' =>
    -- a loaded file that is not accepted is not acceptable
    refine happly (.inr ⟨np', hload', fun hok' => ?_⟩)
    rw [accept_eq_some_iff.mpr ⟨hload', hok'⟩] at hrefused
    cases hrefused
  | none =>
    rcases hok.1 with hunchanged | hfree
    · exact happly (.inl ⟨hload', hunchanged⟩)
    · -- the models of a broken file are established, and a changed file is checked for them
      exact hfree m hm' (.inr ⟨o, mem_heldStems hheld, hload', hfile, held, hheld, hm⟩)

/-- **A reload keeps the documents exclusive exactly when it is compatible.** -/
theorem exclusive_named_iff (hheld : Exclusive R.currentNamed) (hsnap : Exclusive R.snap.named) :
    Exclusive R.named ↔ R.Compatible := by
  constructor
  · intro hex o _ held hlookup hfile a _ np hload hok hcase m hm hm'
    -- a document that is not apart from a restored one would own the model too
    have hacc : R.accept a = some np := accept_eq_some_iff.mpr ⟨hload, hok⟩
    have hrefused : R.accept o = none := by
      refine eq_none_iff_forall_ne_some.mpr fun np' hacc' => ?_
      obtain ⟨hload', hok'⟩ := accept_eq_some_iff.mp hacc'
      rcases hcase with ⟨hnone, -⟩ | ⟨np'', hload'', hnot⟩
      · rw [hnone] at hload'
        cases hload'
      · obtain rfl := mem_unique hload' hload''
        exact hnot hok'
    obtain rfl := hex o a held np (lookup_named_eq_some_iff.mpr (.inr ⟨hrefused, hfile, hlookup⟩))
      (lookup_named_eq_some_iff.mpr (.inl hacc)) m hm hm'
    rw [hacc] at hrefused
    cases hrefused
  · intro h s s' p p' hs hs' m hm hm'
    -- two accepted ones are both of the snapshot, two restored ones were both held
    rcases lookup_named_eq_some_iff.mp hs with hacc | ⟨hrefused, hfile, hlookup⟩ <;>
      rcases lookup_named_eq_some_iff.mp hs' with hacc' | ⟨hrefused', hfile', hlookup'⟩
    · exact hsnap s s' p p' (accept_eq_some_iff.mp hacc).1 (accept_eq_some_iff.mp hacc').1 m hm hm'
    · exact absurd hm (h.apart hacc hrefused' hfile' hlookup' m hm')
    · exact absurd hm' (h.apart hacc' hrefused hfile hlookup m hm)
    · exact hheld s s' p p' hlookup hlookup' m hm hm'

end Reloading

/-! ### The machine -/

/-- The policies of a router. -/
structure State (Hash : Type) where
  policy : PolicyState
  policyDirHashes : GoMap String Hash

/-- What a reload finds: the directory, the verdict of `checkAdmissionAgainstKeys` on a global
policy and named ones, and the order in which it visits each map. -/
structure Reload (Content : Type) where
  dir : Directory Content
  checkAdmission : PolicyDoc → GoMap String PolicyDoc → Bool
  oldFiles : List String
  newFiles : List String
  stems : List String
  heldStems : List String

inductive Act (Content : Type) where
  | setPolicy (p : PolicyDoc)
  /-- `order` is the order of the documents in the check. -/
  | setNamedPolicy (order : List String) (name : String) (p : PolicyDoc)
  | deleteNamedPolicy (name : String)
  | reloadPolicyModelDir (r : Reload Content)

section Machine

variable {Content Hash : Type} [DecidableEq Hash] (D : DirLoader Content Hash)
  (providers : List String)

/-- The snapshot that a reload applies: there is none if the directory cannot be loaded, no
file has changed, or the admission check fails. -/
def State.changedSnapshot (st : State Hash) (r : Reload Content) : Option (DirSnapshot Hash) :=
  (loadDirSnapshot D r.dir).filter fun snap =>
    snap.hashes ≠ st.policyDirHashes &&
      r.checkAdmission (snap.global.getD st.policy.global) snap.named

def State.reloadGlobal (st : State Hash) (snap : DirSnapshot Hash) : PolicyDoc :=
  match snap.global with
  | some g => if (validateProviderPolicy providers g).isSome then st.policy.global else g
  | none =>
    if (st.policyDirHashes.lookup "_default.yaml").isSome ||
        (st.policyDirHashes.lookup "_default.yml").isSome then defaultPolicy
    else st.policy.global

/-- What the reload reads, if it visits each map in an order of `range`. -/
def State.reloading (st : State Hash) (r : Reload Content) (snap : DirSnapshot Hash) :
    Option (Reloading Hash) :=
  if h : (RangeOrder st.policyDirHashes r.oldFiles ∧ RangeOrder snap.hashes r.newFiles) ∧
      RangeOrder snap.named r.stems ∧ RangeOrder st.policy.named r.heldStems then
    some ⟨providers, stemHash r.oldFiles st.policyDirHashes, stemHash r.newFiles snap.hashes,
      snap, st.policy.named, r.stems, r.heldStems, h.2.1, h.2.2⟩
  else none

def State.reloadPolicyModelDir (st : State Hash) (r : Reload Content) : Option (State Hash) :=
  match st.changedSnapshot D r with
  | none => some st
  | some snap => (st.reloading providers r snap).map fun R =>
    ⟨⟨st.reloadGlobal providers snap, R.named⟩, snap.hashes⟩

def State.step (st : State Hash) : Act Content → Option (State Hash)
  | .setPolicy p => some { st with policy := st.policy.setPolicy p }
  | .setNamedPolicy order name p =>
    if RangeOrder st.policy.named order then
      match st.policy.setNamedPolicy order name p with
      | .ok policy => some { st with policy := policy }
      | .error _ => some st
    else none
  | .deleteNamedPolicy name => some { st with policy := st.policy.deleteNamedPolicy name }
  | .reloadPolicyModelDir r => st.reloadPolicyModelDir D providers r

/-- The policies after startup, with `activePolicy` from `--policy-file` or the default. -/
def State.start (activePolicy : PolicyDoc) (snap : DirSnapshot Hash) : State Hash :=
  ⟨⟨snap.global.getD activePolicy, snap.named⟩, snap.hashes⟩

def policies : Machine (State Hash) (Act Content) where
  Init st := ∃ dir activePolicy, ∃ snap ∈ loadDirSnapshot D dir, st = .start activePolicy snap
  step st a := st.step D providers a

/-- A reload, if it applies a snapshot, is compatible with the documents held. -/
def CompatibleStep (st : State Hash) : Act Content → Prop
  | .reloadPolicyModelDir r =>
    ∀ snap ∈ st.changedSnapshot D r, ∀ R ∈ st.reloading providers r snap, R.Compatible
  | _ => True

instance (st : State Hash) (a : Act Content) : Decidable (CompatibleStep D providers st a) := by
  unfold CompatibleStep
  split <;> infer_instance

/-- No model has two owners, and so every model has one effective policy. -/
structure Owned (st : State Hash) : Prop where
  exclusive : Exclusive st.policy.named
  effective : ∀ order order', RangeOrder st.policy.named order →
    RangeOrder st.policy.named order' →
      ∀ model, st.policy.effectivePolicy order model = st.policy.effectivePolicy order' model

variable {st : State Hash}

omit [DecidableEq Hash] in
theorem owned_iff : Owned st ↔ Exclusive st.policy.named :=
  ⟨Owned.exclusive, fun hex => ⟨hex, fun _ _ h h' => effectivePolicy_congr hex h h'⟩⟩

variable {D providers}

theorem owned_of_init (h : (policies D providers).Init st) : Owned st := by
  obtain ⟨dir, activePolicy, snap, hsnap, rfl⟩ := h
  exact owned_iff.mpr (loadDirSnapshot_exclusive hsnap)

omit [DecidableEq Hash] in
theorem reloading_eq_some {r : Reload Content} {snap : DirSnapshot Hash} {R : Reloading Hash}
    (h : st.reloading providers r snap = some R) :
    R.currentNamed = st.policy.named ∧ R.snap = snap ∧ R.stems = r.stems := by
  unfold State.reloading at h
  split_ifs at h
  cases h
  exact ⟨rfl, rfl, rfl⟩

/-- The reload that is not compatible is the only step that breaks ownership. -/
theorem owned_step_iff {st' : State Hash} {a : Act Content} (h : Owned st)
    (hstep : (policies D providers).step st a = some st') :
    Owned st' ↔ CompatibleStep D providers st a := by
  rw [owned_iff]
  cases a with
  | setPolicy =>
    cases hstep
    exact iff_of_true h.exclusive trivial
  | setNamedPolicy =>
    refine iff_of_true ?_ trivial
    obtain ⟨horder, hstep⟩ := ite_none_right_eq_some.mp hstep
    split at hstep
    · next policy hset =>
      cases hstep
      exact setNamedPolicy_exclusive horder h.exclusive hset
    · cases hstep
      exact h.exclusive
  | deleteNamedPolicy name =>
    cases hstep
    exact iff_of_true (h.exclusive.erase name) trivial
  | reloadPolicyModelDir r =>
    change st.reloadPolicyModelDir D providers r = some st' at hstep
    rw [State.reloadPolicyModelDir] at hstep
    rw [CompatibleStep]
    split at hstep
    · -- no snapshot is applied
      next hnone =>
      cases hstep
      refine iff_of_true h.exclusive fun snap hsnap => ?_
      rw [hnone] at hsnap
      cases hsnap
    · next snap hsnap =>
      obtain ⟨R, hR, rfl⟩ := map_eq_some_iff.mp hstep
      -- the reload merges two families of documents, each without a conflict of its own
      obtain ⟨hheld, hload, -⟩ := reloading_eq_some hR
      have hexclusive : Exclusive R.snap.named :=
        hload ▸ loadDirSnapshot_exclusive (filter_eq_some_iff.mp hsnap).1
      refine (Reloading.exclusive_named_iff (hheld ▸ h.exclusive) hexclusive).trans ?_
      simp only [hsnap, hR, mem_some_iff, forall_eq']

/-- **Throughout a run every model has one owner and one effective policy, exactly when every
reload of the run is compatible.** -/
theorem owned_throughout_iff {st st' : State Hash} {acts : List (Act Content)}
    (hinit : (policies D providers).Init st)
    (hrun : (policies D providers).run st acts = some st') :
    (policies D providers).Throughout Owned st acts ↔
      (policies D providers).Along (CompatibleStep D providers) st acts :=
  Machine.throughout_iff_along (fun _ _ _ h hstep => owned_step_iff h hstep) acts st st'
    (owned_of_init hinit) hrun

end Machine

/-! ### Two files for one model -/

/-- A document for the model `m` that routes at random. -/
def randomDoc : PolicyDoc := { docFor ["m"] with routingPolicy := { strategy := "random" } }

/-- `t.yaml` with some content, and a later `s.yaml` that lists the model `m`. -/
def sharedModelDir (t : Option PolicyDoc) : Directory (Option PolicyDoc) where
  entries := [⟨"t.yaml", false, some 1, some t⟩, ⟨"s.yaml", false, some 2, some (some randomDoc)⟩]
  nodup := by simp

/-- A reload of that directory that passes the admission check. -/
def reloadShared (t : Option PolicyDoc) (stems heldStems : List String) : Act (Option PolicyDoc) :=
  .reloadPolicyModelDir ⟨sharedModelDir t, fun _ _ => true, ["s.yaml", "t.yaml"],
    ["t.yaml", "s.yaml"], stems, heldStems⟩

/-- At startup `t.yaml` owns the model and `s.yaml` is in conflict with it. -/
def sharedStart : Option (State (Option PolicyDoc)) :=
  (loadDirSnapshot plainLoader (sharedModelDir (some (docFor ["m"])))).map (.start defaultPolicy)

theorem init_of_mem_sharedStart {st : State (Option PolicyDoc)} (h : st ∈ sharedStart) :
    (policies plainLoader []).Init st := by
  obtain ⟨snap, hsnap, rfl⟩ := map_eq_some_iff.mp h
  exact ⟨_, _, snap, hsnap, rfl⟩

/-- A document of the API, and a `t.yaml` that lists one more model. -/
def compatibleActs : List (Act (Option PolicyDoc)) :=
  [.setNamedPolicy ["t"] "api" (docFor ["x"]),
    reloadShared (some (docFor ["m", "n"])) ["t"] ["api", "t"]]

theorem owned_throughout_api_then_reload : ∃ st st', (policies plainLoader []).Init st ∧
      (policies plainLoader []).run st compatibleActs = some st' ∧
      (policies plainLoader []).Throughout Owned st compatibleActs := by
  obtain ⟨st, hst, st', hrun, halong⟩ : ∃ st ∈ sharedStart,
      ∃ st' ∈ (policies plainLoader []).run st compatibleActs,
        (policies plainLoader []).Along (CompatibleStep plainLoader []) st compatibleActs := by
    decide +kernel
  have hinit := init_of_mem_sharedStart hst
  exact ⟨st, st', hinit, hrun, (owned_throughout_iff hinit hrun).mpr halong⟩

/-- When `t.yaml` stops parsing, the reload takes over the unchanged `s.yaml`, which was in
conflict before, and restores the document of `t.yaml`: the model has two owners, and its
policy depends on which of them is visited last. -/
theorem two_owners : ∃ st st', (policies plainLoader []).Init st ∧
      (policies plainLoader []).run st [reloadShared none ["s"] ["t"]] = some st' ∧
      (∃ p q, st'.policy.named.lookup "t" = some p ∧ st'.policy.named.lookup "s" = some q ∧
        "m" ∈ p.models ∧ "m" ∈ q.models) ∧
      st'.policy.effectivePolicy ["s", "t"] "m" ≠ st'.policy.effectivePolicy ["t", "s"] "m" ∧
      ¬Owned st' := by
  obtain ⟨st, hst, st', hrun, ⟨p, hp, q, hq, hpm, hqm⟩, heff⟩ : ∃ st ∈ sharedStart,
      ∃ st' ∈ (policies plainLoader []).run st [reloadShared none ["s"] ["t"]],
        (∃ p ∈ st'.policy.named.lookup "t", ∃ q ∈ st'.policy.named.lookup "s",
          "m" ∈ p.models ∧ "m" ∈ q.models) ∧
        st'.policy.effectivePolicy ["s", "t"] "m" ≠ st'.policy.effectivePolicy ["t", "s"] "m" := by
    decide +kernel
  refine ⟨st, st', init_of_mem_sharedStart hst, hrun, ⟨p, q, hp, hq, hpm, hqm⟩, heff, ?_⟩
  intro howned
  exact absurd (howned.exclusive "t" "s" p q hp hq "m" hpm hqm) (by decide)

end HivenetRouter.Router
