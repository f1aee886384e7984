import HivenetRouter.Framework.FirstClaim
import HivenetRouter.Policy.Session

/-!
# Loading a policy directory

`LoadDirSnapshot`: the files of a policy directory, oldest first, become the named policy
documents of a `DirSnapshot`. A document claims the models it lists; a file that lists a
model which an earlier file has claimed is skipped whole, as a conflict. Reading YAML is
outside the model: a directory entry has some content, and `DirLoader` says what the two
parsers make of it. The log of the source is kept, since it is where a skipped file is
reported.

The documents that win their models are those of `winners`, first come, first served. The
snapshot holds them by **stem**, the file name without its extension, and two files can have
one stem (`a.yaml` and `a.yml`). `complete_iff` says that a snapshot accounts for every file
exactly when no two winners have one stem; otherwise the later one replaces the earlier,
whose models stay claimed (`stem_collision`).

What every snapshot has, whatever the stems, is that no model is listed by two of its
documents (`loadDirSnapshot_exclusive`).
-/

namespace HivenetRouter.Policy

open List Option FirstClaim

/-! ### Policy documents -/

structure FallbackProvider where
  engine : String
  model : String
  deriving DecidableEq

/-- `PolicyMode`, as `EffectiveMode` resolves it: a mode that is left out is `reserved`. -/
inductive PolicyMode where
  | reserved
  | serverless
  deriving DecidableEq

/-- `Policy`: the models a document applies to, its routing, whether it has the two semantic
blocks, its mode and its input cap (0 is unset). -/
structure PolicyDoc where
  models : List String
  routingPolicy : PolicyStep
  fallbackProvider : Option FallbackProvider
  hasProfile : Bool
  hasAlias : Bool
  mode : PolicyMode
  maxInputTokens : ℤ
  deriving DecidableEq

def PolicyDoc.isServerless (p : PolicyDoc) : Bool := p.mode = .serverless

def PolicyDoc.governsAnyOf (p : PolicyDoc) (keyModels : List String) : Bool :=
  keyModels.isEmpty || p.models.isEmpty || keyModels.any (· ∈ p.models)

/-- `isZeroStep`. -/
def PolicyStep.isZero (s : PolicyStep) : Bool :=
  s.matchFilter = {} && s.excludeIf = [] && s.maxTries = 0

/-- `InheritsRouting`: the document has no routing of its own. -/
def PolicyDoc.inheritsRouting (p : PolicyDoc) : Bool :=
  (p.hasProfile || p.hasAlias) && p.routingPolicy.strategy = "" && p.routingPolicy.isZero

/-! ### File names -/

def hasSuffix (s suffix : String) : Bool := suffix.toList.isSuffixOf s.toList

def trimSuffix (s suffix : String) : String :=
  if hasSuffix s suffix then String.ofList (s.toList.take (s.toList.length - suffix.toList.length))
  else s

def stem (name : String) : String := trimSuffix (trimSuffix name ".yaml") ".yml"

def isPolicyFile (name : String) : Bool := hasSuffix name ".yaml" || hasSuffix name ".yml"

/-- The file of the global policy. -/
def isDefault (name : String) : Bool := name = "_default.yaml" || name = "_default.yml"

/-! ### Directories and snapshots -/

/-- An entry of `os.ReadDir`: its modification time if `Info` succeeds, and its content if it
can be read. -/
structure DirEntry (Content : Type) where
  name : String
  isDir : Bool
  mtime : Option ℤ
  data : Option Content

/-- The entries of a directory have different names. -/
structure Directory (Content : Type) where
  entries : List (DirEntry Content)
  nodup : (entries.map (·.name)).Nodup

/-- `fileEntry`, with the content of the file. -/
structure FileEntry (Content : Type) where
  name : String
  mtime : ℤ
  data : Option Content

/-- The functions that are applied to the content of a file. -/
structure DirLoader (Content Hash : Type) where
  sha256 : Content → Hash
  loadBytes : Content → Option PolicyDoc
  loadModelDocBytes : Content → Option PolicyDoc

inductive Report where
  | statError
  | readError
  | parseError
  | noModels
  /-- `model` is already claimed by the file `owner`. -/
  | conflict (model owner : String)

structure DirSnapshot (Hash : Type) where
  global : Option PolicyDoc
  named : GoMap String PolicyDoc
  conflicted : GoMap String Report
  hashes : GoMap String Hash

/-- The state of the loop: the snapshot so far, the owner of each claimed model, and the
log. -/
structure Loading (Hash : Type) where
  snap : DirSnapshot Hash
  claimedBy : GoMap String String
  log : List (String × Report)

namespace Loading

variable {Hash : Type}

def report (st : Loading Hash) (name : String) (r : Report) : Loading Hash :=
  { st with log := st.log ++ [(name, r)] }

def hash (st : Loading Hash) (name : String) (h : Hash) : Loading Hash :=
  { st with snap := { st.snap with hashes := st.snap.hashes.insert name h } }

def setGlobal (st : Loading Hash) (p : PolicyDoc) : Loading Hash :=
  { st with snap := { st.snap with global := some p } }

/-- The file lists `model`, which another document has claimed. -/
def conflict (st : Loading Hash) (name model : String) : Loading Hash :=
  let r := Report.conflict model ((st.claimedBy.lookup model).getD "" ++ ".yaml")
  { st.report name r with
    snap := { st.snap with conflicted := st.snap.conflicted.insert (stem name) r } }

/-- The document takes its models. -/
def claim (st : Loading Hash) (name : String) (p : PolicyDoc) : Loading Hash :=
  { st with
    claimedBy := GoMap.extend st.claimedBy p.models fun _ => some (stem name)
    snap := { st.snap with named := st.snap.named.insert (stem name) p } }

end Loading

section Load

variable {Content Hash : Type} (D : DirLoader Content Hash)

/-- The end of a turn of the loop: the document of a per-model policy file. -/
def loadDocument (st : Loading Hash) (name : String) (data : Content) : Loading Hash :=
  match D.loadModelDocBytes data with
  | none => st.report name .parseError
  | some p =>
    if p.models = [] then st.report name .noModels
    else
      match p.models.find? fun m => (st.claimedBy.lookup m).isSome with
      | some m => st.conflict name m
      | none => st.claim name p

/-- One turn of the loop; `none` is the error that ends `LoadDirSnapshot`. -/
def loadEntry (st : Loading Hash) (f : FileEntry Content) : Option (Loading Hash) :=
  if !isPolicyFile f.name then some st
  else
    match f.data with
    | none => if isDefault f.name then none else some (st.report f.name .readError)
    | some data =>
      let st := st.hash f.name (D.sha256 data)
      if isDefault f.name then (D.loadBytes data).map fun p => st.setGlobal p
      else some (loadDocument D st f.name data)

/-- Oldest first, by name among files of one time. -/
def FileEntry.before (f g : FileEntry Content) : Prop :=
  f.mtime < g.mtime ∨ f.mtime = g.mtime ∧ f.name ≤ g.name

instance : DecidableRel (@FileEntry.before Content) :=
  fun _ _ => inferInstanceAs (Decidable (_ ∨ _))

/-- The files whose `Info` succeeds, in the order in which they are loaded. -/
def Directory.fileEntries (dir : Directory Content) : List (FileEntry Content) :=
  (dir.entries.filterMap fun e =>
    if e.isDir then none else e.mtime.map fun t => ⟨e.name, t, e.data⟩).insertionSort
    FileEntry.before

def Directory.statErrors (dir : Directory Content) : List String :=
  (dir.entries.filter fun e => !e.isDir && e.mtime.isNone).map (·.name)

def Loading.start (dir : Directory Content) : Loading Hash where
  snap := ⟨none, ∅, ∅, ∅⟩
  claimedBy := ∅
  log := dir.statErrors.map fun name => (name, .statError)

/-- `LoadDirSnapshot`, with its local map of claims and its log. -/
def loadDir (dir : Directory Content) : Option (Loading Hash) :=
  dir.fileEntries.foldlM (loadEntry D) (.start dir)

/-- `LoadDirSnapshot`, on a directory that can be read. -/
def loadDirSnapshot (dir : Directory Content) : Option (DirSnapshot Hash) :=
  (loadDir D dir).map (·.snap)

end Load

/-! ### The documents that win their models -/

section Winners

variable {Content Hash : Type} (D : DirLoader Content Hash) {f : FileEntry Content}

/-- The document of a file that can be read and parsed and lists a model. -/
def candidate (f : FileEntry Content) : Option (String × PolicyDoc) :=
  if isPolicyFile f.name && !isDefault f.name then
    (f.data.bind D.loadModelDocBytes).bind fun p =>
      if p.models = [] then none else some (f.name, p)
  else none

/-- The models that the document of a file claims. -/
def claimsOf (w : String × PolicyDoc) : List String := w.2.models

def winners (dir : Directory Content) : List (String × PolicyDoc) :=
  FirstClaim.winners claimsOf (dir.fileEntries.filterMap (candidate D))

variable {w : String × PolicyDoc} {ws : List (String × PolicyDoc)}

theorem candidate_eq_some_iff :
    candidate D f = some w ↔ isPolicyFile f.name = true ∧ isDefault f.name = false ∧
      w.1 = f.name ∧ w.2.models ≠ [] ∧
        ∃ data, f.data = some data ∧ D.loadModelDocBytes data = some w.2 := by
  unfold candidate
  constructor
  · intro h
    obtain ⟨hname, h⟩ := ite_none_right_eq_some.mp h
    rw [Bool.and_eq_true, Bool.not_eq_true'] at hname
    obtain ⟨p, hp, h⟩ := bind_eq_some_iff.mp h
    obtain ⟨data, hdata, hp⟩ := bind_eq_some_iff.mp hp
    split_ifs at h with hmodels
    cases h
    exact ⟨hname.1, hname.2, rfl, hmodels, data, hdata, hp⟩
  · rintro ⟨hpolicy, hdefault, hname, hmodels, data, hdata, hp⟩
    obtain ⟨name, p⟩ := w
    subst hname
    rw [hpolicy, hdefault, hdata]
    simp only [Bool.not_false, Bool.and_self, if_true, bind_some, hp, if_neg hmodels]

def lastWith (ws : List (String × PolicyDoc)) (s : String) : Option (String × PolicyDoc) :=
  ws.reverse.find? fun w => stem w.1 = s

theorem lastWith_concat (ws : List (String × PolicyDoc)) (w : String × PolicyDoc) (s : String) :
    lastWith (ws ++ [w]) s = if stem w.1 = s then some w else lastWith ws s := by
  unfold lastWith
  rw [reverse_append, reverse_singleton, singleton_append, find?_cons]
  split <;> simp_all

theorem lastWith_eq_some {s : String} (h : lastWith ws s = some w) : w ∈ ws ∧ stem w.1 = s :=
  ⟨mem_reverse.mp (mem_of_find?_eq_some h), by simpa using find?_some h⟩

theorem lastWith_of_mem (hws : (ws.map fun w => stem w.1).Nodup) (hw : w ∈ ws) :
    lastWith ws (stem w.1) = some w := by
  cases hlast : lastWith ws (stem w.1) with
  | none =>
    have := find?_eq_none.mp hlast w (mem_reverse.mpr hw)
    exact absurd (decide_eq_true rfl) this
  | some =>
    -- two winners with one stem are one
    obtain ⟨hw', hstem⟩ := lastWith_eq_some hlast
    rw [inj_on_of_nodup_map hws hw' hw hstem]

/-! ### The loop -/

/-- What the loop has built when the winners so far are `ws`. -/
structure Loaded (ws : List (String × PolicyDoc)) (st : Loading Hash) : Prop where
  apart : ws.Pairwise (FirstClaim.Apart claimsOf)
  named : ∀ s, st.snap.named.lookup s = (lastWith ws s).map (·.2)
  claimed : ∀ m s, st.claimedBy.lookup m = some s ↔ ∃ w ∈ ws, m ∈ w.2.models ∧ stem w.1 = s

theorem Loaded.start (dir : Directory Content) : Loaded [] (.start dir : Loading Hash) where
  apart := List.Pairwise.nil
  named _ := rfl
  claimed m s := by
    constructor
    · intro h
      cases h
    · rintro ⟨w, hw, -⟩
      exact absurd hw not_mem_nil

variable {D} {st st' : Loading Hash} {name : String}

/-- A step that leaves the documents and the claims alone. -/
theorem Loaded.congr (h : Loaded ws st) (hnamed : st'.snap.named = st.snap.named)
    (hclaimed : st'.claimedBy = st.claimedBy) : Loaded ws st' := by
  refine ⟨h.apart, ?_, ?_⟩
  · rw [hnamed]
    exact h.named
  · rw [hclaimed]
    exact h.claimed

/-- A model is claimed exactly when a winner lists it. -/
theorem Loaded.taken_iff (h : Loaded ws st) (w : String × PolicyDoc) :
    taken claimsOf ws w = w.2.models.any fun m => (st.claimedBy.lookup m).isSome := by
  rw [Bool.eq_iff_iff, taken, List.any_eq_true, List.any_eq_true]
  refine exists_congr fun m => and_congr_right fun _ => ?_
  rw [List.any_eq_true, isSome_iff_exists]
  constructor
  · rintro ⟨w', hw', hm⟩
    exact ⟨stem w'.1, (h.claimed m _).mpr ⟨w', hw', of_decide_eq_true hm, rfl⟩⟩
  · rintro ⟨s, hs⟩
    obtain ⟨w', hw', hm, -⟩ := (h.claimed m s).mp hs
    exact ⟨w', hw', decide_eq_true hm⟩

/-- A document that takes its models is one more winner. -/
theorem Loaded.claim (h : Loaded ws st) {p : PolicyDoc}
    (hfree : taken claimsOf ws (name, p) = false) :
    Loaded (ws ++ [(name, p)]) (st.claim name p) := by
  refine ⟨FirstClaim.pairwise_concat h.apart hfree, ?_, ?_⟩
  · -- a later file with the same stem replaces the document, and so the last one counts
    intro s
    show (st.snap.named.insert (stem name) p).lookup s = _
    rw [lastWith_concat]
    by_cases hs : s = stem name
    · subst hs
      rw [Finmap.lookup_insert, if_pos rfl]
      rfl
    · rw [Finmap.lookup_insert_of_ne _ hs, if_neg (Ne.symm hs), h.named]
  · intro m s
    show (GoMap.extend st.claimedBy p.models fun _ => some (stem name)).lookup m = some s ↔ _
    rw [GoMap.lookup_extend]
    simp only [mem_append, mem_singleton, or_and_right, exists_or, exists_eq_left]
    by_cases hm : m ∈ p.models
    · -- no earlier winner lists a model of the new one
      have hnone : ¬∃ w ∈ ws, m ∈ w.2.models ∧ stem w.1 = s := by
        rintro ⟨w, hw, hmw, -⟩
        exact not_taken_iff.mp hfree w hw m hmw hm
      simp only [hnone, false_or, hm, true_and]
      exact some_inj
    · rw [if_neg hm, h.claimed]
      simp only [hm, false_and, or_false]

/-- What a turn of the loop can do with a file. -/
inductive Turn (D : DirLoader Content Hash) (st : Loading Hash) (f : FileEntry Content)
    (st' : Loading Hash) : Prop where
  /-- It is not a per-model policy file. -/
  | passed (hf : isPolicyFile f.name = false ∨ isDefault f.name = true)
      (hnamed : st'.snap.named = st.snap.named) (hclaimed : st'.claimedBy = st.claimedBy)
      (hlog : st'.log = st.log)
  /-- It is skipped and reported. -/
  | reported (r : Report)
      (hlost : ∀ w, candidate D f = some w →
        (w.2.models.any fun m => (st.claimedBy.lookup m).isSome) = true)
      (hnamed : st'.snap.named = st.snap.named) (hclaimed : st'.claimedBy = st.claimedBy)
      (hlog : st'.log = st.log ++ [(f.name, r)])
  /-- Its document takes its models. -/
  | claimed (p : PolicyDoc) (hcandidate : candidate D f = some (f.name, p))
      (hfree : (p.models.any fun m => (st.claimedBy.lookup m).isSome) = false) (h : Hash)
      (heq : st' = (st.hash f.name h).claim f.name p)

theorem candidate_eq_none_of_data
    (h : ∀ data, f.data = some data → ∀ p, D.loadModelDocBytes data = some p → p.models = []) :
    ∀ w, candidate D f ≠ some w := by
  intro w hw
  obtain ⟨-, -, -, hmodels, data, hdata, hp⟩ := (candidate_eq_some_iff D).mp hw
  exact hmodels (h data hdata w.2 hp)

/-- The turn of a file that was read, from the state with its hash. -/
theorem loadDocument_turn {data : Content} (hdata : f.data = some data)
    (hpolicy : isPolicyFile f.name = true) (hdefault : isDefault f.name = false) (h : Hash) :
    Turn D st f (loadDocument D (st.hash f.name h) f.name data) := by
  -- a file that is loaded and lists a model is a candidate, and no other one is
  have hcandidate : ∀ p, D.loadModelDocBytes data = some p → p.models ≠ [] →
      candidate D f = some (f.name, p) := fun p hload hmodels =>
    (candidate_eq_some_iff D).mpr ⟨hpolicy, hdefault, rfl, hmodels, data, hdata, hload⟩
  have hnone : (∀ p, D.loadModelDocBytes data = some p → p.models = []) →
      ∀ w, candidate D f ≠ some w := fun hp =>
    candidate_eq_none_of_data fun data' hdata' => by
      rw [hdata] at hdata'
      rwa [← some.inj hdata']
  unfold loadDocument
  split
  · next hload =>
    refine .reported .parseError (fun w hw => absurd hw (hnone (fun p hp => ?_) w)) rfl rfl rfl
    rw [hload] at hp
    cases hp
  · next p hload =>
    split
    · next hmodels =>
      refine .reported .noModels (fun w hw => absurd hw (hnone (fun p' hp' => ?_) w)) rfl rfl rfl
      rw [hload] at hp'
      rw [← some.inj hp', hmodels]
    · next hmodels =>
      split
      · next m hfind =>
        refine .reported _ (fun w hw => ?_) rfl rfl rfl
        rw [hcandidate p hload hmodels] at hw
        rw [← some.inj hw]
        -- a model of the file is claimed
        have hm := find?_some hfind
        exact any_eq_true.mpr ⟨m, mem_of_find?_eq_some hfind, hm⟩
      · next hfind =>
        refine .claimed p (hcandidate p hload hmodels) ?_ h rfl
        rw [List.any_eq_false]
        exact find?_eq_none.mp hfind

theorem loadEntry_turn (h : loadEntry D st f = some st') : Turn D st f st' := by
  unfold loadEntry at h
  cases hpolicy : isPolicyFile f.name with
  -- the directory may hold other files, which are passed over
  | false =>
    rw [hpolicy] at h
    cases h
    exact .passed (.inl hpolicy) rfl rfl rfl
  | true =>
    simp only [hpolicy, Bool.not_true, Bool.false_eq_true, if_false] at h
    split at h
    · -- an unreadable default ends the load; another file is reported
      next hdata =>
      split_ifs at h
      cases h
      refine .reported .readError (fun w hw => absurd hw ?_) rfl rfl rfl
      exact candidate_eq_none_of_data (fun data hdata' => by rw [hdata] at hdata'; cases hdata') w
    · next data hdata =>
      split at h
      · next hdefault =>
        obtain ⟨p, -, rfl⟩ := map_eq_some_iff.mp h
        exact .passed (.inr hdefault) rfl rfl rfl
      · next hdefault =>
        cases h
        exact loadDocument_turn hdata hpolicy (Bool.not_eq_true _ ▸ hdefault) _

def nextWinners (D : DirLoader Content Hash) (ws : List (String × PolicyDoc))
    (f : FileEntry Content) : List (String × PolicyDoc) :=
  match candidate D f with
  | some w => if taken claimsOf ws w then ws else ws ++ [w]
  | none => ws

theorem winnersFrom_filterMap_cons (f : FileEntry Content) (fs : List (FileEntry Content)) :
    winnersFrom claimsOf ws ((f :: fs).filterMap (candidate D)) =
      winnersFrom claimsOf (nextWinners D ws f) (fs.filterMap (candidate D)) := by
  unfold nextWinners
  rw [filterMap_cons]
  cases candidate D f with
  | none | some => rfl

/-- After the files of `done`: the documents and claims are those of the winners, and every
file is either reported or a winner. -/
structure Accounted (D : DirLoader Content Hash) (dir : Directory Content)
    (done : List (FileEntry Content)) (ws : List (String × PolicyDoc)) (st : Loading Hash) : Prop
    extends Loaded ws st where
  logged : ∀ f ∈ done, isPolicyFile f.name = true → isDefault f.name = false →
    (∃ r, (f.name, r) ∈ st.log) ∨ ∃ p, candidate D f = some (f.name, p) ∧ (f.name, p) ∈ ws
  silent : ∀ w ∈ ws, (∃ f ∈ done, candidate D f = some w) ∧ ∀ r, (w.1, r) ∉ st.log
  names : ∀ x ∈ st.log, x.1 ∈ dir.statErrors ∨ ∃ f ∈ done, f.name = x.1
  stats : ∀ name ∈ dir.statErrors, (name, .statError) ∈ st.log

theorem Accounted.start (dir : Directory Content) :
    Accounted D dir [] [] (.start dir : Loading Hash) where
  toLoaded := .start dir
  logged f hf := absurd hf not_mem_nil
  silent w hw := absurd hw not_mem_nil
  names x hx := by
    obtain ⟨name, hname, rfl⟩ := mem_map.mp hx
    exact .inl hname
  stats name hname := mem_map_of_mem hname

variable {dir : Directory Content} {done : List (FileEntry Content)} {e : DirEntry Content}

section

variable (h : Accounted D dir done ws st)

include h

/-- A turn that keeps the winners. -/
theorem Accounted.keep (hnew : ∀ g ∈ done, g.name ≠ f.name)
    (hnamed : st'.snap.named = st.snap.named) (hclaimed : st'.claimedBy = st.claimedBy)
    {extra : List (String × Report)} (hlog : st'.log = st.log ++ extra)
    (hextra : ∀ x ∈ extra, x.1 = f.name)
    (hf : isPolicyFile f.name = true → isDefault f.name = false → ∃ r, (f.name, r) ∈ extra) :
    Accounted D dir (done ++ [f]) ws st' := by
  refine ⟨h.toLoaded.congr hnamed hclaimed, ?_, ?_, ?_, ?_⟩
  · intro g hg hpolicy hdefault
    rw [hlog]
    rcases mem_append.mp hg with hg | hg
    · -- a file that came before is reported, or it still wins
      rcases h.logged g hg hpolicy hdefault with ⟨r, hr⟩ | hw
      · exact .inl ⟨r, mem_append_left _ hr⟩
      · exact .inr hw
    · obtain rfl := mem_singleton.mp hg
      obtain ⟨r, hr⟩ := hf hpolicy hdefault
      exact .inl ⟨r, mem_append_right _ hr⟩
  · intro w hw
    -- a winner stays without a report
    obtain ⟨⟨g, hg, hgw⟩, hsilent⟩ := h.silent w hw
    refine ⟨⟨g, mem_append_left _ hg, hgw⟩, fun r hr => ?_⟩
    rw [hlog] at hr
    rcases mem_append.mp hr with hr | hr
    · exact hsilent r hr
    · -- what is added to the log is about a file that has not come before
      have hname := ((candidate_eq_some_iff D).mp hgw).2.2.1
      exact hnew g hg (hname.symm.trans (hextra _ hr))
  · intro x hx
    rw [hlog] at hx
    rcases mem_append.mp hx with hx | hx
    · rcases h.names x hx with hstat | ⟨g, hg, hgx⟩
      · exact .inl hstat
      · exact .inr ⟨g, mem_append_left _ hg, hgx⟩
    · exact .inr ⟨f, mem_append_right _ (mem_singleton_self f), (hextra x hx).symm⟩
  · intro name hname
    rw [hlog]
    exact mem_append_left _ (h.stats name hname)

theorem Accounted.turn (hnew : ∀ g ∈ done, g.name ≠ f.name)
    (hstat : f.name ∉ dir.statErrors) (hturn : Turn D st f st') :
    Accounted D dir (done ++ [f]) (nextWinners D ws f) st' := by
  cases hturn with
  | passed hf hnamed hclaimed hlog =>
    have hnone : candidate D f = none := by
      unfold candidate
      rcases hf with hf | hf <;> simp [hf]
    unfold nextWinners
    rw [hnone]
    refine h.keep hnew hnamed hclaimed (hlog.trans (append_nil _).symm) nofun ?_
    rcases hf with hf | hf <;> simp [hf]
  | reported r hlost hnamed hclaimed hlog =>
    have hsame : nextWinners D ws f = ws := by
      unfold nextWinners
      cases hw : candidate D f with
      | none => rfl
      | some w => exact if_pos ((h.taken_iff w).trans (hlost w hw))
    rw [hsame]
    refine h.keep hnew hnamed hclaimed hlog (fun x hx => ?_) fun _ _ =>
      ⟨r, mem_singleton_self _⟩
    rw [mem_singleton.mp hx]
  | claimed p hcandidate hfree hash heq =>
    have hloaded : Loaded ws (st.hash f.name hash) := h.toLoaded.congr rfl rfl
    have hwon : taken claimsOf ws (f.name, p) = false := (h.taken_iff (f.name, p)).trans hfree
    have hnext : nextWinners D ws f = ws ++ [(f.name, p)] := by
      unfold nextWinners
      rw [hcandidate]
      exact if_neg (by rw [hwon]; exact Bool.false_ne_true)
    have hlog : st'.log = st.log := by rw [heq]; rfl
    rw [hnext]
    refine ⟨heq ▸ hloaded.claim hwon, ?_, ?_, ?_, hlog ▸ h.stats⟩
    · intro g hg hpolicy hdefault
      rw [hlog]
      rcases mem_append.mp hg with hg | hg
      · rcases h.logged g hg hpolicy hdefault with hr | ⟨p', hp', hw⟩
        · exact .inl hr
        · exact .inr ⟨p', hp', mem_append_left _ hw⟩
      · obtain rfl := mem_singleton.mp hg
        exact .inr ⟨p, hcandidate, mem_append_right _ (mem_singleton_self _)⟩
    · intro w hw
      rw [hlog]
      rcases mem_append.mp hw with hw | hw
      · obtain ⟨⟨g, hg, hgw⟩, hsilent⟩ := h.silent w hw
        exact ⟨⟨g, mem_append_left _ hg, hgw⟩, hsilent⟩
      · obtain rfl := mem_singleton.mp hw
        refine ⟨⟨f, mem_append_right _ (mem_singleton_self f), hcandidate⟩, ?_⟩
        -- nothing is reported under a name that has not come yet
        intro r hr
        rcases h.names _ hr with hstat' | ⟨g, hg, hgname⟩
        · exact hstat hstat'
        · exact hnew g hg hgname
    · intro x hx
      rw [hlog] at hx
      rcases h.names x hx with hstat' | ⟨g, hg, hgx⟩
      · exact .inl hstat'
      · exact .inr ⟨g, mem_append_left _ hg, hgx⟩

/-- **The loop over the files**: what is loaded, and what is reported and under which names, is
accounted for after each of them. -/
theorem Accounted.run (fs : List (FileEntry Content))
    (hnodup : ((done ++ fs).map (·.name)).Nodup) (hstat : ∀ f ∈ fs, f.name ∉ dir.statErrors)
    (hrun : fs.foldlM (loadEntry D) st = some st') :
    Accounted D dir (done ++ fs) (winnersFrom claimsOf ws (fs.filterMap (candidate D))) st' := by
  -- by induction on the files that are left
  induction fs generalizing done ws st with
  | nil =>
    rw [← some.inj hrun, append_nil]
    exact h
  | cons f fs ih =>
    obtain ⟨mid, hmid, hrun⟩ := bind_eq_some_iff.mp hrun
    -- names are unique in a directory
    have hnew : ∀ g ∈ done, g.name ≠ f.name := by
      intro g hg
      rw [map_append, nodup_append] at hnodup
      exact hnodup.2.2 _ (mem_map_of_mem hg) _ (mem_map_of_mem mem_cons_self)
    have hmid := h.turn hnew (hstat f mem_cons_self) (loadEntry_turn hmid)
    rw [winnersFrom_filterMap_cons]
    rw [append_cons] at hnodup ⊢
    exact ih hmid hnodup (fun g hg => hstat g (mem_cons_of_mem f hg)) hrun

end

/-! ### Directories -/

theorem mem_fileEntries :
    f ∈ dir.fileEntries ↔ ∃ e ∈ dir.entries, e.isDir = false ∧ e.mtime = some f.mtime ∧
      e.name = f.name ∧ e.data = f.data := by
  unfold Directory.fileEntries
  rw [mem_insertionSort, mem_filterMap]
  refine exists_congr fun e => and_congr_right fun _ => ?_
  cases e.isDir with
  | true => simp
  | false =>
    rw [if_neg Bool.false_ne_true, map_eq_some_iff]
    constructor
    · rintro ⟨t, ht, rfl⟩
      exact ⟨rfl, ht, rfl, rfl⟩
    · rintro ⟨-, ht, hname, hdata⟩
      exact ⟨f.mtime, ht, by rw [hname, hdata]⟩

theorem mem_statErrors : name ∈ dir.statErrors ↔
      ∃ e ∈ dir.entries, e.isDir = false ∧ e.mtime = none ∧ e.name = name := by
  unfold Directory.statErrors
  rw [List.mem_map]
  refine exists_congr fun e => ?_
  rw [mem_filter, Bool.and_eq_true, Bool.not_eq_true', isNone_iff_eq_none]
  tauto

theorem Directory.eq_of_name {e' : DirEntry Content} (he : e ∈ dir.entries)
    (he' : e' ∈ dir.entries) (hname : e.name = e'.name) : e = e' :=
  inj_on_of_nodup_map dir.nodup he he' hname

theorem notMem_statErrors (hf : f ∈ dir.fileEntries) : f.name ∉ dir.statErrors := by
  intro hstat
  obtain ⟨e, he, -, hmtime, hname, -⟩ := mem_fileEntries.mp hf
  obtain ⟨e', he', -, hmtime', hname'⟩ := mem_statErrors.mp hstat
  obtain rfl := dir.eq_of_name he he' (hname.trans hname'.symm)
  rw [hmtime] at hmtime'
  cases hmtime'

theorem nodup_fileEntries (dir : Directory Content) : (dir.fileEntries.map (·.name)).Nodup := by
  have hperm := perm_insertionSort FileEntry.before (dir.entries.filterMap fun e =>
    if e.isDir then none else e.mtime.map fun t => (⟨e.name, t, e.data⟩ : FileEntry Content))
  unfold Directory.fileEntries
  -- the order of loading does not matter here, and the names are those of the entries
  rw [(hperm.map _).nodup_iff, List.Nodup, pairwise_map, pairwise_filterMap]
  have hnodup := dir.nodup
  rw [List.Nodup, pairwise_map] at hnodup
  refine hnodup.imp fun {e e'} hne f hf f' hf' => ?_
  obtain ⟨-, hf⟩ := ite_none_left_eq_some.mp hf
  obtain ⟨-, hf'⟩ := ite_none_left_eq_some.mp hf'
  obtain ⟨t, -, rfl⟩ := map_eq_some_iff.mp hf
  obtain ⟨t', -, rfl⟩ := map_eq_some_iff.mp hf'
  exact hne

theorem loadDir_accounted (h : loadDir D dir = some st) :
    Accounted D dir dir.fileEntries (winners D dir) st := by
  have hrun := (Accounted.start dir).run dir.fileEntries
    (by rw [nil_append]; exact nodup_fileEntries dir) (fun f hf => notMem_statErrors hf) h
  rwa [nil_append] at hrun

/-- No model is listed by two documents. -/
def Exclusive (named : GoMap String PolicyDoc) : Prop :=
  ∀ s s' p p', named.lookup s = some p → named.lookup s' = some p' →
    ∀ m ∈ p.models, m ∈ p'.models → s = s'

theorem Loaded.exclusive (h : Loaded ws st) : Exclusive st.snap.named := by
  intro s s' p p' hs hs' m hm hm'
  rw [h.named] at hs hs'
  obtain ⟨w, hw, rfl⟩ := map_eq_some_iff.mp hs
  obtain ⟨w', hw', rfl⟩ := map_eq_some_iff.mp hs'
  obtain ⟨hwmem, rfl⟩ := lastWith_eq_some hw
  obtain ⟨hwmem', rfl⟩ := lastWith_eq_some hw'
  -- winners with a common model are one winner
  rw [eq_of_claims h.apart hwmem hwmem' hm hm']

/-- **In a snapshot no model is listed by two documents**, whatever the directory. -/
theorem loadDirSnapshot_exclusive {snap : DirSnapshot Hash}
    (h : loadDirSnapshot D dir = some snap) : Exclusive snap.named := by
  obtain ⟨st, hst, rfl⟩ := map_eq_some_iff.mp h
  exact (loadDir_accounted hst).exclusive

/-- The snapshot accounts for every file: a per-model policy file that is not reported is in
`named` with its own document, which alone lists its models, and every model is claimed by
a document that lists it. -/
structure Complete (D : DirLoader Content Hash) (dir : Directory Content) (st : Loading Hash) :
    Prop where
  loaded : ∀ e ∈ dir.entries, e.isDir = false → isPolicyFile e.name = true →
    isDefault e.name = false → (∀ r, (e.name, r) ∉ st.log) →
      ∃ data p, e.data = some data ∧ D.loadModelDocBytes data = some p ∧
        st.snap.named.lookup (stem e.name) = some p ∧
        ∀ m ∈ p.models, ∀ s p', st.snap.named.lookup s = some p' → m ∈ p'.models → s = stem e.name
  claimed : ∀ m s, st.claimedBy.lookup m = some s →
    ∃ p, st.snap.named.lookup s = some p ∧ m ∈ p.models

theorem Complete.lookup_winner (hcomplete : Complete D dir st)
    (hacc : Accounted D dir dir.fileEntries (winners D dir) st) (hw : w ∈ winners D dir) :
    st.snap.named.lookup (stem w.1) = some w.2 ∧ w.2.models ≠ [] := by
  obtain ⟨⟨f, hf, hfw⟩, hsilent⟩ := hacc.silent w hw
  obtain ⟨hpolicy, hdefault, hname, hmodels, data, hdata, hload⟩ := (candidate_eq_some_iff D).mp hfw
  obtain ⟨e, he, hdir, -, hename, hedata⟩ := mem_fileEntries.mp hf
  rw [← hename] at hpolicy hdefault hname
  rw [hname] at hsilent
  obtain ⟨data', p, hdata', hload', hlookup, -⟩ :=
    hcomplete.loaded e he hdir hpolicy hdefault hsilent
  rw [hedata, hdata] at hdata'
  obtain rfl := some.inj hdata'
  rw [hload] at hload'
  obtain rfl := some.inj hload'
  rw [hname]
  exact ⟨hlookup, hmodels⟩

theorem Accounted.winner_of_silent (hacc : Accounted D dir dir.fileEntries (winners D dir) st)
    (he : e ∈ dir.entries) (hdir : e.isDir = false) (hpolicy : isPolicyFile e.name = true)
    (hdefault : isDefault e.name = false) (hsilent : ∀ r, (e.name, r) ∉ st.log) :
    ∃ data p, e.data = some data ∧ D.loadModelDocBytes data = some p ∧
      (e.name, p) ∈ winners D dir := by
  cases hmtime : e.mtime with
  | none =>
    -- a file whose `Info` fails is reported
    have hstat := hacc.stats e.name (mem_statErrors.mpr ⟨e, he, hdir, hmtime, rfl⟩)
    exact absurd hstat (hsilent _)
  | some t =>
    have hf : (⟨e.name, t, e.data⟩ : FileEntry Content) ∈ dir.fileEntries :=
      mem_fileEntries.mpr ⟨e, he, hdir, hmtime, rfl, rfl⟩
    rcases hacc.logged _ hf hpolicy hdefault with ⟨r, hr⟩ | ⟨p, hcandidate, hw⟩
    · exact absurd hr (hsilent r)
    · obtain ⟨-, -, -, -, data, hdata, hload⟩ := (candidate_eq_some_iff D).mp hcandidate
      exact ⟨data, p, hdata, hload, hw⟩

/-- **A snapshot accounts for every file exactly when no two of the winning files have one
stem.** -/
theorem complete_iff (h : loadDir D dir = some st) :
    Complete D dir st ↔ ((winners D dir).map fun w => stem w.1).Nodup := by
  have hacc := loadDir_accounted h
  constructor
  · intro hcomplete
    rw [List.Nodup, pairwise_map]
    refine hacc.apart.imp_of_mem fun {w w'} hw hw' hapart hstem => ?_
    -- both are in `named` under the stem, so they are one document, and it lists a model
    obtain ⟨hlookup, hmodels⟩ := hcomplete.lookup_winner hacc hw
    obtain ⟨hlookup', -⟩ := hcomplete.lookup_winner hacc hw'
    rw [← hstem, hlookup] at hlookup'
    obtain ⟨m, hm⟩ := exists_mem_of_ne_nil _ hmodels
    refine hapart m hm ?_
    show m ∈ w'.2.models
    rwa [← some.inj hlookup']
  · intro hstems
    -- each winner is the last with its stem, and so in `named`
    have hlookup : ∀ w ∈ winners D dir, st.snap.named.lookup (stem w.1) = some w.2 := by
      intro w hw
      rw [hacc.named, lastWith_of_mem hstems hw]
      rfl
    refine ⟨?_, ?_⟩
    · intro e he hdir hpolicy hdefault hsilent
      obtain ⟨data, p, hdata, hload, hw⟩ := hacc.winner_of_silent he hdir hpolicy hdefault hsilent
      have hown := hlookup (e.name, p) hw
      refine ⟨data, p, hdata, hload, hown, ?_⟩
      intro m hm s p' hp' hm'
      exact hacc.exclusive s (stem e.name) p' p hp' hown m hm' hm
    · intro m s hclaimed
      obtain ⟨w, hw, hm, rfl⟩ := (hacc.claimed m s).mp hclaimed
      exact ⟨w.2, hlookup w hw, hm⟩

end Winners

/-! ### Two files

The content of a file is here the document that it parses to, if it does. -/

def plainLoader : DirLoader (Option PolicyDoc) (Option PolicyDoc) := ⟨id, id, id⟩

/-- A document with the given models and the default routing. -/
def docFor (models : List String) : PolicyDoc :=
  ⟨models, { strategy := "least-loaded" }, none, false, false, .reserved, 0⟩

/-- `a.yaml` for the model `x`, and a later file for the model `y`. -/
def twoFiles (name : String) (h : name ≠ "a.yaml") : Directory (Option PolicyDoc) where
  entries := [⟨"a.yaml", false, some 1, some (some (docFor ["x"]))⟩,
    ⟨name, false, some 2, some (some (docFor ["y"]))⟩]
  nodup := by simpa using h.symm

theorem complete_two_stems : ∃ st, loadDir plainLoader (twoFiles "b.yml" (by decide)) = some st ∧
      Complete plainLoader (twoFiles "b.yml" (by decide)) st := by
  obtain ⟨st, hst, -⟩ : ∃ st ∈ loadDir plainLoader (twoFiles "b.yml" (by decide)), st.log = [] := by
    decide +kernel
  exact ⟨st, hst, (complete_iff hst).mpr (by decide +kernel)⟩

/-- With the stem of the first file, the second replaces it: neither is reported, and the
model `x` stays claimed by a document that is gone. -/
theorem stem_collision :
    ∃ st, loadDir plainLoader (twoFiles "a.yml" (by decide)) = some st ∧ st.log = [] ∧
      st.snap.named.lookup "a" = some (docFor ["y"]) ∧ st.claimedBy.lookup "x" = some "a" ∧
      ¬Complete plainLoader (twoFiles "a.yml" (by decide)) st := by
  obtain ⟨st, hst, hlog, hnamed, hclaimed⟩ :
      ∃ st ∈ loadDir plainLoader (twoFiles "a.yml" (by decide)), st.log = [] ∧
        st.snap.named.lookup "a" = some (docFor ["y"]) ∧
        st.claimedBy.lookup "x" = some "a" := by
    decide +kernel
  refine ⟨st, hst, hlog, hnamed, hclaimed, fun hcomplete => ?_⟩
  obtain ⟨p, hp, hx⟩ := hcomplete.claimed "x" "a" hclaimed
  rw [hnamed] at hp
  rw [← some.inj hp] at hx
  exact absurd hx (by decide)

/-!
## The executor's policies

`policyState`: the global policy and the named policy documents, and what
`EffectivePolicy` makes of them. `buildModelPolicies` goes over the documents in the order
of a `range` loop and lets the last one win; while no model is listed by two documents
(`Exclusive`), the order does not matter (`effectivePolicy_congr`).

`setNamedPolicy` refuses a document that lists a model of another one, and so keeps the
documents exclusive, as `deleteNamedPolicy` does.
-/

open GoMap

structure PolicyState where
  global : PolicyDoc
  named : GoMap String PolicyDoc

/-- `Default`. -/
def defaultPolicy : PolicyDoc :=
  ⟨[], { strategy := "least-loaded" }, none, false, false, .reserved, 0⟩

/-- `buildModelPolicies`, with the documents visited in `order`. -/
def buildModelPolicies (order : List String) (named : GoMap String PolicyDoc) :
    GoMap String PolicyDoc :=
  order.foldl (fun result name => match named.lookup name with
    | some p => if p.inheritsRouting then result else extend result p.models fun _ => some p
    | none => result) ∅

def PolicyState.effectivePolicy (st : PolicyState) (order : List String) (model : String) :
    PolicyDoc :=
  ((buildModelPolicies order st.named).lookup model).getD st.global

def PolicyState.setPolicy (st : PolicyState) (p : PolicyDoc) : PolicyState :=
  { st with global := p }

/-- The document other than `name`, among those of `order`, that lists the model. -/
def PolicyState.otherOwner (st : PolicyState) (order : List String) (name model : String) :
    Option String :=
  order.find? fun other => other ≠ name ∧ (st.named.lookup other).any fun q => model ∈ q.models

/-- `SetNamedPolicy`: the error names a model and the document that has claimed it. -/
def PolicyState.setNamedPolicy (st : PolicyState) (order : List String) (name : String)
    (p : PolicyDoc) : Except (String × String) PolicyState :=
  match p.models.findSome? fun m => (st.otherOwner order name m).map fun other => (m, other) with
  | some conflict => .error conflict
  | none => .ok { st with named := st.named.insert name p }

def PolicyState.deleteNamedPolicy (st : PolicyState) (name : String) : PolicyState :=
  { st with named := st.named.erase name }

/-! ### Effective policies -/

/-- The document `p`, held under `name`, routes the model. -/
structure Routes (named : GoMap String PolicyDoc) (name : String) (p : PolicyDoc)
    (model : String) : Prop where
  held : named.lookup name = some p
  routing : p.inheritsRouting = false
  listed : model ∈ p.models

variable {named : GoMap String PolicyDoc} {order : List String} {model : String} {p : PolicyDoc}

theorem routes_of_lookup_buildModelPolicies
    (h : (buildModelPolicies order named).lookup model = some p) :
    ∃ name, Routes named name p model := by
  unfold buildModelPolicies at h
  induction order using reverseRecOn with
  | nil => cases h
  | append_singleton order name ih =>
    rw [foldl_concat] at h
    split at h
    · next q hq =>
      split_ifs at h with hrouting
      · exact ih h
      · rw [lookup_extend] at h
        split_ifs at h with hlisted
        · obtain rfl := some.inj h
          exact ⟨name, hq, Bool.not_eq_true _ ▸ hrouting, hlisted⟩
        · exact ih h
    · exact ih h

/-- What the loop has made of the documents visited so far: with exclusive documents, the
last write to a model is the only one. -/
theorem lookup_buildModelPolicies (hex : Exclusive named) (order : List String) (model : String)
    (p : PolicyDoc) :
    (buildModelPolicies order named).lookup model = some p ↔
      ∃ name ∈ order, Routes named name p model := by
  unfold buildModelPolicies
  induction order using reverseRecOn with
  | nil =>
    constructor
    · intro h
      cases h
    · rintro ⟨name, hname, -⟩
      exact absurd hname not_mem_nil
  | append_singleton order name ih =>
    rw [foldl_concat]
    -- a document that does not route the model leaves its entry alone
    have hskip : (∀ q, ¬Routes named name q model) →
        ((∃ name' ∈ order ++ [name], Routes named name' p model) ↔
          ∃ name' ∈ order, Routes named name' p model) := by
      intro hnone
      simp only [mem_append, mem_singleton, or_and_right, exists_or, exists_eq_left,
        hnone, or_false]
    cases hq : named.lookup name with
    | none => exact ih.trans (hskip fun q hr => by simpa [hq] using hr.held).symm
    | some q =>
      cases hrouting : q.inheritsRouting with
      | true =>
        simp only [hrouting, if_true]
        refine ih.trans (hskip fun q' hr => ?_).symm
        obtain rfl : q = q' := mem_unique hq hr.held
        exact Bool.false_ne_true (hr.routing.symm.trans hrouting)
      | false =>
        simp only [hrouting, Bool.false_eq_true, if_false, lookup_extend]
        by_cases hlisted : model ∈ q.models
        · rw [if_pos hlisted, some_or, some_inj]
          constructor
          · rintro rfl
            exact ⟨name, by simp, hq, hrouting, hlisted⟩
          · rintro ⟨name', -, hr⟩
            obtain rfl := hex name name' q p hq hr.held model hlisted hr.listed
            exact mem_unique hq hr.held
        · rw [if_neg hlisted]
          refine ih.trans (hskip fun q' hr => ?_).symm
          obtain rfl : q = q' := mem_unique hq hr.held
          exact hlisted hr.listed

variable {st : PolicyState} {name : String}

/-- **With exclusive documents the effective policy does not depend on the order in which
the map of documents is visited.** -/
theorem effectivePolicy_congr (hex : Exclusive st.named) {order' : List String}
    (horder : RangeOrder st.named order) (horder' : RangeOrder st.named order') (model : String) :
    st.effectivePolicy order model = st.effectivePolicy order' model := by
  have hlookup : (buildModelPolicies order st.named).lookup model =
      (buildModelPolicies order' st.named).lookup model := by
    ext p
    rw [lookup_buildModelPolicies hex, lookup_buildModelPolicies hex]
    simp only [horder.mem_iff, horder'.mem_iff]
  rw [PolicyState.effectivePolicy, PolicyState.effectivePolicy, hlookup]

/-! ### The operations keep the documents exclusive -/

theorem Exclusive.insert (hex : Exclusive named)
    (hfree : ∀ other q, other ≠ name → named.lookup other = some q → ∀ m ∈ p.models, m ∉ q.models) :
    Exclusive (named.insert name p) := by
  intro s s' q q' hs hs' m hm hm'
  obtain ⟨rfl, rfl⟩ | ⟨hsn, hold⟩ := lookup_insert_eq_some.mp hs
  · obtain ⟨rfl, -⟩ | ⟨hsn', hs'⟩ := lookup_insert_eq_some.mp hs'
    · rfl
    · exact absurd hm' (hfree s' q' hsn' hs' m hm)
  · obtain ⟨rfl, rfl⟩ | ⟨-, hs'⟩ := lookup_insert_eq_some.mp hs'
    · exact absurd hm (hfree s q hsn hold m hm')
    · exact hex s s' q q' hold hs' m hm hm'

theorem Exclusive.erase (hex : Exclusive named) (name : String) : Exclusive (named.erase name) := by
  have hheld : ∀ s q, (named.erase name).lookup s = some q → named.lookup s = some q :=
    fun s q hs => (lookup_erase_eq_some.mp hs).2
  intro s s' q q' hs hs' m hm hm'
  exact hex s s' q q' (hheld s q hs) (hheld s' q' hs') m hm hm'

theorem otherOwner_eq_none (horder : RangeOrder st.named order)
    (h : st.otherOwner order name model = none) {other : String} {q : PolicyDoc}
    (hne : other ≠ name) (hq : st.named.lookup other = some q) :
    model ∉ q.models := by
  have hmem : other ∈ order := (horder.mem_iff other).mpr (by rw [hq]; rfl)
  have hnot := find?_eq_none.mp h other hmem
  simpa [hne, hq] using hnot

theorem setNamedPolicy_exclusive {st' : PolicyState} (horder : RangeOrder st.named order)
    (hex : Exclusive st.named) (h : st.setNamedPolicy order name p = .ok st') :
    Exclusive st'.named := by
  unfold PolicyState.setNamedPolicy at h
  split at h
  · cases h
  · next hfind =>
    cases h
    refine hex.insert fun other q hne hq m hm => ?_
    have hnone := findSome?_eq_none_iff.mp hfind m hm
    exact otherOwner_eq_none horder (map_eq_none_iff.mp hnone) hne hq

end HivenetRouter.Policy
