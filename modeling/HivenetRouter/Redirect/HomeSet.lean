import HivenetRouter.Framework.NetUrl
import HivenetRouter.Redirect.Token
import Mathlib.Data.String.Basic
import Mathlib.Data.Prod.Lex

/-!
# The sibling map

`Map`, the map of the sibling policlouds that a controller pushes whole: `Replace` with its checks,
and `Target`, which picks the sibling for a request. A document that is refused changes nothing, so
`replace` is a function into `Except`.

The URLs of policlouds are byte strings, which are parsed as in `net/url`; all other strings are
texts of a JSON document. `time.ParseDuration`, `time.Parse`, `netip.ParseAddr` and what
`strings.ToLower` does to texts that are not ASCII are parameters (`Formats`). The score `H`, of
which the code takes the first eight bytes of a hash, is a parameter too.
-/

namespace HivenetRouter.Redirect

open NetUrl

/-- `Policloud`. A missing `eu` is `none`. -/
structure Policloud where
  id : String
  url : GoString
  country : String
  eu : Option Bool
  deriving DecidableEq

structure Hint where
  warm : Option Bool
  load : String
  deriving DecidableEq

/-- `Placement`; `holdBudget` is what `Replace` parses `holdBudgetText` to. -/
structure Placement where
  model : String
  kind : String
  policloud : String
  scaleFromZero : Option Bool
  holdBudgetText : String
  hint : Option Hint
  holdBudget : ℤ
  deriving DecidableEq

/-- `MapDoc`, without the time at which it was made. -/
structure MapDoc where
  schema : ℤ
  version : Option UInt64
  region : String
  policlouds : List Policloud
  placements : List Placement
  hintsExpireAt : String

/-- The formats of the standard library that the checks use. -/
structure Formats where
  parseAddr : ParseAddr
  /-- In nanoseconds. -/
  parseDuration : String → Option ℤ
  /-- `time.Parse(time.RFC3339, …)`, in nanoseconds. -/
  parseTime : String → Option ℤ
  /-- `strings.ToLower` for texts that are not ASCII. -/
  toLowerText : GoString → GoString

def Formats.toLower (F : Formats) (s : GoString) : GoString :=
  if s.all (· < 0x80) then s.map toLowerByte else F.toLowerText s

inductive PolicloudError where
  | emptyID
  | url (id : String) (err : UrlError)
  | notOrigin (id : String) (url : GoString)
  | host (id : String) (host : GoString) (domains : List GoString)
  | country (id country : String)
  | eu (id : String)

inductive PlacementError where
  | emptyModel
  | kind (model kind : String)
  | unknownPolicloud (model policloud : String)
  | scaleFromZero (model policloud : String)
  | load (model policloud load : String)
  | holdBudget (model policloud text : String)

inductive MapError where
  | schema (schema : ℤ)
  | version
  | region
  | policlouds (i : ℕ) (err : PolicloudError)
  | duplicateID (i : ℕ) (id : String)
  | placements (i : ℕ) (err : PlacementError)
  | duplicatePlacement (i : ℕ) (model policloud : String)
  | hintsExpireAt (text : String)
  | hintsExpireAtRequired
  /-- `ErrStaleVersion`. -/
  | staleVersion

/-! ### Hints -/

/-- `Hint.warm`, of a hint that may be missing. -/
def warm (h : Option Hint) : Bool := (h.bind Hint.warm).getD true

def load (h : Option Hint) : String :=
  match h with
  | none => "ok"
  | some h => if h.load = "" then "ok" else h.load

/-! ### The map -/

/-- `Map`. -/
structure SiblingMap where
  domains : List GoString
  doc : MapDoc
  set : Bool
  policlouds : GoMap String Policloud
  byModel : GoMap String (List Placement)
  hintsExpire : ℤ

/-- The zero `time.Time`. -/
def zeroTime : ℤ := -62135596800 * second

def SiblingMap.new (domains : List GoString) : SiblingMap :=
  ⟨domains, ⟨0, none, "", [], [], ""⟩, false, ∅, ∅, zeroTime⟩

def schema : ℤ := 2

def maxHoldBudget : ℤ := 3600 * second

def isCountryCode (s : String) : Bool := s.length = 2 && s.toList.all Char.isUpper

def hostname (host : GoString) : GoString :=
  let host :=
    match cutLast ':'.toUInt8 host with
    | some (name, port) => if validOptionalPort (':'.toUInt8 :: port) then name else host
    | none => host
  if host.head? = some '['.toUInt8 ∧ host.getLast? = some ']'.toUInt8 then host.tail.dropLast
  else host

def allowedHost (F : Formats) (domains : List GoString) (host : GoString) : Bool :=
  domains.any fun d => d <:+ F.toLower host

/-- `strings.Trim(path, "/") != ""`. -/
def hasSegment (path : GoString) : Bool := path.any (· ≠ '/'.toUInt8)

/-- `strings.TrimSuffix(url, "/")`. -/
def trimSlash (url : GoString) : GoString :=
  if url.getLast? = some '/'.toUInt8 then url.dropLast else url

/-- The part of `validatePolicloud` that looks at the parsed URL. -/
def validateURL (F : Formats) (domains : List GoString) (p : Policloud) (u : URL) :
    Except PolicloudError Unit :=
  if u.scheme ≠ Utf8.ofText "https" ∨ u.host = [] ∨ u.user.isSome ∨ u.rawQuery ≠ [] ∨
      u.fragment ≠ [] ∨ hasSegment u.path then .error (.notOrigin p.id p.url)
  else if !allowedHost F domains (hostname u.host) then
    .error (.host p.id (hostname u.host) domains)
  else .ok ()

def validatePolicloud (F : Formats) (domains : List GoString) (p : Policloud) :
    Except PolicloudError GoString :=
  if p.id = "" then .error .emptyID
  else
    match parse F.parseAddr p.url with
    | .error err => .error (.url p.id err)
    | .ok u =>
      match validateURL F domains p u with
      | .error err => .error err
      | .ok () =>
        if !isCountryCode p.country then .error (.country p.id p.country)
        else if p.eu = none then .error (.eu p.id)
        else .ok (trimSlash p.url)

def validatePlacement (policlouds : GoMap String Policloud) (pl : Placement) :
    Except PlacementError Unit :=
  if pl.model = "" then .error .emptyModel
  else if pl.kind ∉ ["chat", "embedding", "rerank"] then .error (.kind pl.model pl.kind)
  else if pl.policloud ∉ policlouds then .error (.unknownPolicloud pl.model pl.policloud)
  else if pl.scaleFromZero = none then .error (.scaleFromZero pl.model pl.policloud)
  else
    match pl.hint with
    | none => .ok ()
    | some h =>
      if h.load ∈ ["", "ok", "busy", "full"] then .ok ()
      else .error (.load pl.model pl.policloud h.load)

def parseHoldBudget (F : Formats) (pl : Placement) : Except PlacementError ℤ :=
  if pl.holdBudgetText = "" then .ok 0
  else
    match F.parseDuration pl.holdBudgetText with
    | some d =>
      if d ≤ 0 ∨ maxHoldBudget < d then
        .error (.holdBudget pl.model pl.policloud pl.holdBudgetText)
      else .ok d
    | none => .error (.holdBudget pl.model pl.policloud pl.holdBudgetText)

/-- The loop over the policlouds, from index `i`: the index by id and the clean list. -/
def addPoliclouds (F : Formats) (domains : List GoString) :
    ℕ → GoMap String Policloud → List Policloud →
      Except MapError (GoMap String Policloud × List Policloud)
  | _, policlouds, [] => .ok (policlouds, [])
  | i, policlouds, p :: ps =>
    match validatePolicloud F domains p with
    | .error err => .error (.policlouds i err)
    | .ok url =>
      if p.id ∈ policlouds then .error (.duplicateID i p.id)
      else
        (addPoliclouds F domains (i + 1) (policlouds.insert p.id { p with url }) ps).map
          fun (policlouds, clean) => (policlouds, { p with url } :: clean)

/-- What the loop over the placements builds. -/
structure Placed where
  byModel : GoMap String (List Placement)
  seen : List (String × String)
  hinted : Bool

def Placed.add (s : Placed) (pl : Placement) : Placed where
  byModel := s.byModel.insert pl.model ((s.byModel.lookup pl.model).getD [] ++ [pl])
  seen := (pl.model, pl.policloud) :: s.seen
  hinted := s.hinted || pl.hint.isSome

/-- The loop over the placements, from index `i`. -/
def addPlacements (F : Formats) (policlouds : GoMap String Policloud) :
    ℕ → Placed → List Placement → Except MapError Placed
  | _, s, [] => .ok s
  | i, s, pl :: pls =>
    match validatePlacement policlouds pl with
    | .error err => .error (.placements i err)
    | .ok () =>
      match parseHoldBudget F pl with
      | .error err => .error (.placements i err)
      | .ok holdBudget =>
        if (pl.model, pl.policloud) ∈ s.seen then
          .error (.duplicatePlacement i pl.model pl.policloud)
        else addPlacements F policlouds (i + 1) (s.add { pl with holdBudget }) pls

def parseHintsExpire (F : Formats) (doc : MapDoc) (hinted : Bool) : Except MapError ℤ :=
  if doc.hintsExpireAt ≠ "" then
    match F.parseTime doc.hintsExpireAt with
    | some t => .ok t
    | none => .error (.hintsExpireAt doc.hintsExpireAt)
  else if hinted then .error .hintsExpireAtRequired
  else .ok zeroTime

/-- The checks at the start of `Replace`. -/
def checkHeader (doc : MapDoc) : Except MapError UInt64 :=
  if doc.schema ≠ schema then .error (.schema doc.schema)
  else
    match doc.version with
    | none => .error .version
    | some version => if doc.region = "" then .error .region else .ok version

def SiblingMap.version (m : SiblingMap) : UInt64 := if m.set then m.doc.version.getD 0 else 0

/-- The version check of `Replace`. -/
def SiblingMap.checkVersion (m : SiblingMap) (version : UInt64) : Except MapError Unit :=
  if m.set ∧ version < m.doc.version.getD 0 then .error .staleVersion else .ok ()

def SiblingMap.replace (F : Formats) (m : SiblingMap) (doc : MapDoc) : Except MapError SiblingMap :=
  do
    let version ← checkHeader doc
    let (policlouds, clean) ← addPoliclouds F m.domains 0 ∅ doc.policlouds
    let placed ← addPlacements F policlouds 0 ⟨∅, [], false⟩ doc.placements
    let hintsExpire ← parseHintsExpire F doc placed.hinted
    m.checkVersion version
    return ⟨m.domains, { doc with policlouds := clean }, true, policlouds, placed.byModel,
      hintsExpire⟩

/-! ### Scopes -/

/-- `Scope.Contains`; a scope is a text, and one that is unknown contains nothing. -/
def scopeContains (scope : String) (p : Policloud) : Bool :=
  if scope = "all" then true
  else if scope = "EU" then p.eu.getD false
  else if "country:".toList <+: scope.toList then
    p.country.toList = scope.toList.drop "country:".length
  else false

/-! ### Targets -/

/-- `TargetRequest`; `origin` is its `From`. -/
structure TargetRequest where
  model : String
  kind : String
  self : String
  origin : String
  keyID : String
  session : String
  scope : String
  now : ℤ

/-- `score`: of a text, a model and a policloud. -/
abbrev Score := String → String → String → UInt64

def homeSize : ℕ := 2

def better (a b : UInt64) (idA idB : String) : Bool := if a ≠ b then b < a else idA < idB

structure Cand where
  pl : Placement
  pc : Policloud
  home : UInt64
  bySession : UInt64
  deriving DecidableEq

namespace SiblingMap

variable (H : Score) (m : SiblingMap) (req : TargetRequest)

/-- The placement is a candidate: of the kind, in the scope, neither here nor at the origin. -/
def cand (pl : Placement) : Option Cand :=
  if pl.kind ≠ req.kind ∨ pl.policloud = req.self ∨ pl.policloud = req.origin then none
  else
    let pc := (m.policlouds.lookup pl.policloud).getD ⟨"", [], "", none⟩
    if scopeContains req.scope pc then some ⟨pl, pc, H req.keyID req.model pc.id, 0⟩ else none

def cands : List Cand := ((m.byModel.lookup req.model).getD []).filterMap (m.cand H req)

def wakeable (model kind policloud : String) : Option Placement :=
  ((m.byModel.lookup model).getD []).find? fun pl =>
    pl.kind = kind && pl.policloud = policloud && pl.scaleFromZero.getD false

end SiblingMap

def Cand.rank (H : Score) (req : TargetRequest) (c : Cand) : Cand :=
  { c with bySession := H (req.keyID ++ "\x00" ++ req.session) req.model c.pc.id }

def homeLess (c d : Cand) : Bool := better c.home d.home c.pc.id d.pc.id

def sessionLess (c d : Cand) : Bool := better c.bySession d.bySession c.pc.id d.pc.id

/-- The home set, in the order of the session. -/
def ranked (S : SliceSort) (H : Score) (req : TargetRequest) (cands : List Cand) : List Cand :=
  S.sort sessionLess (((S.sort homeLess cands).take homeSize).map (Cand.rank H req))

/-- The hint says to skip the candidate. -/
def Cand.skipped (c : Cand) : Bool :=
  load c.pl.hint = "full" || (!warm c.pl.hint && !c.pl.scaleFromZero.getD false)

/-- The scan over the candidates: the first eligible warm one, else the first eligible one. -/
def firstEligible : Option Cand → List Cand → Option Cand
  | first, [] => first
  | first, c :: cs =>
    if c.skipped then firstEligible first cs
    else if warm c.pl.hint then some c
    else firstEligible (first.or (some c)) cs

def SiblingMap.target (S : SliceSort) (H : Score) (m : SiblingMap) (req : TargetRequest) :
    Option Policloud :=
  let cands := m.cands H req
  if cands = [] then none
  else
    let cands := ranked S H req cands
    if ¬req.now < m.hintsExpire then cands.head?.map Cand.pc
    else if (m.wakeable req.model req.kind req.self).isSome && !cands.any (fun c => warm c.pl.hint)
      then none
    else ((firstEligible none cands).or cands.head?).map Cand.pc

/-!
## What `Replace` accepts

`replace_eq_ok` says of what document a map was made: each policloud passed its check and stands in
the index with its URL without a trailing slash, the ids and the pairs of model and policloud are
different, every placement names a policloud of the map, and the placements of a model are those
of the document, in its order.
-/

open Finmap List Placement

def Policloud.clean (p : Policloud) : Policloud := { p with url := trimSlash p.url }

def Placement.parsed (F : Formats) (pl : Placement) : Placement :=
  { pl with holdBudget := (parseHoldBudget F pl).toOption.getD 0 }

def Placement.pair (pl : Placement) : String × String := (pl.model, pl.policloud)

structure MadeOf (F : Formats) (domains : List GoString) (doc : MapDoc) (m : SiblingMap) :
    Prop where
  policlouds : m.doc.policlouds = doc.policlouds.map Policloud.clean
  placements : m.doc.placements = doc.placements
  valid : ∀ p ∈ doc.policlouds, validatePolicloud F domains p = .ok (trimSlash p.url)
  lookup_iff : ∀ id p, m.policlouds.lookup id = some p ↔
    ∃ q ∈ doc.policlouds, q.id = id ∧ p = q.clean
  byModel : ∀ model, (m.byModel.lookup model).getD [] =
    (doc.placements.filter (·.model = model)).map (parsed F)
  validPlacement : ∀ pl ∈ doc.placements, validatePlacement m.policlouds pl = .ok ()
  nodup : (doc.placements.map pair).Nodup
  hintsExpire : parseHintsExpire F doc (doc.placements.any (·.hint.isSome)) = .ok m.hintsExpire

section Loops

variable {F : Formats} {domains : List GoString} {policlouds : GoMap String Policloud}

theorem validatePolicloud_eq_ok {p : Policloud} {url : GoString}
    (h : validatePolicloud F domains p = .ok url) :
    url = trimSlash p.url ∧
      ∃ u, parse F.parseAddr p.url = .ok u ∧ validateURL F domains p u = .ok () := by
  unfold validatePolicloud at h
  split at h
  · cases h
  · split at h
    · cases h
    · rename_i u hu
      split at h
      · cases h
      · rename_i hvalid
        split_ifs at h
        cases h
        exact ⟨rfl, u, hu, hvalid⟩

theorem validatePlacement_eq_ok {pl : Placement} (h : validatePlacement policlouds pl = .ok ()) :
    pl.policloud ∈ policlouds := by
  unfold validatePlacement at h
  split_ifs at h with _ _ hmem
  exact hmem

theorem addPoliclouds_eq_ok {ps clean : List Policloud} {i : ℕ}
    {policlouds' : GoMap String Policloud}
    (h : addPoliclouds F domains i policlouds ps = .ok (policlouds', clean)) :
    clean = ps.map Policloud.clean ∧
      (∀ p ∈ ps, validatePolicloud F domains p = .ok (trimSlash p.url)) ∧
      ∀ id p, policlouds'.lookup id = some p ↔
        policlouds.lookup id = some p ∨ ∃ q ∈ ps, q.id = id ∧ p = q.clean := by
  induction ps generalizing i policlouds policlouds' clean with
  | nil =>
    cases h
    exact ⟨rfl, nofun, fun id p => ⟨.inl, fun h => h.resolve_right nofun⟩⟩
  | cons q ps ih =>
    unfold addPoliclouds at h
    split at h
    · cases h
    · rename_i url hurl
      obtain ⟨rfl, -⟩ := validatePolicloud_eq_ok hurl
      split_ifs at h with hmem
      cases hrest : addPoliclouds F domains (i + 1)
        (policlouds.insert q.id { q with url := trimSlash q.url }) ps with
      | error => rw [hrest] at h; cases h
      | ok =>
        rw [hrest] at h
        cases h
        obtain ⟨hclean, hvalid, hlookup⟩ := ih hrest
        refine ⟨by rw [hclean]; rfl, forall_mem_cons.mpr ⟨hurl, hvalid⟩, fun id p => ?_⟩
        rw [hlookup, exists_mem_cons_iff, ← or_assoc]
        refine or_congr_left ?_
        -- the ids are distinct, so that no policloud replaces another
        by_cases hid : id = q.id
        · subst hid
          rw [lookup_insert, lookup_eq_none.mpr hmem, Option.some_inj]
          exact ⟨fun h => .inr ⟨rfl, h.symm⟩, fun h => (h.resolve_left nofun).2.symm⟩
        · rw [lookup_insert_of_ne _ hid]
          exact ⟨.inl, fun h => h.resolve_right fun ⟨heq, _⟩ => hid heq.symm⟩

theorem addPlacements_eq_ok {pls : List Placement} {i : ℕ} {s s' : Placed}
    (h : addPlacements F policlouds i s pls = .ok s') :
    (∀ pl ∈ pls, validatePlacement policlouds pl = .ok ()) ∧
      (pls.map pair).Nodup ∧ (∀ pl ∈ pls, pl.pair ∉ s.seen) ∧
      s'.hinted = (s.hinted || pls.any (·.hint.isSome)) ∧
      ∀ model, (s'.byModel.lookup model).getD [] = (s.byModel.lookup model).getD [] ++
        (pls.filter (·.model = model)).map (parsed F) := by
  induction pls generalizing i s with
  | nil =>
    cases h
    exact ⟨nofun, nodup_nil, nofun, (Bool.or_false _).symm, fun _ => (append_nil _).symm⟩
  | cons pl pls ih =>
    unfold addPlacements at h
    split at h
    · cases h
    · rename_i hvalid
      split at h
      · cases h
      · rename_i budget hbudget
        split_ifs at h with hseen
        have hparsed : { pl with holdBudget := budget } = pl.parsed F := by
          unfold parsed
          rw [hbudget]
          rfl
        rw [hparsed] at h
        obtain ⟨hvalids, hnodup, hnew, hhinted, hbyModel⟩ := ih h
        refine ⟨forall_mem_cons.mpr ⟨hvalid, hvalids⟩, ?_, ?_, ?_, ?_⟩
        · -- a pair that comes again has been seen
          refine nodup_cons.mpr ⟨fun hmem => ?_, hnodup⟩
          obtain ⟨pl', hpl', hpair⟩ := mem_map.mp hmem
          refine hnew pl' hpl' ?_
          rw [hpair]
          exact .head _
        · exact forall_mem_cons.mpr ⟨hseen, fun pl' hpl' hmem => hnew pl' hpl' (.tail _ hmem)⟩
        · rw [hhinted, any_cons, ← Bool.or_assoc]
          rfl
        · intro model
          rw [hbyModel model]
          show ((s.byModel.insert pl.model _).lookup model).getD [] ++ _ = _
          by_cases hmodel : model = pl.model
          · subst hmodel
            rw [lookup_insert, filter_cons_of_pos (by exact decide_eq_true rfl), map_cons]
            exact append_assoc _ [pl.parsed F] _
          · rw [lookup_insert_of_ne _ hmodel, filter_cons_of_neg]
            exact fun heq => hmodel (of_decide_eq_true heq).symm

end Loops

/-- **What a map was made of.** -/
theorem replace_eq_ok {F : Formats} {m n : SiblingMap} {doc : MapDoc}
    (h : m.replace F doc = .ok n) :
    MadeOf F m.domains doc n ∧ n.domains = m.domains ∧ n.set = true ∧
      n.doc.version = doc.version ∧ ∃ version, doc.version = some version ∧
        m.checkVersion version = .ok () := by
  obtain ⟨version, hversion, h⟩ := bind_eq_ok.mp h
  obtain ⟨⟨policlouds, clean⟩, hpoliclouds, h⟩ := bind_eq_ok.mp h
  obtain ⟨placed, hplaced, h⟩ := bind_eq_ok.mp h
  obtain ⟨hintsExpire, hexpire, h⟩ := bind_eq_ok.mp h
  obtain ⟨⟨⟩, hcheck, h⟩ := bind_eq_ok.mp h
  cases h
  obtain ⟨rfl, hvalid, hlookup⟩ := addPoliclouds_eq_ok hpoliclouds
  obtain ⟨hplacement, hnodup, -, hhinted, hbyModel⟩ := addPlacements_eq_ok hplaced
  have hdoc : doc.version = some version := by
    unfold checkHeader at hversion
    split at hversion
    · cases hversion
    · split at hversion
      · cases hversion
      · rename_i v hv
        split_ifs at hversion
        cases hversion
        exact hv
  refine ⟨⟨rfl, rfl, hvalid, fun id p => ?_, hbyModel, hplacement, hnodup, ?_⟩, rfl, rfl, rfl,
    version, hdoc, hcheck⟩
  · rw [hlookup]
    exact ⟨fun h => h.resolve_left nofun, .inr⟩
  · rw [hhinted] at hexpire
    exact hexpire

/-!
## Redirects stay in the home set

The home set of a key and a model is made of the two candidates that are best by `better`, which is
the order of a key: a higher score first, then the id. `InHome` says this without sorting: no two
different candidates are better. The candidates of a map that `Replace` accepted have different ids,
so that the sorts of `Target` have one result, whatever the order of the document (`cands_perm`).

`target_home` has the four parts. The last one, that a placement with a low score changes nothing,
has an exception by design: a placement of the model *here*, with `scale_from_zero`, makes `Target`
keep the request while all siblings are cold, whatever its score (`target_added_here`).
-/

open Option

structure SiblingMap.Candidate (m : SiblingMap) (req : TargetRequest) (p : Policloud) : Prop where
  known : m.policlouds.lookup p.id = some p
  placed : ∃ pl ∈ m.doc.placements, pl.model = req.model ∧ pl.kind = req.kind ∧ pl.policloud = p.id
  self : p.id ≠ req.self
  origin : p.id ≠ req.origin
  inScope : scopeContains req.scope p = true

/-- `p` comes before `q` in the order of the key. -/
def Before (H : Score) (req : TargetRequest) (p q : Policloud) : Prop :=
  better (H req.keyID req.model p.id) (H req.keyID req.model q.id) p.id q.id = true

/-- The policloud is one of the two best candidates. -/
structure SiblingMap.InHome (H : Score) (m : SiblingMap) (req : TargetRequest) (p : Policloud) :
    Prop extends m.Candidate req p where
  best : ∀ q q', m.Candidate req q → m.Candidate req q' → q ≠ q' →
    ¬(Before H req q p ∧ Before H req q' p)

/-! ### The order -/

/-- What `better` compares. -/
def sortKey (score : UInt64) (id : String) : ℕᵒᵈ ×ₗ String :=
  toLex (OrderDual.toDual score.toNat, id)

theorem better_iff {a b : UInt64} {idA idB : String} :
    better a b idA idB = true ↔ sortKey a idA < sortKey b idB := by
  unfold better sortKey
  rw [Prod.Lex.toLex_lt_toLex, OrderDual.toDual_lt_toDual]
  by_cases h : a = b
  · subst h
    simp
  · rw [if_pos h, decide_eq_true_iff, UInt64.lt_iff_toNat_lt]
    refine ⟨.inl, fun hlt => hlt.resolve_right fun ⟨heq, _⟩ => h ?_⟩
    exact UInt64.toNat_inj.mp (OrderDual.toDual_inj.mp heq)

def Cand.homeKey (c : Cand) : ℕᵒᵈ ×ₗ String := sortKey c.home c.pc.id

def Cand.sessionKey (c : Cand) : ℕᵒᵈ ×ₗ String := sortKey c.bySession c.pc.id

theorem homeLess_iff (c d : Cand) : homeLess c d = true ↔ c.homeKey < d.homeKey := better_iff

theorem sessionLess_iff (c d : Cand) : sessionLess c d = true ↔ c.sessionKey < d.sessionKey :=
  better_iff

variable {l : List Cand}

theorem nodup_map_sortKey (score : Cand → UInt64) (h : (l.map (·.pc.id)).Nodup) :
    (l.map fun c => sortKey (score c) c.pc.id).Nodup := by
  refine List.Nodup.of_map (fun k => (ofLex k).2) ?_
  rw [List.map_map]
  exact h

/-! ### Candidates -/

section Candidates

variable {F : Formats} {H : Score} {domains : List GoString} {doc : MapDoc} {m : SiblingMap}
  {req : TargetRequest}

variable {p : Policloud}

theorem MadeOf.lookup_id (h : MadeOf F domains doc m) {id : String}
    (hp : m.policlouds.lookup id = some p) : p.id = id := by
  obtain ⟨q, -, hid, rfl⟩ := (h.lookup_iff id p).mp hp
  exact hid

variable {pl : Placement} {model : String}

/-- What a placement must be to become a candidate, and which one. -/
theorem cand_eq_some (hids : ∀ id p, m.policlouds.lookup id = some p → p.id = id)
    (hpl : pl.policloud ∈ m.policlouds) {c : Cand} (hc : m.cand H req pl = some c) :
    c.pl = pl ∧ m.policlouds.lookup c.pc.id = some c.pc ∧ c.pc.id = pl.policloud ∧
      c.home = H req.keyID req.model c.pc.id ∧ pl.kind = req.kind ∧ c.pc.id ≠ req.self ∧
      c.pc.id ≠ req.origin ∧ scopeContains req.scope c.pc = true := by
  obtain ⟨p, hp⟩ := Finmap.mem_iff.mp hpl
  have hid := hids _ p hp
  unfold SiblingMap.cand at hc
  rw [hp] at hc
  obtain ⟨hskip, hc⟩ := ite_none_left_eq_some.mp hc
  obtain ⟨hscope, hc⟩ := ite_none_right_eq_some.mp hc
  cases hc
  simp only [not_or, not_not] at hskip
  refine ⟨rfl, ?_, hid, rfl, hskip.1, ?_, ?_, hscope⟩
  · rw [← hid] at hp
    exact hp
  · exact fun heq => hskip.2.1 (hid.symm.trans heq)
  · exact fun heq => hskip.2.2 (hid.symm.trans heq)

theorem cand_of_lookup (hp : m.policlouds.lookup p.id = some p) (hpl : pl.policloud = p.id)
    (hkind : pl.kind = req.kind) (hself : p.id ≠ req.self) (horigin : p.id ≠ req.origin)
    (hscope : scopeContains req.scope p = true) :
    m.cand H req pl = some ⟨pl, p, H req.keyID req.model p.id, 0⟩ := by
  unfold SiblingMap.cand
  rw [hpl, hp, if_neg]
  · exact if_pos hscope
  · simp only [not_or, not_not]
    exact ⟨hkind, hself, horigin⟩

section

variable (h : MadeOf F domains doc m)

include h

theorem MadeOf.mem_byModel : pl ∈ (m.byModel.lookup model).getD [] ↔
      ∃ pl₀ ∈ doc.placements, pl₀.model = model ∧ pl = pl₀.parsed F := by
  rw [h.byModel, List.mem_map]
  simp only [List.mem_filter, decide_eq_true_eq, and_assoc]
  exact exists_congr fun _ => and_congr_right fun _ => and_congr_right fun _ => eq_comm

theorem MadeOf.policloud_mem
    (hpl : pl ∈ (m.byModel.lookup model).getD []) : pl.policloud ∈ m.policlouds := by
  obtain ⟨pl₀, hmem, -, rfl⟩ := h.mem_byModel.mp hpl
  exact validatePlacement_eq_ok (h.validPlacement pl₀ hmem)

/-- A candidate of the code is one of the map. -/
theorem MadeOf.candidate_of_mem {c : Cand} (hc : c ∈ m.cands H req) :
    m.Candidate req c.pc ∧ c.home = H req.keyID req.model c.pc.id := by
  obtain ⟨pl, hpl, hc⟩ := mem_filterMap.mp hc
  obtain ⟨-, hlookup, hid, hhome, hkind, hself, horigin, hscope⟩ :=
    cand_eq_some (fun _ _ => h.lookup_id) (h.policloud_mem hpl) hc
  obtain ⟨pl₀, hmem, hmodel, rfl⟩ := h.mem_byModel.mp hpl
  refine ⟨⟨hlookup, ⟨pl₀, ?_, hmodel, hkind, hid.symm⟩, hself, horigin, hscope⟩, hhome⟩
  rw [h.placements]
  exact hmem

theorem MadeOf.exists_mem_cands (hp : m.Candidate req p) : ∃ c ∈ m.cands H req, c.pc = p := by
  obtain ⟨pl, hpl, hmodel, hkind, hid⟩ := hp.placed
  rw [h.placements] at hpl
  refine ⟨_, mem_filterMap.mpr ⟨pl.parsed F, h.mem_byModel.mpr ⟨pl, hpl, hmodel, rfl⟩,
    cand_of_lookup hp.known hid hkind hp.self hp.origin hp.inScope⟩, rfl⟩

end

theorem map_filterMap_sublist {α β γ : Type} {f : α → Option β} {g : β → γ} {k : α → γ} :
    ∀ {l : List α}, (∀ x ∈ l, ∀ y, f x = some y → g y = k x) →
      ((l.filterMap f).map g).Sublist (l.map k)
  | [], _ => .slnil
  | x :: l, h => by
    obtain ⟨hx, hl⟩ := forall_mem_cons.mp h
    have ih := map_filterMap_sublist hl
    cases hf : f x with
    | none =>
      rw [filterMap_cons_none hf]
      exact ih.cons _
    | some y =>
      rw [filterMap_cons_some hf, map_cons, hx y hf]
      exact ih.cons_cons _

theorem MadeOf.nodup_cands (h : MadeOf F domains doc m) (H : Score) (req : TargetRequest) :
    ((m.cands H req).map (·.pc.id)).Nodup := by
  have hsub : ((m.cands H req).map (·.pc.id)).Sublist
      (((m.byModel.lookup req.model).getD []).map Placement.policloud) :=
    map_filterMap_sublist fun pl hpl c hc =>
      (cand_eq_some (fun _ _ => h.lookup_id) (h.policloud_mem hpl) hc).2.2.1
  refine hsub.nodup ?_
  rw [h.byModel, List.map_map]
  -- the pairs of model and policloud are different, and the model is the same
  have hpairs : ((doc.placements.filter (·.model = req.model)).map Placement.pair).Nodup :=
    (filter_sublist.map Placement.pair).nodup h.nodup
  refine List.Nodup.of_map (fun id => (req.model, id)) ?_
  rw [List.map_map]
  refine (map_congr_left fun pl hpl => ?_).symm ▸ hpairs
  have hmodel := of_decide_eq_true (List.mem_filter.mp hpl).2
  show (req.model, pl.policloud) = (pl.model, pl.policloud)
  rw [hmodel]

/-- The placements of a document with more placements and policlouds give the same candidates, and
those of the new placements. -/
theorem MadeOf.cands_perm (h : MadeOf F domains doc m) {domains' : List GoString} {doc' : MapDoc}
    {m' : SiblingMap} (h' : MadeOf F domains' doc' m') (H : Score) (req : TargetRequest)
    (extra : List Placement) (hpoliclouds : ∀ p ∈ doc.policlouds, p ∈ doc'.policlouds)
    (hplacements : doc'.placements.Perm (extra ++ doc.placements)) :
    (m'.cands H req).Perm
      (((extra.filter (·.model = req.model)).map (Placement.parsed F)).filterMap (m'.cand H req) ++
        m.cands H req) := by
  -- a policloud of the document is found under its id in both maps
  have hlookup : ∀ id p, m.policlouds.lookup id = some p → m'.policlouds.lookup id = some p := by
    intro id p hp
    obtain ⟨q, hq, hid, rfl⟩ := (h.lookup_iff id p).mp hp
    exact (h'.lookup_iff id _).mpr ⟨q, hpoliclouds q hq, hid, rfl⟩
  have hcand : ∀ pl ∈ (m.byModel.lookup req.model).getD [],
      m'.cand H req pl = m.cand H req pl := by
    intro pl hpl
    obtain ⟨p, hp⟩ := Finmap.mem_iff.mp (h.policloud_mem hpl)
    unfold SiblingMap.cand
    rw [hp, hlookup _ _ hp]
  have hold : m.cands H req = ((m.byModel.lookup req.model).getD []).filterMap (m'.cand H req) :=
    filterMap_congr fun pl hpl => (hcand pl hpl).symm
  rw [hold, h.byModel, ← filterMap_append, ← map_append, ← filter_append]
  unfold SiblingMap.cands
  rw [h'.byModel]
  exact ((hplacements.filter _).map _).filterMap _

end Candidates

/-! ### The target -/

section Target

variable {F : Formats} {H : Score} {domains : List GoString} {doc : MapDoc} {m : SiblingMap}
  {req : TargetRequest} {S : SliceSort}

variable {c : Cand} {doc' : MapDoc}

theorem mem_ranked :
    c ∈ ranked S H req l ↔ ∃ d ∈ (S.sort homeLess l).take homeSize, c = d.rank H req := by
  unfold ranked
  rw [(S.perm sessionLess _).mem_iff, List.mem_map]
  simp only [eq_comm]

theorem ranked_eq_nil_iff (S : SliceSort) (H : Score) (req : TargetRequest) :
    ranked S H req l = [] ↔ l = [] := by
  unfold ranked
  rw [← length_eq_zero_iff, ← length_eq_zero_iff, (S.perm sessionLess _).length_eq,
    length_map, length_take, (S.perm homeLess l).length_eq]
  unfold homeSize
  omega

theorem mem_of_firstEligible {first : Option Cand} (h : firstEligible first l = some c) :
    first = some c ∨ c ∈ l := by
  induction l generalizing first with
  | nil => exact .inl h
  | cons d l ih =>
    unfold firstEligible at h
    split_ifs at h
    · exact (ih h).imp id (.tail _)
    · cases h
      exact .inr (.head _)
    · rcases ih h with hfirst | hmem
      · cases first with
        | none =>
          cases hfirst
          exact .inr (.head _)
        | some => exact .inl hfirst
      · exact .inr (.tail _ hmem)

/-- The target is one of the candidates in the home set. -/
theorem exists_of_target {p : Policloud} (h : m.target S H req = some p) :
    ∃ c ∈ (S.sort homeLess (m.cands H req)).take homeSize, c.pc = p := by
  have hranked : ∃ c ∈ ranked S H req (m.cands H req), c.pc = p := by
    unfold SiblingMap.target at h
    obtain ⟨-, h⟩ := ite_none_left_eq_some.mp h
    dsimp only at h
    split_ifs at h
    · obtain ⟨c, hc, rfl⟩ := map_eq_some_iff.mp h
      refine ⟨c, ?_, rfl⟩
      rcases or_eq_some_iff.mp hc with hc | ⟨-, hc⟩
      · exact (mem_of_firstEligible hc).resolve_left nofun
      · exact mem_of_mem_head? hc
    · obtain ⟨c, hc, rfl⟩ := map_eq_some_iff.mp h
      exact ⟨c, mem_of_mem_head? hc, rfl⟩
  obtain ⟨c, hc, rfl⟩ := hranked
  obtain ⟨d, hd, rfl⟩ := mem_ranked.mp hc
  exact ⟨d, hd, rfl⟩

theorem before_iff {d : Cand} (hc : c.home = H req.keyID req.model c.pc.id)
    (hd : d.home = H req.keyID req.model d.pc.id) :
    Before H req c.pc d.pc ↔ c.homeKey < d.homeKey := by
  unfold Before Cand.homeKey
  rw [better_iff, hc, hd]

/-- Those at the front of the sort are the home set. -/
theorem MadeOf.mem_take_iff (h : MadeOf F domains doc m) (hc : c ∈ m.cands H req) :
    c ∈ (S.sort homeLess (m.cands H req)).take homeSize ↔ m.InHome H req c.pc := by
  have hkeys := nodup_map_sortKey Cand.home (h.nodup_cands H req)
  obtain ⟨hcand, hhome⟩ := h.candidate_of_mem hc
  constructor
  · intro hmem
    refine ⟨hcand, fun q q' hq hq' hne ⟨hbefore, hbefore'⟩ => ?_⟩
    obtain ⟨d, hd, rfl⟩ := h.exists_mem_cands (H := H) hq
    obtain ⟨d', hd', rfl⟩ := h.exists_mem_cands (H := H) hq'
    rw [before_iff (h.candidate_of_mem hd).2 hhome] at hbefore
    rw [before_iff (h.candidate_of_mem hd').2 hhome] at hbefore'
    exact S.not_two_before homeLess_iff hmem hd hd' (fun heq => hne (congrArg Cand.pc heq))
      ⟨hbefore, hbefore'⟩
  · intro hin
    refine S.mem_take_two homeLess_iff hkeys hc fun d hd d' hd' hne ⟨hlt, hlt'⟩ => ?_
    obtain ⟨hq, hdhome⟩ := h.candidate_of_mem hd
    obtain ⟨hq', hdhome'⟩ := h.candidate_of_mem hd'
    refine hin.best d.pc d'.pc hq hq' (fun heq => hne ?_)
      ⟨(before_iff hdhome hhome).mpr hlt, (before_iff hdhome' hhome).mpr hlt'⟩
    exact inj_on_of_nodup_map (h.nodup_cands H req) hd hd' (congrArg Policloud.id heq)

theorem parseHintsExpire_congr {doc : MapDoc} (hdoc : doc'.hintsExpireAt = doc.hintsExpireAt)
    {b b' : Bool} {t t' : ℤ} (h : parseHintsExpire F doc b = .ok t)
    (h' : parseHintsExpire F doc' b' = .ok t') : t' = t := by
  unfold parseHintsExpire at h h'
  rw [hdoc] at h'
  split_ifs at h h'
  · cases hparse : F.parseTime doc.hintsExpireAt <;> rw [hparse] at h h' <;> cases h
    cases h'
    rfl
  · cases h
    cases h'
    rfl

/-- The placement lets the model be woken where the request is. -/
def Placement.WakesHere (pl : Placement) (req : TargetRequest) : Prop :=
  pl.model = req.model ∧ pl.kind = req.kind ∧ pl.policloud = req.self ∧ pl.scaleFromZero = some true

/-- A candidate of the home set is warm. -/
def SiblingMap.HasWarm (S : SliceSort) (H : Score) (m : SiblingMap) (req : TargetRequest) : Prop :=
  ∃ c ∈ ranked S H req (m.cands H req), warm c.pl.hint = true

theorem MadeOf.isSome_wakeable (h : MadeOf F domains doc m) :
    (m.wakeable req.model req.kind req.self).isSome = true ↔
      ∃ pl ∈ doc.placements, pl.WakesHere req := by
  unfold SiblingMap.wakeable Placement.WakesHere
  rw [List.find?_isSome]
  simp only [h.mem_byModel, Bool.and_eq_true, decide_eq_true_eq, and_assoc]
  constructor
  · rintro ⟨pl, ⟨pl₀, hpl₀, hmodel, rfl⟩, hkind, hself, hzero⟩
    refine ⟨pl₀, hpl₀, hmodel, hkind, hself, ?_⟩
    have hzero : pl₀.scaleFromZero.getD false = true := hzero
    cases hopt : pl₀.scaleFromZero <;> rw [hopt] at hzero
    · cases hzero
    · exact congrArg some hzero
  · rintro ⟨pl, hpl, hmodel, hkind, hself, hzero⟩
    refine ⟨pl.parsed F, ⟨pl, hpl, hmodel, rfl⟩, hkind, hself, ?_⟩
    show pl.scaleFromZero.getD false = true
    rw [hzero]
    rfl

variable {S' : SliceSort} {m' : SiblingMap} {domains' : List GoString}

/-- The home set in the order of the session depends on the home set alone. -/
theorem MadeOf.ranked_congr (h : MadeOf F domains doc m)
    (htake : (S'.sort homeLess l).take homeSize = (S.sort homeLess (m.cands H req)).take homeSize) :
    ranked S' H req l = ranked S H req (m.cands H req) := by
  unfold ranked
  rw [htake]
  refine S'.eq_of_perm S sessionLess_iff (nodup_map_sortKey Cand.bySession ?_) (List.Perm.refl _)
  rw [List.map_map]
  refine ((take_sublist _ _).map _).nodup ?_
  exact ((S.perm homeLess _).map _).nodup_iff.mpr (h.nodup_cands H req)

/-- Whether the model may be woken here is read only while hints are in force and no candidate of
the home set is warm. -/
theorem target_congr (hranked : ranked S' H req (m'.cands H req) = ranked S H req (m.cands H req))
    (hexpire : m'.hintsExpire = m.hintsExpire)
    (hwakeable : req.now < m.hintsExpire → m.HasWarm S H req ∨
      (m'.wakeable req.model req.kind req.self).isSome =
        (m.wakeable req.model req.kind req.self).isSome) :
    m'.target S' H req = m.target S H req := by
  have hnil : m'.cands H req = [] ↔ m.cands H req = [] := by
    rw [← ranked_eq_nil_iff S' H req, hranked, ranked_eq_nil_iff]
  unfold SiblingMap.target
  dsimp only
  rw [hranked, hexpire]
  refine if_congr hnil rfl (if_ctx_congr Iff.rfl (fun _ => rfl) fun hnow => ?_)
  rcases hwakeable (not_not.mp hnow) with hwarm | hsame
  · rw [any_eq_true.mpr hwarm, Bool.not_true, Bool.and_false, Bool.and_false]
  · rw [hsame]

/-- Two documents with the same placements and more, in any order. -/
theorem MadeOf.target_eq (h : MadeOf F domains doc m) (h' : MadeOf F domains' doc' m')
    (extra : List Placement) (hplacements : doc'.placements.Perm (extra ++ doc.placements))
    (hexpire : doc'.hintsExpireAt = doc.hintsExpireAt)
    (hwakes : ∀ pl ∈ extra, pl.WakesHere req → req.now < m.hintsExpire → m.HasWarm S H req)
    (htake : (S'.sort homeLess (m'.cands H req)).take homeSize =
      (S.sort homeLess (m.cands H req)).take homeSize) :
    m'.target S' H req = m.target S H req := by
  refine target_congr (h.ranked_congr htake)
    (parseHintsExpire_congr hexpire h.hintsExpire h'.hintsExpire) fun hnow => ?_
  refine or_iff_not_imp_left.mpr fun hcold => ?_
  rw [Bool.eq_iff_iff, h.isSome_wakeable, h'.isSome_wakeable]
  simp only [hplacements.mem_iff, mem_append]
  constructor
  · rintro ⟨pl, hpl | hpl, hwake⟩
    · exact absurd (hwakes pl hpl hwake hnow) hcold
    · exact ⟨pl, hpl, hwake⟩
  · rintro ⟨pl, hpl, hwake⟩
    exact ⟨pl, .inr hpl, hwake⟩

/-- The home set has two members, and both have a higher score than the policloud. -/
def SiblingMap.BelowHome (H : Score) (m : SiblingMap) (req : TargetRequest) (id : String) : Prop :=
  ∃ p q, p ≠ q ∧ m.InHome H req p ∧ m.InHome H req q ∧
    H req.keyID req.model id < H req.keyID req.model p.id ∧
    H req.keyID req.model id < H req.keyID req.model q.id

theorem homeKey_lt_of_lt {d : Cand} (h : d.home < c.home) : c.homeKey < d.homeKey := by
  unfold Cand.homeKey sortKey
  rw [Prod.Lex.toLex_lt_toLex]
  exact .inl (OrderDual.toDual_lt_toDual.mpr (UInt64.lt_iff_toNat_lt.mp h))

/-- A placement on a policloud below the home set does not change it. -/
theorem MadeOf.take_added (h : MadeOf F domains doc m) (h' : MadeOf F domains' doc' m')
    {pl : Placement} (hpoliclouds : ∀ p ∈ doc.policlouds, p ∈ doc'.policlouds)
    (hplacements : doc'.placements.Perm (pl :: doc.placements))
    (hbelow : m.BelowHome H req pl.policloud) :
    (S'.sort homeLess (m'.cands H req)).take homeSize =
      (S.sort homeLess (m.cands H req)).take homeSize := by
  have hperm := h.cands_perm h' H req [pl] hpoliclouds hplacements
  cases hextra : (([pl].filter (·.model = req.model)).map (Placement.parsed F)).filterMap
      (m'.cand H req) with
  | nil =>
    rw [hextra] at hperm
    rw [S'.eq_of_perm S homeLess_iff (nodup_map_sortKey Cand.home (h'.nodup_cands H req)) hperm]
    rfl
  | cons c rest =>
    have hlength : (c :: rest).length ≤ 1 := by
      rw [← hextra]
      refine (length_filterMap_le _ _).trans ?_
      rw [length_map]
      exact length_filter_le _ _
    obtain rfl : rest = [] := length_eq_zero_iff.mp (by simpa using hlength)
    -- the new candidate is on the policloud of the new placement
    have hid : c.pc.id = pl.policloud := by
      have hmem : c ∈ [c] := .head _
      rw [← hextra] at hmem
      obtain ⟨pl', hpl', hc⟩ := mem_filterMap.mp hmem
      obtain ⟨pl₀, hpl₀, rfl⟩ := List.mem_map.mp hpl'
      obtain rfl := mem_singleton.mp (List.mem_filter.mp hpl₀).1
      have hplaced : (pl₀.parsed F).policloud ∈ m'.policlouds :=
        validatePlacement_eq_ok (h'.validPlacement pl₀ (hplacements.mem_iff.mpr (.head _)))
      exact (cand_eq_some (fun _ _ => h'.lookup_id) hplaced hc).2.2.1
    rw [hextra] at hperm
    have hhome := (h'.candidate_of_mem (hperm.mem_iff.mpr (.head _))).2
    rw [hid] at hhome
    have hkeys := nodup_map_sortKey Cand.home (h'.nodup_cands H req)
    rw [(hperm.map _).nodup_iff] at hkeys
    obtain ⟨p, q, hne, hp, hq, hpscore, hqscore⟩ := hbelow
    obtain ⟨a, ha, rfl⟩ := h.exists_mem_cands (H := H) hp.toCandidate
    obtain ⟨b, hb, rfl⟩ := h.exists_mem_cands (H := H) hq.toCandidate
    refine S.take_two_cons S' homeLess_iff hkeys (fun heq => hne (congrArg Cand.pc heq))
      ((h.mem_take_iff ha).mpr hp) ((h.mem_take_iff hb).mpr hq) (homeKey_lt_of_lt ?_)
      (homeKey_lt_of_lt ?_) hperm
    · rw [hhome, (h.candidate_of_mem ha).2]
      exact hpscore
    · rw [hhome, (h.candidate_of_mem hb).2]
      exact hqscore

/-- **The target stays in the home set.** It depends neither on the order of the document nor on how
`sort.Slice` sorts, and a placement below the home set does not change it. The exception is a
placement here that lets the model be woken, while hints are in force and the home set is cold. -/
theorem target_home (S : SliceSort) (H : Score) {F : Formats} {m n : SiblingMap} {doc : MapDoc}
    (hn : m.replace F doc = .ok n) (req : TargetRequest) :
    (∀ p, n.target S H req = some p → n.InHome H req p) ∧
      ((∃ p, n.Candidate req p) → ¬req.now < n.hintsExpire → (n.target S H req).isSome = true) ∧
      (∀ S' m' doc' n', SiblingMap.replace F m' doc' = .ok n' →
        doc'.policlouds.Perm doc.policlouds → doc'.placements.Perm doc.placements →
        doc'.hintsExpireAt = doc.hintsExpireAt → n'.target S' H req = n.target S H req) ∧
      ∀ S' m' doc' n' pl, SiblingMap.replace F m' doc' = .ok n' →
        (∀ p ∈ doc.policlouds, p ∈ doc'.policlouds) →
        doc'.placements.Perm (pl :: doc.placements) → doc'.hintsExpireAt = doc.hintsExpireAt →
        n.BelowHome H req pl.policloud →
        (pl.WakesHere req → req.now < n.hintsExpire → n.HasWarm S H req) →
        n'.target S' H req = n.target S H req := by
  obtain ⟨h, -⟩ := replace_eq_ok hn
  refine ⟨fun p hp => ?_, fun ⟨p, hp⟩ hnow => ?_, ?_, ?_⟩
  · -- the target is among the first two of the sorted candidates
    obtain ⟨c, hc, rfl⟩ := exists_of_target hp
    have hmem : c ∈ n.cands H req := (S.perm homeLess _).mem_iff.mp (mem_of_mem_take hc)
    exact (h.mem_take_iff hmem).mp hc
  · -- without hints the first of the ranking is taken
    obtain ⟨c, hc, -⟩ := h.exists_mem_cands (H := H) hp
    have hne : n.cands H req ≠ [] := ne_nil_of_mem hc
    have hranked : ranked S H req (n.cands H req) ≠ [] := (ranked_eq_nil_iff S H req).not.mpr hne
    unfold SiblingMap.target
    rw [if_neg hne, if_pos hnow, isSome_map, isSome_head?]
    simpa using hranked
  · -- a sorted list of distinct scores and ids is determined by its members
    intro S' m' doc' n' hn' hpoliclouds hplacements hexpire
    obtain ⟨h', -⟩ := replace_eq_ok hn'
    have hperm := h.cands_perm h' H req [] (fun p hp => hpoliclouds.mem_iff.mpr hp) hplacements
    refine h.target_eq h' [] hplacements hexpire nofun ?_
    rw [S'.eq_of_perm S homeLess_iff (nodup_map_sortKey Cand.home (h'.nodup_cands H req)) hperm]
    rfl
  · -- what is added is behind the first two, and at most lets the model be woken here
    intro S' m' doc' n' pl hn' hpoliclouds hplacements hexpire hbelow hwakes
    obtain ⟨h', -⟩ := replace_eq_ok hn'
    refine h.target_eq h' [pl] hplacements hexpire ?_
      (h.take_added h' hpoliclouds hplacements hbelow)
    intro pl' hpl'
    rw [mem_singleton.mp hpl']
    exact hwakes

end Target

/-! ### Three policlouds -/

namespace Three

def formats : Formats := ⟨fun _ => none, fun _ => none, fun _ => some 100, id⟩

def policloud (id : String) : Policloud :=
  ⟨id, Utf8.ofText ("https://" ++ id ++ ".x.ai"), "FR", some true⟩

def cold (policloud : String) (scaleFromZero : Bool) : Placement :=
  ⟨"m", "chat", policloud, some scaleFromZero, "", some ⟨some false, ""⟩, 0⟩

def doc (placements : List Placement) : MapDoc :=
  ⟨2, some 1, "r", [policloud "a", policloud "b", policloud "s"], placements, "t"⟩

def map (placements : List Placement) : SiblingMap :=
  ((SiblingMap.new [Utf8.ofText ".x.ai"]).replace formats (doc placements)).toOption.getD (.new [])

/-- The policlouds `a` and `b` have a higher score than `s`, where the request is. -/
def score : Score := fun _ _ id => if id = "s" then 1 else 2

def request : TargetRequest := ⟨"m", "chat", "s", "s", "k", "", "all", 0⟩

def siblings : List Placement := [cold "a" false, cold "b" false]

theorem replace_eq_map (placements : List Placement)
    (h : ((SiblingMap.new [Utf8.ofText ".x.ai"]).replace formats (doc placements)).isOk = true) :
    (SiblingMap.new [Utf8.ofText ".x.ai"]).replace formats (doc placements) =
      .ok (map placements) := by
  unfold map
  cases hreplace : (SiblingMap.new [Utf8.ofText ".x.ai"]).replace formats (doc placements) with
  | error => rw [hreplace] at h; cases h
  | ok => rfl

theorem replace_siblings : (SiblingMap.new [Utf8.ofText ".x.ai"]).replace formats (doc siblings) =
    .ok (map siblings) :=
  replace_eq_map siblings (by decide +kernel)

theorem inHome {id : String} (h : ⟨cold id false, policloud id, 2, 0⟩ ∈
    (SliceSort.insertion.sort homeLess ((map siblings).cands score request)).take homeSize) :
    (map siblings).InHome score request (policloud id) := by
  have hmade := (replace_eq_ok replace_siblings).1
  exact (hmade.mem_take_iff ((SliceSort.insertion.perm homeLess _).mem_iff.mp
    (mem_of_mem_take h))).mp h

theorem belowHome : (map siblings).BelowHome score request "s" :=
  ⟨policloud "a", policloud "b", by decide, inHome (by decide +kernel), inHome (by decide +kernel),
    by decide, by decide⟩

end Three

/-- Both siblings are in the home set, and the request goes to one of them. -/
theorem target_home_three :
    ∃ p, (Three.map Three.siblings).target .insertion Three.score Three.request = some p ∧
      (Three.map Three.siblings).InHome Three.score Three.request p := by
  refine ⟨Three.policloud "a", by decide +kernel, ?_⟩
  exact (target_home .insertion Three.score Three.replace_siblings Three.request).1 _
    (by decide +kernel)

/-- A placement here, with a score below both members of the home set, changes the result: the
request is no longer redirected. -/
theorem target_added_here :
    ¬∀ (S : SliceSort) (H : Score) (F : Formats) (m n : SiblingMap) (doc : MapDoc)
      (req : TargetRequest), m.replace F doc = .ok n →
      ∀ m' doc' n' pl, SiblingMap.replace F m' doc' = .ok n' →
        (∀ p ∈ doc.policlouds, p ∈ doc'.policlouds) →
        doc'.placements.Perm (pl :: doc.placements) → doc'.hintsExpireAt = doc.hintsExpireAt →
        n.BelowHome H req pl.policloud → n'.target S H req = n.target S H req := by
  intro h
  have hsame := h .insertion Three.score Three.formats _ _ _ Three.request Three.replace_siblings
    _ _ _ (Three.cold "s" true) (Three.replace_eq_map (Three.cold "s" true :: Three.siblings)
      (by decide +kernel)) (fun _ => id) (List.Perm.refl _) rfl Three.belowHome
  exact absurd hsame (by decide +kernel)

end HivenetRouter.Redirect
