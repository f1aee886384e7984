import HivenetRouter.Framework.Machine

/-!
# Redirect tokens and the guard of their single use

The claims that a redirect token carries, the checks that a target makes of them, and
`ReplayGuard`, which remembers the tokens that were used. Times are in nanoseconds; the
claims' are in seconds, as in the token.

What the guard promises is about one entry: an entry that has not expired refuses its token
(`first_eq_false`) and is kept by every call, sweep included (`first_seen_of_le`).
-/

namespace HivenetRouter.Redirect

def second : ℤ := 1000000000

/-- `ClockSkew`: how long after its expiry a token is still accepted. -/
def clockSkew : ℤ := 5 * second

/-- `Claims`, without the fields that only the request's routing reads. -/
structure Claims where
  keyID : String
  requestID : String
  clientRequestID : String
  scope : String
  site : String
  path : String
  bodySHA : String
  issuedAt : ℤ
  exp : ℤ
  jti : String
  deriving DecidableEq

/-- Why a token is refused, as `OnReject` reports it. -/
inductive Reason where
  | malformed
  | signature
  | expired
  | clock
  | site
  | path
  | scope
  | replay
  | key
  | body
  deriving DecidableEq

namespace Claims

/-- `exp + ClockSkew`: the last instant at which the token verifies. -/
def validUntil (c : Claims) : ℤ := c.exp * second + clockSkew

/-- The end of `Signer.Verify`, for a token whose signature and form are right. -/
def verify (c : Claims) (now : ℤ) : Option Reason :=
  if c.validUntil < now then some .expired
  else if now + clockSkew < c.issuedAt * second then some .clock
  else none

end Claims

/-- What a target knows of itself, and the two formats it checks. -/
structure Target where
  self : String
  canonicalRequestID : String → Option String
  validJTI : String → Bool

/-- `normalizeIDs` succeeds. -/
def Target.validIDs (T : Target) (c : Claims) : Bool :=
  (T.canonicalRequestID c.requestID).isSome &&
    (c.clientRequestID = "" || (T.canonicalRequestID c.clientRequestID).isSome)

/-- `tokenAuth.check`; `inScope` is what the sibling map says at that moment. -/
def Target.check (T : Target) (c : Claims) (path : String) (inScope : Bool) (now : ℤ) :
    Option Reason :=
  match c.verify now with
  | some reason => some reason
  | none =>
    if !T.validIDs c || !T.validJTI c.jti then some .malformed
    else if c.site ≠ T.self then some .site
    else if c.path ≠ path then some .path
    else if !inScope then some .scope
    else none

/-! ### The guard -/

/-- `ReplayGuard`: until when each used token is remembered, and the last sweep. -/
structure ReplayGuard where
  seen : String → Option ℤ
  lastSweep : ℤ

namespace ReplayGuard

/-- `NewReplayGuard`; the zero time is the start of the year 1. -/
def new : ReplayGuard where
  seen := fun _ => none
  lastSweep := -62135596800 * second

def swept (g : ReplayGuard) (now : ℤ) : String → Option ℤ :=
  fun id => (g.seen id).filter fun t => ¬t < now

/-- The sweep at the start of `First`, every ten seconds. -/
def sweep (g : ReplayGuard) (now : ℤ) : ReplayGuard :=
  if now - g.lastSweep > 10 * second then ⟨g.swept now, now⟩ else g

/-- There is an entry for `id` that has not expired. -/
def remembers (g : ReplayGuard) (id : String) (now : ℤ) : Bool := (g.seen id).any fun t => ¬t < now

def first (g : ReplayGuard) (id : String) (validUntil now : ℤ) : ReplayGuard × Bool :=
  let g := g.sweep now
  if g.remembers id now then (g, false)
  else ({ g with seen := Function.update g.seen id (some validUntil) }, true)

variable {g : ReplayGuard} {id : String} {t now : ℤ}

theorem sweep_seen_of_le (h : g.seen id = some t) (ht : now ≤ t) :
    (g.sweep now).seen id = some t := by
  unfold sweep
  split_ifs
  · show (g.seen id).filter _ = some t
    rw [h]
    exact if_pos (decide_eq_true (Int.not_lt.mpr ht))
  · exact h

theorem first_eq_false (h : g.seen id = some t) (ht : now ≤ t) (validUntil : ℤ) :
    g.first id validUntil now = (g.sweep now, false) := by
  have hremembers : (g.sweep now).remembers id now = true := by
    unfold remembers
    rw [sweep_seen_of_le h ht]
    exact decide_eq_true (Int.not_lt.mpr ht)
  unfold first
  rw [if_pos hremembers]

/-- A call that accepts a token remembers it, and changes no other entry after the sweep. -/
theorem first_of_true {validUntil : ℤ} (h : (g.first id validUntil now).2 = true) :
    (g.first id validUntil now).1.seen =
      Function.update (g.sweep now).seen id (some validUntil) := by
  unfold first at h ⊢
  dsimp only at h ⊢
  split_ifs at h ⊢
  rfl

theorem first_of_false {validUntil : ℤ} (h : (g.first id validUntil now).2 = false) :
    (g.first id validUntil now).1 = g.sweep now := by
  unfold first at h ⊢
  dsimp only at h ⊢
  split_ifs at h ⊢
  rfl

/-- An entry that has not expired is kept by every call. -/
theorem first_seen_of_le (h : g.seen id = some t) (ht : now ≤ t) (id' : String)
    (validUntil : ℤ) : (g.first id' validUntil now).1.seen id = some t := by
  by_cases hid : id = id'
  · subst hid
    rw [first_eq_false h ht]
    exact sweep_seen_of_le h ht
  · cases hb : (g.first id' validUntil now).2 with
    | true =>
      rw [first_of_true hb, Function.update_of_ne hid]
      exact sweep_seen_of_le h ht
    | false =>
      rw [first_of_false hb]
      exact sweep_seen_of_le h ht

end ReplayGuard

/-!
## Single use of a redirect token on one router

The machine `redirectTarget` runs any number of requests that carry redirect tokens against
one router, in the steps that the code takes:

* `authenticate` — `tokenAuth.Authenticate` checks the token and resolves its key;
* `readBody` — `RedirectTarget` has read the body, compares its hash with the token's, and
  reads the clock for the claim;
* `first` — the locked section of `ReplayGuard.First`, with the clock reading taken before.

The clock moves with `tick` and never goes back; between any two steps of a request any time
may pass. `SingleUse c` says that at most one of the requests that carry the token `c` has
had its claim accepted.

The guard remembers a token until `c.validUntil`, the last instant at which it verifies, but
the claim comes after verification. `singleUse_of_timely` is the property for runs in which
every claim of the token takes the guard's lock by then; `used_twice` is a run with a slow
body in which two claims are accepted. The invariant is that an accepted token is
remembered for as long as it is valid, because every clock reading is in the past.
-/

open Option ReplayGuard

/-- How far a request has come. -/
inductive Phase where
  | arrived
  | authenticated
  /-- The body was read and matches; the claim is made with the clock reading `now`. -/
  | claiming (now : ℤ)
  | accepted
  | refused (reason : Reason)
  deriving DecidableEq

/-- A request: the claims of its token, its path, and the hash of its body. -/
structure Request where
  claims : Claims
  path : String
  bodySHA : String
  phase : Phase

structure State where
  clock : ℤ
  guard : ReplayGuard
  requests : List Request

inductive Act where
  | tick (d : ℕ)
  | arrive (c : Claims) (path bodySHA : String)
  /-- `inScope` and `keyOK` are the answers of the sibling map and of the key registry. -/
  | authenticate (i : ℕ) (inScope keyOK : Bool)
  | readBody (i : ℕ)
  | first (i : ℕ)

namespace State

def advance (s : State) (i : ℕ) (phase : Phase) : State :=
  { s with requests := s.requests.modify i fun r => { r with phase := phase } }

/-- Where `authenticate` leads. -/
def authenticated (T : Target) (s : State) (r : Request) (inScope keyOK : Bool) : Phase :=
  match T.check r.claims r.path inScope s.clock with
  | some reason => .refused reason
  | none => if keyOK then .authenticated else .refused .key

/-- Where `readBody` leads. -/
def bodyRead (s : State) (r : Request) : Phase :=
  if r.claims.bodySHA ≠ r.bodySHA then .refused .body else .claiming s.clock

/-- `Redirector.Use` at the reading `now`, for request `i` with the claims `c`. -/
def use (s : State) (i : ℕ) (c : Claims) (now : ℤ) : State :=
  let (guard, ok) := s.guard.first c.jti c.validUntil now
  { s with guard := guard }.advance i (if ok then .accepted else .refused .replay)

/-- The step function; an action on a request in another phase is not enabled. -/
def step (T : Target) (s : State) : Act → Option State
  | .tick d => some { s with clock := s.clock + d }
  | .arrive c path bodySHA =>
    some { s with requests := s.requests ++ [⟨c, path, bodySHA, .arrived⟩] }
  | .authenticate i inScope keyOK =>
    match s.requests[i]? with
    | some r =>
      if r.phase = .arrived then some (s.advance i (s.authenticated T r inScope keyOK)) else none
    | none => none
  | .readBody i =>
    match s.requests[i]? with
    | some r => if r.phase = .authenticated then some (s.advance i (s.bodyRead r)) else none
    | none => none
  | .first i =>
    match s.requests[i]? with
    | some ⟨c, _, _, .claiming now⟩ => some (s.use i c now)
    | _ => none

end State

/-- The machine: no request has arrived and no token was used. -/
def redirectTarget (T : Target) : Machine State Act where
  Init s := s.guard = new ∧ s.requests = []
  step := State.step T

/-- Request `i` carries the token `c`, and its claim was accepted. -/
def Accepted (c : Claims) (s : State) (i : ℕ) : Prop :=
  ∃ r, s.requests[i]? = some r ∧ r.claims = c ∧ r.phase = .accepted

instance (c : Claims) (s : State) (i : ℕ) : Decidable (Accepted c s i) :=
  decidable_of_iff (∃ r ∈ s.requests[i]?, r.claims = c ∧ r.phase = .accepted) Iff.rfl

/-- At most one request that carries the token has had its claim accepted. -/
def SingleUse (c : Claims) (s : State) : Prop := ∀ i j, Accepted c s i → Accepted c s j → i = j

/-- The claims of the token take the lock while the token is valid. -/
def Timely (c : Claims) (s : State) : Act → Prop
  | .first i => ∀ r ∈ s.requests[i]?, r.claims = c → s.clock ≤ c.validUntil
  | _ => True

instance (c : Claims) (s : State) (a : Act) : Decidable (Timely c s a) := by
  unfold Timely
  split <;> infer_instance

/-! ### The invariant -/

/-- An accepted token is remembered while it is valid, and every clock reading that a claim
is made with is in the past. -/
structure Inv (c : Claims) (s : State) : Prop where
  past : ∀ (i : ℕ) (r : Request) (now : ℤ), s.requests[i]? = some r → r.phase = .claiming now →
    now ≤ s.clock
  remembered : ∀ i, Accepted c s i → s.clock ≤ c.validUntil →
    ∃ t, s.guard.seen c.jti = some t ∧ c.validUntil ≤ t
  once : SingleUse c s

variable {s : State} {c : Claims} {i j : ℕ} {p : Phase} {r : Request} {now : ℤ} {x : Request}

theorem Inv.initial (c : Claims) (h : s.requests = []) : Inv c s := by
  have hnone : ∀ i : ℕ, s.requests[i]? = none := by
    intro i
    rw [h]
    rfl
  refine ⟨?_, ?_, ?_⟩
  · intro i r now hr
    rw [hnone] at hr
    cases hr
  · rintro i ⟨r, hr, -⟩
    rw [hnone] at hr
    cases hr
  · rintro i j ⟨r, hr, -⟩
    rw [hnone] at hr
    cases hr

theorem requests_advance (s : State) (i j : ℕ) (p : Phase) : (s.advance i p).requests[j]? =
      if i = j then s.requests[j]?.map fun r => { r with phase := p } else s.requests[j]? := by
  show (s.requests.modify i _)[j]? = _
  rw [List.getElem?_modify]
  split_ifs with hij
  · rfl
  · exact congrFun map_id_fun' _

theorem accepted_advance (h : Accepted c (s.advance i p) j) :
    Accepted c s j ∨ i = j ∧ p = .accepted ∧ ∃ r, s.requests[i]? = some r ∧ r.claims = c := by
  obtain ⟨r, hr, hc, hp⟩ := h
  rw [requests_advance] at hr
  by_cases hij : i = j
  · subst hij
    rw [if_pos rfl] at hr
    obtain ⟨r', hr', rfl⟩ := map_eq_some_iff.mp hr
    exact .inr ⟨rfl, hp, r', hr', hc⟩
  · rw [if_neg hij] at hr
    exact .inl ⟨r, hr, hc, hp⟩

theorem claiming_advance (hr : (s.advance i p).requests[j]? = some r)
    (hnow : r.phase = .claiming now) :
    p = .claiming now ∨ s.requests[j]? = some r := by
  rw [requests_advance] at hr
  split_ifs at hr
  · obtain ⟨r', -, rfl⟩ := map_eq_some_iff.mp hr
    exact .inl hnow
  · exact .inr hr

section

variable (h : Inv c s)

include h

/-- A step that advances a request short of the claim keeps the invariant. -/
theorem Inv.advance (i : ℕ) (hp : p ≠ .accepted)
    (hnow : ∀ now, p = .claiming now → now ≤ s.clock) :
    Inv c (s.advance i p) := by
  have hacc : ∀ j, Accepted c (s.advance i p) j → Accepted c s j := by
    intro j hj
    rcases accepted_advance hj with hj | ⟨-, hp', -⟩
    · exact hj
    · exact absurd hp' hp
  refine ⟨?_, ?_, ?_⟩
  · intro j r now hr hphase
    rcases claiming_advance hr hphase with hp' | hr'
    · exact hnow now hp'
    · exact h.past j r now hr' hphase
  · exact fun j hj => h.remembered j (hacc j hj)
  · exact fun j k hj hk => h.once j k (hacc j hj) (hacc k hk)

/-- What the guard remembers of an accepted token, every later claim leaves in place. -/
theorem Inv.first_remembered (hj : Accepted c s j) (hclock : s.clock ≤ c.validUntil)
    (hnow : now ≤ s.clock) (id : String) (validUntil : ℤ) :
    ∃ t, (s.guard.first id validUntil now).1.seen c.jti = some t ∧ c.validUntil ≤ t := by
  obtain ⟨t, hseen, ht⟩ := h.remembered j hj hclock
  exact ⟨t, first_seen_of_le hseen (by omega) id validUntil, ht⟩

/-- A timely claim of a token that was accepted before is refused. -/
theorem Inv.first_refused (hj : Accepted c s j) (hclock : s.clock ≤ c.validUntil)
    (hnow : now ≤ s.clock) :
    (s.guard.first c.jti c.validUntil now).2 = false := by
  obtain ⟨t, hseen, ht⟩ := h.remembered j hj hclock
  rw [first_eq_false hseen (by omega)]

/-- The guard may change in any way that remembers the accepted token. -/
theorem Inv.setGuard {g : ReplayGuard}
    (hg : ∀ i, Accepted c s i → s.clock ≤ c.validUntil → ∃ t, g.seen c.jti = some t ∧ c.validUntil ≤
      t) :
    Inv c { s with guard := g } :=
  ⟨h.past, hg, h.once⟩

/-- An accepted claim keeps the invariant, if it is of another token or timely. -/
theorem Inv.accept (hr : s.requests[i]? = some r) (hnow : now ≤ s.clock)
    (htimely : r.claims = c → s.clock ≤ c.validUntil)
    (hok : (s.guard.first r.claims.jti r.claims.validUntil now).2 = true) :
    Inv c ({ s with guard := (s.guard.first r.claims.jti r.claims.validUntil now).1 }.advance i
      .accepted) := by
  -- if the request carries the token, the guard has just recorded it, and no other request
  -- that carries it was accepted before
  have hnew : ∀ r', s.requests[i]? = some r' → r'.claims = c →
      (s.guard.first r.claims.jti r.claims.validUntil now).1.seen c.jti = some c.validUntil ∧
        ∀ j, ¬Accepted c s j := by
    intro r' hr' hc
    rw [hr] at hr'
    obtain rfl := some.inj hr'
    subst hc
    refine ⟨?_, fun j hj => ?_⟩
    · rw [first_of_true hok, Function.update_self]
    · rw [h.first_refused hj (htimely rfl) hnow] at hok
      cases hok
  refine ⟨?_, ?_, ?_⟩
  · intro j r' now' hr' hphase
    rcases claiming_advance hr' hphase with hp | hr'
    · cases hp
    · exact h.past j r' now' hr' hphase
  · intro j hj hclock
    rcases accepted_advance hj with hj | ⟨-, -, r', hr', hc⟩
    · -- an earlier one is remembered, since the reading is in the past
      exact h.first_remembered hj hclock hnow _ _
    · exact ⟨c.validUntil, (hnew r' hr' hc).1, Int.le_refl _⟩
  · -- two accepted requests: both were before, or one of them is new and the other cannot have
    -- been
    intro j k hj hk
    rcases accepted_advance hj with hj | ⟨rfl, -, r', hr', hc⟩
    · rcases accepted_advance hk with hk | ⟨rfl, -, r', hr', hc⟩
      · exact h.once j k hj hk
      · exact absurd hj ((hnew r' hr' hc).2 j)
    · rcases accepted_advance hk with hk | ⟨rfl, -, -⟩
      · exact absurd hk ((hnew r' hr' hc).2 k)
      · rfl

/-- A claim keeps the invariant, if it is of another token or timely. -/
theorem Inv.use (hr : s.requests[i]? = some r) (hphase : r.phase = .claiming now)
    (htimely : r.claims = c → s.clock ≤ c.validUntil) :
    Inv c (s.use i r.claims now) := by
  have hnow := h.past i r now hr hphase
  unfold State.use
  dsimp only
  cases hok : (s.guard.first r.claims.jti r.claims.validUntil now).2 with
  | false =>
    refine Inv.advance (h.setGuard ?_) i Phase.noConfusion (fun _ => Phase.noConfusion)
    -- a claim that is refused may still remove what has expired, and the token has not
    exact fun j hj hclock => h.first_remembered hj hclock hnow _ _
  | true => exact h.accept hr hnow htimely hok

end

theorem requests_arrive {l : List Request} (h : (l ++ [x])[i]? = some r) :
    l[i]? = some r ∨ r = x := by
  rcases Nat.lt_or_ge i l.length with hi | hi
  · rw [List.getElem?_append_left hi] at h
    exact .inl h
  · rw [List.getElem?_append_right hi] at h
    exact .inr (List.mem_singleton.mp (List.mem_of_getElem? h))

theorem Inv.arrive (h : Inv c s) (hx : x.phase = .arrived) :
    Inv c { s with requests := s.requests ++ [x] } := by
  have hacc : ∀ i, Accepted c { s with requests := s.requests ++ [x] } i → Accepted c s i := by
    rintro i ⟨r, hr, hc, hphase⟩
    rcases requests_arrive hr with hr | rfl
    · exact ⟨r, hr, hc, hphase⟩
    · rw [hx] at hphase
      cases hphase
  refine ⟨?_, ?_, ?_⟩
  · intro i r now hr hphase
    rcases requests_arrive hr with hr | rfl
    · exact h.past i r now hr hphase
    · rw [hx] at hphase
      cases hphase
  · exact fun i hi => h.remembered i (hacc i hi)
  · exact fun i j hi hj => h.once i j (hacc i hi) (hacc j hj)

theorem Inv.tick (h : Inv c s) (d : ℕ) : Inv c { s with clock := s.clock + d } := by
  refine ⟨?_, ?_, h.once⟩
  · intro i r now hr hphase
    have := h.past i r now hr hphase
    show now ≤ s.clock + d
    omega
  · intro i hi hclock
    replace hclock : s.clock + d ≤ c.validUntil := hclock
    exact h.remembered i hi (by omega)

theorem authenticated_ne (T : Target) (s : State) (r : Request) (inScope keyOK : Bool) :
    s.authenticated T r inScope keyOK ≠ .accepted ∧
      ∀ now, s.authenticated T r inScope keyOK ≠ .claiming now := by
  unfold State.authenticated
  split
  · exact ⟨Phase.noConfusion, fun _ => Phase.noConfusion⟩
  · split_ifs
    all_goals exact ⟨Phase.noConfusion, fun _ => Phase.noConfusion⟩

theorem bodyRead_ne (s : State) (r : Request) :
    s.bodyRead r ≠ .accepted ∧ ∀ now, s.bodyRead r = .claiming now → now ≤ s.clock := by
  unfold State.bodyRead
  split_ifs
  · exact ⟨Phase.noConfusion, nofun⟩
  · refine ⟨Phase.noConfusion, fun now hnow => ?_⟩
    injection hnow with hnow
    exact Int.le_of_eq hnow.symm

theorem Inv.step {T : Target} {s' : State} {a : Act} (h : Inv c s) (htimely : Timely c s a)
    (hstep : State.step T s a = some s') : Inv c s' := by
  cases a with
  | tick d =>
    obtain rfl := some.inj hstep
    exact h.tick d
  | arrive =>
    obtain rfl := some.inj hstep
    exact h.arrive rfl
  | authenticate i inScope keyOK =>
    rw [State.step] at hstep
    split at hstep
    · next r _ =>
      obtain ⟨-, hstep⟩ := ite_none_right_eq_some.mp hstep
      obtain rfl := some.inj hstep
      have hne := authenticated_ne T s r inScope keyOK
      exact h.advance i hne.1 fun now hnow => absurd hnow (hne.2 now)
    · cases hstep
  | readBody i =>
    rw [State.step] at hstep
    split at hstep
    · next r _ =>
      obtain ⟨-, hstep⟩ := ite_none_right_eq_some.mp hstep
      obtain rfl := some.inj hstep
      exact h.advance i (bodyRead_ne s r).1 (bodyRead_ne s r).2
    · cases hstep
  | first =>
    rw [State.step] at hstep
    split at hstep
    · next hr =>
      obtain rfl := some.inj hstep
      -- the only step that the guard sees, and the only one that must be timely
      exact h.use hr rfl fun hc => htimely _ hr hc
    · cases hstep

/-- **Single use, for timely claims.** In every run in which the claims of a token take the
guard's lock by `exp + ClockSkew`, at most one of them is accepted. -/
theorem singleUse_of_timely (T : Target) (c : Claims) {s : State}
    (h : (redirectTarget T).ReachVia (Timely c) s) : SingleUse c s :=
  (h.induction (fun _ hinit => Inv.initial c hinit.2) fun _ _ _ hI ht hs => hI.step ht hs).once

/-! ### Two requests with one token

A token of one minute, and two requests that carry it. -/

def demoTarget : Target := ⟨"fr1", some, fun _ => true⟩

def demoToken : Claims where
  keyID := "k"
  requestID := "11111111-2222-3333-4444-555555555555"
  clientRequestID := ""
  scope := "all"
  site := "fr1"
  path := "/v1/chat/completions"
  bodySHA := "2c26b46b"
  issuedAt := 1000
  exp := 1060
  jti := "AAAAAAAAAAAAAAAAAAAAAA"

/-- Both requests arrive and are authenticated; the first one's claim is made at once, the
second one's after `d`. -/
def slowBody (d : ℕ) : List Act :=
  [.arrive demoToken demoToken.path demoToken.bodySHA,
    .arrive demoToken demoToken.path demoToken.bodySHA,
    .authenticate 0 true true, .authenticate 1 true true, .readBody 0, .first 0,
    .tick d, .readBody 1, .first 1]

def demoStart : State := ⟨1000 * second, .new, []⟩

/-- A second request that claims within the minute is refused. -/
theorem singleUse_quick_body :
    ∃ s, (redirectTarget demoTarget).run demoStart (slowBody 30000000000) = some s ∧
      Accepted demoToken s 0 ∧ SingleUse demoToken s := by
  refine Machine.exists_mem_and (by decide) fun s hs _ => ?_
  refine singleUse_of_timely demoTarget demoToken ?_
  exact ⟨demoStart, slowBody 30000000000, ⟨rfl, rfl⟩, by decide, hs⟩

/-- A second request whose body takes 66 seconds is accepted too. -/
theorem used_twice : ∃ s, (redirectTarget demoTarget).Reachable s ∧ ¬SingleUse demoToken s := by
  obtain ⟨s, hs, h₀, h₁⟩ : ∃ s ∈ (redirectTarget demoTarget).run demoStart (slowBody 66000000000),
      Accepted demoToken s 0 ∧ Accepted demoToken s 1 := by decide
  refine ⟨s, ⟨demoStart, slowBody 66000000000, ⟨rfl, rfl⟩, hs⟩, fun honce => ?_⟩
  exact absurd (honce 0 1 h₀ h₁) (by decide)

end HivenetRouter.Redirect
