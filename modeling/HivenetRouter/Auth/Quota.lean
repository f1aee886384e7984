import HivenetRouter.Framework.Go
import HivenetRouter.Framework.Machine

/-!
# The daily token quota

A `dailyBucket` counts the tokens that a tenant has used on a day. `AllowInputTokens`,
`AllowOutputTokens` and `RemainingTokens` find the bucket, read the UTC day, and then lock the
bucket: if its day is not the one that was read, it starts again from zero.

`DailyBucket.allowTokens` and `DailyBucket.remainingTokens` are the two locked sections. The machine
`dailyLimiter` has the calls with a step for each operation on the map, each reading of the clock
and each locked section.

A call may read the day before midnight and lock the bucket after another call has rolled it
over. It then rolls the bucket back, and the next call of the new day starts from zero once
more (`rolled_back_at_midnight`). Where no call locks a bucket whose day is later than its own
reading, the allowed amounts of a day are within the limit (`spent_le_of_inOrder`); the
invariant `Bounded` has the amounts of the bucket's day below its counter, those of earlier
days below the limit, and none for later days.
-/

namespace HivenetRouter.Auth

def bucketKey (tenantID model : String) : String :=
  if model = "" then tenantID else tenantID ++ "\x00" ++ model

structure DailyBucket where
  used : ℤ
  day : ℤ

namespace DailyBucket

/-- The rollover at the start of the locked sections. -/
def rollOver (b : DailyBucket) (today : ℤ) : DailyBucket := if b.day = today then b else ⟨0, today⟩

/-- The locked section of `allowTokens`: whether the amount is allowed, what remains, and the bucket
after it. -/
def allowTokens (b : DailyBucket) (today tpd n : ℤ) : Bool × ℤ × DailyBucket :=
  let b := b.rollOver today
  if tpd < wrap64 (b.used + n) then
    (false, 0, if b.used < tpd then { b with used := tpd } else b)
  else
    let used := wrap64 (b.used + n)
    (true, wrap64 (tpd - used), { b with used := used })

/-- The locked section of `RemainingTokens`. -/
def remainingTokens (b : DailyBucket) (today tpd : ℤ) : ℤ × DailyBucket :=
  let b := b.rollOver today
  (max 0 (wrap64 (tpd - b.used)), b)

@[simp] theorem rollOver_day (b : DailyBucket) (today : ℤ) : (b.rollOver today).day = today := by
  unfold rollOver
  split_ifs with h
  · exact h
  · rfl

theorem rollOver_eta (b : DailyBucket) (today : ℤ) :
    b.rollOver today = ⟨(b.rollOver today).used, today⟩ := by
  unfold rollOver
  split_ifs with h
  · rw [← h]
  · rfl

variable {b b' : DailyBucket} {today tpd rem n : ℤ}

theorem rollOver_of_eq (h : b.day = today) : b.rollOver today = b := if_pos h

theorem rollOver_of_ne (h : b.day ≠ today) : b.rollOver today = ⟨0, today⟩ := if_neg h

/-- An amount is allowed if it fits, and added to the counter. -/
theorem allowTokens_eq_true (h : b.allowTokens today tpd n = (true, rem, b')) :
    b' = ⟨wrap64 ((b.rollOver today).used + n), today⟩ ∧
      wrap64 ((b.rollOver today).used + n) ≤ tpd := by
  unfold allowTokens at h
  dsimp only at h
  split at h
  · cases h
  · next hover =>
    cases h
    rw [rollOver_day]
    exact ⟨rfl, not_lt.mp hover⟩

/-- A refusal leaves a counter that is not below the limit. -/
theorem allowTokens_eq_false (h : b.allowTokens today tpd n = (false, rem, b')) :
    b' = ⟨max (b.rollOver today).used tpd, today⟩ ∧ tpd < wrap64 ((b.rollOver today).used + n) := by
  unfold allowTokens at h
  dsimp only at h
  split at h
  · next hover =>
    cases h
    refine ⟨?_, hover⟩
    split_ifs with hused
    · rw [max_eq_right (le_of_lt hused), rollOver_day]
    · rw [max_eq_left (not_lt.mp hused)]
      exact rollOver_eta b today
  · cases h

end DailyBucket

/-! ### The calls -/

/-- What a call asks for; the two deducting calls are one function. -/
inductive TokenCall
  | allow (n : ℤ)
  | remaining
  deriving DecidableEq

def TokenCall.amount : TokenCall → Option ℤ
  | .allow n => some n
  | .remaining => none

/-- The operations that a call has made. -/
inductive CallStage
  | entered
  /-- `Load` has not found the bucket. -/
  | missed
  /-- A bucket has been made, with the day that was read. -/
  | created (day : ℤ)
  /-- `getOrCreateDaily` has returned. -/
  | ready
  /-- The day has been read. -/
  | dated (today : ℤ)

structure Call where
  bucket : String
  what : TokenCall
  stage : CallStage

/-- An allowed call: its bucket, its reading of the day, and its amount. -/
structure AllowedCall where
  bucket : String
  today : ℤ
  amount : ℤ

/-- `InMemoryLimiter`, the clock, and the calls under way. -/
structure DailyLimiter where
  dailyBuckets : GoMap String DailyBucket
  /-- `utcDayIndex` -/
  day : ℤ
  calls : ℕ → Option Call
  allowed : List AllowedCall

inductive LimiterAct
  | call (pid : ℕ) (tenantID model : String) (what : TokenCall)
  | advance (pid : ℕ)
  /-- Midnight passes, once or more often. -/
  | midnight (days : ℕ)

namespace DailyLimiter

def setCall (s : DailyLimiter) (pid : ℕ) (c : Option Call) : DailyLimiter :=
  { s with calls := Function.update s.calls pid c }

def locked (tpd : String → ℤ) (s : DailyLimiter) (c : Call) (today : ℤ) (b : DailyBucket) :
    DailyLimiter :=
  match c.what with
  | .remaining =>
    { s with
      dailyBuckets := s.dailyBuckets.insert c.bucket (b.remainingTokens today (tpd c.bucket)).2 }
  | .allow n =>
    match b.allowTokens today (tpd c.bucket) n with
    | (true, _, b') =>
      { s with
        dailyBuckets := s.dailyBuckets.insert c.bucket b'
        allowed := ⟨c.bucket, today, n⟩ :: s.allowed }
    | (false, _, b') => { s with dailyBuckets := s.dailyBuckets.insert c.bucket b' }

/-- There is nothing to count: the call returns at once. -/
def unlimited (tpd : String → ℤ) (c : Call) : Bool :=
  decide (tpd c.bucket ≤ 0) ||
    match c.what with
    | .allow n => decide (n ≤ 0)
    | .remaining => false

def advance (tpd : String → ℤ) (s : DailyLimiter) (pid : ℕ) (c : Call) : DailyLimiter :=
  match c.stage with
  | .entered =>
    if unlimited tpd c then s.setCall pid none
    else
      match s.dailyBuckets.lookup c.bucket with
      | some _ => s.setCall pid (some { c with stage := .ready })
      | none => s.setCall pid (some { c with stage := .missed })
  | .missed => s.setCall pid (some { c with stage := .created s.day })
  | .created day =>
    -- `LoadOrStore`: of two buckets for one key the first one is kept.
    match s.dailyBuckets.lookup c.bucket with
    | some _ => s.setCall pid (some { c with stage := .ready })
    | none =>
      { s with dailyBuckets := s.dailyBuckets.insert c.bucket ⟨0, day⟩ }.setCall pid
        (some { c with stage := .ready })
  | .ready => s.setCall pid (some { c with stage := .dated s.day })
  | .dated today =>
    match s.dailyBuckets.lookup c.bucket with
    | some b => (s.locked tpd c today b).setCall pid none
    | none => s.setCall pid none

def step (tpd : String → ℤ) (s : DailyLimiter) : LimiterAct → Option DailyLimiter
  | .call pid tenantID model what =>
    match s.calls pid with
    | none => some (s.setCall pid (some ⟨bucketKey tenantID model, what, .entered⟩))
    | some _ => none
  | .advance pid => (s.calls pid).map (s.advance tpd pid)
  | .midnight days => some { s with day := s.day + days }

structure Start (s : DailyLimiter) : Prop where
  dailyBuckets : s.dailyBuckets = ∅
  calls : s.calls = fun _ => none
  allowed : s.allowed = []

end DailyLimiter

def dailyLimiter (tpd : String → ℤ) : Machine DailyLimiter LimiterAct where
  Init := DailyLimiter.Start
  step := DailyLimiter.step tpd

/-- The sum of the allowed amounts of a bucket on a day. -/
def spent (allowed : List AllowedCall) (bucket : String) (today : ℤ) : ℤ :=
  ((allowed.filter fun a => a.bucket = bucket ∧ a.today = today).map AllowedCall.amount).sum

def DailyLimiter.locking (s : DailyLimiter) : LimiterAct → Option (Call × ℤ × DailyBucket)
  | .advance pid =>
    (s.calls pid).bind fun c =>
      match c.stage with
      | .dated today => (s.dailyBuckets.lookup c.bucket).map fun b => (c, today, b)
      | _ => none
  | _ => none

/-- The sum in the locked section is a machine integer. -/
def NoOverflow (s : DailyLimiter) (a : LimiterAct) : Prop :=
  ∀ l ∈ s.locking a, ∀ n ∈ l.1.what.amount, Fits64 ((l.2.2.rollOver l.2.1).used + n)

/-- The bucket that a call locks is not of a later day than the call has read. -/
def InOrder (s : DailyLimiter) (a : LimiterAct) : Prop := ∀ l ∈ s.locking a, l.2.2.day ≤ l.2.1

instance (s : DailyLimiter) (a : LimiterAct) : Decidable (NoOverflow s a) :=
  inferInstanceAs (Decidable (∀ l ∈ s.locking a, _))

instance (s : DailyLimiter) (a : LimiterAct) : Decidable (InOrder s a) :=
  inferInstanceAs (Decidable (∀ l ∈ s.locking a, _))

/-! ### The invariant -/

/-- What has been allowed, day by day, of the bucket. -/
structure DailyBucket.Covers (b : DailyBucket) (tpd : ℤ) (spent : ℤ → ℤ) : Prop where
  used_le : b.used ≤ tpd
  today : spent b.day ≤ b.used
  earlier : ∀ day < b.day, spent day ≤ tpd
  later : ∀ day, b.day < day → spent day = 0

/-- The amounts of every bucket that has a limit. -/
def Bounded (tpd : String → ℤ) (s : DailyLimiter) : Prop :=
  ∀ bucket, 0 < tpd bucket →
    match s.dailyBuckets.lookup bucket with
    | some b => b.Covers (tpd bucket) (spent s.allowed bucket)
    | none => ∀ day, spent s.allowed bucket day = 0

section Invariant

variable {tpd : String → ℤ} {s t : DailyLimiter} {b : DailyBucket}

theorem spent_cons (a : AllowedCall) (allowed : List AllowedCall) (bucket : String) (day : ℤ) :
    spent (a :: allowed) bucket day =
      (if a.bucket = bucket ∧ a.today = day then a.amount else 0) + spent allowed bucket day := by
  unfold spent
  rw [List.filter_cons]
  by_cases h : a.bucket = bucket ∧ a.today = day
  · rw [if_pos h, if_pos (decide_eq_true h), List.map_cons, List.sum_cons]
  · rw [if_neg h, if_neg (by simpa using h), zero_add]

namespace DailyBucket.Covers

variable {limit : ℤ} {f : ℤ → ℤ}

variable (h : b.Covers limit f)

include h

/-- A reading that is not earlier than the bucket's day. -/
theorem rollOver (hlimit : 0 < limit) {today : ℤ} (hle : b.day ≤ today) :
    (b.rollOver today).Covers limit f := by
  by_cases hday : b.day = today
  · rw [rollOver_of_eq hday]
    exact h
  · have hlt : b.day < today := lt_of_le_of_ne hle hday
    rw [rollOver_of_ne hday]
    refine ⟨Int.le_of_lt hlimit, le_of_eq (h.later today hlt), fun day hearlier => ?_,
      fun day hlater => h.later day (lt_trans hlt hlater)⟩
    -- The day that ends with this rollover has its amounts below the counter, and so the limit.
    rcases lt_trichotomy day b.day with hless | heq | hmore
    · exact h.earlier day hless
    · rw [heq]
      exact le_trans h.today h.used_le
    · rw [h.later day hmore]
      exact le_of_lt hlimit

/-- The amounts are the same, and the counter has grown. -/
theorem raise {used : ℤ} (hle : b.used ≤ used) (hused : used ≤ limit) :
    Covers ⟨used, b.day⟩ limit f :=
  ⟨hused, le_trans h.today hle, h.earlier, h.later⟩

/-- An amount is added to both. -/
theorem charge {n : ℤ} (hn : b.used + n ≤ limit) {g : ℤ → ℤ}
    (htoday : g b.day = n + f b.day) (hother : ∀ day, day ≠ b.day → g day = f day) :
    Covers ⟨b.used + n, b.day⟩ limit g where
  used_le := hn
  today := by
    have hf := h.today
    dsimp only
    omega
  earlier day hday := by
    rw [hother day (ne_of_lt hday)]
    exact h.earlier day hday
  later day hday := by
    rw [hother day (ne_of_gt hday)]
    exact h.later day hday

end DailyBucket.Covers

section

variable (h : Bounded tpd s) {c : Call}

include h

/-- The amounts of one bucket have changed, with the bucket; the others are as they were. -/
theorem Bounded.insert {bucket : String}
    (hbuckets : t.dailyBuckets = s.dailyBuckets.insert bucket b)
    (hother : ∀ other, other ≠ bucket → ∀ day, spent t.allowed other day =
      spent s.allowed other day)
    (hcovers : 0 < tpd bucket → b.Covers (tpd bucket) (spent t.allowed bucket)) :
    Bounded tpd t := by
  intro other htpd
  rw [hbuckets]
  by_cases hne : other = bucket
  · subst hne
    rw [Finmap.lookup_insert]
    exact hcovers htpd
  · have hsame : spent t.allowed other = spent s.allowed other := funext (hother other hne)
    rw [Finmap.lookup_insert_of_ne _ hne, hsame]
    exact h other htpd

/-- **The locked section keeps the bound**: it charges only what is left of the day it has rolled
to. -/
theorem bounded_locked {today : ℤ} (hb : s.dailyBuckets.lookup c.bucket = some b)
    (horder : b.day ≤ today) (hfits : ∀ n ∈ c.what.amount, Fits64 ((b.rollOver today).used + n)) :
    Bounded tpd (s.locked tpd c today b) := by
  -- the section rolls the bucket over first, and not back: it is not of a later day
  have hcovers : 0 < tpd c.bucket →
      (b.rollOver today).Covers (tpd c.bucket) (spent s.allowed c.bucket) := by
    intro htpd
    have hb' := h c.bucket htpd
    rw [hb] at hb'
    exact hb'.rollOver htpd horder
  unfold DailyLimiter.locked
  cases hwhat : c.what with
  | remaining => exact h.insert rfl (fun _ _ _ => rfl) hcovers
  | allow n =>
    dsimp only
    split
    · next rem b' hallow =>
      -- allowed: the amount is added to the counter and to what is spent on the day
      obtain ⟨rfl, hle⟩ := DailyBucket.allowTokens_eq_true hallow
      have hn : n ∈ c.what.amount := by
        rw [hwhat]
        rfl
      rw [wrap64_of_fits (hfits n hn)] at hle ⊢
      refine h.insert rfl (fun other hne day => ?_) fun htpd => ?_
      · rw [spent_cons, if_neg fun heq => hne heq.1.symm, zero_add]
      · have hcharge := (hcovers htpd).charge hle
          (g := spent (⟨c.bucket, today, n⟩ :: s.allowed) c.bucket)
        rw [DailyBucket.rollOver_day] at hcharge
        refine hcharge ?_ fun day hday => ?_
        · rw [spent_cons, if_pos ⟨rfl, rfl⟩]
        · rw [spent_cons, if_neg fun heq => hday heq.2.symm, zero_add]
    · next rem b' hallow =>
      -- refused: the counter is raised to the limit, and nothing is spent
      obtain ⟨rfl, -⟩ := DailyBucket.allowTokens_eq_false hallow
      refine h.insert rfl (fun _ _ _ => rfl) fun htpd => ?_
      have hraise := (hcovers htpd).raise (le_max_left _ (tpd c.bucket))
        (max_le (hcovers htpd).used_le le_rfl)
      rw [DailyBucket.rollOver_day] at hraise
      exact hraise

theorem Bounded.setCall (pid : ℕ) (c : Option Call) :
    Bounded tpd (s.setCall pid c) := h

theorem bounded_advance {pid : ℕ} (hc : s.calls pid = some c)
    (hfits : NoOverflow s (.advance pid)) (horder : InOrder s (.advance pid)) :
    Bounded tpd (s.advance tpd pid c) := by
  unfold DailyLimiter.advance
  cases hstage : c.stage with
  | entered =>
    dsimp only
    split_ifs
    · exact h.setCall pid none
    · split
      all_goals exact h.setCall pid _
  | missed | ready => exact h.setCall pid _
  | created day =>
    dsimp only
    split
    · exact h.setCall pid _
    · next hnone =>
      -- Nothing has been allowed of a bucket that is not there.
      have hstored : Bounded tpd
          { s with dailyBuckets := s.dailyBuckets.insert c.bucket ⟨0, day⟩ } := by
        refine h.insert rfl (fun _ _ _ => rfl) fun htpd => ?_
        have hzero := h c.bucket htpd
        rw [hnone] at hzero
        exact ⟨Int.le_of_lt htpd, le_of_eq (hzero _),
          fun day _ => (hzero day).trans_le (le_of_lt htpd), fun day _ => hzero day⟩
      exact hstored.setCall pid _
  | dated today =>
    dsimp only
    split
    · next b hb =>
      have hlocking : s.locking (.advance pid) = some (c, today, b) := by
        dsimp only [DailyLimiter.locking]
        rw [hc, Option.bind_some, hstage]
        rw [hb]
        rfl
      exact (bounded_locked h hb (horder _ hlocking) (hfits _ hlocking)).setCall pid none
    · exact h.setCall pid none

theorem bounded_step {a : LimiterAct} (hfits : NoOverflow s a)
    (horder : InOrder s a) (hstep : s.step tpd a = some t) : Bounded tpd t := by
  cases a with
  | call pid =>
    dsimp only [DailyLimiter.step] at hstep
    split at hstep
    · cases hstep
      exact h.setCall pid _
    · cases hstep
  | advance =>
    obtain ⟨c, hc, rfl⟩ := Option.map_eq_some_iff.mp hstep
    exact bounded_advance h hc hfits horder
  | midnight =>
    cases hstep
    exact h

end

/-- **The amounts of a day are within the limit**, whatever the interleaving, where no call
finds the bucket rolled over to a later day than it has read. -/
theorem spent_le_of_inOrder
    (hreach : (dailyLimiter tpd).ReachVia (fun s a => NoOverflow s a ∧ InOrder s a) s)
    (tenantID model : String) (htpd : 0 < tpd (bucketKey tenantID model)) (day : ℤ) :
    spent s.allowed (bucketKey tenantID model) day ≤ tpd (bucketKey tenantID model) := by
  have hbounded : Bounded tpd s := by
    refine hreach.induction (I := Bounded tpd) (fun s h bucket _ => ?_) ?_
    · rw [h.dailyBuckets, h.allowed]
      exact fun day => rfl
    · rintro s a t h ⟨hfits, horder⟩ hstep
      exact bounded_step h hfits horder hstep
  have h := hbounded (bucketKey tenantID model) htpd
  cases hb : s.dailyBuckets.lookup (bucketKey tenantID model) with
  | none =>
    rw [hb] at h
    exact (h day).trans_le (le_of_lt htpd)
  | some b =>
    rw [hb] at h
    rcases lt_trichotomy day b.day with hless | rfl | hmore
    · exact h.earlier day hless
    · exact le_trans h.today h.used_le
    · exact (h.later day hmore).trans_le (le_of_lt htpd)

end Invariant

/-! ### Around midnight -/

def demoLimiter : DailyLimiter := ⟨∅, 0, fun _ => none, []⟩

/-- Call `pid` asks for five tokens, and goes on up to its locked section. -/
def datedActs (pid steps : ℕ) : List LimiterAct :=
  .call pid "tenant" "m" (.allow 5) :: List.replicate steps (.advance pid)

/-- A call of day 0 is through before midnight; two more of day 1, of which the second is
refused. -/
def quietActs : List LimiterAct := datedActs 0 5 ++ [.midnight 1] ++ datedActs 1 3 ++ datedActs 2 3

theorem spent_quiet : ∃ t ∈ (dailyLimiter fun _ => 8).run demoLimiter quietActs,
      spent t.allowed (bucketKey "tenant" "m") 0 = 5 ∧
        ∀ day, spent t.allowed (bucketKey "tenant" "m") day ≤ 8 := by
  refine Machine.exists_mem_and (by decide +kernel) fun t hrun _ => ?_
  have hreach : (dailyLimiter fun _ => 8).ReachVia (fun s a => NoOverflow s a ∧ InOrder s a) t :=
    ⟨demoLimiter, quietActs, ⟨rfl, rfl, rfl⟩, by decide +kernel, hrun⟩
  exact spent_le_of_inOrder hreach "tenant" "m" (by decide)

/-- **The bucket is rolled back**: call 0 reads day 0, and locks the bucket after call 1 has
rolled it over to day 1; then call 2 starts day 1 once more. Both calls of day 1 are allowed.
-/
theorem rolled_back_at_midnight : ∃ t ∈ (dailyLimiter fun _ => 8).run demoLimiter
        (datedActs 0 4 ++ [.midnight 1] ++ datedActs 1 3 ++ [.advance 0] ++ datedActs 2 3),
      spent t.allowed (bucketKey "tenant" "m") 1 = 10 ∧
        ¬spent t.allowed (bucketKey "tenant" "m") 1 ≤ 8 := by
  decide +kernel

/-!
## The persisted daily quota

`BadgerLimiter` keeps the buckets of `InMemoryLimiter` across restarts. The first call for a
bucket on a day passes a gate, a `sync.Once`, behind which it reads the stored counter and
raises the bucket to it. `Flush` stores the counters. `Reset` flushes, drops all buckets and
then all gates, so that the next call loads the counters again. `SweepIdle` drops the buckets
of earlier days.

The machine `badgerLimiter` is the limiter within one UTC day. Buckets and gates are objects: a call
that has got one keeps it, also when it has been taken out of its map. Each operation on a map, each
locked section and each call of the store is a step, and a restart may follow the end of a flush.

`Remembers` is what the counters are for: a check applies at least what has been accepted that day,
and a flush stores at least what is stored. `SafeStep` excludes four ways to forget:

* a charge between the flush of `Reset` and the deletion of the bucket (`reset_forgets`);
* a `Flush` that meets a bucket which a preload has created and not yet raised, and stores
  zero over the stored counter;
* a call that has got a bucket of an earlier day from the map, and charges it after a sweep has
  found it stale;
* a charge after `Flush` has passed its bucket, before a restart.
-/

open Function

/-- The locked section of a preload: a bucket of today is raised to the stored counter. -/
def DailyBucket.adopt (b : DailyBucket) (today stored : ℤ) : DailyBucket :=
  if b.day = today then { b with used := max b.used stored } else b

/-- A `sync.Once`. -/
inductive Gate
  | fresh
  /-- The process is in the function; others wait. -/
  | running (pid : ℕ)
  | done
  deriving DecidableEq

/-- A call of the limiter, with the limit of its key. -/
structure QuotaCall where
  bucket : String
  tpd : ℤ
  what : TokenCall
  deriving DecidableEq

/-- The operations that a call has made. -/
inductive QuotaStage
  | entered
  /-- `initOnce.LoadOrStore` has returned the gate. -/
  | gated (gate : ℕ)
  /-- It is the first one at the gate. -/
  | preloading (gate : ℕ)
  /-- `GetTokensUsed` has returned a counter that is not zero. -/
  | read (gate : ℕ) (stored : ℤ)
  /-- `Load` has not found the bucket. -/
  | readMissed (gate : ℕ) (stored : ℤ)
  | adopting (gate : ℕ) (stored : ℤ) (bucket : ℕ)
  /-- `ensurePreloaded` has returned. -/
  | preloaded
  /-- `Load` has not found the bucket. -/
  | missed
  /-- `getOrCreateDaily` has returned the bucket. -/
  | located (bucket : ℕ)
  deriving DecidableEq

def QuotaStage.gate : QuotaStage → Option ℕ
  | .preloading g => some g
  | .read g _ => some g
  | .readMissed g _ => some g
  | .adopting g _ _ => some g
  | _ => none

/-- `Range` over the buckets in `Flush`: the keys that it has still to visit, and the bucket that
it is at. -/
inductive FlushStage
  | ranging (todo : Finset String)
  | storing (key : String) (bucket : ℕ) (todo : Finset String)
  deriving DecidableEq

inductive ResetStage
  | flushing (stage : FlushStage)
  /-- The buckets are deleted. -/
  | clearing (todo : Finset String)
  /-- The gates are deleted. -/
  | reopening (todo : Finset String)
  deriving DecidableEq

inductive SweepStage
  | ranging
  | testing (key : String) (bucket : ℕ)
  /-- The bucket was of an earlier day. -/
  | stale (key : String)
  deriving DecidableEq

inductive LimiterProc
  | call (c : QuotaCall) (stage : QuotaStage)
  /-- A flush, with the number of charges at its start. -/
  | flush (since : ℕ) (stage : FlushStage)
  | reset (stage : ResetStage)
  | sweep (stage : SweepStage)
  deriving DecidableEq

/-- `BadgerLimiter`, its store, and the processes that use it. -/
structure BadgerLimiter where
  dailyBuckets : GoMap String ℕ
  buckets : ℕ → DailyBucket
  nextBucket : ℕ
  initOnce : GoMap String ℕ
  gates : ℕ → Gate
  nextGate : ℕ
  store : GoMap String ℤ
  /-- `utcDayIndex` -/
  day : ℤ
  procs : GoMap ℕ LimiterProc
  /-- The sum of the accepted amounts of a bucket. -/
  accepted : String → ℤ
  charges : ℕ
  /-- The flush that the last step has ended, by the number of charges at its start. -/
  flushed : Option ℕ

inductive BadgerAct
  | call (pid : ℕ) (tenantID model : String) (tpd : ℤ) (what : TokenCall)
  | flush (pid : ℕ)
  | reset (pid : ℕ)
  | sweep (pid : ℕ)
  /-- The `Range` of a process visits a key. -/
  | visit (pid : ℕ) (key : String)
  | advance (pid : ℕ)
  /-- The router is started again, right after a flush. -/
  | restart

def BadgerAct.pid : BadgerAct → Option ℕ
  | .call pid .. => some pid
  | .flush pid => some pid
  | .reset pid => some pid
  | .sweep pid => some pid
  | .visit pid _ => some pid
  | .advance pid => some pid
  | .restart => none

def BadgerAct.startsReset : BadgerAct → Bool
  | .reset _ => true
  | _ => false

def BadgerAct.restarts : BadgerAct → Bool
  | .restart => true
  | _ => false

namespace BadgerLimiter

/-- `GetTokensUsed`; a key that is not there counts zero. -/
def stored (s : BadgerLimiter) (key : String) : ℤ := (s.store.lookup key).getD 0

def goOn (s : BadgerLimiter) (pid : ℕ) (p : LimiterProc) : BadgerLimiter :=
  { s with procs := s.procs.insert pid p, flushed := none }

def finish (s : BadgerLimiter) (pid : ℕ) : BadgerLimiter :=
  { s with procs := s.procs.erase pid, flushed := none }

def setGate (s : BadgerLimiter) (g : ℕ) (gate : Gate) : BadgerLimiter :=
  { s with gates := update s.gates g gate }

def setBucket (s : BadgerLimiter) (ref : ℕ) (b : DailyBucket) : BadgerLimiter :=
  { s with buckets := update s.buckets ref b }

def newGate (s : BadgerLimiter) (key : String) : BadgerLimiter :=
  { s with
    initOnce := s.initOnce.insert key s.nextGate
    gates := update s.gates s.nextGate .fresh
    nextGate := s.nextGate + 1 }

def newBucket (s : BadgerLimiter) (key : String) : BadgerLimiter :=
  { s with
    dailyBuckets := s.dailyBuckets.insert key s.nextBucket
    buckets := update s.buckets s.nextBucket ⟨0, s.day⟩
    nextBucket := s.nextBucket + 1 }

/-- `dailyBuckets.LoadOrStore` with a new bucket: the bucket, and the limiter after it. -/
def loadOrStore (s : BadgerLimiter) (key : String) : ℕ × BadgerLimiter :=
  match s.dailyBuckets.lookup key with
  | some ref => (ref, s)
  | none => (s.nextBucket, s.newBucket key)

def locked (s : BadgerLimiter) (c : QuotaCall) (ref : ℕ) : BadgerLimiter :=
  match c.what with
  | .remaining => s.setBucket ref ((s.buckets ref).remainingTokens s.day c.tpd).2
  | .allow n =>
    match (s.buckets ref).allowTokens s.day c.tpd n with
    | (true, _, b) =>
      { s.setBucket ref b with
        accepted := update s.accepted c.bucket (s.accepted c.bucket + n)
        charges := s.charges + 1 }
    | (false, _, b) => s.setBucket ref b

def unlimited (c : QuotaCall) : Bool :=
  decide (c.tpd ≤ 0) ||
    match c.what with
    | .allow n => decide (n ≤ 0)
    | .remaining => false

/-- The next operation of a call; `none` where it waits at the gate. -/
def advanceCall (s : BadgerLimiter) (pid : ℕ) (c : QuotaCall) : QuotaStage → Option BadgerLimiter
  | .entered =>
    match s.initOnce.lookup c.bucket with
    | some g => some (s.goOn pid (.call c (.gated g)))
    | none => some ((s.newGate c.bucket).goOn pid (.call c (.gated s.nextGate)))
  | .gated g =>
    match s.gates g with
    | .fresh => some ((s.setGate g (.running pid)).goOn pid (.call c (.preloading g)))
    | .running _ => none
    | .done => some (s.goOn pid (.call c .preloaded))
  | .preloading g =>
    if s.stored c.bucket = 0 then some ((s.setGate g .done).goOn pid (.call c .preloaded))
    else some (s.goOn pid (.call c (.read g (s.stored c.bucket))))
  | .read g v =>
    match s.dailyBuckets.lookup c.bucket with
    | some ref => some (s.goOn pid (.call c (.adopting g v ref)))
    | none => some (s.goOn pid (.call c (.readMissed g v)))
  | .readMissed g v =>
    let (ref, s) := s.loadOrStore c.bucket
    some (s.goOn pid (.call c (.adopting g v ref)))
  | .adopting g v ref =>
    -- The locked section is the last thing behind the gate.
    some (((s.setBucket ref ((s.buckets ref).adopt s.day v)).setGate g .done).goOn pid
      (.call c .preloaded))
  | .preloaded =>
    if unlimited c then some (s.finish pid)
    else
      match s.dailyBuckets.lookup c.bucket with
      | some ref => some (s.goOn pid (.call c (.located ref)))
      | none => some (s.goOn pid (.call c .missed))
  | .missed =>
    let (ref, s) := s.loadOrStore c.bucket
    some (s.goOn pid (.call c (.located ref)))
  | .located ref => some ((s.locked c ref).finish pid)

/-- The locked section of a flush, with `SetTokensUsed`, which refuses a negative count. -/
def storeBucket (s : BadgerLimiter) (key : String) (ref : ℕ) : BadgerLimiter :=
  { s with
    store :=
      if (s.buckets ref).day = s.day ∧ 0 ≤ (s.buckets ref).used then
        s.store.insert key (s.buckets ref).used
      else s.store }

/-- A key that `Flush` visits: its bucket, or nothing if it has been deleted in the meantime. Keys
that are added during the visit may come up as well. -/
def visitFlush (s : BadgerLimiter) (key : String) : FlushStage → Option FlushStage
  | .ranging todo =>
    match s.dailyBuckets.lookup key with
    | some ref => some (.storing key ref (todo.erase key))
    | none => if key ∈ todo then some (.ranging (todo.erase key)) else none
  | .storing .. => none

def visit (s : BadgerLimiter) (pid : ℕ) (key : String) : LimiterProc → Option BadgerLimiter
  | .call .. => none
  | .flush since stage => (s.visitFlush key stage).map fun stage => s.goOn pid (.flush since stage)
  | .reset (.flushing stage) =>
    (s.visitFlush key stage).map fun stage => s.goOn pid (.reset (.flushing stage))
  | .reset (.clearing todo) =>
    some ({ s with dailyBuckets := s.dailyBuckets.erase key }.goOn pid
      (.reset (.clearing (todo.erase key))))
  | .reset (.reopening todo) =>
    some ({ s with initOnce := s.initOnce.erase key }.goOn pid
      (.reset (.reopening (todo.erase key))))
  | .sweep .ranging =>
    (s.dailyBuckets.lookup key).map fun ref => s.goOn pid (.sweep (.testing key ref))
  | .sweep _ => none

def advance (s : BadgerLimiter) (pid : ℕ) : LimiterProc → Option BadgerLimiter
  | .call c stage => s.advanceCall pid c stage
  | .flush since (.storing key ref todo) =>
    some ((s.storeBucket key ref).goOn pid (.flush since (.ranging todo)))
  | .flush since (.ranging todo) =>
    if todo = ∅ then some { s.finish pid with flushed := some since } else none
  | .reset (.flushing (.storing key ref todo)) =>
    some ((s.storeBucket key ref).goOn pid (.reset (.flushing (.ranging todo))))
  | .reset (.flushing (.ranging todo)) =>
    if todo = ∅ then some (s.goOn pid (.reset (.clearing s.dailyBuckets.keys))) else none
  | .reset (.clearing todo) =>
    if todo = ∅ then some (s.goOn pid (.reset (.reopening s.initOnce.keys))) else none
  | .reset (.reopening todo) => if todo = ∅ then some (s.finish pid) else none
  | .sweep (.testing key ref) =>
    if (s.buckets ref).day = s.day then some (s.goOn pid (.sweep .ranging))
    else some (s.goOn pid (.sweep (.stale key)))
  | .sweep (.stale key) =>
    some ({ s with dailyBuckets := s.dailyBuckets.erase key }.goOn pid (.sweep .ranging))
  -- All gates of the day are kept.
  | .sweep .ranging => some (s.finish pid)

def start (s : BadgerLimiter) (pid : ℕ) (p : LimiterProc) : Option BadgerLimiter :=
  match s.procs.lookup pid with
  | none => some (s.goOn pid p)
  | some _ => none

def step (s : BadgerLimiter) : BadgerAct → Option BadgerLimiter
  | .call pid tenantID model tpd what =>
    s.start pid (.call ⟨bucketKey tenantID model, tpd, what⟩ .entered)
  | .flush pid => s.start pid (.flush s.charges (.ranging s.dailyBuckets.keys))
  | .reset pid => s.start pid (.reset (.flushing (.ranging s.dailyBuckets.keys)))
  | .sweep pid => s.start pid (.sweep .ranging)
  | .visit pid key => (s.procs.lookup pid).bind (s.visit pid key)
  | .advance pid => (s.procs.lookup pid).bind (s.advance pid)
  | .restart =>
    -- What is in memory is gone, and the processes with it.
    s.flushed.map fun _ =>
      { s with dailyBuckets := ∅, initOnce := ∅, procs := ∅, flushed := none }

/-- The limiter at the start of a day: the buckets are of earlier days, and the gates and the
counters of the day are not there. -/
structure Start (s : BadgerLimiter) : Prop where
  lt : ∀ key ref, s.dailyBuckets.lookup key = some ref → ref < s.nextBucket
  inj : ∀ key key' ref, s.dailyBuckets.lookup key = some ref →
    s.dailyBuckets.lookup key' = some ref → key = key'
  day : ∀ key ref, s.dailyBuckets.lookup key = some ref → (s.buckets ref).day ≠ s.day
  initOnce : s.initOnce = ∅
  store : s.store = ∅
  procs : s.procs = ∅
  accepted : s.accepted = fun _ => 0
  flushed : s.flushed = none

end BadgerLimiter

def badgerLimiter : Machine BadgerLimiter BadgerAct where
  Init := BadgerLimiter.Start
  step := BadgerLimiter.step

/-! ### What must not be forgotten -/

namespace LimiterProc

/-- The bucket that the next step of the process checks. -/
def checks : LimiterProc → Option (QuotaCall × ℕ)
  | .call c (.located ref) => some (c, ref)
  | _ => none

/-- The bucket that the next step of the process stores. -/
def stores : LimiterProc → Option (String × ℕ)
  | .flush _ (.storing key ref _) => some (key, ref)
  | .reset (.flushing (.storing key ref _)) => some (key, ref)
  | _ => none

/-- The key that the next step of the process, a sweep, deletes. -/
def sweeps : LimiterProc → Option String
  | .sweep (.stale key) => some key
  | _ => none

/-- The bucket that the process has got from the map. -/
def holds : LimiterProc → Option ℕ
  | .call _ (.adopting _ _ ref) => some ref
  | .call _ (.located ref) => some ref
  | .flush _ (.storing _ ref _) => some ref
  | .reset (.flushing (.storing _ ref _)) => some ref
  | _ => none

def isReset : LimiterProc → Bool
  | .reset _ => true
  | _ => false

end LimiterProc

namespace BadgerLimiter

def advancing (s : BadgerLimiter) : BadgerAct → Option LimiterProc
  | .advance pid => s.procs.lookup pid
  | _ => none

/-- **A check applies at least what has been accepted, and a flush stores at least what is
stored.** -/
structure Remembers (s : BadgerLimiter) (a : BadgerAct) : Prop where
  check : ∀ p ∈ s.advancing a, ∀ l ∈ p.checks,
    s.accepted l.1.bucket ≤ ((s.buckets l.2).rollOver s.day).used
  flush : ∀ p ∈ s.advancing a, ∀ l ∈ p.stores, s.stored l.1 ≤ (s.storeBucket l.1 l.2).stored l.1

def Preloading (s : BadgerLimiter) (key : String) : Prop :=
  ∃ g ∈ s.initOnce.lookup key, s.gates g ≠ .fresh ∧ s.gates g ≠ .done

def Held (s : BadgerLimiter) (ref : ℕ) : Prop :=
  ∃ pid ∈ s.procs.keys, ∃ p ∈ s.procs.lookup pid, p.holds = some ref

/-- **What makes a step safe**: it does nothing that can lose or overflow a count. -/
structure SafeStep (s : BadgerLimiter) (a : BadgerAct) : Prop where
  /-- The sum is a machine integer. -/
  charge : ∀ p ∈ s.advancing a, ∀ l ∈ p.checks, ∀ n ∈ l.1.what.amount,
    Fits64 (((s.buckets l.2).rollOver s.day).used + n)
  /-- A flush does not store a bucket under preload. -/
  flush : ∀ p ∈ s.advancing a, ∀ l ∈ p.stores, ¬s.Preloading l.1
  /-- A sweep deletes a bucket that is still of an earlier day, and that nobody has got. -/
  sweep : ∀ p ∈ s.advancing a, ∀ key ∈ p.sweeps, ∀ ref ∈ s.dailyBuckets.lookup key,
    (s.buckets ref).day ≠ s.day ∧ ¬s.Held ref
  /-- A reset starts alone, -/
  reset : a.startsReset → s.procs = ∅
  /-- and nothing happens beside it. -/
  exclusive : ∀ pid ∈ s.procs.keys, ∀ p ∈ s.procs.lookup pid, p.isReset → a.pid = some pid
  /-- Nothing has been charged since the start of the flush before a restart. -/
  restart : a.restarts → ∀ since ∈ s.flushed, since = s.charges

end BadgerLimiter

/-!
## The tally of a bucket

What the limiter has about one bucket on a day is a `Tally`: the bucket in memory, its gate,
the stored counter and the accepted amount. `Tally.Sound` relates them. Once the gate is done,
the counter in memory is at least the accepted amount and at least the stored counter; before,
the accepted amount is stored. Each operation on a bucket is a lemma about tallies.
-/

open DailyBucket

@[ext]
structure Tally where
  bucket : Option DailyBucket
  gate : Option Gate
  stored : ℤ
  accepted : ℤ

namespace Tally

/-- The counter that a check applies. -/
def used (day : ℤ) (x : Tally) : ℤ := (x.bucket.map fun b => (b.rollOver day).used).getD 0

structure Sound (day : ℤ) (x : Tally) : Prop where
  stored_nonneg : 0 ≤ x.stored
  used_nonneg : 0 ≤ x.used day
  loaded : x.gate = some .done → x.accepted ≤ x.used day ∧ x.stored ≤ x.used day
  unloaded : x.gate ≠ some .done → x.accepted ≤ x.stored
  /-- Nothing is stored of a bucket that has not been used today. -/
  stale : ∀ b ∈ x.bucket, b.day ≠ day → x.stored ≤ 0
  /-- A bucket that has been made before the gate is done has been made behind it. -/
  preloading : x.gate ≠ some .done → ∀ b ∈ x.bucket, b.day = day →
    ∃ pid, x.gate = some (.running pid)

variable {day : ℤ} {x : Tally} {b : DailyBucket}

theorem used_of_none (h : x.bucket = none) : x.used day = 0 := by
  rw [used, h]
  rfl

section

variable (h : x.bucket = some b)

include h

theorem used_of_some : x.used day = (b.rollOver day).used := by
  rw [used, h]
  rfl

theorem used_of_stale (hday : b.day ≠ day) : x.used day = 0 := by
  rw [used_of_some h, rollOver_of_ne hday]

theorem used_of_today (hday : b.day = day) : x.used day = b.used := by
  rw [used_of_some h, rollOver_of_eq hday]

end

theorem used_mk {used : ℤ} (h : x.bucket = some ⟨used, day⟩) : x.used day = used :=
  used_of_today h rfl

namespace Sound

theorem of_loaded (hgate : x.gate = some .done) (hnonneg : 0 ≤ x.stored)
    (haccepted : x.accepted ≤ x.used day) (hstored : x.stored ≤ x.used day) : x.Sound day where
  stored_nonneg := hnonneg
  used_nonneg := le_trans hnonneg hstored
  loaded _ := ⟨haccepted, hstored⟩
  unloaded h := absurd hgate h
  stale _ hb hday := hstored.trans_eq (used_of_stale hb hday)
  preloading h := absurd hgate h

/-- Nothing is in memory, and what has been accepted is stored. -/
theorem of_empty (hbucket : x.bucket = none) (hgate : x.gate = none) (hnonneg : 0 ≤ x.stored)
    (haccepted : x.accepted ≤ x.stored) : x.Sound day where
  stored_nonneg := hnonneg
  used_nonneg := (used_of_none hbucket).ge
  loaded h := by
    rw [hgate] at h
    cases h
  unloaded _ := haccepted
  stale b hb := by
    rw [hbucket] at hb
    cases hb
  preloading _ b hb := by
    rw [hbucket] at hb
    cases hb

variable (h : x.Sound day)

include h

/-- The gate is made, or entered. -/
theorem open_gate (hgate : x.gate ≠ some .done) {g : Gate} (hg : g ≠ .done)
    (hrunning : ∀ pid, x.gate = some (.running pid) → g = .running pid) :
    ({ x with gate := some g } : Tally).Sound day where
  __ := h
  loaded heq := absurd (Option.some.inj heq) hg
  unloaded _ := h.unloaded hgate
  preloading _ b hb hday := by
    obtain ⟨pid, hpid⟩ := h.preloading hgate b hb hday
    exact ⟨pid, congrArg some (hrunning pid hpid)⟩

theorem load (hgate : x.gate ≠ some .done) (hstored : x.stored ≤ x.used day) :
    ({ x with gate := some .done } : Tally).Sound day :=
  of_loaded rfl h.stored_nonneg (le_trans (h.unloaded hgate) hstored) hstored

/-- A new bucket, by a call behind the gate or after it. -/
theorem create (hbucket : x.bucket = none)
    (hgate : x.gate = some .done ∨ ∃ pid, x.gate = some (.running pid)) :
    ({ x with bucket := some ⟨0, day⟩ } : Tally).Sound day := by
  have hused : ({ x with bucket := some ⟨0, day⟩ } : Tally).used day = x.used day := by
    rw [used_of_none hbucket]
    exact used_mk rfl
  refine ⟨h.stored_nonneg, hused.ge.trans' h.used_nonneg, fun hdone => ?_, h.unloaded, ?_, ?_⟩
  · rw [hused]
    exact h.loaded hdone
  · intro b hb hday
    cases hb
    exact absurd rfl hday
  · intro hdone _ _ _
    exact hgate.resolve_left hdone

/-- The counter of a loaded bucket is raised, whether or not the bucket is of today. -/
theorem raise (hgate : x.gate = some .done) {used : ℤ}
    (hused : x.used day ≤ used) :
    ({ x with bucket := some ⟨used, day⟩ } : Tally).Sound day := by
  obtain ⟨haccepted, hstored⟩ := h.loaded hgate
  have heq : ({ x with bucket := some ⟨used, day⟩ } : Tally).used day = used := used_mk rfl
  exact of_loaded hgate h.stored_nonneg (heq.symm ▸ le_trans haccepted hused)
    (heq.symm ▸ le_trans hstored hused)

theorem charge (hgate : x.gate = some .done) {n : ℤ} (hn : 0 < n) :
    ({ x with bucket := some ⟨x.used day + n, day⟩, accepted := x.accepted + n } : Tally).Sound
      day := by
  obtain ⟨haccepted, hstored⟩ := h.loaded hgate
  have heq : ({ x with
      bucket := some ⟨x.used day + n, day⟩, accepted := x.accepted + n } : Tally).used day =
      x.used day + n := used_mk rfl
  refine of_loaded hgate h.stored_nonneg ?_ ?_
  · rw [heq]
    exact Int.add_le_add_right haccepted n
  · rw [heq]
    exact le_trans hstored (Int.le_add_of_nonneg_right (Int.le_of_lt hn))

/-- A preload raises a bucket of today to the stored counter, and leaves one of an earlier day, of
which nothing is stored. -/
theorem adopt (hgate : x.gate ≠ some .done) (hb : x.bucket = some b) :
    ({ x with bucket := some (b.adopt day x.stored), gate := some .done } : Tally).Sound day := by
  have hstored : x.stored ≤ ((b.adopt day x.stored).rollOver day).used := by
    unfold DailyBucket.adopt
    -- a bucket of today takes the larger counter
    split_ifs with hday
    · have hsame : rollOver ⟨max b.used x.stored, b.day⟩ day = _ := rollOver_of_eq hday
      rw [hsame]
      exact le_max_right _ _
    · rw [rollOver_of_ne hday]
      exact h.stale b hb hday
  exact of_loaded rfl h.stored_nonneg (le_trans (h.unloaded hgate) hstored) hstored

/-- The counter of a bucket of today is not below the stored one, unless it is under preload. -/
theorem stored_le (hb : x.bucket = some b) (hday : b.day = day)
    (hrunning : ∀ pid, x.gate ≠ some (.running pid)) :
    x.gate = some .done ∧ x.stored ≤ b.used := by
  have hdone : x.gate = some .done := by
    -- a bucket of today before the gate is done is one that a preload has made
    by_contra hne
    obtain ⟨pid, hpid⟩ := h.preloading hne b hb hday
    exact hrunning pid hpid
  refine ⟨hdone, ?_⟩
  rw [← used_of_today hb hday]
  exact (h.loaded hdone).2

theorem store (hb : x.bucket = some b) (hday : b.day = day)
    (hgate : x.gate = some .done) : ({ x with stored := b.used } : Tally).Sound day := by
  have hused : x.used day = b.used := used_of_today hb hday
  refine of_loaded hgate ?_ (h.loaded hgate).1 hused.ge
  rw [← hused]
  exact h.used_nonneg

theorem delete (hbucket : ∀ b ∈ x.bucket, b.day ≠ day) :
    ({ x with bucket := none } : Tally).Sound day := by
  have hused : x.used day = 0 := by
    cases hb : x.bucket with
    | none => exact used_of_none hb
    | some b => exact used_of_stale hb (hbucket b hb)
  refine ⟨h.stored_nonneg, le_rfl, fun hdone => ?_, h.unloaded, ?_, ?_⟩
  · have hloaded := h.loaded hdone
    rw [hused] at hloaded
    exact hloaded
  · rintro b ⟨⟩
  · rintro _ b ⟨⟩

/-- What has been accepted is stored, where a flush finds nothing to store. -/
theorem covered (hbucket : ∀ b ∈ x.bucket, b.day = day → b.used < 0) : x.accepted ≤ x.stored := by
  -- behind the gate the counter in memory bounds what has been accepted, and it is not positive
  by_cases hdone : x.gate = some .done
  · refine le_trans (h.loaded hdone).1 (le_trans ?_ h.stored_nonneg)
    cases hb : x.bucket with
    | none => exact (used_of_none hb).le
    | some b =>
      by_cases hday : b.day = day
      · rw [used_of_today hb hday]
        exact Int.le_of_lt (hbucket b hb hday)
      · exact (used_of_stale hb hday).le
  · exact h.unloaded hdone

end Sound

end Tally

end HivenetRouter.Auth
