import HivenetRouter.Semantic.PinStoreInvariant

/-!
# Freshness of pins

What `Get` returns is the last decision that was put under the key, and neither its max age nor,
from one hit to the next, its ttl has passed. `TrackedStore` has the history of the keys beside the
store: the last `Put` of each that counts, unless a `Delete` came after it, and the times of the
hits since.

`Get` reads the map of a shard. Only `Put` writes an entry of the map, only a hit changes an entry
that is in it, and all else takes entries out (`PinShard.Shrunk`). So every entry of the map is what
the history says (`PinShard.Holds`), whatever the two lists are.
-/

namespace HivenetRouter.Semantic

open Function List Option PinShard

/-- The last `Put` of a key. -/
structure Pin where
  model : String
  route : String
  ttl : ℤ
  maxAge : ℤ
  time : ℤ
  /-- The times of the `Put` and of the hits since, the last one first. -/
  times : List ℤ

/-- What a call makes of the pin of a key; a `Put` without a ttl is none, and only a hit counts. -/
def PinCall.record (key : String) (hit : Bool) (pin : Option Pin) : PinCall → Option Pin
  | .put k _ model route ttl maxAge now =>
    if k = key ∧ 0 < ttl then some ⟨model, route, ttl, maxAge, now, [now]⟩ else pin
  | .get k now => if k = key ∧ hit then pin.map fun p => { p with times := now :: p.times } else pin
  | .delete k => if k = key then none else pin

def PinStore.hit (hash : String → ℕ) (s : PinStore) : PinCall → Bool
  | .get key now => (s.get hash key now).2.isSome
  | _ => false

/-- A store with the history of its keys. -/
structure TrackedStore where
  store : PinStore
  pins : String → Option Pin

def trackedStore (hash : String → ℕ) (max maxPerKey : ℤ) : Machine TrackedStore PinCall where
  Init s := s.store = newPinStore max maxPerKey ∧ ∀ key, s.pins key = none
  step s a := ((pinStore hash max maxPerKey).step s.store a).map fun store =>
    ⟨store, fun key => a.record key (s.store.hit hash a) (s.pins key)⟩

/-- **A pin that may be returned** at a time: it is not over its max age, and no gap between the
`Put`, the hits since and this time is over its ttl. -/
def Pin.Fresh (p : Pin) (t : ℤ) : Prop :=
  (0 < p.maxAge → t ≤ p.time + p.maxAge) ∧
    (t :: p.times).IsChain fun later earlier => later - earlier ≤ p.ttl

/-- Every read that hits returns what the history says, fresh. -/
def TrackedStore.Fresh (hash : String → ℕ) (s : TrackedStore) : Prop :=
  ∀ key t result, (s.store.get hash key t).2 = some result →
    ∃ p, s.pins key = some p ∧ (p.model, p.route) = result ∧ p.Fresh t

structure PinEntry.Matches (entry : PinEntry) (key : String) (p : Pin) : Prop where
  key : entry.key = key
  model : entry.model = p.model
  route : entry.route = p.route
  ttl : entry.ttl = p.ttl
  deadline : entry.deadline = if 0 < p.maxAge then some (p.time + p.maxAge) else none
  expires : ∀ y ∈ p.times.head?, entry.expires = y + p.ttl
  chain : p.times.IsChain fun later earlier => later - earlier ≤ p.ttl

theorem PinEntry.Matches.fresh {entry : PinEntry} {key : String} {p : Pin} {t : ℤ}
    (h : entry.Matches key p) (ht : entry.expired t = false) : p.Fresh t := by
  obtain ⟨hexpires, hdeadline⟩ := Bool.or_eq_false_iff.mp ht
  have hle := not_lt.mp (of_decide_eq_false hexpires)
  refine ⟨fun hage => ?_, isChain_cons.mpr ⟨fun y hy => ?_, h.chain⟩⟩
  · rw [h.deadline, if_pos hage] at hdeadline
    exact not_lt.mp (of_decide_eq_false hdeadline)
  · rw [h.expires y hy] at hle
    omega

namespace PinShard

variable {sh sh' : PinShard} {key : String} {now : ℤ} {pins pins' : String → Option Pin}
  {P : String → Prop}

theorem Shrunk.ownerList (h : Shrunk sh sh') (owner : String) :
    Shrunk sh (sh'.ownerList owner).1 := by
  unfold PinShard.ownerList
  split
  · exact h
  · exact ⟨h.entries, h.made, h.lru, h.lookup⟩

/-- A read takes at most the entry out, or is a hit, which moves the expiry. -/
theorem get_effect (sh : PinShard) (key : String) (now : ℤ) :
    (sh.get key now).2 = none ∧ Shrunk sh (sh.get key now).1 ∨
      ∃ e, sh.m.lookup key = some e ∧ (sh.entries e).expired now = false ∧
        (sh.get key now).2 = some ((sh.entries e).model, (sh.entries e).route) ∧
        (sh.get key now).1.m = sh.m ∧ (sh.get key now).1.made = sh.made ∧
        (sh.get key now).1.entries =
          update sh.entries e { sh.entries e with expires := now + (sh.entries e).ttl } := by
  unfold get
  split
  · exact .inl ⟨rfl, .refl sh⟩
  · next e he =>
    dsimp only
    split_ifs with hexpired
    · exact .inl ⟨rfl, (Shrunk.refl sh).remove e⟩
    · refine .inr ⟨e, he, Bool.eq_false_iff.mpr hexpired, ?_⟩
      split <;> exact ⟨rfl, rfl, rfl, rfl⟩

/-! ### The map and the history -/

/-- Every entry of the map is what the history says of its key, which is one of this shard. -/
def Holds (sh : PinShard) (pins : String → Option Pin) (P : String → Prop) : Prop :=
  ∀ k e, sh.m.lookup k = some e → P k ∧ e < sh.made ∧ ∃ p, pins k = some p ∧
    (sh.entries e).Matches k p

variable (h : sh.Holds pins P)

include h

theorem Holds.shrunk (hs : Shrunk sh sh')
    (hpins : ∀ k, sh'.m.lookup k ≠ none → pins' k = pins k) : sh'.Holds pins' P := by
  intro k e hk
  obtain ⟨hP, hlt, p, hp, hmatches⟩ := h k e (hs.lookup hk)
  refine ⟨hP, hs.made ▸ hlt, p, ?_, hs.entries ▸ hmatches⟩
  rw [hpins k (by rw [hk]; nofun), hp]

theorem Holds.delete (hpins : ∀ k ≠ key, pins' k = pins k) : (sh.delete key).Holds pins' P := by
  refine h.shrunk (.delete sh key) fun k hk => hpins k ?_
  rintro rfl
  unfold delete at hk
  split at hk
  · next e he =>
    -- the entry is erased under its own key
    obtain ⟨-, -, p, -, hmatches⟩ := h k e he
    rw [remove_m, hmatches.key] at hk
    exact hk (Finmap.lookup_erase ..)
  · exact hk ‹_›

theorem Holds.put (hP : P key) (hpins : ∀ k ≠ key, pins' k = pins k)
    {model route : String} {ttl maxAge : ℤ}
    (hkey : pins' key = some ⟨model, route, ttl, maxAge, now, [now]⟩) (perShard perOwnerCap : ℤ)
    (owner : String) :
    (sh.put perShard perOwnerCap key owner model route ttl maxAge now).Holds pins' P := by
  have hdelete : (sh.delete key).Holds pins' P := h.delete hpins
  have hroom : Shrunk (sh.delete key) (sh.makeRoom perShard key now) :=
    ((Shrunk.refl _).removeWhile _ _).removeWhile _ _
  unfold PinShard.put
  dsimp only
  split
  · exact hdelete.shrunk hroom fun _ _ => rfl
  have howner := hroom.ownerList owner
  generalize (sh.makeRoom perShard key now).ownerList owner = r at howner ⊢
  have hlists := howner.removeWhile (overOwnerCap perOwnerCap r.2) (r.1.lists r.2).length
  have hold : Holds _ pins' P := hdelete.shrunk hlists fun _ _ => rfl
  split
  · exact hold
  -- the new entry is that of the pin, and the others are those before
  intro k e hk
  rw [push_entries]
  rcases GoMap.lookup_insert_eq_some.mp hk with ⟨rfl, rfl⟩ | ⟨-, hk⟩
  · rw [update_self]
    exact ⟨hP, Nat.lt_succ_self _, _, hkey, rfl, rfl, rfl, rfl, rfl, fun y hy => by cases hy; rfl,
      .singleton _⟩
  · obtain ⟨hPk, hlt, hpin⟩ := hold k e hk
    rw [update_of_ne hlt.ne]
    exact ⟨hPk, hlt.trans (Nat.lt_succ_self _), hpin⟩

theorem Holds.get (key : String) (now : ℤ) : (sh.get key now).1.Holds
    (fun k => (PinCall.get key now).record k (sh.get key now).2.isSome (pins k)) P := by
  rcases get_effect sh key now with ⟨hmiss, hshrunk⟩ | ⟨e, he, hexpired, hhit, hm, hmade, hentries⟩
  · refine h.shrunk hshrunk fun k _ => ?_
    rw [hmiss]
    exact if_neg fun hk => nomatch hk.2
  · intro k e' hk
    rw [hm] at hk
    rw [hmade, hentries]
    obtain ⟨hP, hlt, p, hp, hmatches⟩ := h k e' hk
    by_cases hkey : key = k
    · subst hkey
      obtain rfl := mem_unique he hk
      refine ⟨hP, hlt, { p with times := now :: p.times }, ?_, ?_⟩
      · show (if _ then _ else _) = _
        rw [if_pos ⟨rfl, by rw [hhit]; rfl⟩, hp]
        rfl
      · rw [update_self]
        refine ⟨hmatches.key, hmatches.model, hmatches.route, hmatches.ttl, hmatches.deadline, ?_,
          (hmatches.fresh hexpired).2⟩
        rintro y ⟨⟩
        exact congrArg (now + ·) hmatches.ttl
    · refine ⟨hP, hlt, p, (if_neg fun h => hkey h.1).trans hp, ?_⟩
      -- two keys have different entries
      have hne : e' ≠ e := by
        rintro rfl
        obtain ⟨-, -, q, -, hmatches'⟩ := h key e' he
        exact hkey (hmatches'.key.symm.trans hmatches.key)
      rwa [update_of_ne hne]

end PinShard

/-! ### Runs -/

namespace TrackedStore

variable {hash : String → ℕ} {max maxPerKey : ℤ} {s t : TrackedStore} {a : PinCall}

def Inv (hash : String → ℕ) (s : TrackedStore) : Prop :=
  ∀ (i : ℕ) (sh : PinShard), s.store.shards[i]? = some sh →
    sh.Holds s.pins fun key => i = s.store.shard hash key

/-- A call works on the shard of its key, and the history of the other keys stays. -/
theorem Inv.modify (h : s.Inv hash) (key : String) {f : PinShard → PinShard} {pins : String →
    Option Pin}
    (hpins : ∀ k ≠ key, pins k = s.pins k)
    (hf : ∀ sh P, s.store.shards[s.store.shard hash key]? = some sh → P key → sh.Holds s.pins P →
      (f sh).Holds pins P) :
    Inv hash ⟨{ s.store with shards := s.store.shards.modify (s.store.shard hash key) f },
      pins⟩ := by
  intro i sh hi
  -- no call changes the number of shards
  have hshard : ∀ k, PinStore.shard hash
      { s.store with shards := s.store.shards.modify (s.store.shard hash key) f } k =
        s.store.shard hash k := by
    intro k
    unfold PinStore.shard
    rw [length_modify]
  simp only [hshard]
  rw [getElem?_modify] at hi
  obtain ⟨sh₀, hsh₀, rfl⟩ := map_eq_some_iff.mp hi
  split_ifs with heq
  · subst heq
    exact hf sh₀ _ hsh₀ rfl (h _ sh₀ hsh₀)
  · -- the other shards hold none of the keys of this one
    refine (h i sh₀ hsh₀).shrunk (.refl sh₀) fun k hk => hpins k ?_
    rintro rfl
    obtain ⟨e, he⟩ := ne_none_iff_exists'.mp hk
    exact heq (h i sh₀ hsh₀ k e he).1.symm

theorem Inv.step (h : s.Inv hash) (hstep : (trackedStore hash max maxPerKey).step s a = some t) :
    t.Inv hash := by
  obtain ⟨store, hstore, rfl⟩ := map_eq_some_iff.mp hstep
  cases a with
  | put key owner model route ttl maxAge now =>
    cases hstore
    unfold PinStore.put
    split_ifs with httl
    · -- a lifetime that is not positive stores nothing, and the history says so too
      have hsame : (fun k => (PinCall.put key owner model route ttl maxAge now).record k
          (s.store.hit hash (.put key owner model route ttl maxAge now)) (s.pins k)) = s.pins := by
        funext k
        exact if_neg fun hk => httl.not_gt hk.2
      rw [hsame]
      exact h
    · refine h.modify key (fun k hk => if_neg fun h => hk h.1.symm) fun sh P _ hP hsh => ?_
      exact hsh.put hP (fun k hk => if_neg fun h => hk h.1.symm) (if_pos ⟨rfl, not_le.mp httl⟩)
        _ _ _
  | get key now =>
    cases hstore
    refine h.modify key (fun k hk => if_neg fun h => hk h.1.symm) fun sh P hsh _ hholds => ?_
    -- whether the call hits is decided in the shard of the key
    have hhit : s.store.hit hash (.get key now) = (sh.get key now).2.isSome := by
      show (s.store.shards[_]?.bind _).isSome = _
      rw [hsh]
      rfl
    rw [hhit]
    exact hholds.get key now
  | delete key =>
    cases hstore
    exact h.modify key (fun k hk => if_neg hk.symm) fun sh P _ _ hsh =>
      hsh.delete fun k hk => if_neg hk.symm

theorem inv_of_reachable (h : (trackedStore hash max maxPerKey).Reachable s) : s.Inv hash := by
  refine h.induction (fun s hs i sh hi k e hk => ?_) fun _ _ _ hs hstep => hs.step hstep
  rw [hs.1] at hi
  obtain rfl := eq_of_mem_replicate (mem_of_getElem? hi)
  cases hk

end TrackedStore

/-- **Pin freshness**: after any calls, a read that hits returns the last decision that was put
under its key, which is still fresh. -/
theorem pins_fresh (hash : String → ℕ) (max maxPerKey : ℤ) (calls : List PinCall) :
    (trackedStore hash max maxPerKey).Throughout (TrackedStore.Fresh hash)
      ⟨newPinStore max maxPerKey, fun _ => none⟩ calls := by
  intro done s _ hrun key t result hget
  have hinv := TrackedStore.inv_of_reachable ⟨_, done, ⟨rfl, fun _ => rfl⟩, hrun⟩
  obtain ⟨sh, hsh, hget⟩ := bind_eq_some_iff.mp hget
  rcases get_effect sh key t with ⟨hmiss, -⟩ | ⟨e, he, hexpired, hhit, -⟩
  · rw [hmiss] at hget
    cases hget
  · obtain ⟨-, -, p, hp, hmatches⟩ := hinv _ sh hsh key e he
    rw [hhit] at hget
    cases hget
    exact ⟨p, hp, Prod.ext hmatches.model.symm hmatches.route.symm, hmatches.fresh hexpired⟩

end HivenetRouter.Semantic
