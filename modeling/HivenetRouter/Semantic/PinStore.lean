import HivenetRouter.Framework.Go
import HivenetRouter.Framework.Machine
import Mathlib.Data.List.DropRight

/-!
# The pin store

A `PinStore` caches decisions of the semantic router by task. A shard keeps each entry in three
places: the map by key, the list of the shard, and the list of the entry's owner, both lists
with the most recently used entry first. The code works on pointers, and the model keeps them:
an entry is the number of an object in `entries`, an owner's list that of an object in `lists`,
and the two list elements of an entry are the entry's number in the lists. So
`container/list`'s `Remove` and `MoveToFront`, which do nothing with an element of another
list, are functions of the list and the entry.

The machine `pinStore` takes one call to a store after the other: a call works on one shard
under its lock. The clock is read in the call, and the readings are part of the actions.
-/

namespace HivenetRouter.Semantic

open Function

def defaultPinMax : ℤ := 100000

def defaultPinMaxPerKey : ℤ := 10000

def pinShards : ℕ := 32

def shardThreshold : ℤ := pinShards * 256

/-- `pinEntry`: times in nanoseconds; the zero `deadline` is `none`. -/
structure PinEntry where
  key : String
  owner : String
  model : String
  route : String
  ttl : ℤ
  expires : ℤ
  deadline : Option ℤ
  deriving Inhabited

def PinEntry.expired (e : PinEntry) (now : ℤ) : Bool :=
  e.expires < now || e.deadline.any fun deadline => deadline < now

structure PinShard where
  /-- The entries that have been made, by number. -/
  entries : ℕ → PinEntry
  made : ℕ
  m : GoMap String ℕ
  lru : List ℕ
  /-- The lists of owners that have been made, by number. -/
  lists : ℕ → List ℕ
  listsMade : ℕ
  owners : GoMap String ℕ

/-- `MoveToFront` of `container/list`. -/
def moveToFront (l : List ℕ) (e : ℕ) : List ℕ := if e ∈ l then e :: l.erase e else l

namespace PinShard

/-- A shard as `NewPinStore` makes it. -/
def empty : PinShard where
  entries := fun _ => default
  made := 0
  m := ∅
  lru := []
  lists := fun _ => []
  listsMade := 0
  owners := ∅

/-- `remove` unlinks `e` from every index. -/
def remove (sh : PinShard) (e : ℕ) : PinShard :=
  let owner := (sh.entries e).owner
  let sh := { sh with m := sh.m.erase (sh.entries e).key, lru := sh.lru.erase e }
  match sh.owners.lookup owner with
  | some ol =>
    let sh := { sh with lists := update sh.lists ol ((sh.lists ol).erase e) }
    if (sh.lists ol).length = 0 then { sh with owners := sh.owners.erase owner } else sh
  | none => sh

/-- A loop that removes an entry in every pass. -/
def removeWhile (victim : PinShard → Option ℕ) (fuel : ℕ) (sh : PinShard) : PinShard :=
  Loop.iterate (fun sh => (victim sh).map sh.remove) fuel sh

/-- The entry under a key is removed. -/
def delete (sh : PinShard) (key : String) : PinShard :=
  match sh.m.lookup key with
  | some e => sh.remove e
  | none => sh

/-- The loop of `evictExpiredTail` goes on while there is a last entry that has expired. -/
def expiredTail (now : ℤ) (sh : PinShard) : Option ℕ :=
  sh.lru.getLast?.filter fun e => (sh.entries e).expired now

def evictExpiredTail (sh : PinShard) (now : ℤ) : PinShard :=
  sh.removeWhile (expiredTail now) sh.lru.length

/-- The body of `for len(sh.m) >= s.perShard`. -/
def overCap (perShard : ℤ) (sh : PinShard) : Option ℕ :=
  if perShard ≤ sh.m.keys.card then sh.lru.getLast? else none

/-- The body of `for ol.Len() >= s.perOwnerCap`. -/
def overOwnerCap (perOwnerCap : ℤ) (ol : ℕ) (sh : PinShard) : Option ℕ :=
  if perOwnerCap ≤ (sh.lists ol).length then (sh.lists ol).getLast? else none

/-- The list of the owner, which is made if there is none. -/
def ownerList (sh : PinShard) (owner : String) : PinShard × ℕ :=
  match sh.owners.lookup owner with
  | some ol => (sh, ol)
  | none =>
    ({ sh with
        lists := update sh.lists sh.listsMade []
        listsMade := sh.listsMade + 1
        owners := sh.owners.insert owner sh.listsMade }, sh.listsMade)

/-- The entry is pushed to the front of the shard's list and of the list `ol`. -/
def push (sh : PinShard) (ol : ℕ) (entry : PinEntry) : PinShard :=
  { sh with
    entries := update sh.entries sh.made entry
    made := sh.made + 1
    m := sh.m.insert entry.key sh.made
    lru := sh.made :: sh.lru
    lists := update sh.lists ol (sh.made :: sh.lists ol) }

/-- What `Put` removes first: the entry under the key, the expired tail, and the entries over
the cap of the shard. -/
def makeRoom (sh : PinShard) (perShard : ℤ) (key : String) (now : ℤ) : PinShard :=
  let sh := (sh.delete key).evictExpiredTail now
  sh.removeWhile (overCap perShard) sh.lru.length

/-- The locked section of `Put`. -/
def put (sh : PinShard) (perShard perOwnerCap : ℤ) (key owner model route : String)
    (ttl maxAge now : ℤ) : PinShard :=
  let deadline := if 0 < maxAge then some (now + maxAge) else none
  let sh := sh.makeRoom perShard key now
  -- here `sh.lru.Back()` is nil, and `Put` panics; the lock is released by a `defer`
  if perShard ≤ sh.m.keys.card then sh else
  let (sh, ol) := sh.ownerList owner
  let sh := sh.removeWhile (overOwnerCap perOwnerCap ol) (sh.lists ol).length
  -- and here `ol.Back()` is nil
  if perOwnerCap ≤ (sh.lists ol).length then sh else
  sh.push ol ⟨key, owner, model, route, ttl, now + ttl, deadline⟩

/-- The locked section of `Get`, with the model and the route of a hit. -/
def get (sh : PinShard) (key : String) (now : ℤ) :
    PinShard × Option (String × String) :=
  match sh.m.lookup key with
  | none => (sh, none)
  | some e =>
    let entry := sh.entries e
    if entry.expired now then (sh.remove e, none) else
    let sh := { sh with
      entries := update sh.entries e { entry with expires := now + entry.ttl }
      lru := moveToFront sh.lru e }
    match sh.owners.lookup entry.owner with
    | some ol => ({ sh with lists := update sh.lists ol (moveToFront (sh.lists ol) e) },
        some (entry.model, entry.route))
    -- the element is in a list, so that `MoveToFront` on the nil list returns
    | none => (sh, some (entry.model, entry.route))

end PinShard

/-- `PinStore`, without its seed and its clock. -/
structure PinStore where
  shards : List PinShard
  perShard : ℤ
  perOwnerCap : ℤ

/-- `ceilDiv`, on 64-bit integers. -/
def ceilDiv (a b : ℤ) : ℤ := (wrap64 (wrap64 (a + b) - 1)).tdiv b

def shardCount (max : ℤ) : ℕ := if shardThreshold ≤ max then pinShards else 1

def newPinStore (max maxPerKey : ℤ) : PinStore :=
  let max := if max ≤ 0 then defaultPinMax else max
  let maxPerKey := if maxPerKey ≤ 0 then defaultPinMaxPerKey else maxPerKey
  let n := shardCount max
  { shards := List.replicate n PinShard.empty
    perShard := ceilDiv max n
    perOwnerCap := ceilDiv maxPerKey n }

namespace PinStore

/-- The number of the key's shard; `hash` is `maphash.String` with the store's seed. -/
def shard (hash : String → ℕ) (s : PinStore) (key : String) : ℕ :=
  if s.shards.length = 1 then 0 else hash key % s.shards.length

def put (hash : String → ℕ) (s : PinStore) (key owner model route : String)
    (ttl maxAge now : ℤ) : PinStore :=
  if ttl ≤ 0 then s else
  { s with shards := s.shards.modify (s.shard hash key) fun sh =>
      sh.put s.perShard s.perOwnerCap key owner model route ttl maxAge now }

def get (hash : String → ℕ) (s : PinStore) (key : String) (now : ℤ) :
    PinStore × Option (String × String) :=
  ({ s with shards := s.shards.modify (s.shard hash key) fun sh => (sh.get key now).1 },
    s.shards[s.shard hash key]?.bind fun sh => (sh.get key now).2)

def delete (hash : String → ℕ) (s : PinStore) (key : String) : PinStore :=
  { s with shards := s.shards.modify (s.shard hash key) fun sh => sh.delete key }

def len (s : PinStore) : ℕ := (s.shards.map fun sh => sh.m.keys.card).sum

end PinStore

/-- A call to a store, with the reading of the clock. -/
inductive PinCall where
  | put (key owner model route : String) (ttl maxAge now : ℤ)
  | get (key : String) (now : ℤ)
  | delete (key : String)

/-- One call after the other to a store of `NewPinStore(max, maxPerKey)`. -/
def pinStore (hash : String → ℕ) (max maxPerKey : ℤ) : Machine PinStore PinCall where
  Init s := s = newPinStore max maxPerKey
  step s
    | .put key owner model route ttl maxAge now =>
      some (s.put hash key owner model route ttl maxAge now)
    | .get key now => some (s.get hash key now).1
    | .delete key => some (s.delete hash key)

/-!
## The three indexes of a shard

A shard is **consistent** when its list determines the rest: the map finds the entries of the
list under their keys, and the list of an owner is the part of the shard's list that the owner
has, in the same order (`PinShard.Consistent`). So what the operations on a shard do is said in
terms of its list: a removal erases an entry, a hit moves it to the front, and what `Put`
removes before the owner's turn leaves the entries `PinShard.staying`
(`PinShard.Consistent.left_makeRoom`).

An entry may be pushed when the list that it is pushed to is its owner's (`PinShard.Ready.push`).
`PinStoreInvariant` says when `Put` comes to that.
-/

open Finmap List Option Nat

namespace PinShard

/-- The entries of an owner, most recently used first. -/
def entriesOf (sh : PinShard) (owner : String) : List ℕ :=
  sh.lru.filter fun e => (sh.entries e).owner = owner

/-- The list of the shard determines the other indexes. -/
structure Indexed (sh : PinShard) : Prop where
  nodup : sh.lru.Nodup
  lookup_m : ∀ key e, sh.m.lookup key = some e ↔ e ∈ sh.lru ∧ (sh.entries e).key = key
  owned : ∀ owner ol, sh.owners.lookup owner = some ol → sh.lists ol = sh.entriesOf owner
  unowned : ∀ owner, sh.owners.lookup owner = none → sh.entriesOf owner = []
  lt_made : ∀ e ∈ sh.lru, e < sh.made
  distinct : Distinct sh.owners sh.listsMade

/-- No list of an owner is empty. -/
structure Consistent (sh : PinShard) : Prop extends sh.Indexed where
  ne_nil : ∀ owner ol, sh.owners.lookup owner = some ol → sh.entriesOf owner ≠ []

theorem mem_entriesOf {sh : PinShard} {owner : String} {e : ℕ} :
    e ∈ sh.entriesOf owner ↔ e ∈ sh.lru ∧ (sh.entries e).owner = owner := by
  rw [entriesOf, mem_filter, decide_eq_true_iff]

theorem Consistent.empty : Consistent empty where
  nodup := nodup_nil
  lookup_m _ _ := ⟨nofun, fun h => absurd h.1 not_mem_nil⟩
  owned _ _ := nofun
  unowned _ _ := rfl
  lt_made _ h := absurd h not_mem_nil
  distinct := Distinct.empty 0
  ne_nil _ _ := nofun

namespace Indexed

variable {sh : PinShard}

variable (h : sh.Indexed)

include h

theorem exists_list {e : ℕ} (he : e ∈ sh.lru) :
    ∃ ol, sh.owners.lookup (sh.entries e).owner = some ol := by
  cases hlookup : sh.owners.lookup (sh.entries e).owner with
  | some ol => exact ⟨ol, rfl⟩
  | none =>
    have hmem : e ∈ sh.entriesOf (sh.entries e).owner := mem_entriesOf.mpr ⟨he, rfl⟩
    rw [h.unowned _ hlookup] at hmem
    exact absurd hmem not_mem_nil

theorem map_key_nodup : (sh.lru.map fun e => (sh.entries e).key).Nodup := by
  refine h.nodup.map_on fun e he e' he' hkey => ?_
  have hlookup := (h.lookup_m _ e).mpr ⟨he, rfl⟩
  have hlookup' := (h.lookup_m _ e').mpr ⟨he', hkey.symm⟩
  exact mem_unique hlookup hlookup'

theorem key_inj {e e' : ℕ} (he : e ∈ sh.lru) (he' : e' ∈ sh.lru)
    (hkey : (sh.entries e).key = (sh.entries e').key) : e = e' :=
  inj_on_of_nodup_map h.map_key_nodup he he' hkey

theorem card_keys : sh.m.keys.card = sh.lru.length := by
  have hkeys : sh.m.keys = (sh.lru.map fun e => (sh.entries e).key).toFinset := by
    ext key
    rw [Finmap.mem_keys, ← lookup_isSome, isSome_iff_exists, List.mem_toFinset, List.mem_map]
    exact exists_congr fun e => h.lookup_m key e
  rw [hkeys, toFinset_card_of_nodup h.map_key_nodup, length_map]

end Indexed

/-! ### Removing an entry -/

section Remove

variable (sh : PinShard) (e : ℕ)

/-- A removal changes the map and the list of the shard, and the lists of owners. -/
theorem exists_remove_eq : ∃ lists owners, sh.remove e =
    { sh with m := sh.m.erase (sh.entries e).key, lru := sh.lru.erase e, lists, owners } := by
  unfold remove
  dsimp only
  split
  · split_ifs <;> exact ⟨_, _, rfl⟩
  · exact ⟨_, _, rfl⟩

@[simp] theorem remove_lru : (sh.remove e).lru = sh.lru.erase e := by
  obtain ⟨_, _, h⟩ := sh.exists_remove_eq e
  rw [h]

@[simp] theorem remove_m : (sh.remove e).m = sh.m.erase (sh.entries e).key := by
  obtain ⟨_, _, h⟩ := sh.exists_remove_eq e
  rw [h]

@[simp] theorem remove_entries : (sh.remove e).entries = sh.entries := by
  obtain ⟨_, _, h⟩ := sh.exists_remove_eq e
  rw [h]

@[simp] theorem remove_made : (sh.remove e).made = sh.made := by
  obtain ⟨_, _, h⟩ := sh.exists_remove_eq e
  rw [h]

@[simp] theorem remove_listsMade : (sh.remove e).listsMade = sh.listsMade := by
  obtain ⟨_, _, h⟩ := sh.exists_remove_eq e
  rw [h]

@[simp] theorem remove_entriesOf (owner : String) :
    (sh.remove e).entriesOf owner = (sh.entriesOf owner).erase e := by
  rw [entriesOf, entriesOf, remove_lru, remove_entries, erase_filter]

variable {sh e}

theorem remove_lists {ol : ℕ} (hol : sh.owners.lookup (sh.entries e).owner = some ol) :
    (sh.remove e).lists = update sh.lists ol ((sh.lists ol).erase e) ∧ (sh.remove e).owners =
        if (sh.lists ol).erase e = [] then sh.owners.erase (sh.entries e).owner else sh.owners := by
  unfold remove
  dsimp only
  rw [hol]
  simp only [update_self, length_eq_zero_iff]
  split_ifs <;> exact ⟨rfl, rfl⟩

namespace Indexed

variable {owner : String}

variable (h : sh.Indexed)

include h

variable (he : e ∈ sh.lru)

include he

/-- A list that is in the map after a removal was there before; the owner's own list stays
only if an entry is left. -/
theorem remove_owners {ol : ℕ}
    (hol : (sh.remove e).owners.lookup owner = some ol) :
    sh.owners.lookup owner = some ol ∧ (sh.remove e).lists ol = (sh.entriesOf owner).erase e ∧
      (e ∈ sh.entriesOf owner → (sh.entriesOf owner).erase e ≠ []) := by
  obtain ⟨ol', hol'⟩ := h.exists_list he
  obtain ⟨hlists, howners⟩ := remove_lists hol'
  have hlist' := h.owned _ ol' hol'
  by_cases howner : owner = (sh.entries e).owner
  · subst howner
    rw [howners] at hol
    split_ifs at hol with hempty
    · -- the list was empty, and went
      rw [lookup_erase] at hol
      cases hol
    · obtain rfl := mem_unique hol' hol
      rw [hlists, update_self, hlist']
      rw [hlist'] at hempty
      exact ⟨hol, rfl, fun _ => hempty⟩
  · -- the list of another owner is another list
    have hbefore : sh.owners.lookup owner = some ol := by
      rw [howners] at hol
      split_ifs at hol
      · exact (GoMap.lookup_erase_eq_some.mp hol).2
      · exact hol
    have hne : ol ≠ ol' := by
      rintro rfl
      exact howner (h.distinct.inj _ _ _ hbefore hol')
    have hnot : e ∉ sh.entriesOf owner := fun hmem => howner (mem_entriesOf.mp hmem).2.symm
    rw [hlists, update_of_ne hne, erase_of_not_mem hnot]
    exact ⟨hbefore, h.owned owner ol hbefore, fun hmem => absurd hmem hnot⟩

theorem remove_unowned
    (hnone : (sh.remove e).owners.lookup owner = none) : (sh.entriesOf owner).erase e = [] := by
  obtain ⟨ol, hol⟩ := h.exists_list he
  obtain ⟨-, howners⟩ := remove_lists hol
  rw [howners, h.owned _ ol hol] at hnone
  split_ifs at hnone with hempty
  · by_cases howner : owner = (sh.entries e).owner
    · rw [howner]
      exact hempty
    · rw [lookup_erase_ne howner] at hnone
      rw [h.unowned owner hnone]
      rfl
  · rw [h.unowned owner hnone]
    rfl

theorem remove : (sh.remove e).Indexed where
  nodup := by
    rw [remove_lru]
    exact h.nodup.erase e
  lookup_m key e' := by
    rw [remove_m, remove_lru, remove_entries, GoMap.lookup_erase_eq_some, h.lookup_m,
      h.nodup.mem_erase_iff]
    constructor
    · rintro ⟨hkey, he', rfl⟩
      refine ⟨⟨?_, he'⟩, rfl⟩
      rintro rfl
      exact hkey rfl
    · rintro ⟨⟨hne, he'⟩, rfl⟩
      -- an entry is found under its own key alone
      exact ⟨fun hkey => hne (h.key_inj he' he hkey), he', rfl⟩
  owned owner ol hol := by
    rw [remove_entriesOf]
    exact (h.remove_owners he hol).2.1
  unowned owner hnone := by
    rw [remove_entriesOf]
    exact h.remove_unowned he hnone
  lt_made e' he' := by
    rw [remove_lru] at he'
    rw [remove_made]
    exact h.lt_made e' (mem_of_mem_erase he')
  distinct := by
    obtain ⟨ol, hol⟩ := h.exists_list he
    rw [remove_listsMade, (remove_lists hol).2]
    split_ifs
    · exact h.distinct.erase _
    · exact h.distinct

/-- The list that a removal leaves in the map is not empty, if it was not before. -/
theorem remove_ne_nil {ol : ℕ}
    (hol : (sh.remove e).owners.lookup owner = some ol) (hne : sh.entriesOf owner ≠ []) :
    (sh.remove e).entriesOf owner ≠ [] := by
  rw [remove_entriesOf]
  by_cases hmem : e ∈ sh.entriesOf owner
  · exact (h.remove_owners he hol).2.2 hmem
  · rw [erase_of_not_mem hmem]
    exact hne

end Indexed

namespace Consistent

theorem remove (h : sh.Consistent) (he : e ∈ sh.lru) : (sh.remove e).Consistent where
  toIndexed := h.toIndexed.remove he
  ne_nil owner ol hol := h.remove_ne_nil he hol (h.ne_nil owner ol (h.remove_owners he hol).1)

theorem delete (h : sh.Consistent) (key : String) : (sh.delete key).Consistent := by
  unfold PinShard.delete
  split
  · next e hkey => exact h.remove ((h.lookup_m key e).mp hkey).1
  · exact h

end Consistent

end Remove

/-! ### Taking entries out -/

/-- Entries are only taken out of `sh`. -/
structure Shrunk (sh sh' : PinShard) : Prop where
  entries : sh'.entries = sh.entries
  made : sh'.made = sh.made
  lru : sh'.lru.Sublist sh.lru
  lookup : ∀ {k e}, sh'.m.lookup k = some e → sh.m.lookup k = some e

namespace Shrunk

variable {sh sh' : PinShard}

theorem refl (sh : PinShard) : Shrunk sh sh := ⟨rfl, rfl, List.Sublist.refl _, id⟩

theorem remove (h : Shrunk sh sh') (e : ℕ) : Shrunk sh (sh'.remove e) := by
  refine ⟨(remove_entries ..).trans h.entries, (remove_made ..).trans h.made, ?_, fun hk => ?_⟩
  · rw [remove_lru]
    exact erase_sublist.trans h.lru
  · rw [remove_m] at hk
    exact h.lookup (GoMap.lookup_erase_eq_some.mp hk).2

theorem removeWhile (h : Shrunk sh sh') (victim : PinShard → Option ℕ) (fuel : ℕ) :
    Shrunk sh (sh'.removeWhile victim fuel) := by
  refine Loop.iterate_induction (fun s t hs ht => ?_) fuel h
  obtain ⟨e, -, rfl⟩ := map_eq_some_iff.mp ht
  exact hs.remove e

theorem delete (sh : PinShard) (key : String) : Shrunk sh (sh.delete key) := by
  unfold PinShard.delete
  split
  · exact (refl sh).remove _
  · exact refl sh

theorem makeRoom (sh : PinShard) (perShard : ℤ) (key : String) (now : ℤ) :
    Shrunk sh (sh.makeRoom perShard key now) :=
  ((delete sh key).removeWhile _ _).removeWhile _ _

end Shrunk

/-! ### Making room

The entry under the key goes, then the expired entries at the end of the list, then as many
from the end as the cap of the shard asks for. -/

/-- The entries that `Put` leaves before the owner's turn. -/
def staying (sh : PinShard) (perShard : ℤ) (key : String) (now : ℤ) : List ℕ :=
  ((sh.lru.filter fun e => (sh.entries e).key ≠ key).rdropWhile fun e =>
    (sh.entries e).expired now).take (perShard.toNat - 1)

/-- `sh'` is what is left of `sh` when the entries of `l` stay. -/
structure Left (sh : PinShard) (l : List ℕ) (sh' : PinShard) : Prop where
  consistent : sh'.Consistent
  lru : sh'.lru = l
  entries : sh'.entries = sh.entries

section MakeRoom

variable {sh sh' : PinShard} {l : List ℕ}

theorem Consistent.left (h : sh.Consistent) : Left sh sh.lru sh := ⟨h, rfl, rfl⟩

theorem Left.trans {sh'' : PinShard} {l' : List ℕ} (h : Left sh l sh') (h' : Left sh' l' sh'') :
    Left sh l' sh'' :=
  ⟨h'.consistent, h'.lru, h'.entries.trans h.entries⟩

theorem Consistent.left_delete (h : sh.Consistent) (key : String) :
    Left sh (sh.lru.filter fun e => (sh.entries e).key ≠ key) (sh.delete key) := by
  refine ⟨h.delete key, ?_, (Shrunk.delete sh key).entries⟩
  unfold PinShard.delete
  split
  · next e hkey =>
    obtain ⟨he, rfl⟩ := (h.lookup_m key e).mp hkey
    rw [remove_lru, h.nodup.erase_eq_filter]
    refine filter_congr fun e' he' => ?_
    rw [Bool.eq_iff_iff, bne_iff_ne, decide_eq_true_iff]
    exact not_congr ⟨fun heq => by rw [heq], fun hkey => h.key_inj he' he hkey⟩
  · next hnone =>
    refine (filter_eq_self.mpr fun e he => ?_).symm
    rw [decide_eq_true_iff]
    intro hkey
    rw [(h.lookup_m key e).mpr ⟨he, hkey⟩] at hnone
    cases hnone

theorem Consistent.left_remove_last (h : sh.Consistent) {e : ℕ} (hlru : sh.lru = l ++ [e]) :
    Left sh l (sh.remove e) := by
  have hnodup := h.nodup
  rw [hlru] at hnodup
  have hnot : e ∉ l := fun hmem =>
    (nodup_append.mp hnodup).2.2 e hmem e (mem_singleton_self e) rfl
  refine ⟨h.remove ?_, ?_, remove_entries _ _⟩
  · rw [hlru]
    exact mem_append_right _ (mem_singleton_self e)
  · rw [remove_lru, hlru, erase_append_right _ hnot, erase_cons_head, append_nil]

theorem Consistent.left_removeWhile {victim : PinShard → Option ℕ} (tail : List ℕ → List ℕ)
    (hnil : tail [] = [])
    (hlast : ∀ sh' l e, Left sh (l ++ [e]) sh' → (victim sh' = some e ∧ tail (l ++ [e]) = tail l) ∨
      (victim sh' = none ∧ tail (l ++ [e]) = l ++ [e]))
    (hempty : ∀ sh', Left sh [] sh' → victim sh' = none) (fuel : ℕ) (h : Left sh l sh')
    (hfuel : l.length ≤ fuel) :
    Left sh (tail l) (sh'.removeWhile victim fuel) := by
  unfold removeWhile
  -- each pass removes the last entry that is left, until the victim is none
  induction fuel generalizing sh' l with
  | zero =>
    obtain rfl := length_eq_zero_iff.mp (le_zero.mp hfuel)
    rw [hnil]
    exact h
  | succ fuel ih =>
    obtain rfl | ⟨l, e, rfl⟩ := eq_nil_or_concat' l
    · rw [Loop.iterate_of_none (by rw [hempty sh' h]; rfl), hnil]
      exact h
    · rcases hlast sh' l e h with ⟨hvictim, htail⟩ | ⟨hvictim, htail⟩
      · rw [Loop.iterate_of_some (by rw [hvictim]; rfl), htail]
        rw [length_append, length_singleton] at hfuel
        exact ih (h.trans (h.consistent.left_remove_last h.lru)) (by omega)
      · rw [Loop.iterate_of_none (by rw [hvictim]; rfl), htail]
        exact h

variable (h : sh.Consistent)

include h

theorem Consistent.left_evictExpiredTail (now : ℤ) :
    Left sh (sh.lru.rdropWhile fun e => (sh.entries e).expired now) (sh.evictExpiredTail now) := by
  refine Consistent.left_removeWhile (rdropWhile _) rfl ?_ ?_ _ h.left le_rfl
  · intro sh' l e hleft
    rw [expiredTail, hleft.lru, hleft.entries, getLast?_concat, filter_some]
    by_cases hexpired : (sh.entries e).expired now = true
    · exact .inl ⟨if_pos hexpired, rdropWhile_concat_pos _ _ _ hexpired⟩
    · exact .inr ⟨if_neg hexpired, rdropWhile_concat_neg _ _ _ hexpired⟩
  · intro sh' hleft
    rw [expiredTail, hleft.lru]
    rfl

theorem Consistent.left_evictOver (perShard : ℤ) :
    Left sh (sh.lru.take (perShard.toNat - 1))
      (sh.removeWhile (overCap perShard) sh.lru.length) := by
  refine Consistent.left_removeWhile (take _) take_nil ?_ ?_ _ h.left le_rfl
  · intro sh' l e hleft
    have hlength : sh'.m.keys.card = l.length + 1 := by
      rw [hleft.consistent.card_keys, hleft.lru, length_append, length_singleton]
    rw [overCap, hleft.lru, hlength, getLast?_concat]
    by_cases hcap : perShard ≤ (l.length + 1 : ℕ)
    · refine .inl ⟨if_pos hcap, ?_⟩
      rw [take_append_of_le_length (by omega)]
    · refine .inr ⟨if_neg hcap, take_of_length_le ?_⟩
      rw [length_append, length_singleton]
      omega
  · intro sh' hleft
    rw [overCap, hleft.lru]
    exact ite_self _

theorem Consistent.left_makeRoom (perShard : ℤ) (key : String) (now : ℤ) :
    Left sh (sh.staying perShard key now) (sh.makeRoom perShard key now) := by
  have hdelete := h.left_delete key
  have hexpired := hdelete.consistent.left_evictExpiredTail now
  have hstaying : ((sh.delete key).evictExpiredTail now).lru.take (perShard.toNat - 1) =
      sh.staying perShard key now := by
    rw [hexpired.lru, hdelete.lru, hdelete.entries]
    rfl
  rw [← hstaying]
  exact (hdelete.trans hexpired).trans (hexpired.consistent.left_evictOver perShard)

end MakeRoom

/-! ### Pushing an entry -/

/-- The list `ol` is the owner's, and may be empty. -/
structure Ready (sh : PinShard) (owner : String) (ol : ℕ) : Prop extends sh.Indexed where
  lookup : sh.owners.lookup owner = some ol
  ne_nil : ∀ owner' ol', owner' ≠ owner → sh.owners.lookup owner' = some ol' →
    sh.entriesOf owner' ≠ []

section Push

variable {sh : PinShard} {owner : String}

theorem Consistent.ready_ownerList (h : sh.Consistent) (owner : String) :
    Ready (sh.ownerList owner).1 owner (sh.ownerList owner).2 := by
  cases hlookup : sh.owners.lookup owner with
  | some =>
    rw [ownerList, hlookup]
    exact ⟨h.toIndexed, hlookup, fun owner' ol' _ => h.ne_nil owner' ol'⟩
  | none =>
    rw [ownerList, hlookup]
    -- the lists of the other owners are where they were
    have hold : ∀ owner' ol', owner' ≠ owner →
        (sh.owners.insert owner sh.listsMade).lookup owner' = some ol' →
          sh.owners.lookup owner' = some ol' := by
      intro owner' ol' hne hol'
      exact ((GoMap.lookup_insert_eq_some.mp hol').resolve_left fun h => hne h.1).2
    refine ⟨⟨h.nodup, h.lookup_m, ?_, ?_, h.lt_made, h.distinct.insert owner⟩,
      lookup_insert _, fun owner' ol' hne hol' => h.ne_nil owner' ol' (hold _ _ hne hol')⟩
    · intro owner' ol' hol'
      by_cases hne : owner' = owner
      · -- the new list: the owner had none, and so no entry
        subst hne
        obtain rfl := some.inj ((lookup_insert _).symm.trans hol')
        exact (update_self _ _ _).trans (h.unowned _ hlookup).symm
      · have hlt := h.distinct.lt _ _ (hold owner' ol' hne hol')
        exact (update_of_ne (by omega) _ _).trans (h.owned owner' ol' (hold owner' ol' hne hol'))
    · intro owner' hnone
      by_cases hne : owner' = owner
      · subst hne
        exact h.unowned _ hlookup
      · exact h.unowned owner' (by rwa [← lookup_insert_of_ne _ hne])

@[simp] theorem ownerList_lru (sh : PinShard) (owner : String) :
    (sh.ownerList owner).1.lru = sh.lru := by
  unfold ownerList
  split <;> rfl

@[simp] theorem ownerList_entries (sh : PinShard) (owner : String) :
    (sh.ownerList owner).1.entries = sh.entries := by
  unfold ownerList
  split <;> rfl

theorem push_entries (sh : PinShard) (ol : ℕ) (entry : PinEntry) :
    (sh.push ol entry).entries = update sh.entries sh.made entry := rfl

theorem Indexed.push_entriesOf (h : sh.Indexed) (ol : ℕ) (entry : PinEntry) (owner : String) :
    (sh.push ol entry).entriesOf owner =
      if entry.owner = owner then sh.made :: sh.entriesOf owner else sh.entriesOf owner := by
  have hrest : sh.lru.filter (fun e => ((sh.push ol entry).entries e).owner = owner) =
      sh.entriesOf owner := by
    refine filter_congr fun e he => ?_
    rw [push_entries, update_of_ne (Nat.ne_of_lt (h.lt_made e he))]
  show filter _ (sh.made :: sh.lru) = _
  rw [filter_cons, hrest, push_entries, update_self]
  simp only [decide_eq_true_iff]

namespace Ready

variable {ol : ℕ}

theorem push (h : sh.Ready owner ol) {entry : PinEntry} (howner : entry.owner = owner)
    (hkey : ∀ e ∈ sh.lru, (sh.entries e).key ≠ entry.key) :
    (sh.push ol entry).Consistent := by
  -- the reference of the new entry is above all others
  have hnot : sh.made ∉ sh.lru := fun hmem => lt_irrefl _ (h.lt_made _ hmem)
  have hof : ∀ e ∈ sh.lru, (sh.push ol entry).entries e = sh.entries e := by
    intro e he
    exact update_of_ne (Nat.ne_of_lt (h.lt_made e he)) _ _
  refine ⟨⟨nodup_cons.mpr ⟨hnot, h.nodup⟩, ?_, ?_, ?_, ?_, h.distinct⟩, ?_⟩
  · intro key e
    show (sh.m.insert entry.key sh.made).lookup key = some e ↔
      e ∈ sh.made :: sh.lru ∧ ((sh.push ol entry).entries e).key = key
    by_cases hne : key = entry.key
    · subst hne
      rw [lookup_insert, some_inj]
      constructor
      · rintro rfl
        exact ⟨mem_cons_self, congrArg PinEntry.key (update_self _ _ _)⟩
      · rintro ⟨hmem, hentry⟩
        rcases mem_cons.mp hmem with rfl | hmem
        · rfl
        · -- the entry under the key has been removed before
          rw [hof e hmem] at hentry
          exact absurd hentry (hkey e hmem)
    · rw [lookup_insert_of_ne _ hne, h.lookup_m]
      constructor
      · rintro ⟨hmem, rfl⟩
        exact ⟨mem_cons_of_mem _ hmem, by rw [hof e hmem]⟩
      · rintro ⟨hmem, hentry⟩
        rcases mem_cons.mp hmem with rfl | hmem
        · exact absurd (hentry.symm.trans (congrArg PinEntry.key (update_self _ _ _))) hne
        · rw [hof e hmem] at hentry
          exact ⟨hmem, hentry⟩
  · intro owner' ol' hol'
    rw [h.push_entriesOf, howner]
    show update sh.lists ol (sh.made :: sh.lists ol) ol' = _
    split_ifs with hne
    · subst hne
      obtain rfl := mem_unique h.lookup hol'
      rw [update_self, h.owned _ _ hol']
    · have hol : ol' ≠ ol := by
        rintro rfl
        exact hne (h.distinct.inj _ _ _ h.lookup hol')
      rw [update_of_ne hol, h.owned _ _ hol']
  · intro owner' hnone
    rw [h.push_entriesOf, howner]
    split_ifs with hne
    · subst hne
      exact absurd (h.lookup.symm.trans hnone) nofun
    · exact h.unowned owner' hnone
  · intro e he
    rcases mem_cons.mp he with rfl | he
    · exact lt_succ_self _
    · exact lt_succ_of_lt (h.lt_made e he)
  · intro owner' ol' hol'
    rw [h.push_entriesOf, howner]
    split_ifs with hne
    · exact cons_ne_nil _ _
    · exact h.ne_nil owner' ol' (fun heq => hne heq.symm) hol'

/-- An entry of the owner may go if another one stays. -/
theorem remove (h : sh.Ready owner ol) {e : ℕ} (he : e ∈ sh.lists ol)
    (hlength : 2 ≤ (sh.lists ol).length) : (sh.remove e).Ready owner ol := by
  have hlist := h.owned owner ol h.lookup
  obtain ⟨hmem, howner⟩ := mem_entriesOf.mp (hlist ▸ he)
  have hlookup : sh.owners.lookup (sh.entries e).owner = some ol := howner ▸ h.lookup
  refine ⟨h.toIndexed.remove hmem, ?_, ?_⟩
  · have hne : (sh.lists ol).erase e ≠ [] := by
      intro hnil
      have := length_erase_of_mem he
      rw [hnil, length_nil] at this
      omega
    rw [(remove_lists hlookup).2, if_neg hne]
    exact h.lookup
  · intro owner' ol' hne hol'
    exact h.remove_ne_nil hmem hol' (h.ne_nil owner' ol' hne (h.remove_owners hmem hol').1)

end Ready

end Push

/-! ### The calls -/

structure Inv (perShard perOwnerCap : ℤ) (sh : PinShard) : Prop extends sh.Consistent where
  length_le : sh.lru.length ≤ perShard.toNat
  owner_length_le : ∀ owner, (sh.entriesOf owner).length ≤ perOwnerCap.toNat

theorem Inv.empty (perShard perOwnerCap : ℤ) : Inv perShard perOwnerCap empty :=
  ⟨Consistent.empty, zero_le _, fun _ => zero_le _⟩

section Calls

variable {sh sh' : PinShard} {perShard perOwnerCap : ℤ} {e : ℕ} {l : List ℕ}

section

variable (h : sh.Inv perShard perOwnerCap)

include h

/-- What is left of a shard within its caps is within them. -/
theorem Inv.shrunk (hconsistent : sh'.Consistent) (hshrunk : Shrunk sh sh') :
    sh'.Inv perShard perOwnerCap := by
  refine ⟨hconsistent, hshrunk.lru.length_le.trans h.length_le, fun owner => ?_⟩
  refine le_trans ?_ (h.owner_length_le owner)
  rw [entriesOf, hshrunk.entries]
  exact (hshrunk.lru.filter _).length_le

theorem Inv.remove (he : e ∈ sh.lru) : (sh.remove e).Inv perShard perOwnerCap :=
  h.shrunk (h.toConsistent.remove he) ((Shrunk.refl sh).remove e)

theorem Inv.delete (key : String) : (sh.delete key).Inv perShard perOwnerCap :=
  h.shrunk (h.toConsistent.delete key) (.delete sh key)

theorem Inv.makeRoom (key : String) (now : ℤ) :
    (sh.makeRoom perShard key now).Inv perShard perOwnerCap :=
  h.shrunk (h.left_makeRoom perShard key now).consistent (.makeRoom sh perShard key now)

end

theorem staying_sublist (sh : PinShard) (perShard : ℤ) (key : String) (now : ℤ) :
    (sh.staying perShard key now).Sublist sh.lru :=
  ((take_sublist _ _).trans <| IsPrefix.sublist <| rdropWhile_prefix _ _).trans filter_sublist

theorem perm_moveToFront : (moveToFront l e).Perm l := by
  unfold moveToFront
  split_ifs with he
  · exact (perm_cons_erase he).symm
  · rfl

theorem filter_moveToFront (he : e ∈ l) (p : ℕ → Bool) :
    (moveToFront l e).filter p = if p e then moveToFront (l.filter p) e else l.filter p := by
  rw [moveToFront, if_pos he, filter_cons, ← erase_filter]
  split_ifs with hp
  · rw [moveToFront, if_pos (mem_filter.mpr ⟨he, hp⟩)]
  · exact erase_of_not_mem fun hmem => hp (mem_filter.mp hmem).2

/-- What a hit leaves: a later expiry, and the entry in front of both its lists. -/
def touch (sh : PinShard) (e ol : ℕ) (now : ℤ) : PinShard :=
  { sh with
    entries := update sh.entries e { sh.entries e with expires := now + (sh.entries e).ttl }
    lru := moveToFront sh.lru e
    lists := update sh.lists ol (moveToFront (sh.lists ol) e) }

theorem Consistent.get_cases (h : sh.Consistent) (key : String) (now : ℤ) :
    (sh.get key now).1 = sh ∨ ∃ e ∈ sh.lru, (sh.get key now).1 = sh.remove e ∨
      ∃ ol, sh.owners.lookup (sh.entries e).owner = some ol ∧
        (sh.get key now).1 = sh.touch e ol now := by
  unfold get
  split
  · exact .inl rfl
  · next e hkey =>
    have he := ((h.lookup_m key e).mp hkey).1
    obtain ⟨ol, hol⟩ := h.exists_list he
    refine .inr ⟨e, he, ?_⟩
    dsimp only
    rw [hol]
    split_ifs
    · exact .inl rfl
    · exact .inr ⟨ol, rfl, rfl⟩

theorem touch_entries (sh : PinShard) (e ol : ℕ) (now : ℤ) (e' : ℕ) :
    ((sh.touch e ol now).entries e').key = (sh.entries e').key ∧
      ((sh.touch e ol now).entries e').owner = (sh.entries e').owner := by
  dsimp only [touch]
  rcases eq_or_ne e' e with rfl | he
  · rw [update_self]
    exact ⟨rfl, rfl⟩
  · rw [update_of_ne he]
    exact ⟨rfl, rfl⟩

theorem touch_entriesOf (he : e ∈ sh.lru) (ol : ℕ) (now : ℤ) (owner : String) :
    (sh.touch e ol now).entriesOf owner =
      if (sh.entries e).owner = owner then moveToFront (sh.entriesOf owner) e
      else sh.entriesOf owner := by
  unfold entriesOf
  simp only [(touch_entries ..).2]
  show (moveToFront sh.lru e).filter _ = _
  rw [filter_moveToFront he]
  simp only [decide_eq_true_iff]

theorem touch_entriesOf_perm (he : e ∈ sh.lru) (ol : ℕ) (now : ℤ) (owner : String) :
    ((sh.touch e ol now).entriesOf owner).Perm (sh.entriesOf owner) := by
  rw [touch_entriesOf he]
  split_ifs
  · exact perm_moveToFront
  · exact List.Perm.refl _

theorem Consistent.touch (h : sh.Consistent) {ol : ℕ} (he : e ∈ sh.lru)
    (hol : sh.owners.lookup (sh.entries e).owner = some ol) (now : ℤ) :
    (sh.touch e ol now).Consistent where
  nodup := perm_moveToFront.nodup_iff.mpr h.nodup
  lookup_m key e' := by
    rw [(touch_entries ..).1]
    show sh.m.lookup key = some e' ↔ e' ∈ moveToFront sh.lru e ∧ _
    rw [perm_moveToFront.mem_iff]
    exact h.lookup_m key e'
  owned owner ol' hol' := by
    rw [touch_entriesOf he]
    show update sh.lists ol (moveToFront (sh.lists ol) e) ol' = _
    split_ifs with howner
    · subst howner
      obtain rfl := mem_unique hol hol'
      rw [update_self, h.owned _ _ hol]
    · have hne : ol' ≠ ol := by
        rintro rfl
        exact howner (h.distinct.inj _ _ _ hol hol')
      rw [update_of_ne hne, h.owned _ _ hol']
  unowned owner hnone := by
    refine perm_nil.mp ?_
    rw [← h.unowned owner hnone]
    exact touch_entriesOf_perm he ol now owner
  lt_made e' he' := h.lt_made e' (perm_moveToFront.mem_iff.mp he')
  distinct := h.distinct
  ne_nil owner ol' hol' hnil := by
    refine h.ne_nil owner ol' hol' (perm_nil.mp ?_)
    rw [← hnil]
    exact (touch_entriesOf_perm he ol now owner).symm

theorem Inv.get (h : sh.Inv perShard perOwnerCap) (key : String) (now : ℤ) :
    (sh.get key now).1.Inv perShard perOwnerCap := by
  rcases h.get_cases key now with heq | ⟨e, he, heq | ⟨ol, hol, heq⟩⟩
  · rw [heq]
    exact h
  · rw [heq]
    exact h.remove he
  · rw [heq]
    refine ⟨h.toConsistent.touch he hol now, ?_, fun owner => ?_⟩
    · exact le_of_eq_of_le perm_moveToFront.length_eq h.length_le
    · rw [(touch_entriesOf_perm he ol now owner).length_eq]
      exact h.owner_length_le owner

end Calls

end PinShard

end HivenetRouter.Semantic
