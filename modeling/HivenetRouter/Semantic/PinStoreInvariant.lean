import HivenetRouter.Semantic.PinStore
import Mathlib.Algebra.Group.Action.Defs
import Mathlib.Algebra.Order.BigOperators.Group.List

/-!
# The invariant of the pin store

`PinStore.Sound` is what the store promises after every call: in each shard the three indexes
hold the same entries, the shard and each owner are within their caps, and no empty list is
left in the map of owners.

`Put` breaks it in one case (`PinShard.Inv.put_orphan`). With a cap of one entry per owner, the loop
that makes room for an owner that has an entry removes this entry, and with it the owner's list
from the map; the new entry is then pushed to a list that no index holds any more. So the owner
seems to have no entry and may exceed its cap. A sequence of calls keeps the promise exactly
as long as no `Put` meets this case (`soundThroughout_iff`). A cap so large that `ceilDiv`
overflows is the other exception: `Put` then panics after it has put an empty list into the map
(`PinShard.Inv.put_emptyList`).
-/

namespace HivenetRouter.Semantic

open Function List Option Int

namespace PinShard

variable {sh sh' : PinShard} {perShard perOwnerCap : ℤ} {key owner : String} {now : ℤ} {ol e : ℕ}

/-! ### `Put` -/

theorem overOwnerCap_eq_some (h : overOwnerCap perOwnerCap ol sh = some e) :
    perOwnerCap ≤ (sh.lists ol).length ∧ e ∈ sh.lists ol := by
  obtain ⟨hcap, hlast⟩ := ite_none_right_eq_some.mp h
  exact ⟨hcap, mem_of_getLast? hlast⟩

theorem overOwnerCap_eq_none (h : overOwnerCap perOwnerCap ol sh = none) (hcap : 0 < perOwnerCap) :
    (sh.lists ol).length < perOwnerCap := by
  by_contra hge
  rw [overOwnerCap, if_pos (by omega), getLast?_eq_none_iff] at h
  rw [h, length_nil] at hge
  exact hge hcap

theorem lists_remove_length (h : sh.Indexed) (hol : sh.owners.lookup owner = some ol)
    (he : e ∈ sh.lists ol) :
    (sh.remove e).lists ol = (sh.lists ol).erase e ∧
      ((sh.remove e).lists ol).length < (sh.lists ol).length := by
  obtain ⟨-, howner⟩ := mem_entriesOf.mp (h.owned owner ol hol ▸ he)
  have hlists : (sh.remove e).lists ol = (sh.lists ol).erase e := by
    rw [(remove_lists (howner ▸ hol)).1, update_self]
  refine ⟨hlists, ?_⟩
  have := length_pos_of_mem he
  rw [hlists, length_erase_of_mem he]
  omega

/-- With room for two entries the owner keeps its list while room is made for it. -/
theorem Ready.evictOwner (h : sh.Ready owner ol) (hcap : 2 ≤ perOwnerCap) {fuel : ℕ}
    (hfuel : (sh.lists ol).length ≤ fuel) :
    let sh' := sh.removeWhile (overOwnerCap perOwnerCap ol) fuel
    sh'.Ready owner ol ∧ Shrunk sh sh' ∧ (sh'.lists ol).length < perOwnerCap := by
  have hpass : ∀ sh₁ sh₂ : PinShard, sh₁.Ready owner ol →
      (overOwnerCap perOwnerCap ol sh₁).map sh₁.remove = some sh₂ →
      sh₂.Ready owner ol ∧ (sh₂.lists ol).length < (sh₁.lists ol).length := by
    intro sh₁ sh₂ hready hnext
    obtain ⟨e, hvictim, rfl⟩ := map_eq_some_iff.mp hnext
    obtain ⟨hlength, he⟩ := overOwnerCap_eq_some hvictim
    exact ⟨hready.remove he (by omega), (lists_remove_length hready.toIndexed hready.lookup he).2⟩
  have hready := Loop.iterate_induction (fun sh₁ sh₂ h₁ hnext => (hpass sh₁ sh₂ h₁ hnext).1) fuel h
  have hdone := Loop.next_iterate (fun sh : PinShard => (sh.lists ol).length) hpass h hfuel
  exact ⟨hready, (Shrunk.refl sh).removeWhile _ fuel,
    overOwnerCap_eq_none (map_eq_none_iff.mp hdone) (by omega)⟩

/-- `Put` comes to the owner's turn when the shard can hold an entry. -/
theorem Consistent.put_eq (h : sh.Consistent) (hcap : 0 < perShard) (model route : String)
    (ttl maxAge : ℤ) :
    sh.put perShard perOwnerCap key owner model route ttl maxAge now =
      let ready := (sh.makeRoom perShard key now).ownerList owner
      let sh' := ready.1.removeWhile (overOwnerCap perOwnerCap ready.2)
        (ready.1.lists ready.2).length
      if perOwnerCap ≤ (sh'.lists ready.2).length then sh' else
        sh'.push ready.2 ⟨key, owner, model, route, ttl, now + ttl,
          if 0 < maxAge then some (now + maxAge) else none⟩ := by
  have hleft := h.left_makeRoom perShard key now
  have hlength : ((sh.makeRoom perShard key now).m.keys.card : ℤ) < perShard := by
    have hle : (sh.staying perShard key now).length ≤ perShard.toNat - 1 := length_take_le _ _
    rw [hleft.consistent.card_keys, hleft.lru]
    omega
  unfold put
  rw [if_neg (by omega)]

/-- No room is made in a shard that can hold nothing, and `Put` panics. -/
theorem Inv.put_of_nonpos (h : sh.Inv perShard perOwnerCap) (hcap : perShard ≤ 0)
    (model route : String) (ttl maxAge : ℤ) :
    (sh.put perShard perOwnerCap key owner model route ttl maxAge now).Inv
      perShard perOwnerCap := by
  unfold put
  rw [if_pos (by omega)]
  exact h.makeRoom key now

/-- The owner has room for an entry besides those that stay, or has none of those. -/
def Roomy (sh : PinShard) (perShard perOwnerCap : ℤ) (key owner : String) (now : ℤ) : Prop :=
  2 ≤ perOwnerCap ∨
    perOwnerCap = 1 ∧ ∀ e ∈ sh.staying perShard key now, (sh.entries e).owner ≠ owner

instance (sh : PinShard) (perShard perOwnerCap : ℤ) (key owner : String) (now : ℤ) :
    Decidable (sh.Roomy perShard perOwnerCap key owner now) :=
  inferInstanceAs (Decidable (_ ∨ _ ∧ _))

/-- The list of the owner when its turn comes: its entries among those that stay. -/
theorem Consistent.lists_ownerList (h : sh.Consistent) (perShard : ℤ) (key owner : String)
    (now : ℤ) :
    let ready := (sh.makeRoom perShard key now).ownerList owner
    ready.1.lists ready.2 =
      (sh.staying perShard key now).filter fun e => (sh.entries e).owner = owner := by
  have hleft := h.left_makeRoom perShard key now
  have hready := hleft.consistent.ready_ownerList owner
  dsimp only
  rw [hready.owned _ _ hready.lookup, entriesOf, ownerList_lru, ownerList_entries, hleft.lru,
    hleft.entries]

/-- Room is made for the owner without its list leaving the map. -/
theorem Inv.ready_evictOwner (h : sh.Inv perShard perOwnerCap)
    (hroomy : sh.Roomy perShard perOwnerCap key owner now) :
    let ready := (sh.makeRoom perShard key now).ownerList owner
    let sh' := ready.1.removeWhile (overOwnerCap perOwnerCap ready.2) (ready.1.lists ready.2).length
    sh'.Ready owner ready.2 ∧ sh'.lru.Sublist (sh.staying perShard key now) ∧
      sh'.entries = sh.entries ∧ (sh'.lists ready.2).length < perOwnerCap := by
  have hleft := h.left_makeRoom perShard key now
  have hready := hleft.consistent.ready_ownerList owner
  have hlists := h.lists_ownerList perShard key owner now
  intro ready
  rcases hroomy with hcap | ⟨hcap, hnone⟩
  · -- the cap leaves the owner an entry, so that its list is never emptied
    obtain ⟨hready', ⟨hentries, -, hsub, -⟩, hlength⟩ := hready.evictOwner hcap le_rfl
    rw [ownerList_lru, hleft.lru] at hsub
    rw [ownerList_entries, hleft.entries] at hentries
    exact ⟨hready', hsub, hentries, hlength⟩
  · -- the owner has no entry among those that stay, and the loop does nothing
    have hnil : ready.1.lists ready.2 = [] := by
      refine hlists.trans (filter_eq_nil_iff.mpr fun e he => ?_)
      rw [decide_eq_true_iff]
      exact hnone e he
    rw [hnil]
    refine ⟨hready, ?_, ?_, ?_⟩
    · show ready.1.lru.Sublist _
      rw [ownerList_lru, hleft.lru]
    · show ready.1.entries = _
      rw [ownerList_entries, hleft.entries]
    · show ((ready.1.lists ready.2).length : ℤ) < perOwnerCap
      rw [hnil, hcap]
      exact Int.zero_lt_one

theorem Ready.inv_push (h : sh.Ready owner ol) {entry : PinEntry} (howner : entry.owner = owner)
    (hkey : ∀ e ∈ sh.lru, (sh.entries e).key ≠ entry.key)
    (hlength : sh.lru.length < perShard.toNat) (hlist : (sh.lists ol).length < perOwnerCap)
    (howners : ∀ owner, (sh.entriesOf owner).length ≤ perOwnerCap.toNat) :
    (sh.push ol entry).Inv perShard perOwnerCap := by
  refine ⟨h.push howner hkey, hlength, fun owner' => ?_⟩
  rw [h.push_entriesOf, howner]
  split_ifs with heq
  · rw [← heq, length_cons, ← h.owned _ _ h.lookup]
    omega
  · exact howners owner'

theorem Inv.put (h : sh.Inv perShard perOwnerCap)
    (hroomy : 0 < perShard → sh.Roomy perShard perOwnerCap key owner now)
    (model route : String) (ttl maxAge : ℤ) :
    (sh.put perShard perOwnerCap key owner model route ttl maxAge now).Inv
      perShard perOwnerCap := by
  rcases lt_or_ge 0 perShard with hcap | hcap
  · obtain ⟨hready, hsub, hentries, hlength⟩ := h.ready_evictOwner (hroomy hcap)
    rw [h.put_eq hcap]
    dsimp only
    rw [if_neg (by omega)]
    have hroom : (sh.staying perShard key now).length ≤ perShard.toNat - 1 := length_take_le _ _
    refine hready.inv_push rfl ?_ ?_ hlength fun owner' => ?_
    · -- the entry under the key was the first to go
      intro e he
      have hmem : e ∈ sh.lru.filter fun e => (sh.entries e).key ≠ key :=
        IsPrefix.mem (mem_of_mem_take (hsub.mem he)) <| rdropWhile_prefix _ _
      rw [hentries]
      exact of_decide_eq_true (mem_filter.mp hmem).2
    · have := hsub.length_le
      omega
    · -- an owner has no more entries than before, but for the new one
      refine le_trans (List.Sublist.length_le ?_) (h.owner_length_le owner')
      rw [entriesOf, hentries]
      exact (hsub.trans (sh.staying_sublist perShard key now)).filter _
  · exact h.put_of_nonpos hcap model route ttl maxAge

/-! ### What the store promises -/

/-- The keys of the owner's entries. -/
def heldBy (sh : PinShard) (owner : String) : Finset String :=
  sh.m.keys.filter fun key => ∃ e ∈ sh.m.lookup key, (sh.entries e).owner = owner

/-- The indexes hold the same entries, each once; the shard has at most `cap` entries, and an
owner at most `ownerCap`; no list in the map of owners is empty. -/
structure Sound (cap ownerCap : ℤ) (sh : PinShard) : Prop where
  mem_lru : ∀ e, (∃ key, sh.m.lookup key = some e) ↔ e ∈ sh.lru
  mem_owners : ∀ e, (∃ key, sh.m.lookup key = some e) ↔
    ∃ owner ol, sh.owners.lookup owner = some ol ∧ e ∈ sh.lists ol
  lru_nodup : sh.lru.Nodup
  list_nodup : ∀ owner ol, sh.owners.lookup owner = some ol → (sh.lists ol).Nodup
  list_owner : ∀ owner ol, sh.owners.lookup owner = some ol →
    ∀ e ∈ sh.lists ol, (sh.entries e).owner = owner
  card_le : (sh.m.keys.card : ℤ) ≤ cap
  owner_card_le : ∀ owner, ((sh.heldBy owner).card : ℤ) ≤ ownerCap
  list_ne_nil : ∀ owner ol, sh.owners.lookup owner = some ol → sh.lists ol ≠ []

theorem Indexed.mem_map (h : sh.Indexed) : (∃ key, sh.m.lookup key = some e) ↔ e ∈ sh.lru := by
  constructor
  · rintro ⟨key, hkey⟩
    exact ((h.lookup_m key e).mp hkey).1
  · exact fun he => ⟨_, (h.lookup_m _ e).mpr ⟨he, rfl⟩⟩

theorem Indexed.card_heldBy_le (h : sh.Indexed) (owner : String) :
    (sh.heldBy owner).card ≤ (sh.entriesOf owner).length := by
  have hsub :
      sh.heldBy owner ⊆ ((sh.entriesOf owner).map fun e => (sh.entries e).key).toFinset := by
    intro key hkey
    obtain ⟨-, e, he, howner⟩ := Finset.mem_filter.mp hkey
    obtain ⟨hmem, rfl⟩ := (h.lookup_m key e).mp he
    exact mem_toFinset.mpr (mem_map_of_mem (mem_entriesOf.mpr ⟨hmem, howner⟩))
  calc (sh.heldBy owner).card
      ≤ ((sh.entriesOf owner).map fun e => (sh.entries e).key).toFinset.card :=
        Finset.card_le_card hsub
    _ ≤ ((sh.entriesOf owner).map fun e => (sh.entries e).key).length := toFinset_card_le _
    _ = (sh.entriesOf owner).length := length_map _

variable {cap ownerCap : ℤ}

theorem Inv.sound (h : sh.Inv perShard perOwnerCap) (hcap : perShard.toNat ≤ cap)
    (hownerCap : perOwnerCap.toNat ≤ ownerCap) :
    sh.Sound cap ownerCap where
  mem_lru _ := h.mem_map
  mem_owners e := by
    rw [h.mem_map]
    constructor
    · intro he
      obtain ⟨ol, hol⟩ := h.exists_list he
      exact ⟨_, ol, hol, h.owned _ ol hol ▸ mem_entriesOf.mpr ⟨he, rfl⟩⟩
    · rintro ⟨owner, ol, hol, he⟩
      rw [h.owned owner ol hol] at he
      exact (mem_entriesOf.mp he).1
  lru_nodup := h.nodup
  list_nodup owner ol hol := by
    rw [h.owned owner ol hol]
    exact h.nodup.filter _
  list_owner owner ol hol e he := by
    rw [h.owned owner ol hol] at he
    exact (mem_entriesOf.mp he).2
  card_le := by
    have := h.length_le
    rw [h.card_keys]
    omega
  owner_card_le owner := by
    have hle := h.card_heldBy_le owner
    have := h.owner_length_le owner
    omega
  list_ne_nil owner ol hol := by
    rw [h.owned owner ol hol]
    exact h.ne_nil owner ol hol

/-- With a cap of one, the loop goes on until the owner's list is empty. -/
theorem Consistent.evictOwner_one (h : sh.Consistent) (hol : sh.owners.lookup owner = some ol) :
    let sh' := sh.removeWhile (overOwnerCap 1 ol) (sh.lists ol).length
    sh'.Consistent ∧ sh'.lists ol = [] := by
  -- a pass that empties the list takes it from the map
  have hpass : ∀ sh₁ sh₂ : PinShard,
      (sh₁.Consistent ∧ (sh₁.owners.lookup owner = some ol ∨ sh₁.lists ol = [])) →
      (overOwnerCap 1 ol sh₁).map sh₁.remove = some sh₂ →
      (sh₂.Consistent ∧ (sh₂.owners.lookup owner = some ol ∨ sh₂.lists ol = [])) ∧
        (sh₂.lists ol).length < (sh₁.lists ol).length := by
    rintro sh₁ sh₂ ⟨hconsistent, hlist⟩ hnext
    obtain ⟨e, hvictim, rfl⟩ := map_eq_some_iff.mp hnext
    have he := (overOwnerCap_eq_some hvictim).2
    have hol : sh₁.owners.lookup owner = some ol := by
      refine hlist.resolve_right fun hnil => ?_
      rw [hnil] at he
      exact not_mem_nil he
    obtain ⟨hlru, howner⟩ := mem_entriesOf.mp (hconsistent.owned owner ol hol ▸ he)
    obtain ⟨hlists, hlt⟩ := lists_remove_length hconsistent.toIndexed hol he
    refine ⟨⟨hconsistent.remove hlru, ?_⟩, hlt⟩
    rw [hlists, (remove_lists (howner ▸ hol)).2]
    split_ifs with hnil
    · exact .inr hnil
    · exact .inl hol
  have hinit : sh.Consistent ∧ (sh.owners.lookup owner = some ol ∨ sh.lists ol = []) :=
    ⟨h, .inl hol⟩
  have hdone := Loop.next_iterate (fun sh : PinShard => (sh.lists ol).length) hpass hinit le_rfl
  obtain ⟨hconsistent, -⟩ := Loop.iterate_induction
    (fun sh₁ sh₂ h₁ hnext => (hpass sh₁ sh₂ h₁ hnext).1) (sh.lists ol).length hinit
  have hlength := overOwnerCap_eq_none (map_eq_none_iff.mp hdone) Int.zero_lt_one
  refine ⟨hconsistent, eq_nil_of_length_eq_zero ?_⟩
  unfold removeWhile
  omega

/-- An entry that is pushed to an empty list is in no owner's: a list in the map is not empty. -/
theorem Consistent.not_sound_push (h : sh.Consistent) (hnil : sh.lists ol = []) (entry : PinEntry)
    (cap ownerCap : ℤ) : ¬(sh.push ol entry).Sound cap ownerCap := by
  intro hsound
  obtain ⟨owner, ol', hol', hmem⟩ :=
    (hsound.mem_owners sh.made).mp ⟨entry.key, Finmap.lookup_insert _⟩
  replace hol' : sh.owners.lookup owner = some ol' := hol'
  have hlist := h.owned owner ol' hol'
  have hne : ol' ≠ ol := by
    rintro rfl
    exact h.ne_nil owner ol' hol' (hlist.symm.trans hnil)
  have hlists : (sh.push ol entry).lists ol' = sh.lists ol' := update_of_ne hne _ _
  rw [hlists, hlist] at hmem
  exact Nat.lt_irrefl _ (h.lt_made _ (mem_entriesOf.mp hmem).1)

/-- With a cap of one, an owner that has an entry loses its list before the push: the new
entry is in no owner's list. -/
theorem Inv.put_orphan (h : sh.Inv perShard 1) (hcap : 0 < perShard)
    (he : e ∈ sh.staying perShard key now) (howner : (sh.entries e).owner = owner)
    (model route : String) (ttl maxAge cap ownerCap : ℤ) :
    ¬(sh.put perShard 1 key owner model route ttl maxAge now).Sound cap ownerCap := by
  have hleft := h.left_makeRoom perShard key now
  -- the owner has a list, since its entry stays
  obtain ⟨ol, hol⟩ : ∃ ol, (sh.makeRoom perShard key now).owners.lookup owner = some ol := by
    rw [← howner, ← hleft.entries]
    exact hleft.consistent.exists_list (hleft.lru ▸ he)
  have hready : (sh.makeRoom perShard key now).ownerList owner =
      (sh.makeRoom perShard key now, ol) := by
    rw [ownerList, hol]
  obtain ⟨hconsistent, hnil⟩ := hleft.consistent.evictOwner_one hol
  rw [h.put_eq hcap, hready]
  dsimp only
  rw [hnil, if_neg (by decide)]
  exact hconsistent.not_sound_push hnil _ cap ownerCap

variable (h : sh.Inv perShard perOwnerCap)

include h

/-- With a cap that is not positive, `Put` panics after it has made a list for the owner. -/
theorem Inv.put_emptyList (hcap : 0 < perShard)
    (hownerCap : perOwnerCap ≤ 0) (model route : String) (ttl maxAge cap ownerCap : ℤ) :
    ¬(sh.put perShard perOwnerCap key owner model route ttl maxAge now).Sound cap ownerCap := by
  have hready := (h.left_makeRoom perShard key now).consistent.ready_ownerList owner
  have hnil : ((sh.makeRoom perShard key now).ownerList owner).1.lists
      ((sh.makeRoom perShard key now).ownerList owner).2 = [] := by
    have hlength := (h.makeRoom key now).owner_length_le owner
    rw [hready.owned _ _ hready.lookup, entriesOf, ownerList_lru, ownerList_entries, ← entriesOf]
    exact eq_nil_of_length_eq_zero (by omega)
  have hput : sh.put perShard perOwnerCap key owner model route ttl maxAge now =
      ((sh.makeRoom perShard key now).ownerList owner).1 := by
    rw [h.put_eq hcap]
    dsimp only
    rw [hnil]
    exact if_pos (by omega)
  rw [hput]
  intro hsound
  exact hsound.list_ne_nil owner _ hready.lookup hnil

/-- `Put` keeps what the shard promises exactly when there is room for the owner. -/
theorem Inv.roomy_of_sound (hcap : 0 < perShard)
    {model route : String} {ttl maxAge : ℤ}
    (hsound : (sh.put perShard perOwnerCap key owner model route ttl maxAge now).Sound cap
      ownerCap) :
    sh.Roomy perShard perOwnerCap key owner now := by
  by_contra hroomy
  obtain ⟨htwo, hone⟩ := not_or.mp hroomy
  rcases lt_or_ge 0 perOwnerCap with hpos | hnonpos
  · obtain rfl : perOwnerCap = 1 := by omega
    rw [and_iff_right rfl] at hone
    push Not at hone
    obtain ⟨e, he, howner⟩ := hone
    exact h.put_orphan hcap he howner model route ttl maxAge cap ownerCap hsound
  · exact h.put_emptyList hcap hnonpos model route ttl maxAge cap ownerCap hsound

end PinShard

/-- The caps are not larger than their exact values: an overflow makes them negative. -/
theorem toNat_ceilDiv_le {a b : ℤ} (ha : 0 < a) (hb : 0 < b) :
    ((ceilDiv a b).toNat : ℤ) ≤ (a + b - 1) / b := by
  have hwrap : wrap64 (wrap64 (a + b) - 1) = wrap64 (a + b - 1) := by
    unfold wrap64
    rw [bmod_sub_bmod]
  have hle : wrap64 (a + b - 1) ≤ a + b - 1 := wrap64_le (by omega)
  have hnonneg : 0 ≤ (a + b - 1) / b := ediv_nonneg (by omega) (by omega)
  rw [ceilDiv, hwrap]
  rcases le_or_gt 0 (wrap64 (a + b - 1)) with hpos | hneg
  · rw [tdiv_eq_ediv_of_nonneg hpos, toNat_of_nonneg (ediv_nonneg hpos (by omega))]
    exact Int.ediv_le_ediv hb hle
  · have hdiv : (wrap64 (a + b - 1)).tdiv b ≤ 0 := by
      rw [← Int.neg_neg (wrap64 (a + b - 1)), Int.neg_tdiv]
      exact neg_nonpos_of_nonneg (Int.tdiv_nonneg (by omega) (by omega))
    rw [toNat_of_nonpos hdiv]
    exact hnonneg

namespace PinStore

variable {hash : String → ℕ} {max maxPerKey : ℤ} {s : PinStore}

/-- Every shard keeps its promise, with the exact caps, and the store has fewer than
`max + n` entries. -/
structure Sound (max maxPerKey : ℤ) (s : PinStore) : Prop where
  shards : ∀ sh ∈ s.shards, sh.Sound ((max + shardCount max - 1) / shardCount max)
    ((maxPerKey + shardCount max - 1) / shardCount max)
  len_lt : s.len < max + shardCount max

/-- A `Put` that makes an entry finds room for its owner. -/
def Roomy (hash : String → ℕ) (s : PinStore) : PinCall → Prop
  | .put key owner _ _ ttl _ now => 0 < ttl → 0 < s.perShard →
    ∀ sh ∈ s.shards[s.shard hash key]?, sh.Roomy s.perShard s.perOwnerCap key owner now
  | .get _ _ | .delete _ => True

instance (hash : String → ℕ) (s : PinStore) (a : PinCall) : Decidable (s.Roomy hash a) := by
  unfold Roomy
  split <;> infer_instance

/-- The shards keep their invariant. -/
structure Inv (max maxPerKey : ℤ) (s : PinStore) : Prop where
  length : s.shards.length = shardCount max
  perShard : s.perShard = ceilDiv max (shardCount max)
  perOwnerCap : s.perOwnerCap = ceilDiv maxPerKey (shardCount max)
  shards : ∀ sh ∈ s.shards, sh.Inv s.perShard s.perOwnerCap

theorem shardCount_pos (max : ℤ) : 0 < shardCount max := by
  unfold shardCount
  split_ifs
  all_goals decide

theorem Inv.new (hmax : 0 < max) (hmaxPerKey : 0 < maxPerKey) :
    (newPinStore max maxPerKey).Inv max maxPerKey := by
  unfold newPinStore
  rw [if_neg (by omega), if_neg (by omega)]
  refine ⟨length_replicate, rfl, rfl, fun sh hsh => ?_⟩
  rw [eq_of_mem_replicate hsh]
  exact PinShard.Inv.empty _ _

variable (h : s.Inv max maxPerKey)

include h

theorem Inv.len_lt (hmax : 0 < max) : s.len < max + shardCount max := by
  have hpos := shardCount_pos max
  have hcap := toNat_ceilDiv_le hmax (b := shardCount max) (by omega)
  have hsum : s.len ≤ s.shards.length * s.perShard.toNat := by
    have hle := sum_le_card_nsmul (s.shards.map fun sh => sh.m.keys.card) s.perShard.toNat ?_
    · rwa [length_map, smul_eq_mul] at hle
    · intro k hk
      obtain ⟨sh, hsh, rfl⟩ := mem_map.mp hk
      rw [(h.shards sh hsh).card_keys]
      exact (h.shards sh hsh).length_le
  rw [h.length, h.perShard] at hsum
  have hmul : shardCount max * ((max + shardCount max - 1) / shardCount max) ≤
      max + shardCount max - 1 := mul_ediv_self_le (by omega)
  have hmono := Int.mul_le_mul_of_nonneg_left hcap (natCast_nonneg (shardCount max))
  have hcast : (s.len : ℤ) ≤ shardCount max * (ceilDiv max (shardCount max)).toNat := by
    exact_mod_cast hsum
  omega

theorem Inv.sound (hmax : 0 < max) (hmaxPerKey : 0 < maxPerKey) : s.Sound max maxPerKey := by
  have hpos := shardCount_pos max
  refine ⟨fun sh hsh => (h.shards sh hsh).sound ?_ ?_, h.len_lt hmax⟩
  · rw [h.perShard]
    exact toNat_ceilDiv_le hmax (by omega)
  · rw [h.perOwnerCap]
    exact toNat_ceilDiv_le hmaxPerKey (by omega)

theorem Inv.modify (i : ℕ) (f : PinShard → PinShard)
    (hf : ∀ sh ∈ s.shards[i]?, sh.Inv s.perShard s.perOwnerCap →
      (f sh).Inv s.perShard s.perOwnerCap) :
    { s with shards := s.shards.modify i f }.Inv max maxPerKey := by
  refine ⟨?_, h.perShard, h.perOwnerCap, fun sh hsh => ?_⟩
  · rw [length_modify]
    exact h.length
  · obtain ⟨j, hj⟩ := mem_iff_getElem?.mp hsh
    rw [getElem?_modify] at hj
    obtain ⟨sh', hsh', rfl⟩ := map_eq_some_iff.mp hj
    have hinv := h.shards sh' (mem_of_getElem? hsh')
    split_ifs with hij
    · subst hij
      exact hf sh' hsh' hinv
    · exact hinv

/-- One call: it keeps the promise only if its `Put` finds room, and then it keeps the
invariant. -/
theorem Inv.step (a : PinCall) {t : PinStore}
    (hstep : (pinStore hash max maxPerKey).step s a = some t) :
    (t.Sound max maxPerKey → s.Roomy hash a) ∧ (s.Roomy hash a → t.Inv max maxPerKey) := by
  cases a with
  | put key owner model route ttl maxAge now =>
    obtain rfl := some.inj hstep
    rw [PinStore.put]
    constructor
    · -- the shard is as `Put` leaves it, and a sound one tells that there was room
      intro hsound httl hcap sh hsh
      rw [if_neg (by omega)] at hsound
      have hput : (s.shards.modify (s.shard hash key) fun sh =>
            sh.put s.perShard s.perOwnerCap key owner model route ttl maxAge now)[
              s.shard hash key]? =
          some (sh.put s.perShard s.perOwnerCap key owner model route ttl maxAge now) := by
        rw [getElem?_modify, hsh]
        exact congrArg some (if_pos rfl)
      have hinv := h.shards sh (mem_of_getElem? hsh)
      exact hinv.roomy_of_sound hcap (hsound.shards _ (mem_of_getElem? hput))
    · intro hroomy
      -- a lifetime that is not positive changes nothing
      split_ifs with httl
      · exact h
      · refine h.modify _ _ fun sh hsh hinv => hinv.put (fun hcap => ?_) model route ttl maxAge
        exact hroomy (by omega) hcap sh hsh
  | get key now =>
    obtain rfl := some.inj hstep
    exact ⟨fun _ => trivial, fun _ => h.modify _ _ fun _ _ hinv => hinv.get key now⟩
  | delete key =>
    obtain rfl := some.inj hstep
    exact ⟨fun _ => trivial, fun _ => h.modify _ _ fun _ _ hinv => hinv.delete key⟩

end PinStore

/-- Every call returns or panics with the lock released. -/
theorem exists_run_pinStore (hash : String → ℕ) (max maxPerKey : ℤ) (calls : List PinCall)
    (s : PinStore) : ∃ t, (pinStore hash max maxPerKey).run s calls = some t := by
  induction calls generalizing s with
  | nil => exact ⟨s, rfl⟩
  | cons a calls ih =>
    obtain ⟨t, ht⟩ : ∃ t, (pinStore hash max maxPerKey).step s a = some t := by
      cases a with
      | put _ _ _ _ _ _ _ | get _ _ | delete _ => exact ⟨_, rfl⟩
    obtain ⟨u, hu⟩ := ih t
    exact ⟨u, (Machine.run_cons_of_step ht calls).trans hu⟩

/-- **The invariant of the pin store.** After each call of a sequence the store keeps its
promise exactly when every `Put` finds room for its owner. -/
theorem soundThroughout_iff (hash : String → ℕ) {max maxPerKey : ℤ} (hmax : 0 < max)
    (hmaxPerKey : 0 < maxPerKey) (calls : List PinCall) :
    (pinStore hash max maxPerKey).Throughout (PinStore.Sound max maxPerKey)
        (newPinStore max maxPerKey) calls ↔
      (pinStore hash max maxPerKey).Along (PinStore.Roomy hash) (newPinStore max maxPerKey)
        calls := by
  obtain ⟨t, hrun⟩ := exists_run_pinStore hash max maxPerKey calls (newPinStore max maxPerKey)
  refine Machine.throughout_iff_along_of (I := PinStore.Inv max maxPerKey) ?_ ?_ calls _ t
    (PinStore.Inv.new hmax hmaxPerKey) hrun
  · exact fun s h => h.sound hmax hmaxPerKey
  · exact fun s a t h hstep => h.step a hstep

def putsOf (keys : List String) : List PinCall := keys.map fun key => .put key "o" "m" "r" 60 0 0

/-- With a cap of two the owner's first entry goes when the third comes. -/
theorem sound_putsOf_three :
    (pinStore (fun _ => 0) 10 2).Throughout (PinStore.Sound 10 2) (newPinStore 10 2)
      (putsOf ["a", "b", "c"]) :=
  (soundThroughout_iff _ (by decide) (by decide) _).mpr (by decide +kernel)

/-- With a cap of one the third entry is the owner's second. -/
theorem not_sound_putsOf_three :
    ∃ t, (pinStore (fun _ => 0) 10 1).run (newPinStore 10 1) (putsOf ["a", "b", "c"]) = some t ∧
      ¬t.Sound 10 1 := by
  refine ⟨_, rfl, fun hsound => ?_⟩
  have hcard := (hsound.shards _ mem_cons_self).owner_card_le "o"
  revert hcard
  decide +kernel

end HivenetRouter.Semantic
