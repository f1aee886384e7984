import HivenetRouter.Framework.Machine
import HivenetRouter.Domain.Types

/-!
# The agent registry

`AgentRegistry` has two indexes of the agents: by peer id, and for each model by peer id. It holds
pointers, and so an agent is here a value of any type `Obj`, of which only the two fields that never
change are read: its peer and its model.

`Register` writes the agent to both indexes, and does not look whether the peer is registered
under another model. The indexes agree throughout a run exactly when no peer registers again
with another model (`indexed_throughout_iff`); an agent that is left behind in the bucket of
its old model stays there, also when the peer is unregistered (`register_other_model`).

From the agreement of the indexes it follows what the readers see: `ListByModel` lists the
registered agents of a model, each once, and `CountHealthyByModel` counts the healthy ones
(`Indexed.sees`).
-/

namespace HivenetRouter.Router

open Finmap List Option

section

variable {Peer Obj : Type} [LinearOrder Peer]

structure AgentRegistry (Peer Obj : Type) where
  byID : GoMap Peer Obj
  byModel : GoMap String (GoMap Peer Obj)

structure AgentFields (Peer Obj : Type) where
  id : Obj → Peer
  model : Obj → String

namespace AgentRegistry

def new : AgentRegistry Peer Obj := ⟨∅, ∅⟩

/-- The bucket of a model; a `nil` map is empty. -/
def bucket (r : AgentRegistry Peer Obj) (model : String) : GoMap Peer Obj :=
  (r.byModel.lookup model).getD ∅

def register (F : AgentFields Peer Obj) (r : AgentRegistry Peer Obj) (a : Obj) :
    AgentRegistry Peer Obj where
  byID := r.byID.insert (F.id a) a
  byModel := r.byModel.insert (F.model a) ((r.bucket (F.model a)).insert (F.id a) a)

/-- `Unregister`; a deletion from a `nil` map does nothing. -/
def unregister (F : AgentFields Peer Obj) (r : AgentRegistry Peer Obj) (id : Peer) :
    AgentRegistry Peer Obj :=
  match r.byID.lookup id with
  | none => r
  | some a =>
    ⟨r.byID.erase id,
      match r.byModel.lookup (F.model a) with
      | none => r.byModel
      | some bucket => r.byModel.insert (F.model a) (bucket.erase id)⟩

def get (r : AgentRegistry Peer Obj) (id : Peer) : Option Obj := r.byID.lookup id

def agents (m : GoMap Peer Obj) : List Obj := m.sortedKeys.filterMap m.lookup

def listByModel (r : AgentRegistry Peer Obj) (model : String) : List Obj := agents (r.bucket model)

/-- `List`, in the order of the peer ids. -/
def list (r : AgentRegistry Peer Obj) : List Obj := agents r.byID

def countHealthyByModel (healthy : Obj → Bool) (r : AgentRegistry Peer Obj) (model : String) : ℕ :=
  (r.listByModel model).countP healthy

end AgentRegistry

open AgentRegistry

/-! ### The maps after a call -/

section Lookup

variable (F : AgentFields Peer Obj) (r : AgentRegistry Peer Obj) {id : Peer} {a : Obj}

theorem lookup_register_bucket (a : Obj) (model : String) (id : Peer) :
    ((r.register F a).bucket model).lookup id =
      if model = F.model a ∧ id = F.id a then some a else (r.bucket model).lookup id := by
  unfold register bucket
  by_cases hmodel : model = F.model a
  · subst hmodel
    rw [lookup_insert, getD_some]
    by_cases hid : id = F.id a
    · subst hid
      rw [lookup_insert, if_pos ⟨rfl, rfl⟩]
    · rw [lookup_insert_of_ne _ hid, if_neg fun h => hid h.2]
  · rw [lookup_insert_of_ne _ hmodel, if_neg fun h => hmodel h.1]

theorem lookup_register_byID (a : Obj) (id : Peer) :
    (r.register F a).byID.lookup id = if id = F.id a then some a else r.byID.lookup id := by
  unfold register
  split_ifs with hid
  · rw [hid, lookup_insert]
  · rw [lookup_insert_of_ne _ hid]

theorem lookup_unregister_byID (id id' : Peer) :
    (r.unregister F id).byID.lookup id' = if id' = id then none else r.byID.lookup id' := by
  unfold unregister
  cases ha : r.byID.lookup id with
  | none =>
    split_ifs with hid
    · rw [hid]
      exact ha
    · rfl
  | some =>
    split_ifs with hid
    · rw [hid, lookup_erase]
    · rw [lookup_erase_ne hid]

theorem lookup_unregister_bucket (ha : r.byID.lookup id = some a) (model : String) (id' : Peer) :
    ((r.unregister F id).bucket model).lookup id' =
      if model = F.model a ∧ id' = id then none else (r.bucket model).lookup id' := by
  unfold unregister bucket
  rw [ha]
  dsimp only
  -- a bucket that is missing is read as an empty one, before and after
  cases hbucket : r.byModel.lookup (F.model a) with
  | none =>
    split_ifs with h
    · rw [h.1, hbucket]
      rfl
    · rfl
  | some =>
    by_cases hmodel : model = F.model a
    · subst hmodel
      rw [lookup_insert, getD_some, hbucket, getD_some]
      by_cases hid : id' = id
      · rw [hid, lookup_erase, if_pos ⟨rfl, rfl⟩]
      · rw [lookup_erase_ne hid, if_neg fun h => hid h.2]
    · rw [lookup_insert_of_ne _ hmodel, if_neg fun h => hmodel h.1]

theorem unregister_of_none (h : r.byID.lookup id = none) : r.unregister F id = r := by
  unfold unregister
  rw [h]

variable {m : GoMap Peer Obj}

theorem mem_agents : a ∈ agents m ↔ ∃ id, m.lookup id = some a := by
  unfold agents
  rw [mem_filterMap]
  exact exists_congr fun id => and_iff_right_of_imp fun h =>
    GoMap.mem_sortedKeys.mpr (GoMap.mem_of_lookup h)

theorem nodup_agents (hown : ∀ id a, m.lookup id = some a → F.id a = id) : (agents m).Nodup := by
  -- two ids with one agent are both the id of that agent
  refine (GoMap.nodup_sortedKeys m).filterMap fun id id' a ha ha' => ?_
  rw [← hown id a ha, ← hown id' a ha']

end Lookup

/-! ### The machine -/

inductive RegistryCall (Peer Obj : Type) where
  | register (a : Obj)
  | unregister (id : Peer)

variable (F : AgentFields Peer Obj)

def agentRegistry : Machine (AgentRegistry Peer Obj) (RegistryCall Peer Obj) where
  Init r := r = .new
  step r
    | .register a => some (r.register F a)
    | .unregister id => some (r.unregister F id)

/-- The indexes agree: an agent is in the bucket of a model exactly when it is registered and
has the model. -/
def Indexed (r : AgentRegistry Peer Obj) : Prop :=
  ∀ model id a, (r.bucket model).lookup id = some a ↔ r.byID.lookup id = some a ∧ F.model a = model

structure Sees (r : AgentRegistry Peer Obj) : Prop where
  listed : ∀ model a, a ∈ r.listByModel model ↔ a ∈ r.list ∧ F.model a = model
  once : ∀ model, (r.listByModel model).Nodup
  counted : ∀ healthy model, r.countHealthyByModel healthy model =
    r.list.countP fun a => F.model a = model && healthy a

def Owns (r : AgentRegistry Peer Obj) : Prop := ∀ id a, r.byID.lookup id = some a → F.id a = id

def SameModel (r : AgentRegistry Peer Obj) : RegistryCall Peer Obj → Prop
  | .register a => ∀ old, r.byID.lookup (F.id a) = some old → F.model old = F.model a
  | .unregister _ => True

variable {F} {r : AgentRegistry Peer Obj}

theorem Owns.step {r' : AgentRegistry Peer Obj} {c : RegistryCall Peer Obj} (h : Owns F r)
    (hstep : (agentRegistry F).step r c = some r') : Owns F r' := by
  intro id a ha
  cases c with
  | register =>
    cases hstep
    rw [lookup_register_byID] at ha
    split_ifs at ha with hid
    · rw [← some.inj ha, hid]
    · exact h id a ha
  | unregister =>
    cases hstep
    rw [lookup_unregister_byID] at ha
    split_ifs at ha with hid
    exact h id a ha

/-- **The readers see the registered agents** if the indexes agree. -/
theorem Indexed.sees (h : Indexed F r) (hown : Owns F r) : Sees F r := by
  have hlisted : ∀ model a, a ∈ r.listByModel model ↔ a ∈ r.list ∧ F.model a = model := by
    intro model a
    unfold listByModel list
    rw [mem_agents, mem_agents]
    constructor
    · rintro ⟨id, ha⟩
      obtain ⟨hid, hmodel⟩ := (h model id a).mp ha
      exact ⟨⟨id, hid⟩, hmodel⟩
    · rintro ⟨⟨id, hid⟩, hmodel⟩
      exact ⟨id, (h model id a).mpr ⟨hid, hmodel⟩⟩
  have honce : ∀ model, (r.listByModel model).Nodup := fun model =>
    nodup_agents F fun id a ha => hown id a ((h model id a).mp ha).1
  refine ⟨hlisted, honce, fun healthy model => ?_⟩
  -- the two lists have the same elements, each of them once
  have hperm : (r.listByModel model).Perm (r.list.filter fun a => F.model a = model) := by
    refine (perm_ext_iff_of_nodup (honce model) ((nodup_agents F hown).filter _)).mpr ?_
    intro a
    rw [hlisted, mem_filter, decide_eq_true_iff]
    rfl
  unfold countHealthyByModel
  rw [hperm.countP_eq, countP_filter]
  simp only [Bool.and_comm]

theorem indexed_new : Indexed F (.new : AgentRegistry Peer Obj) := by
  intro model id a
  exact iff_of_false nofun (fun h => nomatch h.1)

/-- A registration keeps the agreement exactly when the peer keeps its model. -/
theorem indexed_register_iff (h : Indexed F r) (a : Obj) :
    Indexed F (r.register F a) ↔ SameModel F r (.register a) := by
  constructor
  · intro h' old hold
    by_contra hne
    -- the old agent is still in its bucket, and is not registered any more
    have hstale : ((r.register F a).bucket (F.model old)).lookup (F.id a) = some old := by
      rw [lookup_register_bucket, if_neg fun hsame => hne hsame.1]
      exact (h _ _ _).mpr ⟨hold, rfl⟩
    have hnow := ((h' _ _ _).mp hstale).1
    rw [lookup_register_byID, if_pos rfl] at hnow
    rw [some.inj hnow] at hne
    exact hne rfl
  · intro hsame model id b
    rw [lookup_register_bucket, lookup_register_byID]
    -- only the entries of the peer change: the new agent is in the bucket of its model, and in
    -- no other one
    by_cases hid : id = F.id a
    · subst hid
      rw [if_pos rfl]
      by_cases hmodel : model = F.model a
      · rw [if_pos ⟨hmodel, rfl⟩, and_iff_left_of_imp]
        intro hb
        rw [← some.inj hb, hmodel]
      · rw [if_neg fun hboth => hmodel hboth.1, h]
        refine iff_of_false ?_ ?_
        · -- an old agent in another bucket would have another model
          rintro ⟨hold, rfl⟩
          exact hmodel (hsame b hold)
        · rintro ⟨hb, rfl⟩
          exact hmodel (by rw [some.inj hb])
    · rw [if_neg hid, if_neg fun hboth => hid hboth.2]
      exact h model id b

theorem Indexed.unregister (h : Indexed F r) (id : Peer) : Indexed F (r.unregister F id) := by
  cases ha : r.byID.lookup id with
  | none =>
    rw [unregister_of_none F r ha]
    exact h
  | some =>
    intro model id' b
    rw [lookup_unregister_bucket F r ha, lookup_unregister_byID]
    by_cases hid : id' = id
    · subst hid
      rw [if_pos rfl]
      refine iff_of_false ?_ (fun hb => nomatch hb.1)
      -- the agent was in the bucket of its own model only
      split_ifs with hmodel
      · exact nofun
      · rw [h]
        rintro ⟨hb, rfl⟩
        obtain rfl := mem_unique ha hb
        exact hmodel ⟨rfl, rfl⟩
    · rw [if_neg hid, if_neg fun hboth => hid hboth.2]
      exact h model id' b

/-- The index and its readers: the whole property. -/
def Consistent (F : AgentFields Peer Obj) (r : AgentRegistry Peer Obj) : Prop :=
  Indexed F r ∧ Sees F r

/-- **The indexes agree throughout a run, and the readers see the registered agents, exactly when no
peer registers again with another model.** -/
theorem indexed_throughout_iff {r : AgentRegistry Peer Obj}
    {calls : List (RegistryCall Peer Obj)} (hrun : (agentRegistry F).run .new calls = some r) :
    (agentRegistry F).Throughout (Consistent F) .new calls ↔
      (agentRegistry F).Along (SameModel F) .new calls := by
  refine Machine.throughout_iff_along_of (I := fun r => Indexed F r ∧ Owns F r) ?_ ?_ calls .new r
    ⟨indexed_new, fun id a ha => nomatch ha⟩ hrun
  · exact fun r h => ⟨h.1, h.1.sees h.2⟩
  · intro r c r' h hstep
    -- what the readers see follows from the indexes, since agents stand under their own ids
    have hown := h.2.step hstep
    cases c with
    | register a =>
      cases hstep
      exact ⟨fun hc => (indexed_register_iff h.1 a).mp hc.1,
        fun hsame => ⟨(indexed_register_iff h.1 a).mpr hsame, hown⟩⟩
    | unregister id =>
      cases hstep
      exact ⟨fun _ => trivial, fun _ => ⟨h.1.unregister id, hown⟩⟩

/-! ### A peer with two models -/

structure DemoAgent where
  number : ℕ
  id : ℕ
  model : String
  deriving DecidableEq

def demoFields : AgentFields ℕ DemoAgent := ⟨DemoAgent.id, DemoAgent.model⟩

/-- A peer that registers twice with one model, and leaves. -/
theorem indexed_throughout_same_model :
    (agentRegistry demoFields).Throughout (Consistent demoFields) .new
      [.register ⟨0, 7, "a"⟩, .register ⟨1, 7, "a"⟩, .unregister 7] := by
  refine (indexed_throughout_iff rfl).mpr ⟨?_, ?_, trivial, trivial⟩
  · exact fun old hold => nomatch hold
  · intro old hold
    cases hold
    rfl

/-- **A peer that registers again with another model** is listed under both, and stays listed under
the first when it has left. -/
theorem register_other_model : ∃ r r', (agentRegistry demoFields).run .new
        [.register ⟨0, 7, "a"⟩, .register ⟨1, 7, "b"⟩] = some r ∧
      (agentRegistry demoFields).step r (.unregister 7) = some r' ∧
      r.listByModel "a" = [⟨0, 7, "a"⟩] ∧ r.list = [⟨1, 7, "b"⟩] ∧
      r'.list = [] ∧ r'.countHealthyByModel (fun _ => true) "a" = 1 ∧
      ¬Consistent demoFields r ∧ ¬Consistent demoFields r' := by
  obtain ⟨r, hr, r', hr', hlist, hall, hlist', hcount⟩ :
      ∃ r ∈ (agentRegistry demoFields).run .new [.register ⟨0, 7, "a"⟩, .register ⟨1, 7, "b"⟩],
      ∃ r' ∈ (agentRegistry demoFields).step r (.unregister 7),
        r.listByModel "a" = [⟨0, 7, "a"⟩] ∧ r.list = [⟨1, 7, "b"⟩] ∧
        r'.list = [] ∧ r'.countHealthyByModel (fun _ => true) "a" = 1 := by
    decide +kernel
  refine ⟨r, r', hr, hr', hlist, hall, hlist', hcount, ?_, ?_⟩
  · -- the first agent is listed under its model, and not registered
    rintro ⟨-, hsees⟩
    have hmem : (⟨0, 7, "a"⟩ : DemoAgent) ∈ r.listByModel "a" := by simp [hlist]
    have hregistered := ((hsees.listed _ _).mp hmem).1
    rw [hall] at hregistered
    exact absurd hregistered (by decide)
  · -- one agent is counted, and none is listed
    rintro ⟨-, hsees⟩
    rw [hsees.counted, hlist'] at hcount
    cases hcount

end

/-!
## The slots of a peer

A peer declares how many requests it takes at a time, and `TryAcquireSlot` counts the forwards
to it in the field `ActiveRequests` of its `Agent`. A forward holds its slot until its
release, the closure of `slotRelease`, runs for the first time; the closure is called by
`forwardToAgent` or, after a hand-off, by `drainStream`.

The count belongs to the `Agent` object, and a registration installs a new object that counts
from 0, while forwards go on that hold slots of the old one. So the number of forwards is
bounded by the capacity of the peer, and equal to the load of its registered agent, exactly as
long as the peer registers again only while no forward holds a slot, and no slot is taken of
an object that has been replaced (`bounded_throughout_iff`). Otherwise it can be twice the
capacity (`slots_over_capacity`).
-/

open Domain Function

/-- A forward that has taken a slot: the object that counts it, whether its release has run, and
whether `drainStream` is to call it. -/
structure Forward where
  agent : ℕ
  released : Bool
  draining : Bool

/-- The `Agent` objects of one peer, in the order of their registration; the last, `current`, is the
one in the registry. -/
structure PeerSlots where
  agents : ℕ → Agent
  current : ℕ
  forwards : List Forward

inductive SlotAct where
  /-- `TryAcquireSlot` of an object, which may have been replaced since it was selected. -/
  | acquire (agent : ℕ)
  /-- A call of the release of a forward. -/
  | release (forward : ℕ)
  | handOff (forward : ℕ)
  | register (metadata : AgentMetadata)

def newAgent (metadata : AgentMetadata) : Agent := ⟨metadata, true, true, 0⟩

namespace PeerSlots

/-- `TryAcquireSlot`, of an object that is or was registered. -/
def acquire (s : PeerSlots) (i : ℕ) : Option PeerSlots :=
  if s.current < i then none
  else
    match (s.agents i).tryAcquireSlot with
    | none => some s
    | some a =>
      some { s with
        agents := update s.agents i a
        forwards := s.forwards ++ [⟨i, false, false⟩] }

/-- A call of the release, which does something the first time only. -/
def release (s : PeerSlots) (f : ℕ) : Option PeerSlots :=
  s.forwards[f]?.map fun forward =>
    if forward.released then s
    else { s with
      agents := update s.agents forward.agent (s.agents forward.agent).decrementLoad
      forwards := s.forwards.set f { forward with released := true } }

/-- The release goes to `drainStream`. -/
def handOff (s : PeerSlots) (f : ℕ) : Option PeerSlots :=
  s.forwards[f]?.map fun forward =>
    { s with forwards := s.forwards.set f { forward with draining := true } }

/-- A new object takes the place of the registered one. -/
def register (s : PeerSlots) (metadata : AgentMetadata) : PeerSlots where
  agents := update s.agents (s.current + 1) (newAgent metadata)
  current := s.current + 1
  forwards := s.forwards

def holding (s : PeerSlots) : ℕ := s.forwards.countP fun f => !f.released

/-- The load that is reported for the peer, `GetLoad` of the registered agent. -/
def load (s : PeerSlots) : ℤ := (s.agents s.current).activeRequests

end PeerSlots

/-- A peer from its first registration on, which declares the capacity `C` each time. -/
def peerSlots (C : ℤ) : Machine PeerSlots SlotAct where
  Init s := s.current = 0 ∧ s.forwards = [] ∧
    ∃ metadata, s.agents 0 = newAgent metadata ∧ metadata.capacity = C
  step s
    | .acquire i => s.acquire i
    | .release f => s.release f
    | .handOff f => s.handOff f
    | .register metadata => if metadata.capacity = C then some (s.register metadata) else none

/-- The bound, and what is reported. -/
structure Bounded (C : ℤ) (s : PeerSlots) : Prop where
  bound : (s.holding : ℤ) ≤ C
  reported : s.load = s.holding
  nonneg : 0 ≤ s.load

/-- A slot is taken of the registered object, unless the object is full; and the peer
registers again while no forward holds a slot. -/
def OnRegistered (C : ℤ) (s : PeerSlots) : SlotAct → Prop
  | .acquire i => i = s.current ∨ C ≤ (s.agents i).activeRequests
  | .release _ | .handOff _ => True
  | .register _ => s.holding = 0

instance (C : ℤ) (s : PeerSlots) (a : SlotAct) : Decidable (OnRegistered C s a) := by
  unfold OnRegistered
  split <;> infer_instance

/-- The invariant: all forwards that hold a slot hold one of the registered object. -/
structure Counted (C : ℤ) (s : PeerSlots) : Prop where
  capacity : ∀ i ≤ s.current, (s.agents i).metadata.capacity = C
  current : ∀ f ∈ s.forwards, f.released = false → f.agent = s.current
  reported : s.load = s.holding
  bound : s.load ≤ C

variable {C : ℤ} {s t : PeerSlots} {i f : ℕ} {forward : Forward}

theorem Counted.bounded (h : Counted C s) : Bounded C s := by
  have hle : (s.holding : ℤ) ≤ C := h.reported ▸ h.bound
  exact ⟨hle, h.reported, h.reported ▸ Int.natCast_nonneg _⟩

/-! ### One step -/

theorem acquire_cases (h : s.acquire i = some t) :
    i ≤ s.current ∧ ((s.agents i).metadata.capacity ≤ (s.agents i).activeRequests ∧ t = s ∨
      (s.agents i).activeRequests < (s.agents i).metadata.capacity ∧
      t = { s with
        agents := update s.agents i
          { s.agents i with activeRequests := (s.agents i).activeRequests + 1 }
        forwards := s.forwards ++ [⟨i, false, false⟩] }) := by
  unfold PeerSlots.acquire at h
  split_ifs at h with hi
  refine ⟨not_lt.mp hi, ?_⟩
  -- the object is full, or counts one more
  unfold Agent.tryAcquireSlot at h
  split_ifs at h with hfull
  · cases h
    exact .inl ⟨hfull, rfl⟩
  · cases h
    exact .inr ⟨Int.not_le.mp hfull, rfl⟩

/-- A slot that is taken is counted once more among the forwards. -/
theorem holding_acquire (ht : t.forwards = s.forwards ++ [⟨i, false, false⟩]) :
    t.holding = s.holding + 1 := by
  unfold PeerSlots.holding
  rw [ht, countP_append]
  rfl

section

variable (hf : s.forwards[f]? = some forward)

include hf

theorem holding_pos (hheld : forward.released = false) : 0 < s.holding := by
  refine countP_pos_iff.mpr ⟨forward, mem_of_getElem? hf, ?_⟩
  rw [hheld]
  rfl

theorem holding_release (hheld : forward.released = false)
    (ht : t.forwards = s.forwards.set f { forward with released := true }) :
    t.holding + 1 = s.holding := by
  obtain ⟨hlt, hget⟩ := List.getElem?_eq_some_iff.mp hf
  have hpos := holding_pos hf hheld
  unfold PeerSlots.holding at hpos ⊢
  -- one forward that was counted is no longer counted
  rw [ht, countP_set hlt, hget]
  simp only [hheld, Bool.not_false, if_true, Bool.not_true, Bool.false_eq_true, if_false]
  omega

theorem holding_handOff (ht : t.forwards = s.forwards.set f { forward with draining := true }) :
    t.holding = s.holding := by
  obtain ⟨hlt, hget⟩ := List.getElem?_eq_some_iff.mp hf
  -- the flag of the release stays, counted or not
  cases hheld : forward.released with
  | true =>
    unfold PeerSlots.holding
    rw [ht, countP_set hlt, hget]
    simp [hheld]
  | false =>
    have hpos := holding_pos hf hheld
    unfold PeerSlots.holding at hpos ⊢
    rw [ht, countP_set hlt, hget]
    simp only [hheld, Bool.not_false, if_true]
    omega

end

/-- Only the count of an object changes, never its capacity. -/
theorem capacity_update {current : ℕ} {agents : ℕ → Agent} {a : Agent}
    (h : ∀ j ≤ current, (agents j).metadata.capacity = C) (ha : a.metadata.capacity = C) :
    ∀ j ≤ current, (update agents i a j).metadata.capacity = C := by
  intro j hj
  rw [update_apply]
  split_ifs
  · exact ha
  · exact h j hj

theorem load_update_current (s : PeerSlots) (a : Agent) (forwards : List Forward) :
    PeerSlots.load { s with
      agents := update s.agents s.current a
      forwards := forwards } = a.activeRequests := by
  unfold PeerSlots.load
  dsimp only
  rw [update_self]

section

variable (h : Counted C s)

include h

theorem Counted.acquire (hstep : s.acquire i = some t) :
    (Bounded C t → OnRegistered C s (.acquire i)) ∧
      (OnRegistered C s (.acquire i) → Counted C t) := by
  obtain ⟨hi, hcases⟩ := acquire_cases hstep
  rw [h.capacity i hi] at hcases
  rcases hcases with ⟨hfull, rfl⟩ | ⟨hroom, rfl⟩
  · -- a full object refuses the slot, and nothing has changed
    exact ⟨fun _ => .inr hfull, fun _ => h⟩
  · constructor
    · -- if the object is not the registered one, the load does not count the forward
      intro hbounded
      by_contra hnot
      have hne : i ≠ s.current := fun heq => hnot (.inl heq)
      have hreported := hbounded.reported
      rw [holding_acquire rfl] at hreported
      unfold PeerSlots.load at hreported
      dsimp only at hreported
      rw [update_of_ne hne.symm] at hreported
      have hbefore := h.reported
      unfold PeerSlots.load at hbefore
      omega
    · rintro (rfl | hfull)
      · refine ⟨capacity_update h.capacity (h.capacity s.current le_rfl), ?_, ?_, ?_⟩
        · intro f hf hheld
          rcases mem_append.mp hf with hf | hf
          · exact h.current f hf hheld
          · rw [mem_singleton.mp hf]
        · -- the load and the number of forwards go up together
          have hbefore := h.reported
          unfold PeerSlots.load at hbefore
          rw [holding_acquire rfl, load_update_current]
          change (s.agents s.current).activeRequests + 1 = _
          omega
        · rw [load_update_current]
          change (s.agents s.current).activeRequests + 1 ≤ C
          omega
      · -- a full object has no slot to take
        omega

/-- Releasing a slot, for the first time or again. -/
theorem Counted.release (hstep : s.release f = some t) : Counted C t := by
  obtain ⟨forward, hf, rfl⟩ := Option.map_eq_some_iff.mp hstep
  split_ifs with hreleased
  · exact h
  have hheld : forward.released = false := Bool.not_eq_true _ ▸ hreleased
  -- the forward holds a slot of the registered object, and so this is the one that counts down
  have hcurrent : forward.agent = s.current := h.current forward (mem_of_getElem? hf) hheld
  rw [hcurrent]
  have hbefore := h.reported
  have hbound := h.bound
  unfold PeerSlots.load at hbefore hbound
  refine ⟨capacity_update h.capacity (h.capacity s.current le_rfl), ?_, ?_, ?_⟩
  · intro g hg hgheld
    rcases mem_or_eq_of_mem_set hg with hg | rfl
    · exact h.current g hg hgheld
    · cases hgheld
  · have hcount := holding_release (t := { s with
      agents := update s.agents s.current (s.agents s.current).decrementLoad
      forwards := s.forwards.set f ⟨s.current, true, forward.draining⟩ }) hf hheld
      (by rw [hcurrent])
    rw [load_update_current]
    change (s.agents s.current).activeRequests - 1 = _
    omega
  · rw [load_update_current]
    change (s.agents s.current).activeRequests - 1 ≤ C
    omega

theorem Counted.handOff (hstep : s.handOff f = some t) : Counted C t := by
  obtain ⟨forward, hf, rfl⟩ := Option.map_eq_some_iff.mp hstep
  refine ⟨h.capacity, ?_, ?_, h.bound⟩
  · intro g hg hgheld
    rcases mem_or_eq_of_mem_set hg with hg | rfl
    · exact h.current g hg hgheld
    · exact h.current forward (mem_of_getElem? hf) hgheld
  · rw [holding_handOff hf rfl]
    exact h.reported

theorem Counted.register (hC : 0 < C) {metadata : AgentMetadata}
    (hcap : metadata.capacity = C) :
    (Bounded C (s.register metadata) → OnRegistered C s (.register metadata)) ∧
      (OnRegistered C s (.register metadata) → Counted C (s.register metadata)) := by
  -- the new object counts from 0, and the forwards stay
  have hload : (s.register metadata).load = 0 := by
    unfold PeerSlots.load PeerSlots.register
    dsimp only
    rw [update_self]
    rfl
  have hholding : (s.register metadata).holding = s.holding := rfl
  constructor
  · intro hbounded
    have hreported := hbounded.reported
    rw [hload, hholding] at hreported
    exact_mod_cast hreported.symm
  · intro hnone
    refine ⟨?_, ?_, ?_, ?_⟩
    · intro j hj
      unfold PeerSlots.register
      dsimp only
      by_cases hnew : j = s.current + 1
      · rw [hnew, update_self]
        exact hcap
      · rw [update_of_ne hnew]
        have hle : j ≤ s.current + 1 := hj
        exact h.capacity j (by omega)
    · intro f hf hheld
      -- no forward holds a slot
      have hnot := countP_eq_zero.mp hnone f hf
      rw [hheld] at hnot
      exact absurd rfl hnot
    · rw [hload, hholding, hnone]
      rfl
    · rw [hload]
      exact Int.le_of_lt hC

end

theorem counted_init (hC : 0 < C) (h : (peerSlots C).Init s) : Counted C s := by
  obtain ⟨hcurrent, hforwards, metadata, hagent, hcap⟩ := h
  have hload : s.load = 0 := by
    unfold PeerSlots.load
    rw [hcurrent, hagent]
    rfl
  refine ⟨?_, ?_, ?_, ?_⟩
  · intro i hi
    rw [hcurrent] at hi
    rw [Nat.le_zero.mp hi, hagent]
    exact hcap
  · rw [hforwards]
    exact fun f hf => absurd hf not_mem_nil
  · unfold PeerSlots.holding
    rw [hload, hforwards]
    rfl
  · rw [hload]
    exact Int.le_of_lt hC

/-- **Throughout a run the forwards are within the capacity, and the load of the registered
agent is their number, exactly when the peer registers again only while no forward holds a
slot, and slots are taken of the registered object.** -/
theorem bounded_throughout_iff (hC : 0 < C) {acts : List SlotAct} (hinit : (peerSlots C).Init s)
    (hrun : (peerSlots C).run s acts = some t) :
    (peerSlots C).Throughout (Bounded C) s acts ↔ (peerSlots C).Along (OnRegistered C) s acts := by
  refine Machine.throughout_iff_along_of (fun _ h => h.bounded) ?_ acts s t (counted_init hC hinit)
    hrun
  -- each step keeps the count exactly when it is one of these
  intro s a t h hstep
  cases a with
  | acquire => exact h.acquire hstep
  | release => exact ⟨fun _ => trivial, fun _ => h.release hstep⟩
  | handOff => exact ⟨fun _ => trivial, fun _ => h.handOff hstep⟩
  | register metadata =>
    change (if metadata.capacity = C then some (s.register metadata) else none) = some t at hstep
    split_ifs at hstep with hcap
    cases hstep
    exact h.register hC hcap

/-! ### A registration under way -/

def demoMetadata : AgentMetadata := ⟨1, "", [], "", "", "", "", ""⟩

def demoSlots : PeerSlots := ⟨fun _ => newAgent demoMetadata, 0, []⟩

/-- A streamed response is handed off, its release is called twice, and then the peer registers
again. -/
def drainedActs : List SlotAct :=
  [.acquire 0, .acquire 0, .handOff 0, .release 0, .release 0, .register demoMetadata, .acquire 1]

theorem bounded_drained : (peerSlots 1).Throughout (Bounded 1) demoSlots drainedActs := by
  obtain ⟨t, hrun, -⟩ : ∃ t ∈ (peerSlots 1).run demoSlots drainedActs, t.holding = 1 := by
    decide +kernel
  exact (bounded_throughout_iff (by decide) ⟨rfl, rfl, demoMetadata, rfl, rfl⟩ hrun).mpr
    (by decide +kernel)

/-- **Two forwards to a peer that takes one**: the peer registers again while the first holds its
slot. -/
theorem slots_over_capacity :
    ∃ t ∈ (peerSlots 1).run demoSlots [.acquire 0, .register demoMetadata, .acquire 1],
      t.holding = 2 ∧ t.load = 1 ∧ ¬Bounded 1 t := by
  refine Machine.exists_mem_imp (fun t => t.holding = 2 ∧ t.load = 1) (by decide +kernel) ?_
  rintro t - ⟨hholding, hload⟩
  refine ⟨hholding, hload, fun hbounded => ?_⟩
  have hbound := hbounded.bound
  rw [hholding] at hbound
  exact absurd hbound (by decide)

end HivenetRouter.Router
