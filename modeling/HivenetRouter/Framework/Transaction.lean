import Mathlib.Data.List.Basic

/-!
# Programs over a transactional store

A program `Txn σ α` changes a state and makes **transactions**, each of which meets a
**fate**: it commits, it fails, or the process crashes at it. The fates are a list that the
program consumes; where it runs out, transactions commit. A run ends in one of three ways:
the program returns, it fails, as a function that returns an error does, or the process
crashes. In all three the state it leaves is known, and after a crash the reader takes from
it what survives.

A single transaction (`update`) has all of its effect or none. A `batch` is any number of
transactions: where it does not commit, some of its writes have been applied, whichever.

`wp A m Q s` says that a run of `m` from `s` whose fates all meet `A` ends as `Q` says. There is
one rule for each construct; `wp_zoom` is the frame rule for a program that works on a part of
the state.
-/

namespace HivenetRouter

open List

/-- What happens to a transaction. After a failure or a crash, `applied` are the writes of a
batch that have been applied, by their position. -/
inductive Fate where
  | commit
  | fail (applied : List ℕ)
  | crash (applied : List ℕ)

/-- The transaction does not fail; the process may crash at it. -/
def Fate.Unfailing : Fate → Prop
  | .fail _ => False
  | _ => True

instance (f : Fate) : Decidable f.Unfailing := by
  unfold Fate.Unfailing
  split <;> infer_instance

inductive Outcome (σ α : Type) where
  | returned (a : α) (s : σ) (rest : List Fate)
  | failed (s : σ) (rest : List Fate)
  | crashed (s : σ)

/-- A program over the state `σ`. -/
def Txn (σ α : Type) : Type := σ → List Fate → Outcome σ α

namespace Txn

variable {σ τ α β : Type}

protected def pure (a : α) : Txn σ α := fun s fates => .returned a s fates

protected def bind (m : Txn σ α) (f : α → Txn σ β) : Txn σ β := fun s fates =>
  match m s fates with
  | .returned a s' rest => f a s' rest
  | .failed s' rest => .failed s' rest
  | .crashed s' => .crashed s'

instance : Monad (Txn σ) where
  pure := Txn.pure
  bind := Txn.bind

def get : Txn σ σ := fun s fates => .returned s s fates

def modify (f : σ → σ) : Txn σ Unit := fun s fates => .returned () (f s) fates

def fail : Txn σ α := fun s fates => .failed s fates

/-- The fate of the next transaction, and the others. -/
def next : List Fate → Fate × List Fate
  | [] => (.commit, [])
  | f :: rest => (f, rest)

/-- One transaction: all of its effect, or none. -/
def update (op : σ → σ) : Txn σ Unit := fun s fates =>
  match next fates with
  | (.commit, rest) => .returned () (op s) rest
  | (.fail _, rest) => .failed s rest
  | (.crash applied, _) => .crashed (if applied = [] then s else op s)

def view : Txn σ Unit := update id

def applyAll (ops : List (σ → σ)) (s : σ) : σ := ops.foldl (fun s op => op s) s

def applyOnly (applied : List ℕ) (ops : List (σ → σ)) (s : σ) : σ :=
  applyAll ((ops.zipIdx.filter fun op => op.2 ∈ applied).map (·.1)) s

/-- A batch of writes, in any number of transactions; without writes there is none. -/
def batch (ops : List (σ → σ)) : Txn σ Unit := fun s fates =>
  if ops.isEmpty then .returned () s fates
  else
    match next fates with
    | (.commit, rest) => .returned () (applyAll ops s) rest
    | (.fail applied, rest) => .failed (applyOnly applied ops s) rest
    | (.crash applied, _) => .crashed (applyOnly applied ops s)

/-- A batch that is cancelled: it fails, with some of its writes applied. -/
def cancel (ops : List (σ → σ)) : Txn σ α := fun s fates =>
  match next fates with
  | (.commit, rest) => .failed s rest
  | (.fail applied, rest) => .failed (applyOnly applied ops s) rest
  | (.crash applied, _) => .crashed (applyOnly applied ops s)

/-- The program, whether or not it fails: a failure is answered by `false`. -/
def attempt (m : Txn σ Unit) : Txn σ Bool := fun s fates =>
  match m s fates with
  | .returned _ s' rest => .returned true s' rest
  | .failed s' rest => .returned false s' rest
  | .crashed s' => .crashed s'

/-- The program, with a change in memory if it fails. -/
def onFail (m : Txn σ α) (f : σ → σ) : Txn σ α := fun s fates =>
  match m s fates with
  | .failed s' rest => .failed (f s') rest
  | .returned a s' rest => .returned a s' rest
  | .crashed s' => .crashed s'

/-- The program on a part of the state. -/
def zoom (part : σ → τ) (set : τ → σ → σ) (m : Txn τ α) : Txn σ α := fun s fates =>
  match m (part s) fates with
  | .returned a t rest => .returned a (set t s) rest
  | .failed t rest => .failed (set t s) rest
  | .crashed t => .crashed (set t s)

/-- The program with fates of its own. -/
def under (own : List Fate) (m : Txn σ α) : Txn σ α := fun s fates =>
  match m s own with
  | .returned a s' _ => .returned a s' fates
  | .failed s' _ => .failed s' fates
  | .crashed s' => .crashed s'

/-! ### The logic -/

/-- How a run may end. -/
structure Post (σ α : Type) where
  returned : α → σ → Prop
  failed : σ → Prop
  crashed : σ → Prop

/-- The run ends as `Q` says, and the fates it leaves still meet `A`. -/
def Satisfies (A : Fate → Prop) (Q : Post σ α) : Outcome σ α → Prop
  | .returned a s rest => Q.returned a s ∧ ∀ f ∈ rest, A f
  | .failed s rest => Q.failed s ∧ ∀ f ∈ rest, A f
  | .crashed s => Q.crashed s

/-- Every run from `s` whose fates meet `A` ends as `Q` says. -/
def wp (A : Fate → Prop) (m : Txn σ α) (Q : Post σ α) (s : σ) : Prop :=
  ∀ fates, (∀ f ∈ fates, A f) → Satisfies A Q (m s fates)

def CanFail (A : Fate → Prop) : Prop := ∃ l, A (.fail l)

def CanCrash (A : Fate → Prop) : Prop := ∃ l, A (.crash l)

theorem not_canFail_unfailing : ¬CanFail Fate.Unfailing := fun ⟨_, h⟩ => h

variable {A : Fate → Prop} {s : σ} {Q : Post σ α} {ops : List (σ → σ)}

theorem wp_mono {m : Txn σ α} {Q' : Post σ α} (h : wp A m Q s)
    (hreturned : ∀ a s', Q.returned a s' → Q'.returned a s')
    (hfailed : ∀ s', Q.failed s' → Q'.failed s') (hcrashed : ∀ s', Q.crashed s' → Q'.crashed s') :
    wp A m Q' s := by
  intro fates hfates
  have hout := h fates hfates
  cases hm : m s fates with
  | returned a s' =>
    rw [hm] at hout
    exact ⟨hreturned a s' hout.1, hout.2⟩
  | failed s' =>
    rw [hm] at hout
    exact ⟨hfailed s' hout.1, hout.2⟩
  | crashed s' =>
    rw [hm] at hout
    exact hcrashed s' hout

theorem wp_pure {a : α} (h : Q.returned a s) : wp A (pure a) Q s := fun _ hfates => ⟨h, hfates⟩

theorem wp_bind {m : Txn σ α} {f : α → Txn σ β} {Q : Post σ β}
    (h : wp A m ⟨fun a s' => wp A (f a) Q s', Q.failed, Q.crashed⟩ s) : wp A (m >>= f) Q s := by
  intro fates hfates
  have hout := h fates hfates
  change Satisfies A Q (Txn.bind m f s fates)
  unfold Txn.bind
  cases hm : m s fates with
  | returned a s' rest =>
    rw [hm] at hout
    exact hout.1 rest hout.2
  | failed | crashed =>
    rw [hm] at hout
    exact hout

theorem wp_get {Q : Post σ σ} (h : Q.returned s s) : wp A get Q s := fun _ hfates => ⟨h, hfates⟩

theorem wp_modify {f : σ → σ} {Q : Post σ Unit} (h : Q.returned () (f s)) : wp A (modify f) Q s :=
  fun _ hfates => ⟨h, hfates⟩

theorem wp_fail (h : Q.failed s) : wp A fail Q s := fun _ hfates => ⟨h, hfates⟩

/-- The next fate meets `A`, and so do the others. -/
theorem next_cases {fates : List Fate} (h : ∀ f ∈ fates, A f) :
    (∀ f ∈ (next fates).2, A f) ∧ ((next fates).1 = .commit ∨ A (next fates).1) := by
  cases fates with
  | nil => exact ⟨h, .inl rfl⟩
  | cons f => exact ⟨fun g hg => h g (mem_cons_of_mem f hg), .inr (h f mem_cons_self)⟩

theorem wp_update {op : σ → σ} {Q : Post σ Unit} (hreturned : Q.returned () (op s))
    (hfailed : CanFail A → Q.failed s)
    (hcrashed : CanCrash A → Q.crashed s ∧ Q.crashed (op s)) : wp A (update op) Q s := by
  intro fates hfates
  obtain ⟨hrest, hnext⟩ := next_cases hfates
  unfold update
  -- committed, failed, or crashed before or after the write
  rcases hf : next fates with ⟨_ | l | l, rest⟩ <;> rw [hf] at hrest hnext
  · exact ⟨hreturned, hrest⟩
  · exact ⟨hfailed ⟨l, hnext.resolve_left nofun⟩, hrest⟩
  · obtain ⟨hbefore, hafter⟩ := hcrashed ⟨l, hnext.resolve_left nofun⟩
    show Q.crashed (if l = [] then s else op s)
    split
    · exact hbefore
    · exact hafter

theorem wp_view {Q : Post σ Unit} (hreturned : Q.returned () s)
    (hfailed : CanFail A → Q.failed s) (hcrashed : CanCrash A → Q.crashed s) :
    wp A view Q s :=
  wp_update hreturned hfailed fun h => ⟨hcrashed h, hcrashed h⟩

/-- A batch: where it does not commit, any of its writes may have been applied. -/
theorem wp_batch {Q : Post σ Unit} (hreturned : Q.returned () (applyAll ops s))
    (hfailed : CanFail A → ∀ l, Q.failed (applyOnly l ops s))
    (hcrashed : CanCrash A → ∀ l, Q.crashed (applyOnly l ops s)) : wp A (batch ops) Q s := by
  intro fates hfates
  obtain ⟨hrest, hnext⟩ := next_cases hfates
  unfold batch
  -- an empty batch takes no transaction
  cases ops with
  | nil => exact ⟨hreturned, hfates⟩
  | cons =>
    rcases hf : next fates with ⟨_ | l | l, rest⟩ <;> rw [hf] at hrest hnext
    · exact ⟨hreturned, hrest⟩
    · exact ⟨hfailed ⟨l, hnext.resolve_left nofun⟩ l, hrest⟩
    · exact hcrashed ⟨l, hnext.resolve_left nofun⟩ l

theorem wp_cancel (hfailed : Q.failed s) (happlied : ∀ l, Q.failed (applyOnly l ops s))
    (hcrashed : CanCrash A → ∀ l, Q.crashed (applyOnly l ops s)) : wp A (cancel ops) Q s := by
  intro fates hfates
  obtain ⟨hrest, hnext⟩ := next_cases hfates
  unfold cancel
  rcases hf : next fates with ⟨_ | l | l, rest⟩ <;> rw [hf] at hrest hnext
  · exact ⟨hfailed, hrest⟩
  · exact ⟨happlied l, hrest⟩
  · exact hcrashed ⟨l, hnext.resolve_left nofun⟩ l

theorem wp_attempt {m : Txn σ Unit} {Q : Post σ Bool}
    (h : wp A m ⟨fun _ s' => Q.returned true s', Q.returned false, Q.crashed⟩ s) :
    wp A (attempt m) Q s := by
  intro fates hfates
  have hout := h fates hfates
  unfold attempt
  cases hm : m s fates <;> rw [hm] at hout <;> exact hout

theorem wp_onFail {m : Txn σ α} {f : σ → σ}
    (h : wp A m ⟨Q.returned, fun s' => Q.failed (f s'), Q.crashed⟩ s) : wp A (onFail m f) Q s := by
  intro fates hfates
  have hout := h fates hfates
  unfold onFail
  cases hm : m s fates <;> rw [hm] at hout <;> exact hout

/-- The frame rule: the rest of the state is as before. -/
theorem wp_zoom {part : σ → τ} {set : τ → σ → σ} {m : Txn τ α}
    (h : wp A m ⟨fun a t => Q.returned a (set t s), fun t => Q.failed (set t s),
      fun t => Q.crashed (set t s)⟩ (part s)) :
    wp A (zoom part set m) Q s := by
  intro fates hfates
  have hout := h fates hfates
  unfold zoom
  cases hm : m (part s) fates <;> rw [hm] at hout <;> exact hout

/-- A program with fates of its own, which meet another condition. -/
theorem wp_under {B : Fate → Prop} {own : List Fate} {m : Txn σ α} (hown : ∀ f ∈ own, B f)
    (h : wp B m Q s) : wp A (under own m) Q s := by
  intro fates hfates
  have hout := h own hown
  unfold under
  cases hm : m s own with
  | returned | failed =>
    rw [hm] at hout
    exact ⟨hout.1, hfates⟩
  | crashed =>
    rw [hm] at hout
    exact hout

/-! ### Properties that writes preserve -/

theorem applyAll_preserves {I : σ → Prop} (hops : ∀ op ∈ ops, ∀ s, I s → I (op s)) (hs : I s) :
    I (applyAll ops s) := by
  induction ops generalizing s with
  | nil => exact hs
  | cons op ops ih =>
    refine ih (fun op' hop' => hops op' (mem_cons_of_mem op hop')) ?_
    exact hops op mem_cons_self s hs

/-- What every write of a batch preserves, any part of it preserves. -/
theorem applyOnly_preserves {I : σ → Prop} (hops : ∀ op ∈ ops, ∀ s, I s → I (op s))
    (applied : List ℕ) (hs : I s) :
    I (applyOnly applied ops s) := by
  refine applyAll_preserves (fun op hop => ?_) hs
  obtain ⟨p, hp, rfl⟩ := mem_map.mp hop
  exact hops p.1 (fst_mem_of_mem_zipIdx (mem_filter.mp hp).1)

end Txn

end HivenetRouter
