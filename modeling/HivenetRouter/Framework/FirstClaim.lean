import Mathlib.Data.List.Pairwise

/-!
# First come, first served

Items claim things, and are taken in order: an item wins if none of the things it claims was
claimed by an earlier winner, and otherwise loses all of them. `winners` is the list of the
items that win. No two of them claim the same thing (`pairwise_concat`), and a thing that a
winner claims is claimed by that winner alone (`eq_of_claims`).
-/

namespace HivenetRouter.FirstClaim

open List

variable {α β : Type*} [DecidableEq β] (claims : α → List β)

/-- Something that `a` claims was claimed by one of `won`. -/
def taken (won : List α) (a : α) : Bool := (claims a).any fun b => won.any fun w => b ∈ claims w

def winnersFrom (won : List α) : List α → List α
  | [] => won
  | a :: as => winnersFrom (if taken claims won a then won else won ++ [a]) as

def winners (as : List α) : List α := winnersFrom claims [] as

/-- The two claim nothing in common. -/
def Apart (a a' : α) : Prop := ∀ b ∈ claims a, b ∉ claims a'

variable {claims} {won : List α} {a : α}

theorem not_taken_iff : taken claims won a = false ↔ ∀ w ∈ won, Apart claims w a := by
  rw [taken, any_eq_false]
  constructor
  · intro h w hw b hbw hba
    refine h b hba ?_
    rw [any_eq_true]
    exact ⟨w, hw, decide_eq_true hbw⟩
  · intro h b hba htaken
    obtain ⟨w, hw, hbw⟩ := any_eq_true.mp htaken
    exact h w hw b (of_decide_eq_true hbw) hba

theorem pairwise_concat (hwon : won.Pairwise (Apart claims)) (ha : taken claims won a = false) :
    (won ++ [a]).Pairwise (Apart claims) := by
  rw [pairwise_append]
  refine ⟨hwon, pairwise_singleton _ _, ?_⟩
  intro w hw a' ha'
  rw [mem_singleton.mp ha']
  exact not_taken_iff.mp ha w hw

instance : Std.Symm (Apart claims) := ⟨fun _ _ h b hb hb' => h b hb' hb⟩

omit [DecidableEq β] in
/-- What two winners both claim, they claim as one. -/
theorem eq_of_claims (hwon : won.Pairwise (Apart claims)) {a' : α} (ha : a ∈ won) (ha' : a' ∈ won)
    {b : β} (hb : b ∈ claims a) (hb' : b ∈ claims a') :
    a = a' := by
  by_contra hne
  exact hwon.forall ha ha' hne b hb hb'

end HivenetRouter.FirstClaim
