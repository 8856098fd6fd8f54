import Mathlib.Data.Nat.Init
import Mathlib.Logic.Relation

/-!
# While loops

A loop is a guard and a body.  Its run is the sequence of states in which the
guard is tested; rules for what holds in all of them, for the end of the run,
and for the state after a number of turns.
-/

namespace WhileLoop

structure Loop (σ : Type) where
  guard : σ → Prop
  body : σ → σ

namespace Loop

variable {σ : Type} {L : Loop σ}

def Turn (L : Loop σ) (s t : σ) : Prop := L.guard s ∧ L.body s = t

/-- The guard is tested in `t` when the loop is entered in `s`. -/
def Reaches (L : Loop σ) : σ → σ → Prop := Relation.ReflTransGen L.Turn

def Ends (L : Loop σ) (s t : σ) : Prop := L.Reaches s t ∧ ¬L.guard t

theorem Reaches.turn {s t : σ} (h : L.Reaches s t) (ht : L.guard t) : L.Reaches s (L.body t) :=
  Relation.ReflTransGen.tail h ⟨ht, rfl⟩

theorem Reaches.invariant {I : σ → Prop} (hkeep : ∀ s, I s → L.guard s → I (L.body s)) {s t : σ}
    (h : L.Reaches s t) (hs : I s) : I t := by
  induction h with
  | refl => exact hs
  | tail _ hturn ih =>
      obtain ⟨hguard, rfl⟩ := hturn
      exact hkeep _ ih hguard

/-- A number that decreases in every turn ends the loop. -/
theorem exists_ends (variant : σ → ℕ) (hless : ∀ s, L.guard s → variant (L.body s) < variant s)
    (s : σ) : ∃ t, L.Ends s t := by
  induction hn : variant s using Nat.strong_induction_on generalizing s with
  | _ n ih =>
      by_cases hguard : L.guard s
      · subst hn
        obtain ⟨t, hreach, hdone⟩ := ih _ (hless s hguard) (L.body s) rfl
        exact ⟨t, Relation.ReflTransGen.head ⟨hguard, rfl⟩ hreach, hdone⟩
      · exact ⟨s, Relation.ReflTransGen.refl, hguard⟩

/-- An assertion that counts the turns and keeps the guard true is reached with its count. -/
theorem exists_reaches {I : ℕ → σ → Prop} {n : ℕ}
    (hturn : ∀ k < n, ∀ s, I k s → L.guard s ∧ I (k + 1) (L.body s)) {s : σ} (hs : I 0 s) :
    ∃ t, L.Reaches s t ∧ I n t := by
  induction n with
  | zero => exact ⟨s, Relation.ReflTransGen.refl, hs⟩
  | succ n ih =>
      obtain ⟨t, hreach, ht⟩ := ih fun k hk ↦ hturn k (Nat.lt_succ_of_lt hk)
      obtain ⟨hguard, hnext⟩ := hturn n (Nat.lt_succ_self n) t ht
      exact ⟨L.body t, hreach.turn hguard, hnext⟩

end Loop

end WhileLoop
