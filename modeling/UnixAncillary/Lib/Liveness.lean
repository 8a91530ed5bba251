import Mathlib.Logic.Relation
import Mathlib.Order.Nat

/-!
# Runs that go on

A system makes one step after another, or stops. What happens eventually is proved by
ranking: `eventually_of_rank` says that `P` cannot hold for ever when a rank never rises while
it does, and always falls again.
-/

namespace Liveness

variable {σ : Type*} {R : σ → σ → Prop} {init : σ} {run : Nat → σ}

/-- An infinite run; where the system stops, the run stays. -/
structure Runs (R : σ → σ → Prop) (init : σ) (run : Nat → σ) : Prop where
  start : run 0 = init
  next : ∀ k, Relation.ReflGen R (run k) (run (k + 1))

/-- Later states of a run are reached from earlier ones. -/
theorem Runs.between (h : Runs R init run) {k n : Nat} (hk : k ≤ n) :
    Relation.ReflTransGen R (run k) (run n) := by
  induction n, hk using Nat.le_induction with
  | base => exact .refl
  | succ n hk ih => exact ih.trans (h.next n).to_reflTransGen

theorem Runs.reaches (h : Runs R init run) (k : Nat) : Relation.ReflTransGen R init (run k) :=
  h.start ▸ h.between (Nat.zero_le k)

/-- The rule for progress: `P` holds until `Q` does, and cannot hold for ever. -/
theorem eventually_of_rank (P Q : σ → Prop) (rank : σ → Nat) {k : Nat} (hP : P (run k))
    (huntil : ∀ n, k ≤ n → P (run n) → P (run (n + 1)) ∨ Q (run (n + 1)))
    (hkeep : ∀ n, k ≤ n → P (run n) → P (run (n + 1)) → rank (run (n + 1)) ≤ rank (run n))
    (hfair : ∀ n, k ≤ n → P (run n) →
      ∃ m, n ≤ m ∧ (P (run m) → P (run (m + 1)) → rank (run (m + 1)) < rank (run m))) :
    ∃ n, k ≤ n ∧ Q (run n) := by
  by_contra hnever
  have hall : ∀ n, k ≤ n → P (run n) := by
    intro n hn
    induction n, hn using Nat.le_induction with
    | base => exact hP
    | succ n hn ih =>
        rcases huntil n hn ih with hnext | hQ
        · exact hnext
        · exact absurd ⟨n + 1, by omega, hQ⟩ hnever
  have hmono : ∀ n m, k ≤ n → n ≤ m → rank (run m) ≤ rank (run n) := by
    intro n m hn hm
    induction m, hm using Nat.le_induction with
    | base => exact le_rfl
    | succ m hm ih =>
        have hlast := hkeep m (by omega) (hall m (by omega)) (hall (m + 1) (by omega))
        exact hlast.trans ih
  -- No rank is the last one, so there is none.
  have hnone : ∀ r n, k ≤ n → rank (run n) ≠ r := by
    intro r
    induction r using Nat.strong_induction_on with
    | _ r ih =>
        rintro n hn rfl
        obtain ⟨m, hm, hfall⟩ := hfair n hn (hall n hn)
        have hlt := hfall (hall m (by omega)) (hall (m + 1) (by omega))
        exact ih _ (hlt.trans_le (hmono n m hn hm)) (m + 1) (by omega) rfl
  exact hnone _ k le_rfl rfl

end Liveness
