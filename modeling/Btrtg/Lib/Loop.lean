import Mathlib.Tactic.Common

/-!
# Loops over machine integers

A loop takes steps from state to state until it ends with a result; a step may
fault, and a loop that has not ended when its fuel is used up has none. An
invariant that comes with a variant gives the result.
-/

namespace Btrtg

variable {σ ρ : Type}

/-- A loop: a step goes on with a state, ends with a result, or faults. -/
def loop (step : σ → Option (σ ⊕ ρ)) : Nat → σ → Option ρ
  | 0, _ => none
  | fuel + 1, s =>
    match step s with
    | none => none
    | some (.inl s') => loop step fuel s'
    | some (.inr r) => some r

/-- A step from a state goes on within the invariant and lowers the variant, or ends
with a result as wanted. -/
def Steps (step : σ → Option (σ ⊕ ρ)) (inv : σ → Prop) (variant : σ → Nat) (post : ρ → Prop)
    (s : σ) : Prop :=
  (∃ s', step s = some (.inl s') ∧ inv s' ∧ variant s' < variant s) ∨
    ∃ r, step s = some (.inr r) ∧ post r

/-- Total correctness of a loop. -/
theorem loop_ends {step : σ → Option (σ ⊕ ρ)} {inv : σ → Prop} (variant : σ → Nat)
    {post : ρ → Prop} (hstep : ∀ s, inv s → Steps step inv variant post s) {s : σ} (hs : inv s)
    {fuel : Nat} (hfuel : variant s < fuel) :
    ∃ r, loop step fuel s = some r ∧ post r := by
  induction fuel generalizing s with
  | zero => exact absurd hfuel (Nat.not_lt_zero _)
  | succ fuel ih =>
    rw [loop]
    rcases hstep s hs with ⟨s', hs', hinv, hlt⟩ | ⟨r, hr, hpost⟩
    · rw [hs']
      exact ih hinv (Nat.lt_of_lt_of_le hlt (Nat.le_of_lt_succ hfuel))
    · rw [hr]
      exact ⟨r, rfl, hpost⟩

/-- A result of `int` arithmetic; an overflow has none. -/
def int32 (x : Int) : Option Int :=
  if -2147483648 ≤ x ∧ x ≤ 2147483647 then some x else none

theorem int32_natCast {x : Int} {n : Nat} (hx : x = n) (hn : n < 2147483648) :
    int32 x = some (n : Int) := by
  subst hx
  exact if_pos ⟨by omega, by omega⟩

end Btrtg
