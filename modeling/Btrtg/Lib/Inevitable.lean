import Mathlib.Logic.Relation

/-!
# What every execution does

`Inevitably step goal post c`: whichever way the nondeterministic `step`
goes, an execution from `c` comes to a configuration that satisfies `goal`,
and the first one it comes to satisfies `post`. Nothing is said about what
happens after that.
-/

inductive Inevitably {γ : Type} (step : γ → γ → Prop) (goal post : γ → Prop) : γ → Prop
  | here {c : γ} : goal c → post c → Inevitably step goal post c
  | next {c : γ} : ¬ goal c → (∃ d, step c d) → (∀ d, step c d → Inevitably step goal post d) →
      Inevitably step goal post c

namespace Inevitably

variable {γ δ : Type} {step : γ → γ → Prop} {goal goal' post post' : γ → Prop} {c d : γ}

theorem mono (h : Inevitably step goal post c) (hp : ∀ d, goal d → post d → post' d) :
    Inevitably step goal post' c := by
  induction h with
  | here hg hc => exact .here hg (hp _ hg hc)
  | next hg hex _ ih => exact .next hg hex ih

/-- Executions compose: a later goal is reached through an earlier one. -/
theorem bind (h : Inevitably step goal post c) (hsub : ∀ d, goal' d → goal d)
    (hk : ∀ d, goal d → post d → Inevitably step goal' post' d) :
    Inevitably step goal' post' c := by
  induction h with
  | here hg hc => exact hk _ hg hc
  | next hg hex _ ih => exact .next (fun h => hg (hsub _ h)) hex ih

/-- A step with one outcome. -/
theorem step_to (hg : ¬ goal c) (hs : step c d) (hdet : ∀ e, step c e → e = d)
    (h : Inevitably step goal post d) : Inevitably step goal post c :=
  .next hg ⟨d, hs⟩ fun e he => hdet e he ▸ h

/-- Simulation: related configurations stay related, each step of the first
system being answered by any number of steps of the second. -/
theorem simulate {step' : δ → δ → Prop} {goal'' post'' : δ → Prop} {R : γ → δ → Prop} {e : δ}
    (h : Inevitably step goal post c) (hr : R c e)
    (hgoal : ∀ c e, R c e → goal c → post c → Inevitably step' goal'' post'' e)
    (hstep : ∀ c e, R c e → ¬ goal c → (∃ d, step c d) →
      (∀ d, step c d → Inevitably step goal post d) →
      (∀ d e', step c d → R d e' → Inevitably step' goal'' post'' e') →
      Inevitably step' goal'' post'' e) :
    Inevitably step' goal'' post'' e := by
  induction h generalizing e with
  | here hg hp => exact hgoal _ _ hr hg hp
  | next hg hex hk ih => exact hstep _ _ hr hg hex hk fun d e' hd hr' => ih d hd hr'

/-- A configuration that is stuck short of the goal is not bound to it. -/
theorem not_stuck (h : Inevitably step goal post c) (hg : ¬ goal c) : ∃ d, step c d := by
  cases h with
  | here hc _ => exact absurd hc hg
  | next _ hex _ => exact hex

/-- An execution that has not met the goal yet is still bound to. -/
theorem along (h : Inevitably step goal post c)
    (hp : Relation.ReflTransGen (fun a b => ¬ goal a ∧ step a b) c d) :
    Inevitably step goal post d := by
  induction hp with
  | refl => exact h
  | tail _ hs ih =>
    cases ih with
    | here hg _ => exact absurd hg hs.1
    | next _ _ hk => exact hk _ hs.2

/-- With more goals the execution stops earlier, on the same way. -/
theorem earlier {goal' : γ → Prop} {c₀ : γ} (h : Inevitably step goal post c)
    (hsub : ∀ d, goal d → goal' d)
    (hp : Relation.ReflTransGen (fun a b => ¬ goal' a ∧ step a b) c₀ c) :
    Inevitably step goal' (fun d => goal' d ∧
      Relation.ReflTransGen (fun a b => ¬ goal' a ∧ step a b) c₀ d ∧ (goal d → post d)) c := by
  induction h with
  | here hg hc => exact .here (hsub _ hg) ⟨hsub _ hg, hp, fun _ => hc⟩
  | @next c hg hex _ ih =>
    by_cases hg' : goal' c
    · exact .here hg' ⟨hg', hp, fun h => absurd h hg⟩
    · exact .next hg' hex fun d hd => ih d hd (hp.tail ⟨hg', hd⟩)

theorem post_of_goal (h : Inevitably step goal post c) (hg : goal c) : post c := by
  cases h with
  | here _ hp => exact hp
  | next hn _ _ => exact absurd hg hn

end Inevitably
