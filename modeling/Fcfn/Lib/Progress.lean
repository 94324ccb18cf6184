import Fcfn.Lib.Runs
import Mathlib.Order.WellFounded
import Mathlib.Order.RelClasses

/-!
# Progress

Of the events of a machine some are moves, which are made as long as one is possible, and some are
foreign: any number of them may come between two moves. A goal is `Inevitable` when it is reached
after finitely many moves, whichever are made and whatever comes between, and one is possible until
then. It is inevitable where moves are possible under an invariant and decrease a measure, which
foreign events do not increase (`Inevitable.of_measure`). -/

namespace Fcfn.Progress

open Runs

variable {σ ε μ : Type*} {step : σ → ε → σ} {move : σ → ε → Prop} {foreign : ε → Prop}
  {goal I : σ → Prop}

/-- The goal is reached after finitely many moves. -/
inductive Inevitable (step : σ → ε → σ) (move : σ → ε → Prop) (foreign : ε → Prop)
    (goal : σ → Prop) : σ → Prop
  | intro (s : σ)
      (possible : ∀ between, (∀ e ∈ between, foreign e) → goal (exec step s between) ∨
        ∃ e, move (exec step s between) e)
      (onward : ∀ between e, (∀ e' ∈ between, foreign e') → ¬ goal (exec step s between) →
        move (exec step s between) e →
        Inevitable step move foreign goal (step (exec step s between) e)) :
      Inevitable step move foreign goal s

/-- A goal that every event keeps stays reached. -/
theorem goal_exec (hgoal : ∀ s e, goal s → goal (step s e)) {s : σ} (h : goal s) (events : List ε) :
    goal (exec step s events) := by
  induction events generalizing s with
  | nil => exact h
  | cons e events ih => exact ih (hgoal s e h)

/-- A goal that is reached is inevitable. -/
theorem Inevitable.of_goal (hgoal : ∀ s e, goal s → goal (step s e)) {s : σ} (h : goal s) :
    Inevitable step move foreign goal s :=
  .intro s (fun between _ => Or.inl (goal_exec hgoal h between))
    fun between _ _ hnot => absurd (goal_exec hgoal h between) hnot

/-- Foreign events keep what they keep one by one. -/
theorem foreign_exec [Preorder μ] {m : σ → μ} (hgoal : ∀ s e, goal s → goal (step s e))
    (hforeign : ∀ s e, I s → foreign e → goal (step s e) ∨ I (step s e) ∧ m (step s e) ≤ m s)
    {s : σ} (h : I s) {between : List ε} (hbetween : ∀ e ∈ between, foreign e) :
    goal (exec step s between) ∨ I (exec step s between) ∧ m (exec step s between) ≤ m s := by
  induction between generalizing s with
  | nil => exact Or.inr ⟨h, le_rfl⟩
  | cons e between ih =>
    rw [exec_cons]
    rcases hforeign s e h (hbetween e (by simp)) with hreached | ⟨hkept, hle⟩
    · exact Or.inl (goal_exec hgoal hreached between)
    · rcases ih hkept fun e' he' => hbetween e' (List.mem_cons_of_mem _ he') with
        hreached | ⟨hkept', hle'⟩
      · exact Or.inl hreached
      · exact Or.inr ⟨hkept', hle'.trans hle⟩

/-- A goal is inevitable where moves are possible and decrease a measure. -/
theorem Inevitable.of_measure [Preorder μ] [WellFoundedLT μ] {m : σ → μ}
    (hgoal : ∀ s e, goal s → goal (step s e))
    (hforeign : ∀ s e, I s → foreign e → goal (step s e) ∨ I (step s e) ∧ m (step s e) ≤ m s)
    (hpossible : ∀ s, I s → goal s ∨ ∃ e, move s e)
    (hmove : ∀ s e, I s → move s e → goal (step s e) ∨ I (step s e) ∧ m (step s e) < m s) {s : σ}
    (h : I s) : Inevitable step move foreign goal s := by
  induction hs : m s using WellFoundedLT.induction generalizing s with
  | ind n ih =>
    subst hs
    refine .intro s (fun between hbetween => ?_) fun between e hbetween hnot he => ?_
    · rcases foreign_exec hgoal hforeign h hbetween with hreached | ⟨hkept, -⟩
      · exact Or.inl hreached
      · exact hpossible _ hkept
    · rcases foreign_exec hgoal hforeign h hbetween with hreached | ⟨hkept, hle⟩
      · exact absurd hreached hnot
      · rcases hmove _ e hkept he with hreached | ⟨hmoved, hlt⟩
        · exact .of_goal hgoal hreached
        · exact ih _ (lt_of_lt_of_le hlt hle) hmoved rfl

end Fcfn.Progress
