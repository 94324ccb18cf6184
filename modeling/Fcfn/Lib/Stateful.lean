import Mathlib.Order.Defs.Unbundled

/-!
# Computations on a state that may fail

A computation that fails keeps the state it has reached: `exec` returns the outcome and the state
after it. `Moves R` says that a computation leaves the state related to the one it started from,
whatever its outcome; a relation that is reflexive and transitive is kept by composition, so it is
enough to look at the elementary steps. `exec_bind_ok` takes a computation that succeeded apart. -/

namespace Fcfn.Stateful

variable {ε σ α β : Type}

/-- Run a computation from a state. -/
def exec (m : ExceptT ε (StateM σ) α) (s : σ) : Except ε α × σ := (ExceptT.run m).run s

@[simp] theorem exec_pure (a : α) (s : σ) :
    exec (pure a : ExceptT ε (StateM σ) α) s = (.ok a, s) := rfl

@[simp] theorem exec_throw (e : ε) (s : σ) :
    exec (throw e : ExceptT ε (StateM σ) α) s = (.error e, s) := rfl

@[simp] theorem exec_get (s : σ) : exec (get : ExceptT ε (StateM σ) σ) s = (.ok s, s) := rfl

@[simp] theorem exec_set (s s' : σ) :
    exec (set s' : ExceptT ε (StateM σ) PUnit) s = (.ok ⟨⟩, s') := rfl

@[simp] theorem exec_modify (f : σ → σ) (s : σ) :
    exec (modify f : ExceptT ε (StateM σ) PUnit) s = (.ok ⟨⟩, f s) := rfl

/-- An outcome as a computation that leaves the state alone. -/
def lift (r : Except ε α) : ExceptT ε (StateM σ) α :=
  match r with
  | .ok a => pure a
  | .error e => throw e

@[simp] theorem exec_lift (r : Except ε α) (s : σ) :
    exec (lift r : ExceptT ε (StateM σ) α) s = (r, s) := by
  cases r <;> rfl

/-- One computation after another. -/
theorem exec_bind (m : ExceptT ε (StateM σ) α) (f : α → ExceptT ε (StateM σ) β) (s : σ) :
    exec (m >>= f) s = match exec m s with
      | (.ok a, s') => exec (f a) s'
      | (.error e, s') => (.error e, s') := by
  change (match (ExceptT.run m).run s with
    | (r, s') => (ExceptT.bindCont f r).run s') = _
  rw [exec]
  cases h : (ExceptT.run m).run s with
  | mk r s' => cases r <;> rfl

/-- Looking at the state before a computation. -/
theorem exec_get_bind (f : σ → ExceptT ε (StateM σ) α) (s : σ) :
    exec (get >>= f) s = exec (f s) s := rfl

/-- Changing the state before a computation. -/
theorem exec_modify_bind (f : σ → σ) (g : PUnit → ExceptT ε (StateM σ) α) (s : σ) :
    exec (modify f >>= g) s = exec (g ⟨⟩) (f s) := rfl

/-- A computation that succeeded did so in all its parts. -/
theorem exec_bind_ok {m : ExceptT ε (StateM σ) α} {f : α → ExceptT ε (StateM σ) β} {s s' : σ}
    {b : β} : exec (m >>= f) s = (.ok b, s') ↔
      ∃ a s₁, exec m s = (.ok a, s₁) ∧ exec (f a) s₁ = (.ok b, s') := by
  rw [exec_bind]
  cases h : exec m s with
  | mk r s₁ =>
    cases r with
    | error e => simp
    | ok a =>
      simp only [Prod.mk.injEq, Except.ok.injEq]
      constructor
      · exact fun hf => ⟨a, s₁, ⟨rfl, rfl⟩, hf⟩
      · rintro ⟨_, _, ⟨rfl, rfl⟩, hf⟩
        exact hf

/-- The value of a computation put through a function. -/
@[simp] theorem exec_map (f : α → β) (m : ExceptT ε (StateM σ) α) (s : σ) :
    exec (f <$> m) s = ((exec m s).1.map f, (exec m s).2) := by
  rw [map_eq_pure_bind, exec_bind]
  cases h : exec m s with
  | mk r s' => cases r <;> rfl

/-! ## What a computation does to the state -/

/-- Whatever the outcome, the state is left in the relation. -/
def Moves (R : σ → σ → Prop) (m : ExceptT ε (StateM σ) α) : Prop := ∀ s, R s (exec m s).2

section Moves

variable {R : σ → σ → Prop}

/-- A stronger relation. -/
theorem Moves.mono {R' : σ → σ → Prop} {m : ExceptT ε (StateM σ) α} (h : Moves R m)
    (hr : ∀ s s', R s s' → R' s s') : Moves R' m :=
  fun s => hr s _ (h s)

/-- A computation that looks at the state first. -/
theorem Moves.get_bind {f : σ → ExceptT ε (StateM σ) α} (h : ∀ s, R s (exec (f s) s).2) :
    Moves R (get >>= f) := by
  intro s
  rw [exec_bind, exec_get]
  exact h s

/-- A change of the state within the relation. -/
theorem Moves.modify {f : σ → σ} (h : ∀ s, R s (f s)) :
    Moves R (modify f : ExceptT ε (StateM σ) PUnit) :=
  fun s => h s

section Preorder

variable [IsPreorder σ R]

/-- Returning a value. -/
theorem Moves.pure (a : α) : Moves R (pure a : ExceptT ε (StateM σ) α) := fun s => refl_of R s

/-- Failing. -/
theorem Moves.throw (e : ε) : Moves R (throw e : ExceptT ε (StateM σ) α) := fun s => refl_of R s

/-- Looking at the state. -/
theorem Moves.get : Moves R (get : ExceptT ε (StateM σ) σ) := fun s => refl_of R s

/-- A computation that leaves the state alone. -/
theorem Moves.lift (r : Except ε α) : Moves R (lift r : ExceptT ε (StateM σ) α) := by
  intro s
  rw [exec_lift]
  exact refl_of R s

/-- One computation after another. -/
theorem Moves.bind {m : ExceptT ε (StateM σ) α} {f : α → ExceptT ε (StateM σ) β}
    (hm : Moves R m) (hf : ∀ a, Moves R (f a)) : Moves R (m >>= f) := by
  intro s
  have hstep := hm s
  rw [exec_bind]
  cases h : exec m s with
  | mk r s' =>
    rw [h] at hstep
    cases r with
    | error e => exact hstep
    | ok a => exact trans_of R hstep (hf a s')

end Preorder

end Moves

end Fcfn.Stateful
