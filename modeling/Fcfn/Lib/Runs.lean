import Mathlib.Data.List.Basic

/-!
# Runs

A run of a machine is the fold of its step function over a list of events. `Along P` says that
every step of the run has a property, given the state before the step. An invariant that holds at
the start and is kept by every step with the property holds at the end (`invariant`), and what such
a step guarantees besides, every step of the run does (`Along.of_invariant`). -/

namespace Fcfn.Runs

variable {σ ε : Type*} {step : σ → ε → σ} {P Q : σ → ε → Prop} {I : σ → Prop}

/-- The state after a list of events. -/
def exec (step : σ → ε → σ) (s : σ) (events : List ε) : σ := events.foldl step s

/-- Every step of the run has the property. -/
def Along (step : σ → ε → σ) (P : σ → ε → Prop) : σ → List ε → Prop
  | _, [] => True
  | s, e :: events => P s e ∧ Along step P (step s e) events

instance instDecidableAlong [∀ s e, Decidable (P s e)] :
    (s : σ) → (events : List ε) → Decidable (Along step P s events)
  | _, [] => isTrue trivial
  | s, e :: events =>
    have := instDecidableAlong (step s e) events
    inferInstanceAs (Decidable (P s e ∧ Along step P (step s e) events))

@[simp] theorem exec_nil (s : σ) : exec step s [] = s := rfl

@[simp] theorem exec_cons (s : σ) (e : ε) (events : List ε) :
    exec step s (e :: events) = exec step (step s e) events := rfl

theorem exec_append (s : σ) (events events' : List ε) :
    exec step s (events ++ events') = exec step (exec step s events) events' :=
  List.foldl_append

/-- A property of the steps of two parts of a run. -/
theorem Along.append {s : σ} {events events' : List ε} (h : Along step P s events)
    (h' : Along step P (exec step s events) events') : Along step P s (events ++ events') := by
  induction events generalizing s with
  | nil => exact h'
  | cons e events ih => exact ⟨h.1, ih h.2 h'⟩

/-- One more step. -/
theorem Along.concat_iff {s : σ} {events : List ε} {e : ε} :
    Along step P s (events ++ [e]) ↔ Along step P s events ∧ P (exec step s events) e := by
  induction events generalizing s with
  | nil => exact and_comm
  | cons first events ih => exact (and_congr_right fun _ => ih).trans and_assoc.symm

/-- A property of the steps of a run is one of the steps of its start. -/
theorem Along.append_left {s : σ} {events events' : List ε}
    (h : Along step P s (events ++ events')) : Along step P s events := by
  induction events generalizing s with
  | nil => trivial
  | cons e events ih => exact ⟨h.1, ih h.2⟩

/-- A property of the steps of a run is one of the steps of its end. -/
theorem Along.append_right {s : σ} {events events' : List ε}
    (h : Along step P s (events ++ events')) : Along step P (exec step s events) events' := by
  induction events generalizing s with
  | nil => exact h
  | cons e events ih => exact ih h.2

/-- An invariant of the steps holds after a run of them. -/
theorem invariant (hstep : ∀ s e, I s → P s e → I (step s e)) {s : σ} (hs : I s)
    {events : List ε} (h : Along step P s events) : I (exec step s events) := by
  induction events generalizing s with
  | nil => exact hs
  | cons e events ih => exact ih (hstep s e hs h.1) h.2

/-- What every step from a state with the invariant guarantees, every step of a run does. -/
theorem Along.of_invariant (hstep : ∀ s e, I s → P s e → I (step s e) ∧ Q s e) {s : σ} (hs : I s)
    {events : List ε} (h : Along step P s events) : Along step Q s events := by
  induction events generalizing s with
  | nil => trivial
  | cons e events ih =>
    obtain ⟨hnext, hq⟩ := hstep s e hs h.1
    exact ⟨hq, ih hnext h.2⟩

/-- A property of all steps. -/
theorem Along.of_forall (h : ∀ s e, P s e) (s : σ) (events : List ε) : Along step P s events := by
  induction events generalizing s with
  | nil => trivial
  | cons e events ih => exact ⟨h s e, ih _⟩

/-- A weaker property of the steps. -/
theorem Along.mono {s : σ} {events : List ε} (h : Along step P s events)
    (hpq : ∀ s e, P s e → Q s e) : Along step Q s events := by
  induction events generalizing s with
  | nil => trivial
  | cons e events ih => exact ⟨hpq s e h.1, ih h.2⟩

/-- Step properties that say the same say the same of every run. -/
theorem Along.congr (h : ∀ s e, P s e ↔ Q s e) {s : σ} {events : List ε} :
    Along step P s events ↔ Along step Q s events := by
  induction events generalizing s with
  | nil => exact Iff.rfl
  | cons e events ih => exact and_congr (h s e) ih

/-- Step properties that say the same in the states with an invariant say the same of every run. -/
theorem Along.congr_of_invariant (hstep : ∀ s e, I s → I (step s e)) (h : ∀ s e, I s → (P s e ↔ Q s e))
    {s : σ} (hs : I s) {events : List ε} : Along step P s events ↔ Along step Q s events := by
  induction events generalizing s with
  | nil => exact Iff.rfl
  | cons e events ih => exact and_congr (h s e hs) (ih (hstep s e hs))

/-! ## Histories -/

/-- A machine that also keeps a history of its steps. -/
def observe {η : Type*} (step : σ → ε → σ) (note : σ → ε → η → η) : σ × η → ε → σ × η :=
  fun p e => (step p.1 e, note p.1 e p.2)

/-- The machine does not look at its history. -/
theorem exec_observe {η : Type*} (note : σ → ε → η → η) (s : σ) (h : η) (events : List ε) :
    (exec (observe step note) (s, h) events).1 = exec step s events := by
  induction events generalizing s h with
  | nil => rfl
  | cons e events ih => exact ih _ _

/-- A property of the machine's steps, with the history alongside. -/
theorem Along.observe {η : Type*} (note : σ → ε → η → η) {s : σ} (history : η) {events : List ε}
    (h : Along step P s events) :
    Along (Runs.observe step note) (fun p e => P p.1 e) (s, history) events := by
  induction events generalizing s history with
  | nil => trivial
  | cons e events ih => exact ⟨h.1, ih _ h.2⟩

/-- A property of the machine's steps that was shown with the history alongside. -/
theorem Along.of_observe {η : Type*} {note : σ → ε → η → η} {s : σ} {history : η}
    {events : List ε}
    (h : Along (Runs.observe step note) (fun p e => P p.1 e) (s, history) events) :
    Along step P s events := by
  induction events generalizing s history with
  | nil => trivial
  | cons e events ih => exact ⟨h.1, ih h.2⟩

end Fcfn.Runs
