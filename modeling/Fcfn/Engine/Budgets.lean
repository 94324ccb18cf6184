import Fcfn.Engine.ExactSpec

/-!
# Budgets

Two searches of one problem on budgets `b ≤ b'` make the same steps until the one on `b` gives up.
From then on it only unwinds, while the other goes on and never loses what it has found
(`Ahead`). So a decision on `b` is the decision on `b'`, and a set found on `b` is no better than
the one found on `b'` (`budget_monotone`). Nothing is asked of the problem. -/

namespace Fcfn

open Words Sorted ContainmentProblem ExactState

namespace ExactState

variable {p : ContainmentProblem} {s s' : ExactState}

/-- The state with another budget on record. -/
def withBudget (s : ExactState) (budget : UInt64) : ExactState :=
  { s with counters := { s.counters with budget := budget } }

/-- The search on the larger budget is ahead: the two states are the same up to the budget on
record, or the search on the smaller one has given up with a set that is no better. -/
inductive Ahead (p : ContainmentProblem) (s s' : ExactState) : Prop
  | same (budget : UInt64) : s.aborted = false → s' = s.withBudget budget → Ahead p s s'
  | further : s.aborted = true → s.counters.budget_exhausted = true → Improves p s.best s'.best →
      Ahead p s s'

/-! ## What is found is not lost -/

/-- Keeping a completed set loses nothing. -/
theorem improves_recordLeaf (s : ExactState) : Improves p s.best (s.recordLeaf p).best := by
  unfold recordLeaf
  split
  · exact Improves.refl _
  · split
    · rename_i objective _ hbeats
      intro b hb
      rw [hb] at hbeats
      exact ⟨_, rfl, (objectiveLess_iff.mp hbeats).le⟩
    · exact Improves.refl _

/-- The bound step keeps the best set. -/
theorem best_boundStep (s : ExactState) : (boundStep p s).1.best = s.best := by
  unfold boundStep
  split
  · rfl
  · simp only
    split
    · rfl
    · split <;> rfl

/-- Closing a branch keeps the best set. -/
theorem best_closeBranch (s : ExactState) (path here : List NodeIndex) :
    (closeBranch s path here).best = s.best := by
  unfold closeBranch
  split <;> rfl

/-- The branches lose nothing when the search under them does not. -/
theorem improves_branch {search : ExactState → ExactState}
    (hsearch : ∀ s, Improves p s.best (search s).best) (rest here : List NodeIndex)
    (s : ExactState) : Improves p s.best (branch p search rest here s).1.best := by
  induction rest generalizing here s with
  | nil => exact Improves.refl _
  | cons x rest ih =>
    unfold branch
    split
    · exact ih here s
    · have hunder : Improves p s.best ((search (s.includeNode p x)).unincludeNode p x).best :=
        hsearch (s.includeNode p x)
      simp only
      split
      · exact hunder
      · split
        · exact hunder
        · exact hunder.trans
            (ih (here ++ [x]) (((search (s.includeNode p x)).unincludeNode p x).exclude x))

/-- A search loses nothing. -/
theorem improves_search (max_explored_nodes : UInt64) (fuel : ℕ) (s : ExactState) :
    Improves p s.best (search p max_explored_nodes fuel s).best := by
  induction fuel generalizing s with
  | zero => exact Improves.refl _
  | succ fuel ih =>
    unfold search
    split
    · exact Improves.refl _
    simp only
    split
    · exact Improves.refl _
    split
    · exact Improves.refl _
    split
    · exact improves_recordLeaf s.explore
    split
    · split <;> exact Improves.refl _
    · have hbound := best_boundStep (p := p) s.explore
      split
      · rw [hbound]
        exact Improves.refl _
      · rw [best_closeBranch]
        have hbranch := improves_branch (p := p) ih (shortestResidualPath p s.explore.included) []
          (boundStep p s.explore).1
        rw [hbound] at hbranch
        exact hbranch

/-! ## The steps of two searches -/

/-- The search on the larger budget stays ahead when it goes on. -/
theorem Ahead.trans {s'' : ExactState} (h : Ahead p s s') (hab : s.aborted = true)
    (himp : Improves p s'.best s''.best) : Ahead p s s'' := by
  cases h with
  | same budget hnot => exact absurd hab (by simp [hnot])
  | further _ hexhausted hbest => exact .further hab hexhausted (hbest.trans himp)

/-- Up to the budget on record the bound step is the same. -/
theorem boundStep_withBudget (s : ExactState) (budget : UInt64) :
    boundStep p (s.withBudget budget) =
      ((boundStep p s).1.withBudget budget, (boundStep p s).2) := by
  have hbest : (s.withBudget budget).best = s.best := rfl
  unfold boundStep
  rw [hbest]
  cases s.best with
  | none => rfl
  | some found =>
    simp only [withBudget]
    generalize disjointPathBound p s.excluded kBoundIterations s.included 0
      s.counters.residual_paths_checked = r
    obtain ⟨bound, checked⟩ := r
    cases bound with
    | none => rfl
    | some weight_bound =>
      have hlower : ∀ counters, ({ s with best := some found, counters := counters } :
          ExactState).lowerBound weight_bound = s.lowerBound weight_bound := fun _ => rfl
      simp only [hlower]
      cases objectiveLess found.2 (s.lowerBound weight_bound) p.minimize_protected_inclusions with
      | true => rfl
      | false => rfl

/-- The branches keep the search on the larger budget ahead when the searches under them do, and
unless the other gives up they exclude the same nodes. -/
theorem ahead_branch {search search' : ExactState → ExactState}
    (hsearch : ∀ {s s'}, Ahead p s s' → Ahead p (search s) (search' s'))
    (himproves : ∀ s, Improves p s.best (search' s).best) (rest here : List NodeIndex)
    (budget : UInt64) (s : ExactState) (hs : s.aborted = false) :
    Ahead p (branch p search rest here s).1
        (branch p search' rest here (s.withBudget budget)).1 ∧
      ((branch p search rest here s).1.aborted = false →
        (branch p search' rest here (s.withBudget budget)).2 =
          (branch p search rest here s).2) := by
  induction rest generalizing here s budget with
  | nil => exact ⟨.same budget hs rfl, fun _ => rfl⟩
  | cons x rest ih =>
    unfold branch
    have hskip : (decide (x ∈ (s.withBudget budget).excluded) || !p.isContainable x) =
        (decide (x ∈ s.excluded) || !p.isContainable x) := rfl
    rw [hskip]
    split
    · exact ih here budget s hs
    · have hunder : Ahead p ((search (s.includeNode p x)).unincludeNode p x)
          ((search' ((s.withBudget budget).includeNode p x)).unincludeNode p x) := by
        have h := hsearch (.same budget (s := s.includeNode p x) hs rfl)
        cases h with
        | same b hnot heq => exact .same b hnot (congrArg (unincludeNode p · x) heq)
        | further hab hexhausted hbest => exact .further hab hexhausted hbest
      simp only
      generalize (search (s.includeNode p x)).unincludeNode p x = r at hunder ⊢
      generalize (search' ((s.withBudget budget).includeNode p x)).unincludeNode p x = r' at hunder ⊢
      cases hr : r.aborted with
      | true =>
        -- the search has given up, and the other goes on with the rest of the path
        rw [if_pos rfl]
        refine ⟨hunder.trans hr ?_, fun hnot => absurd (hr.symm.trans hnot) (by simp)⟩
        split
        · exact Improves.refl _
        · split
          · exact Improves.refl _
          · exact improves_branch himproves rest _ (r'.exclude x)
      | false =>
        cases hunder with
        | further hab => exact absurd hr (by simp [hab])
        | same b hnot heq =>
          subst heq
          have hr' : (r.withBudget b).aborted = false := hr
          rw [hr', if_neg Bool.false_ne_true, if_neg Bool.false_ne_true]
          split
          · exact ⟨.same b hnot rfl, fun _ => rfl⟩
          · exact ih (here ++ [x]) b (r.exclude x) hr

/-- Recording a leaf is the same up to the budget on record. -/
theorem recordLeaf_withBudget (s : ExactState) (budget : UInt64) :
    (s.withBudget budget).recordLeaf p = (s.recordLeaf p).withBudget budget := by
  unfold recordLeaf withBudget
  simp only
  cases verifyCut p s.current with
  | error e => rfl
  | ok objective =>
    simp only
    cases beats p objective s.best with
    | true => rfl
    | false => rfl

/-- Closing a branch is the same up to the budget on record. -/
theorem closeBranch_withBudget (s : ExactState) (budget : UInt64) (path here : List NodeIndex) :
    closeBranch (s.withBudget budget) path here = (closeBranch s path here).withBudget budget := by
  unfold closeBranch withBudget
  simp only
  split <;> rfl

/-- Recording a leaf, the bound step and closing a branch do not give up. -/
theorem aborted_recordLeaf (s : ExactState) : (s.recordLeaf p).aborted = s.aborted := by
  unfold recordLeaf
  split
  · rfl
  · split <;> rfl

theorem aborted_boundStep (s : ExactState) : (boundStep p s).1.aborted = s.aborted := by
  unfold boundStep
  split
  · rfl
  · simp only
    split
    · rfl
    · split <;> rfl

theorem aborted_closeBranch (s : ExactState) (path here : List NodeIndex) :
    (closeBranch s path here).aborted = s.aborted ∧
      (closeBranch s path here).counters = s.counters := by
  unfold closeBranch
  split <;> exact ⟨rfl, rfl⟩

/-- The end of a search node keeps the search on the larger budget ahead. -/
theorem Ahead.close {path here here' : List NodeIndex} (h : Ahead p s s')
    (hhere : s.aborted = false → here' = here) :
    Ahead p (closeBranch (s.unexclude here) path here)
      (closeBranch (s'.unexclude here') path here') := by
  cases h with
  | same budget hnot heq =>
    obtain rfl := hhere hnot
    subst heq
    refine .same budget ?_ ?_
    · rw [(aborted_closeBranch _ path here').1]
      exact hnot
    · exact closeBranch_withBudget (s.unexclude here') budget path here'
  | further hab hexhausted hbest =>
    refine .further ?_ ?_ ?_
    · rw [(aborted_closeBranch _ path here).1]
      exact hab
    · rw [(aborted_closeBranch _ path here).2]
      exact hexhausted
    · rw [best_closeBranch, best_closeBranch]
      exact hbest

/-- A search node that has been counted within the budget. -/
def expand (p : ContainmentProblem) (search : ExactState → ExactState) (s : ExactState) :
    ExactState :=
  if s.current.length > p.max_members || s.current_weight > p.max_total_weight then s
  else
    let path := shortestResidualPath p s.included
    if path = [] then s.recordLeaf p
    else if path.all (fun node => !p.isContainable node) then
      if s.witness.isNone && path.length ≤ kMaxCutCertificatePathNodes then s.recordWitness path
      else s
    else
      let r := boundStep p s
      if r.2 then r.1
      else
        let r := branch p search path [] r.1
        closeBranch (r.1.unexclude r.2) path r.2

/-- A search node counts itself and gives up or expands. -/
theorem search_succ (max_explored_nodes : UInt64) (fuel : ℕ) (s : ExactState) :
    search p max_explored_nodes (fuel + 1) s =
      if s.aborted then s
      else if s.explore.counters.explored_nodes > max_explored_nodes then s.explore.abort
      else expand p (search p max_explored_nodes fuel) s.explore :=
  rfl

/-- Expanding a node keeps the search on the larger budget ahead. -/
theorem ahead_expand {search search' : ExactState → ExactState}
    (hsearch : ∀ {s s'}, Ahead p s s' → Ahead p (search s) (search' s'))
    (himproves : ∀ s, Improves p s.best (search' s).best) (budget : UInt64) (s : ExactState)
    (hs : s.aborted = false) :
    Ahead p (expand p search s) (expand p search' (s.withBudget budget)) := by
  have hsame : Ahead p s (s.withBudget budget) := .same budget hs rfl
  have hincluded : (s.withBudget budget).included = s.included := rfl
  have hcurrent : (s.withBudget budget).current = s.current := rfl
  have hweight : (s.withBudget budget).current_weight = s.current_weight := rfl
  have hwitness : (s.withBudget budget).witness = s.witness := rfl
  unfold expand
  rw [hincluded, hcurrent, hweight, hwitness]
  generalize shortestResidualPath p s.included = path
  simp only
  split
  · exact hsame
  split
  · rw [recordLeaf_withBudget]
    exact .same budget (by rw [aborted_recordLeaf, hs]) rfl
  split
  · split
    · exact .same budget hs rfl
    · exact hsame
  · rw [boundStep_withBudget]
    have hbound : (boundStep p s).1.aborted = false := by rw [aborted_boundStep, hs]
    split
    · exact .same budget hbound rfl
    · obtain ⟨hahead, hhere⟩ := ahead_branch hsearch himproves path [] budget (boundStep p s).1 hbound
      exact hahead.close hhere

/-- The search on the larger budget stays ahead. -/
theorem ahead_search {budget budget' : UInt64} (hle : budget ≤ budget') (fuel : ℕ)
    (h : Ahead p s s') : Ahead p (search p budget fuel s) (search p budget' fuel s') := by
  induction fuel generalizing s s' with
  | zero => exact h
  | succ fuel ih =>
    cases h with
    | further hab hexhausted hbest =>
      have hstop : search p budget (fuel + 1) s = s := by rw [search_succ, if_pos hab]
      rw [hstop]
      exact .further hab hexhausted (hbest.trans (improves_search budget' (fuel + 1) s'))
    | same recorded hnot heq =>
      subst heq
      have hnot' : ¬ s.aborted = true := by simp [hnot]
      have hexplore : (s.withBudget recorded).explore = s.explore.withBudget recorded := rfl
      by_cases hgives : s.explore.counters.explored_nodes > budget
      · -- the smaller budget is exhausted here
        have hstop : search p budget (fuel + 1) s = s.explore.abort := by
          rw [search_succ, if_neg hnot', if_pos hgives]
        rw [hstop]
        exact .further rfl rfl (improves_search budget' (fuel + 1) (s.withBudget recorded))
      · have hgoes : ¬ (s.explore.withBudget recorded).counters.explored_nodes > budget' :=
          UInt64.not_lt.mpr (UInt64.le_trans (UInt64.not_lt.mp hgives) hle)
        have hstep : search p budget' (fuel + 1) (s.withBudget recorded) =
            expand p (search p budget' fuel) (s.explore.withBudget recorded) := by
          rw [search_succ, if_neg (show ¬ (s.withBudget recorded).aborted = true from hnot'),
            hexplore, if_neg hgoes]
        rw [search_succ, if_neg hnot', if_neg hgives, hstep]
        exact ahead_expand ih (improves_search budget' fuel) recorded s.explore hnot

end ExactState

/-! ## The answers -/

/-- The search on the larger budget ends ahead of the one on the smaller. -/
theorem ahead_final (p : ContainmentProblem) {budget budget' : SolveBudget}
    (hle : budget.max_explored_nodes ≤ budget'.max_explored_nodes) :
    Ahead p (finalState p budget) (finalState p budget') := by
  refine ahead_search hle (p.nodeCount + 1) (.same budget'.max_explored_nodes ?_ ?_)
  · rw [rootState_eq]
  · rw [rootState_eq, rootState_eq]
    rfl

/-- Two answers that differ in the budget on record at most. -/
structure SameAnswer (r r' : CutSolution) : Prop where
  status : r'.status = r.status
  members : r'.members = r.members
  objective : r'.objective = r.objective
  has_infeasibility_witness : r'.has_infeasibility_witness = r.has_infeasibility_witness
  infeasibility_path : r'.infeasibility_path = r.infeasibility_path
  explored_nodes : r'.counters.explored_nodes = r.counters.explored_nodes
  pruned_branches : r'.counters.pruned_branches = r.counters.pruned_branches

/-- The answer of a search does not show the budget on record elsewhere. -/
theorem sameAnswer_withBudget (s : ExactState) (budget : UInt64) :
    SameAnswer s.solution (s.withBudget budget).solution := by
  unfold solution withBudget
  simp only
  cases s.best with
  | some found => exact ⟨rfl, rfl, rfl, rfl, rfl, rfl, rfl⟩
  | none =>
    simp only
    split <;> exact ⟨rfl, rfl, rfl, rfl, rfl, rfl, rfl⟩

/-- A larger budget keeps what the exact solver decides on a smaller one, certificate and counts
included, and loses no set that is found on the smaller one: it ends with one that is no worse. -/
theorem budget_monotone (p : ContainmentProblem) {budget budget' : SolveBudget}
    (hle : budget.max_explored_nodes ≤ budget'.max_explored_nodes) :
    ((solveExact p budget).status = .provenOptimal ∨
        (solveExact p budget).status = .provenInfeasible →
      SameAnswer (solveExact p budget) (solveExact p budget')) ∧
    ((solveExact p budget).status = .provenOptimal ∨
        (solveExact p budget).status = .feasibleNotProvenOptimal →
      ((solveExact p budget').status = .provenOptimal ∨
        (solveExact p budget').status = .feasibleNotProvenOptimal) ∧
      objectiveLess (solveExact p budget).objective (solveExact p budget').objective
        p.minimize_protected_inclusions = false) := by
  have hahead := ahead_final p hle
  unfold finalState at hahead
  unfold solveExact
  split
  · exact ⟨fun h => absurd h (by simp), fun h => absurd h (by simp)⟩
  generalize search p budget.max_explored_nodes (p.nodeCount + 1) (rootState p budget) = s at hahead ⊢
  generalize search p budget'.max_explored_nodes (p.nodeCount + 1) (rootState p budget') = s'
    at hahead ⊢
  cases hahead with
  | same recorded hnot heq =>
    subst heq
    have hsame := sameAnswer_withBudget s recorded
    refine ⟨fun _ => hsame, fun hfound => ?_⟩
    rw [hsame.status, hsame.objective]
    refine ⟨hfound, ?_⟩
    rw [← Bool.not_eq_true, objectiveLess_iff]
    exact lt_irrefl _
  | further hab hexhausted hbest =>
    -- a search that ran out of its budget decides nothing
    have hstatus : s.solution.status = .provenOptimal ∨ s.solution.status = .provenInfeasible →
        False := by
      unfold solution
      rw [hexhausted]
      cases s.best with
      | some found => simp
      | none => simp
    refine ⟨fun hdecided => absurd hdecided hstatus, fun hfound => ?_⟩
    cases hb : s.best with
    | none =>
      unfold solution at hfound
      rw [hb, hexhausted] at hfound
      simp at hfound
    | some found =>
      obtain ⟨found', hb', hkey⟩ := hbest found hb
      have hobjective : s.solution.objective = found.2 := by
        unfold solution
        rw [hb]
      have hobjective' : s'.solution.objective = found'.2 := by
        unfold solution
        rw [hb']
      refine ⟨?_, ?_⟩
      · unfold solution
        rw [hb']
        simp only
        split
        · exact Or.inr rfl
        · exact Or.inl rfl
      · rw [hobjective, hobjective', ← Bool.not_eq_true, objectiveLess_iff]
        exact not_lt.mpr hkey

/-- On the chain a budget of twenty is enough for the decision, and any larger one gives the same. -/
theorem budget_monotone_chain :
    (solveExact chainProblem ⟨20, 0⟩).status = .provenOptimal ∧
      SameAnswer (solveExact chainProblem ⟨20, 0⟩) (solveExact chainProblem ⟨1000, 0⟩) :=
  have h : (solveExact chainProblem ⟨20, 0⟩).status = .provenOptimal := by decide +kernel
  ⟨h, (budget_monotone chainProblem (by decide)).1 (Or.inl h)⟩

end Fcfn
